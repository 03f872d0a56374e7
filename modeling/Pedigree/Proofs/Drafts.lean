import Pedigree.Proofs.Blocks
import Pedigree.Proofs.Entries

/-! A draft that takes in statements as they are read. Main statement: the outcome is that of
reading the whole text first and entering its statements then, and the observer has heard of exactly
those statements that were entered before the first that could not be. -/

namespace Pedigree.Source

variable {ω : Type} (observe : Notice → ω → ω)

def hear (o : ω) (ns : List Notice) : ω :=
  ns.foldl (fun o n => observe n o) o

namespace Draft

structure Holds (earlier : List (Located Statement)) (d : Draft ω) : Prop where
  founded : Founded earlier d.tree
  places : d.declaredAt = (declarations earlier).map (·.name.span)

def extend (d : Draft ω) (earlier ss : List (Located Statement)) (t : FamilyTree) : Draft ω where
  tree := t
  declaredAt := (declarations (earlier ++ ss)).map (·.name.span)
  observer := hear observe d.observer (noticesAfter earlier ss)

variable {d : Draft ω} {earlier ss : List (Located Statement)} {s : Located Statement}

theorem resolve_of_some {name : Located String} {p : PersonId}
    (h : d.tree.find? name.value = some p) :
    d.resolve name = .ok p ∧ lookUp d.tree name = .ok p := by
  unfold resolve lookUp
  rw [h]
  exact ⟨rfl, rfl⟩

theorem resolve_of_none {name : Located String} (h : d.tree.find? name.value = none) :
    d.resolve name = .error (.undeclared name) ∧
      lookUp d.tree name = .error (.undeclared name) := by
  unfold resolve lookUp
  rw [h]
  exact ⟨rfl, rfl⟩

theorem Holds.told_of_find? (h : d.Holds earlier) (hs : s.value.declaration? = none)
    {t : FamilyTree} (ht : s.value.enter d.tree = .ok t) {name : String} {p : PersonId}
    (hp : d.tree.find? name = some p) : t.nameOf p = name ∧ birthOf t p = birthIn earlier name := by
  have ht' := h.founded.enter ht
  have hds := declarations_concat_of_link earlier hs
  have hp' : t.find? name = some p := by
    rw [ht'.find?_eq, hds, ← h.founded.find?_eq, hp]
  refine ⟨FamilyTree.nameOf_of_find? hp', ?_⟩
  rw [ht'.birthOf_of_find? hp', birthIn, declarationOf?, hds]
  rfl

theorem Holds.extend_of_link (h : d.Holds earlier) (hs : s.value.declaration? = none)
    (t : FamilyTree) :
    d.extend observe earlier [s] t =
      { d with tree := t, observer := observe (noticeAfter earlier s.value) d.observer } := by
  rw [extend, declarations_concat_of_link earlier hs, ← h.places]
  rfl

/-- The outcome for a draft when a statement behind `earlier` ones is entered. -/
def outcome (d : Draft ω) (earlier : List (Located Statement)) (s : Located Statement) :
    Except Fault (Draft ω) :=
  ((s.value.enter d.tree).mapError (faultAfter earlier s.value)).map (d.extend observe earlier [s])

theorem Holds.declaredAt_of_find? (h : d.Holds earlier) (name : String) :
    ((d.tree.find? name).bind fun p => d.declaredAt[p]?) =
      (declarationOf? earlier name).map (·.name.span) := by
  rw [h.founded.declarationOf?_eq, h.places]
  cases d.tree.find? name with
  | none => rfl
  | some p => exact List.getElem?_map

theorem Holds.root_declare (h : d.Holds earlier) {name : String} {birth : Date}
    {death : Option Date} {id : PersonId} {t : FamilyTree}
    (hd : d.tree.declare name birth death = .ok (id, t)) :
    decide (t.root = some id) = (declarations earlier).isEmpty := by
  obtain ⟨-, rfl, rfl⟩ := FamilyTree.declare_eq_ok.mp hd
  rw [h.founded.root, h.founded.size_eq]
  cases declarations earlier with
  | nil => rfl
  | cons e es => exact decide_eq_false (by simp)

theorem Holds.declare_eq_outcome (h : d.Holds earlier) {l : Declaration}
    (hs : s.value = .declaration l) : d.declare observe l = outcome observe d earlier s := by
  rw [outcome, hs, Statement.enter, declare]
  cases hd : d.tree.declare l.name.value l.birth.value (l.death.map Located.value) with
  | error refusal =>
    show Except.error (Fault.refused refusal _ _) = Except.error (Fault.refused refusal _ _)
    rw [h.declaredAt_of_find?]
    rfl
  | ok r =>
    obtain ⟨id, t⟩ := r
    show Except.ok _ = Except.ok (d.extend observe earlier [s] t)
    rw [h.root_declare hd, extend, declarations_concat_of_declaration earlier hs, List.map_append,
      ← h.places, noticesAfter, hs]
    rfl

def link (d : Draft ω) (a b : Located String) (place : Span)
    (f : PersonId → PersonId → Except Refusal FamilyTree)
    (n : FamilyTree → PersonId → PersonId → Notice) : Except Fault (Draft ω) := do
  let p ← d.resolve a
  let q ← d.resolve b
  match f p q with
  | .error refusal => .error (.refused refusal place none)
  | .ok tree => return { d with tree, observer := observe (n tree p q) d.observer }

theorem Holds.link_eq_outcome (h : d.Holds earlier) (hs : s.value.declaration? = none)
    {a b : Located String} {f : PersonId → PersonId → Except Refusal FamilyTree}
    {n : FamilyTree → PersonId → PersonId → Notice}
    (henter : s.value.enter d.tree = do
      let p ← lookUp d.tree a
      let q ← lookUp d.tree b
      (f p q).mapError .refused)
    (hn : ∀ t p q, t.nameOf p = a.value → birthOf t p = birthIn earlier a.value →
      t.nameOf q = b.value → birthOf t q = birthIn earlier b.value →
      n t p q = noticeAfter earlier s.value) :
    d.link observe a b s.value.place f n = outcome observe d earlier s := by
  rw [outcome, link]
  cases hp : d.tree.find? a.value with
  | none =>
    rw [henter, (resolve_of_none hp).1, (resolve_of_none hp).2]
    rfl
  | some p =>
    cases hq : d.tree.find? b.value with
    | none =>
      rw [henter, (resolve_of_some hp).1, (resolve_of_some hp).2, (resolve_of_none hq).1,
        (resolve_of_none hq).2]
      rfl
    | some q =>
      have hboth : s.value.enter d.tree = (f p q).mapError .refused := by
        rw [henter, (resolve_of_some hp).2, (resolve_of_some hq).2]
        rfl
      rw [(resolve_of_some hp).1, (resolve_of_some hq).1, hboth]
      simp only [bind, Except.bind]
      cases ht : f p q with
      | error refusal =>
        show Except.error _ = Except.error (faultAfter earlier s.value (.refused refusal))
        rw [faultAfter, hs]
        rfl
      | ok t =>
        -- The notice is made from the tree behind the link: its names and births are as before.
        rw [ht] at hboth
        obtain ⟨hpn, hpb⟩ := h.told_of_find? hs hboth hp
        obtain ⟨hqn, hqb⟩ := h.told_of_find? hs hboth hq
        show Except.ok _ = Except.ok (d.extend observe earlier [s] t)
        rw [h.extend_of_link observe hs, ← hn t p q hpn hpb hqn hqb]

theorem Holds.apply_eq_outcome (h : d.Holds earlier) (s : Located Statement) :
    d.apply observe s = outcome observe d earlier s := by
  obtain ⟨statement, span⟩ := s
  cases statement with
  | declaration l => exact h.declare_eq_outcome observe rfl
  | maritalLink l =>
    refine h.link_eq_outcome observe (s := ⟨.maritalLink l, span⟩) rfl (a := l.left) (b := l.right)
      (f := fun p q => d.tree.linkSpouses p q (l.wedding.map Located.value))
      (n := fun t p q => .maritalLink (t.nameOf p) (birthOf t p) (t.nameOf q) (birthOf t q)
        (l.wedding.map Located.value)) rfl ?_
    intro t p q hpn hpb hqn hqb
    rw [hpn, hpb, hqn, hqb]
    rfl
  | familialLink l =>
    refine h.link_eq_outcome observe (s := ⟨.familialLink l, span⟩) rfl (a := l.parent)
      (b := l.child) (f := d.tree.linkChild)
      (n := fun t p q => .familialLink (t.nameOf p) (birthOf t p) (t.nameOf q) (birthOf t q)) rfl ?_
    intro t p q hpn hpb hqn hqb
    rw [hpn, hpb, hqn, hqb]
    rfl

theorem Holds.apply_of_ok (h : d.Holds earlier) {t : FamilyTree}
    (ht : s.value.enter d.tree = .ok t) :
    d.apply observe s = .ok (d.extend observe earlier [s] t) ∧
      (d.extend observe earlier [s] t).Holds (earlier ++ [s]) := by
  refine ⟨?_, h.founded.enter ht, rfl⟩
  rw [h.apply_eq_outcome, outcome, ht]
  rfl

theorem Holds.apply_of_error (h : d.Holds earlier) {x : Obstacle}
    (hx : s.value.enter d.tree = .error x) :
    d.apply observe s = .error (faultAfter earlier s.value x) := by
  rw [h.apply_eq_outcome, outcome, hx]
  rfl

theorem extend_cons (d : Draft ω) (earlier : List (Located Statement)) (s : Located Statement)
    (ss : List (Located Statement)) (t t' : FamilyTree) :
    (d.extend observe earlier [s] t).extend observe (earlier ++ [s]) ss t' =
      d.extend observe earlier (s :: ss) t' := by
  rw [extend, List.append_assoc, List.singleton_append]
  rfl

theorem Holds.applyAll_of_ok (h : d.Holds earlier) {t : FamilyTree}
    (ht : enterFrom d.tree ss = .ok t) :
    Block.applyAll (apply observe) d ss = (d.extend observe earlier ss t, .ok ()) ∧
      (d.extend observe earlier ss t).Holds (earlier ++ ss) := by
  induction ss generalizing d earlier with
  | nil =>
    obtain rfl : d.tree = t := Except.ok.inj ht
    rw [extend, List.append_nil, ← h.places]
    exact ⟨rfl, h⟩
  | cons s ss ih =>
    obtain ⟨u, hs, hss⟩ := enterFrom_cons_eq_ok.mp ht
    obtain ⟨happly, hnext⟩ := h.apply_of_ok observe hs
    obtain ⟨hall, hend⟩ := ih hnext hss
    rw [extend_cons] at hall hend
    rw [List.append_assoc, List.singleton_append] at hend
    refine ⟨?_, hend⟩
    rw [Block.applyAll, happly]
    exact hall

theorem Holds.applyAll_of_error (h : d.Holds earlier) {before : List (Located Statement)}
    {t : FamilyTree} {x : Obstacle} (ht : enterFrom d.tree before = .ok t)
    (hx : s.value.enter t = .error x) (after : List (Located Statement)) :
    Block.applyAll (apply observe) d (before ++ s :: after) =
      (d.extend observe earlier before t, .error (faultAfter (earlier ++ before) s.value x)) := by
  obtain ⟨hbefore, hnext⟩ := h.applyAll_of_ok observe ht
  rw [Block.applyAll_append hbefore, Block.applyAll, hnext.apply_of_error observe hx]

theorem holds_start (o : ω) : Holds [] ({ observer := o } : Draft ω) := ⟨.empty, rfl⟩

end Draft

theorem readWith_eq_settle (o : ω) {source : String} {ts : List (Located Token)}
    (h : tokens source = .ok ts) {ss : List (Located Statement)} {ending : Except Fault Unit}
    (hparse : Block.parse (.ofTokens ts source.utf8ByteSize) = (ss, ending)) :
    readWith observe o source =
      let r := Block.settle ending (Block.applyAll (Draft.apply observe) { observer := o } ss)
      (r.1.observer, r.2.map fun _ => r.1.tree) := by
  rw [readWith, h]
  simp only [Block.read_eq_settle_parse, hparse]
  rcases Block.settle ending (Block.applyAll (Draft.apply observe) { observer := o } ss) with ⟨d, r⟩
  cases r <;> rfl

/-- To read a source and to enter each statement at once is to read all its statements first and to
enter them then. The first statement that cannot be entered decides, whatever the text behind it;
otherwise the fault of the text decides, and otherwise the tree is complete. -/
theorem readWith_eq_parse_then_enter (o : ω) {source : String}
    {ts : List (Located Token)} (h : tokens source = .ok ts) :
    ∃ ss ending, Block.parse (.ofTokens ts source.utf8ByteSize) = (ss, ending) ∧
      ((∃ before s after t x, ss = before ++ s :: after ∧ enterAll before = .ok t ∧
          s.value.enter t = .error x ∧
          (faultAfter before s.value x).diagnostic.code.text = x.code ∧
          readWith observe o source =
            (hear observe o (notices before), .error (faultAfter before s.value x))) ∨
        ∃ t, enterAll ss = .ok t ∧
          readWith observe o source = (hear observe o (notices ss), ending.map fun _ => t)) := by
  rcases hparse : Block.parse (.ofTokens ts source.utf8ByteSize) with ⟨ss, ending⟩
  have hread := readWith_eq_settle observe o h hparse
  refine ⟨ss, ending, rfl, ?_⟩
  rcases enterAll_eq_ok_or ss with ⟨t, ht⟩ | ⟨before, s, after, t, x, rfl, ht, hx⟩
  · refine Or.inr ⟨t, ht, ?_⟩
    rw [hread, ((Draft.holds_start o).applyAll_of_ok observe ht).1]
    rfl
  · refine Or.inl ⟨before, s, after, t, x, rfl, ht, hx, code_faultAfter before s.value x, ?_⟩
    rw [hread, (Draft.holds_start o).applyAll_of_error observe ht hx]
    rfl

def forestalled : String := "family_tree\x7bA(01/01/1900-);A<=>B;A A"

theorem outcome_of_forestalled :
    ∃ ts, tokens forestalled = .ok ts ∧
      ∃ ss ending, Block.parse (.ofTokens ts forestalled.utf8ByteSize) = (ss, ending) ∧
      ((∃ before s after t x, ss = before ++ s :: after ∧ enterAll before = .ok t ∧
          s.value.enter t = .error x ∧
          (faultAfter before s.value x).diagnostic.code.text = x.code ∧
          readWith List.cons [] forestalled =
            (hear List.cons [] (notices before), .error (faultAfter before s.value x))) ∨
        ∃ t, enterAll ss = .ok t ∧
          readWith List.cons [] forestalled =
            (hear List.cons [] (notices ss), ending.map fun _ => t)) := by
  have hok : (tokens forestalled).isOk = true := by decide +kernel
  cases h : tokens forestalled with
  | ok ts => exact ⟨ts, rfl, readWith_eq_parse_then_enter List.cons [] h⟩
  | error e =>
    rw [h] at hok
    cases hok

example : (readWith List.cons [] forestalled).1 = [.declaration "A" ⟨1900, 1, 1⟩ none true] ∧
    (readWith List.cons [] forestalled).2 = .error (.undeclared ⟨"B", ⟨31, 32, by decide⟩⟩) := by
  decide +kernel

end Pedigree.Source

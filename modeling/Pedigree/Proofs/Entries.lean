import Pedigree.Proofs.Histories
import Pedigree.Source.Draft

/-! Entering statements in a family tree after they have all been read: one change for each, with
the names looked up in the tree as it is by then. What the tree says of names, births and its root
is what the declarations among the statements say. -/

namespace Pedigree.Source

inductive Obstacle where
  | undeclared (name : Located String)
  | refused (refusal : Refusal)
deriving DecidableEq, Repr

def Obstacle.code : Obstacle → String
  | undeclared _ => "E200"
  | refused (.alreadyDeclared _) => "E201"
  | refused (.selfLink _) => "E202"
  | refused (.tooManyParents _) => "E203"

def lookUp (t : FamilyTree) (name : Located String) : Except Obstacle PersonId :=
  match t.find? name.value with
  | some p => .ok p
  | none => .error (.undeclared name)

namespace Statement

def enter (t : FamilyTree) : Statement → Except Obstacle FamilyTree
  | declaration s =>
    ((t.declare s.name.value s.birth.value (s.death.map Located.value)).map Prod.snd).mapError
      .refused
  | maritalLink s => do
    let left ← lookUp t s.left
    let right ← lookUp t s.right
    (t.linkSpouses left right (s.wedding.map Located.value)).mapError .refused
  | familialLink s => do
    let parent ← lookUp t s.parent
    let child ← lookUp t s.child
    (t.linkChild parent child).mapError .refused

def declaration? : Statement → Option Declaration
  | declaration s => some s
  | _ => none

def place : Statement → Span
  | declaration s => s.name.span
  | maritalLink s => s.left.span.union s.right.span
  | familialLink s => s.parent.span.union s.child.span

end Statement

def enterFrom (t : FamilyTree) (ss : List (Located Statement)) : Except Obstacle FamilyTree :=
  ss.foldlM (fun t s => s.value.enter t) t

def enterAll (ss : List (Located Statement)) : Except Obstacle FamilyTree := enterFrom .empty ss

def declarations (ss : List (Located Statement)) : List Declaration :=
  ss.filterMap fun s => s.value.declaration?

def declarationOf? (ss : List (Located Statement)) (name : String) : Option Declaration :=
  (declarations ss).find? (·.name.value = name)

def birthIn (ss : List (Located Statement)) (name : String) : Date :=
  ((declarationOf? ss name).map (·.birth.value)).getD default

def faultAfter (earlier : List (Located Statement)) (s : Statement) : Obstacle → Fault
  | .undeclared name => .undeclared name
  | .refused refusal => .refused refusal s.place
      (s.declaration?.bind fun d => (declarationOf? earlier d.name.value).map (·.name.span))

def noticeAfter (earlier : List (Located Statement)) : Statement → Notice
  | .declaration s =>
    .declaration s.name.value s.birth.value (s.death.map Located.value)
      (declarations earlier).isEmpty
  | .maritalLink s =>
    .maritalLink s.left.value (birthIn earlier s.left.value) s.right.value
      (birthIn earlier s.right.value) (s.wedding.map Located.value)
  | .familialLink s =>
    .familialLink s.parent.value (birthIn earlier s.parent.value) s.child.value
      (birthIn earlier s.child.value)

def noticesAfter (earlier : List (Located Statement)) : List (Located Statement) → List Notice
  | [] => []
  | s :: ss => noticeAfter earlier s.value :: noticesAfter (earlier ++ [s]) ss

def notices (ss : List (Located Statement)) : List Notice := noticesAfter [] ss

theorem code_refused (refusal : Refusal) (span : Span) (declared : Option Span) :
    (Fault.refused refusal span declared).diagnostic.code = Fault.refusalCode refusal := by
  cases refusal with
  | alreadyDeclared name => cases declared <;> rfl
  | selfLink name => rfl
  | tooManyParents child => rfl

theorem code_faultAfter (earlier : List (Located Statement)) (s : Statement) (x : Obstacle) :
    (faultAfter earlier s x).diagnostic.code.text = x.code := by
  cases x with
  | undeclared name => rfl
  | refused refusal =>
    rw [faultAfter, code_refused]
    cases refusal <;> rfl

variable {t t' : FamilyTree} {ss earlier : List (Located Statement)} {s : Located Statement}

theorem declarations_concat_of_declaration (ss : List (Located Statement)) {d : Declaration}
    (hs : s.value = .declaration d) : declarations (ss ++ [s]) = declarations ss ++ [d] := by
  rw [declarations, List.filterMap_append, List.filterMap_cons, hs]
  rfl

theorem declarations_concat_of_link (ss : List (Located Statement))
    (hs : s.value.declaration? = none) : declarations (ss ++ [s]) = declarations ss := by
  rw [declarations, List.filterMap_append, List.filterMap_cons, hs]
  exact List.append_nil _

theorem lookUp_eq_ok {name : Located String} {p : PersonId} :
    lookUp t name = .ok p ↔ t.find? name.value = some p := by
  unfold lookUp
  cases t.find? name.value <;> simp

theorem mapError_eq_ok {ε ε' α : Type} {f : ε → ε'} {r : Except ε α} {a : α} :
    r.mapError f = .ok a ↔ r = .ok a := by
  cases r <;> simp [Except.mapError]

namespace Statement

theorem enter_declaration_eq_ok {d : Declaration} :
    enter t (.declaration d) = .ok t' ↔
      ∃ id, t.declare d.name.value d.birth.value (d.death.map Located.value) = .ok (id, t') := by
  rw [enter, mapError_eq_ok]
  exact FamilyTree.tryChange_declare

theorem enter_maritalLink_eq_ok {l : MaritalLink} :
    enter t (.maritalLink l) = .ok t' ↔
      ∃ p q, t.find? l.left.value = some p ∧ t.find? l.right.value = some q ∧
        t.linkSpouses p q (l.wedding.map Located.value) = .ok t' := by
  simp only [enter, bind_eq_ok, lookUp_eq_ok, mapError_eq_ok, exists_and_left]

theorem enter_familialLink_eq_ok {l : FamilialLink} :
    enter t (.familialLink l) = .ok t' ↔
      ∃ p q, t.find? l.parent.value = some p ∧ t.find? l.child.value = some q ∧
        t.linkChild p q = .ok t' := by
  simp only [enter, bind_eq_ok, lookUp_eq_ok, mapError_eq_ok, exists_and_left]

end Statement

theorem enterFrom_cons_eq_ok :
    enterFrom t (s :: ss) = .ok t' ↔ ∃ u, s.value.enter t = .ok u ∧ enterFrom u ss = .ok t' := by
  rw [enterFrom, List.foldlM_cons, Statement.bind_eq_ok]
  rfl

theorem enterFrom_concat_eq_ok :
    enterFrom t (ss ++ [s]) = .ok t' ↔ ∃ u, enterFrom t ss = .ok u ∧ s.value.enter u = .ok t' := by
  rw [enterFrom, List.foldlM_append, Statement.bind_eq_ok]
  simp only [List.foldlM_cons, List.foldlM_nil, bind_pure]
  rfl

theorem enterAll_eq_ok_or (ss : List (Located Statement)) :
    (∃ t, enterAll ss = .ok t) ∨
      ∃ before s after t x, ss = before ++ s :: after ∧ enterAll before = .ok t ∧
        s.value.enter t = .error x := by
  -- From the end: the last statement matters only if all before it can be entered.
  induction ss using List.reverseRecOn with
  | nil => exact Or.inl ⟨.empty, rfl⟩
  | append_singleton ss s ih =>
    rcases ih with ⟨t, ht⟩ | ⟨before, s', after, t, x, rfl, ht, hx⟩
    · cases hs : s.value.enter t with
      | ok t' => exact Or.inl ⟨t', enterFrom_concat_eq_ok.mpr ⟨t, ht, hs⟩⟩
      | error x => exact Or.inr ⟨ss, s, [], t, x, rfl, ht, hs⟩
    · refine Or.inr ⟨before, s', after ++ [s], t, x, ?_, ht, hx⟩
      rw [List.append_assoc, List.cons_append]

structure Founded (ss : List (Located Statement)) (t : FamilyTree) : Prop where
  persons : t.persons.map (fun p => (p.name, p.birth)) =
    (declarations ss).map fun d => (d.name.value, d.birth.value)
  root : t.root = if (declarations ss).isEmpty then none else some 0

namespace Founded

theorem empty : Founded [] .empty := ⟨rfl, rfl⟩

theorem size_eq (h : Founded ss t) : t.size = (declarations ss).length := by
  have hl := congrArg List.length h.persons
  rwa [List.length_map, List.length_map] at hl

theorem find?_eq (h : Founded ss t) (name : String) :
    t.find? name = (declarations ss).findIdx? (·.name.value = name) := by
  have hp : (t.persons.map fun p => (p.name, p.birth)).findIdx? (·.1 = name) = t.find? name :=
    List.findIdx?_map
  have hd : ((declarations ss).map fun d => (d.name.value, d.birth.value)).findIdx? (·.1 = name) =
      (declarations ss).findIdx? (·.name.value = name) := List.findIdx?_map
  rw [← hp, h.persons, hd]

theorem declarationOf?_eq (h : Founded ss t) (name : String) :
    declarationOf? ss name = (t.find? name).bind ((declarations ss)[·]?) := by
  rw [h.find?_eq, declarationOf?, List.find?_eq_bind_findIdx?_getElem?]

theorem isSome_declarationOf? (h : Founded ss t) (name : String) :
    (declarationOf? ss name).isSome = (t.find? name).isSome := by
  rw [h.find?_eq, declarationOf?, List.isSome_find?, List.findIdx?_isSome]

theorem look_eq (h : Founded ss t) {α : Type} (f : String × Date → α) (x : α) (i : PersonId) :
    t.look (fun p => f (p.name, p.birth)) x i =
      (((declarations ss)[i]?).map fun d => f (d.name.value, d.birth.value)).getD x := by
  have hi := congrArg (fun l => ((l[i]?).map f).getD x) h.persons
  simp only [List.getElem?_map, Option.map_map] at hi
  exact hi

theorem birthOf_of_find? (h : Founded ss t) {name : String} {p : PersonId}
    (hf : t.find? name = some p) : Draft.birthOf t p = birthIn ss name := by
  have hlook : Draft.birthOf t p = _ := h.look_eq Prod.snd default p
  rw [hlook, birthIn, h.declarationOf?_eq, hf]
  rfl

theorem declare (h : Founded ss t) {d : Declaration} {id : PersonId}
    (hs : s.value = .declaration d)
    (hd : t.declare d.name.value d.birth.value (d.death.map Located.value) = .ok (id, t')) :
    Founded (ss ++ [s]) t' := by
  obtain ⟨-, -, rfl⟩ := FamilyTree.declare_eq_ok.mp hd
  have hds := declarations_concat_of_declaration ss hs
  have hne : (declarations (ss ++ [s])).isEmpty = false := by
    rw [hds]
    cases declarations ss <;> rfl
  refine ⟨?_, ?_⟩
  · rw [hds, List.map_append, List.map_append, h.persons]
    rfl
  · show t.root.or (some t.size) = _
    rw [hne, h.root, h.size_eq]
    cases declarations ss <;> rfl

theorem link (h : Founded ss t) (hs : s.value.declaration? = none) (hsize : t'.size = t.size)
    (hlook : ∀ i, t'.look (fun p => (p.name, p.birth)) ("", default) i =
      t.look (fun p => (p.name, p.birth)) ("", default) i)
    (hroot : t'.root = t.root) : Founded (ss ++ [s]) t' := by
  have hds := declarations_concat_of_link ss hs
  refine ⟨?_, ?_⟩
  · rw [hds, FamilyTree.map_persons_of_look hsize hlook, h.persons]
  · rw [hds, hroot, h.root]

theorem enter (h : Founded ss t) (ht : s.value.enter t = .ok t') : Founded (ss ++ [s]) t' := by
  cases hs : s.value with
  | declaration d =>
    rw [hs] at ht
    obtain ⟨id, hd⟩ := Statement.enter_declaration_eq_ok.mp ht
    exact h.declare hs hd
  | maritalLink l =>
    rw [hs] at ht
    obtain ⟨p, q, -, -, hl⟩ := Statement.enter_maritalLink_eq_ok.mp ht
    exact h.link (hs ▸ rfl) (FamilyTree.size_linkSpouses hl)
      (FamilyTree.look_linkSpouses (fun _ _ _ => rfl) (fun _ => rfl) hl)
      (FamilyTree.root_linkSpouses hl)
  | familialLink l =>
    rw [hs] at ht
    obtain ⟨p, q, -, -, hl⟩ := Statement.enter_familialLink_eq_ok.mp ht
    exact h.link (hs ▸ rfl) (FamilyTree.size_linkChild hl)
      (FamilyTree.look_linkChild (fun _ _ => rfl) (fun _ _ => rfl) hl)
      (FamilyTree.root_linkChild hl)

theorem of_enterAll (h : enterAll ss = .ok t) : Founded ss t := by
  induction ss using List.reverseRecOn generalizing t with
  | nil =>
    cases h
    exact .empty
  | append_singleton ss s ih =>
    obtain ⟨u, hu, hs⟩ := enterFrom_concat_eq_ok.mp h
    exact (ih hu).enter hs

end Founded

end Pedigree.Source

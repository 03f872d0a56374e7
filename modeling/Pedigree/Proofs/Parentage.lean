import Mathlib.Data.List.Nodup
import Pedigree.Proofs.Marriages

/-! Parents and children over a history. Main statement: the parents of a person are those whom the
familial links gave to it, each with the spouse of that moment, in the order in which they came
first; the children of a person are the other side of the same links. Nobody becomes its own parent
but by a link that names it as a child of its spouse. -/

namespace Pedigree

theorem nodup_addOnce {ps : List PersonId} (h : ps.Nodup) (p : PersonId) :
    (addOnce ps p).Nodup := by
  unfold addOnce
  split
  · exact h
  · rename_i hp
    exact List.nodup_append.mpr ⟨h, List.nodup_singleton p, fun a ha b hb e =>
      hp (List.mem_singleton.mp hb ▸ e ▸ ha)⟩

theorem nodup_eraseDups (ps : List PersonId) : ps.eraseDups.Nodup := by
  have h : ps.foldl addOnce [] = ps.eraseDups := foldl_addOnce_eraseDups [] ps
  rw [← h]
  suffices hfold : ∀ qs : List PersonId, qs.Nodup → (ps.foldl addOnce qs).Nodup from
    hfold [] List.nodup_nil
  clear h
  induction ps with
  | nil => exact fun _ hq => hq
  | cons p ps ih => exact fun qs hq => ih (addOnce qs p) (nodup_addOnce hq p)

namespace Change

def parentsGiven (child : PersonId) (t : FamilyTree) : Change → List PersonId
  | .linkChild parent c => if c = child then parent :: (t.spouseOf parent).toList else []
  | _ => []

def childrenGiven (parent : PersonId) (t : FamilyTree) : Change → List PersonId
  | .linkChild p child => if p = parent ∨ t.spouseOf p = some parent then [child] else []
  | _ => []

theorem mem_parentsGiven {p c : PersonId} {t : FamilyTree} {x : Change} :
    p ∈ x.parentsGiven c t ↔ ∃ q, x = .linkChild q c ∧ (q = p ∨ t.spouseOf q = some p) := by
  cases x with
  | linkChild q d =>
    by_cases hd : d = c
    · subst hd
      simp [parentsGiven, eq_comm]
    · simp [parentsGiven, hd]
  | _ => simp [parentsGiven]

theorem mem_childrenGiven {p c : PersonId} {t : FamilyTree} {x : Change} :
    c ∈ x.childrenGiven p t ↔ ∃ q, x = .linkChild q c ∧ (q = p ∨ t.spouseOf q = some p) := by
  cases x with
  | linkChild q d =>
    by_cases hq : q = p ∨ t.spouseOf q = some p
    · simp only [childrenGiven, if_pos hq, List.mem_singleton, linkChild.injEq]
      constructor
      · rintro rfl
        exact ⟨q, ⟨rfl, rfl⟩, hq⟩
      · rintro ⟨_, ⟨-, rfl⟩, -⟩
        rfl
    · simp only [childrenGiven, if_neg hq, List.not_mem_nil, linkChild.injEq, false_iff]
      rintro ⟨_, ⟨rfl, -⟩, h⟩
      exact hq h
  | _ => simp [childrenGiven]

end Change

namespace FamilyTree

def parentRecord (child : PersonId) (T : List (FamilyTree × Change)) : List PersonId :=
  T.flatMap fun x => x.2.parentsGiven child x.1

def childRecord (parent : PersonId) (T : List (FamilyTree × Change)) : List PersonId :=
  T.flatMap fun x => x.2.childrenGiven parent x.1

variable {t t' : FamilyTree}

theorem mem_record {T : List (FamilyTree × Change)} {f : FamilyTree → Change → List PersonId}
    {i c : PersonId} {P : FamilyTree → PersonId → Prop}
    (hf : ∀ t x, i ∈ f t x ↔ ∃ q, x = .linkChild q c ∧ P t q) :
    (i ∈ T.flatMap fun x => f x.1 x.2) ↔ ∃ t q, (t, .linkChild q c) ∈ T ∧ P t q := by
  simp only [List.mem_flatMap, hf]
  constructor
  · rintro ⟨⟨t, _⟩, hx, q, rfl, hq⟩
    exact ⟨t, q, hx, hq⟩
  · rintro ⟨t, q, hx, hq⟩
    exact ⟨(t, _), hx, q, rfl, hq⟩

theorem mem_parentRecord {p c : PersonId} {T : List (FamilyTree × Change)} :
    p ∈ parentRecord c T ↔
      ∃ t q, (t, .linkChild q c) ∈ T ∧ (q = p ∨ t.spouseOf q = some p) :=
  mem_record fun _ _ => Change.mem_parentsGiven

theorem mem_childRecord {p c : PersonId} {T : List (FamilyTree × Change)} :
    c ∈ childRecord p T ↔
      ∃ t q, (t, .linkChild q c) ∈ T ∧ (q = p ∨ t.spouseOf q = some p) :=
  mem_record fun _ _ => Change.mem_childrenGiven

theorem parentRecord_concat (c : PersonId) (T : List (FamilyTree × Change)) (x : Change) :
    parentRecord c (T ++ [(t, x)]) = parentRecord c T ++ x.parentsGiven c t := by
  rw [parentRecord, List.flatMap_append, List.flatMap_singleton]
  rfl

theorem childRecord_concat (p : PersonId) (T : List (FamilyTree × Change)) (x : Change) :
    childRecord p (T ++ [(t, x)]) = childRecord p T ++ x.childrenGiven p t := by
  rw [childRecord, List.flatMap_append, List.flatMap_singleton]
  rfl

theorem tryChange_familial {c : Change} (h : t.tryChange c = .ok t') :
    (∃ p k, c = .linkChild p k ∧ t.linkChild p k = .ok t') ∨
      (∀ i, c.parentsGiven i t = [] ∧ c.childrenGiven i t = []) ∧
        ∀ i, t'.parentsOf i = t.parentsOf i ∧ t'.childrenOf i = t.childrenOf i := by
  simp only [parentsOf_eq_look, childrenOf_eq_look]
  cases c with
  | declare name birth death =>
    obtain ⟨_, h⟩ := tryChange_declare.mp h
    exact Or.inr ⟨fun _ => ⟨rfl, rfl⟩, fun i => ⟨look_declare rfl h i, look_declare rfl h i⟩⟩
  | linkSpouses a b date =>
    refine Or.inr ⟨fun _ => ⟨rfl, rfl⟩, fun i => ⟨?_, ?_⟩⟩
    · exact look_linkSpouses (fun _ _ _ => rfl) (fun _ => rfl) h i
    · exact look_linkSpouses (fun _ _ _ => rfl) (fun _ => rfl) h i
  | linkChild p k => exact Or.inl ⟨p, k, rfl, h⟩
  | assignGenerations anchor =>
    obtain rfl := Except.ok.inj h
    refine Or.inr ⟨fun _ => ⟨rfl, rfl⟩, fun i => ⟨?_, ?_⟩⟩
    · exact look_assignGenerationsFrom (fun _ _ => rfl) t anchor i
    · exact look_assignGenerationsFrom (fun _ _ => rfl) t anchor i

/-- Parents and children are what the links `T` recorded. -/
structure Recorded (T : List (FamilyTree × Change)) (t : FamilyTree) : Prop where
  mirrored : Mirrored t
  parentsOf_eq : ∀ c, t.parentsOf c = (parentRecord c T).eraseDups
  childrenOf_eq : ∀ p, t.childrenOf p = (childRecord p T).eraseDups
  length_parentsOf_le : ∀ c, (t.parentsOf c).length ≤ 2

theorem recorded_nil : Recorded [] empty where
  mirrored := mirrored_empty
  parentsOf_eq _ := rfl
  childrenOf_eq _ := rfl
  length_parentsOf_le _ := Nat.zero_le 2

theorem Recorded.linkChild {T : List (FamilyTree × Change)} (r : Recorded T t) {p k : PersonId}
    (hc : (Change.linkChild p k).Fits t) (h : t.linkChild p k = .ok t') :
    Recorded (T ++ [(t, .linkChild p k)]) t' where
  mirrored := r.mirrored.tryChange hc h
  parentsOf_eq c := by
    rw [parentsOf_linkChild h hc.2, parentRecord_concat, Change.parentsGiven]
    by_cases hk : k = c
    · subst hk
      rw [if_pos rfl, if_pos rfl, r.parentsOf_eq k, foldl_addOnce_eraseDups]
      rfl
    · rw [if_neg (Ne.symm hk), if_neg hk, List.append_nil, r.parentsOf_eq c]
  childrenOf_eq i := by
    rw [childRecord_concat, Change.childrenGiven]
    by_cases hs : i < t.size
    · rw [childrenOf_linkChild h hs, r.childrenOf_eq i]
      by_cases hi : p = i ∨ t.spouseOf p = some i
      · rw [if_pos (hi.imp_left Eq.symm), if_pos hi, addOnce_eraseDups]
      · rw [if_neg (mt (Or.imp_left Eq.symm) hi), if_neg hi, List.append_nil]
    -- Nobody outside the tree is named by the link, and nobody outside is a spouse.
    · have hi : ¬(p = i ∨ t.spouseOf p = some i) := by
        rintro (rfl | e)
        · exact hs hc.1
        · exact hs (lt_size_of_spouseOf (r.mirrored.symm e))
      rw [if_neg hi, List.append_nil, ← r.childrenOf_eq i, childrenOf_eq_look, childrenOf_eq_look,
        look_of_size_le (Nat.le_of_not_lt hs),
        look_of_size_le (size_linkChild h ▸ Nat.le_of_not_lt hs)]
  length_parentsOf_le c := by
    rw [parentsOf_linkChild h hc.2]
    split
    · exact (linkChild_eq_ok.mp h).2.1
    · exact r.length_parentsOf_le c

theorem Recorded.tryChange {T : List (FamilyTree × Change)} (r : Recorded T t) {c : Change}
    (hc : c.Fits t) (h : t.tryChange c = .ok t') : Recorded (T ++ [(t, c)]) t' := by
  rcases tryChange_familial h with ⟨p, k, rfl, hl⟩ | ⟨hgiven, hkeep⟩
  · exact r.linkChild hc hl
  · refine ⟨r.mirrored.tryChange hc h, fun i => ?_, fun i => ?_, fun i => ?_⟩
    · rw [(hkeep i).1, parentRecord_concat, (hgiven i).1, List.append_nil, r.parentsOf_eq i]
    · rw [(hkeep i).2, childRecord_concat, (hgiven i).2, List.append_nil, r.childrenOf_eq i]
    · rw [(hkeep i).1]
      exact r.length_parentsOf_le i

theorem recorded_ofHistory {cs : List Change} (h : Fitting cs) :
    Recorded (taken cs) (ofHistory cs) :=
  history_induction recorded_nil (fun _ _ _ _ r hc ht => r.tryChange hc ht) h

theorem Recorded.mem_parentsOf_iff {T : List (FamilyTree × Change)} (r : Recorded T t)
    {p c : PersonId} : p ∈ t.parentsOf c ↔ c ∈ t.childrenOf p := by
  rw [r.parentsOf_eq, r.childrenOf_eq, List.mem_eraseDups, List.mem_eraseDups, mem_parentRecord,
    mem_childRecord]

theorem lineage_change_linkSpouses (t : FamilyTree) (a b : PersonId) (date : Option Date)
    (i : PersonId) :
    (t.change (.linkSpouses a b date)).parentsOf i = t.parentsOf i ∧
      (t.change (.linkSpouses a b date)).childrenOf i = t.childrenOf i := by
  cases h : t.tryChange (.linkSpouses a b date) with
  | error r => rw [change_of_error h]; exact ⟨rfl, rfl⟩
  | ok t' =>
    rw [change_of_ok h]
    rcases tryChange_familial h with ⟨_, _, hc, -⟩ | ⟨-, hkeep⟩
    · exact Change.noConfusion hc
    · exact hkeep i

/-- One person is a parent of another if some familial link that the tree took named it, or named
someone who was married to it at that moment. Links are kept on both sides, once each, in the order
in which they came first; nobody has more than two parents; marriages do not touch them. -/
theorem parents_iff_accepted_links {cs : List Change} (h : Fitting cs) (p c : PersonId) :
    (p ∈ (ofHistory cs).parentsOf c ↔
      ∃ before q after t', cs = before ++ .linkChild q c :: after ∧
        (ofHistory before).linkChild q c = .ok t' ∧
        (q = p ∨ (ofHistory before).spouseOf q = some p)) ∧
    (p ∈ (ofHistory cs).parentsOf c ↔ c ∈ (ofHistory cs).childrenOf p) ∧
    ((ofHistory cs).parentsOf c).Nodup ∧ ((ofHistory cs).childrenOf p).Nodup ∧
    ((ofHistory cs).parentsOf c).length ≤ 2 ∧
    (ofHistory cs).parentsOf c = (parentRecord c (taken cs)).eraseDups ∧
    (ofHistory cs).childrenOf p = (childRecord p (taken cs)).eraseDups ∧
    ∀ (t : FamilyTree) (a b : PersonId) (date : Option Date) (i : PersonId),
      (t.change (.linkSpouses a b date)).parentsOf i = t.parentsOf i ∧
        (t.change (.linkSpouses a b date)).childrenOf i = t.childrenOf i := by
  have r := recorded_ofHistory h
  refine ⟨?_, r.mem_parentsOf_iff, ?_, ?_, r.length_parentsOf_le c, r.parentsOf_eq c,
    r.childrenOf_eq p, lineage_change_linkSpouses⟩
  · rw [r.parentsOf_eq, List.mem_eraseDups, mem_parentRecord]
    constructor
    · rintro ⟨t, q, hq, hp⟩
      obtain ⟨before, after, rfl, rfl, t', ht⟩ := mem_taken.mp hq
      exact ⟨before, q, after, t', rfl, ht, hp⟩
    · rintro ⟨before, q, after, t', rfl, ht, hp⟩
      exact ⟨ofHistory before, q, mem_taken.mpr ⟨before, after, rfl, rfl, t', ht⟩, hp⟩
  · rw [r.parentsOf_eq]
    exact nodup_eraseDups _
  · rw [r.childrenOf_eq]
    exact nodup_eraseDups _

def stepfather : List Change :=
  [.declare "Anne" ⟨1900, 1, 1⟩ none, .declare "Bruno" ⟨1900, 1, 1⟩ none,
    .declare "Clara" ⟨1930, 1, 1⟩ none, .declare "David" ⟨1900, 1, 1⟩ none,
    .linkSpouses 0 1 none, .linkChild 1 2, .linkSpouses 3 0 none, .linkChild 0 2, .linkChild 1 2]

theorem parents_of_stepfather :
    Fitting stepfather ∧ (ofHistory stepfather).parentsOf 2 = [1, 0] ∧
      2 ∉ (ofHistory stepfather).childrenOf 3 := by
  have fit : Fitting stepfather := by decide
  obtain ⟨-, hiff, -, -, -, heq, -⟩ := parents_iff_accepted_links fit 3 2
  have hrecord : parentRecord 2 (taken stepfather) = [1, 0, 1] := by decide
  have hparents : (ofHistory stepfather).parentsOf 2 = [1, 0] := by
    rw [heq, hrecord]
    rfl
  refine ⟨fit, hparents, fun hc => ?_⟩
  rw [← hiff, hparents] at hc
  exact absurd hc (by decide)

/-- A person is its own parent, and its own child, if some familial link that the tree took named it
as a child of the person to whom it was married at that moment. -/
theorem own_parent_iff_child_of_spouse {cs : List Change} (h : Fitting cs) (p : PersonId) :
    (p ∈ (ofHistory cs).parentsOf p ↔
      ∃ before q after t', cs = before ++ .linkChild q p :: after ∧
        (ofHistory before).linkChild q p = .ok t' ∧ (ofHistory before).spouseOf q = some p) ∧
    (p ∈ (ofHistory cs).parentsOf p ↔ p ∈ (ofHistory cs).childrenOf p) := by
  have r := recorded_ofHistory h
  refine ⟨?_, r.mem_parentsOf_iff⟩
  rw [r.parentsOf_eq, List.mem_eraseDups, mem_parentRecord]
  constructor
  · rintro ⟨t, q, hq, hp⟩
    obtain ⟨before, after, rfl, rfl, t', ht⟩ := mem_taken.mp hq
    -- A link that names one person as parent and child is refused, so only the spouse is left.
    have hne : q ≠ p := (linkChild_eq_ok.mp ht).1
    exact ⟨before, q, after, t', rfl, ht, hp.resolve_left hne⟩
  · rintro ⟨before, q, after, t', rfl, ht, hp⟩
    exact ⟨ofHistory before, q, mem_taken.mpr ⟨before, after, rfl, rfl, t', ht⟩, Or.inr hp⟩

def childOfSpouse : List Change :=
  [.declare "Anne" ⟨1900, 1, 1⟩ none, .declare "Bruno" ⟨1900, 1, 1⟩ none, .linkSpouses 0 1 none,
    .linkChild 0 1]

theorem own_parent_of_childOfSpouse :
    Fitting childOfSpouse ∧ (ofHistory (childOfSpouse.take 3)).spouseOf 0 = some 1 ∧
      1 ∈ (ofHistory childOfSpouse).parentsOf 1 := by
  have fit : Fitting childOfSpouse := by decide
  have hs : (ofHistory (childOfSpouse.take 3)).spouseOf 0 = some 1 := by decide
  refine ⟨fit, hs, (own_parent_iff_child_of_spouse fit 1).1.mpr ?_⟩
  exact ⟨childOfSpouse.take 3, 0, [], ofHistory childOfSpouse, rfl, by decide, hs⟩

/-- The rule that nobody is linked to itself looks at the parent who is named, not at the spouse. -/
theorem own_parent_is_possible :
    Fitting childOfSpouse ∧ 1 ∈ (ofHistory childOfSpouse).parentsOf 1 ∧
      1 ∈ (ofHistory childOfSpouse).childrenOf 1 := by
  decide

theorem Recorded.linkChild_eq_self {T : List (FamilyTree × Change)} (r : Recorded T t)
    {p c : PersonId} (hne : p ≠ c) (h : ∀ g ∈ t.guardians p, g ∈ t.parentsOf c) :
    t.linkChild p c = .ok t :=
  FamilyTree.linkChild_eq_self hne h (fun g hg => r.mem_parentsOf_iff.mp (h g hg))
    (r.length_parentsOf_le c)

/-- Once the tree has taken a familial link, the same link is taken again and changes nothing, and
so is the link that names the spouse instead, unless the spouse is the child. -/
theorem linkChild_again_eq_self {cs : List Change} (h : Fitting cs) {p c : PersonId}
    (hp : p < (ofHistory cs).size) (hc : c < (ofHistory cs).size)
    (ht : (ofHistory cs).linkChild p c = .ok t) :
    t.linkChild p c = .ok t ∧
      ∀ s, t.spouseOf p = some s → s ≠ c → t.linkChild s c = .ok t := by
  have r := (recorded_ofHistory h).linkChild ⟨hp, hc⟩ ht
  have hspouse : t.spouseOf p = (ofHistory cs).spouseOf p := by
    rw [spouseOf_eq_look, spouseOf_eq_look]
    exact look_linkChild (fun _ _ => rfl) (fun _ _ => rfl) ht p
  have hparents (g : PersonId) (hg : g = p ∨ t.spouseOf p = some g) : g ∈ t.parentsOf c := by
    rw [r.parentsOf_eq, List.mem_eraseDups, mem_parentRecord]
    rw [hspouse] at hg
    exact ⟨ofHistory cs, p, List.mem_append_right _ List.mem_cons_self, hg.imp_left Eq.symm⟩
  refine ⟨r.linkChild_eq_self (linkChild_eq_ok.mp ht).1 fun g hg => ?_, ?_⟩
  · exact hparents g (mem_guardians.mp hg)
  · intro s hs hsc
    apply r.linkChild_eq_self hsc
    intro g hg
    rcases mem_guardians.mp hg with rfl | hback
    · exact hparents g (Or.inr hs)
    -- The spouse of the spouse is the person named first.
    · have hback' : t.spouseOf s = some p := r.mirrored.symm hs
      exact hparents g (Or.inl (Option.some.inj (hback.symm.trans hback')))

def lateMarriage : List Change :=
  [.declare "Anne" ⟨1900, 1, 1⟩ none, .declare "Bruno" ⟨1900, 1, 1⟩ none,
    .declare "Clara" ⟨1930, 1, 1⟩ none, .linkChild 1 2, .linkSpouses 0 1 none]

theorem linkChild_again_of_lateMarriage :
    ∃ t, (ofHistory lateMarriage).linkChild 0 2 = .ok t ∧ t.parentsOf 2 = [1, 0] ∧
      t.linkChild 0 2 = .ok t ∧ t.linkChild 1 2 = .ok t := by
  have fit : Fitting lateMarriage := by decide
  have ht : (ofHistory lateMarriage).linkChild 0 2 =
      .ok (ofHistory (lateMarriage ++ [.linkChild 0 2])) := by decide
  obtain ⟨hsame, hspouse⟩ := linkChild_again_eq_self fit (by decide) (by decide) ht
  exact ⟨_, ht, by decide, hsame, hspouse 1 (by decide) (by decide)⟩

end FamilyTree
end Pedigree

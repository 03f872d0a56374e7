import Mathlib.Order.Bounds.Basic
import Mathlib.Order.Interval.Finset.Nat
import Pedigree.Proofs.Registers
import Pedigree.Proofs.Surveys

/-! Generations over a history. Main statements: above an anchor without a cycle, the generation of
an ancestor is the length of the longest chain of parent links that leads to it; above one with a
cycle, an ancestor only lacks a generation behind somebody in the last one. With or without cycles,
the queue runs empty after a bounded number of steps, and no generation on the way exceeds the
number of persons. -/

namespace Pedigree

namespace Survey

open FamilyTree

variable {t : FamilyTree} {anchor : PersonId}

/-- No chain of parent links outgrows the generation of the person it leads to. -/
theorem exists_label_of_ascent (hd : t.ParentsDeclared) (ha : anchor < t.size)
    (hac : t.AcyclicAbove anchor) {n : Nat} {r : PersonId} (h : Ascent t anchor n r) :
    r ∈ (finish t anchor).ancestral ∧ ∃ g, (finish t anchor).label r = some g ∧ n ≤ g := by
  have hs := sound_finish hd ha
  induction h with
  | refl => exact ⟨hs.mem_anchor, 0, hs.label_anchor, Nat.le_refl 0⟩
  | @up n q r hq hr ih =>
    obtain ⟨hmem, g, hg, hle⟩ := ih
    obtain ⟨g', hg', hasc⟩ := hs.label_ancestral hmem
    obtain rfl : g = g' := Option.some.inj (hg.symm.trans hg')
    rcases settled_finish hd ha hmem hg r hr with rfl | hsize | ⟨hmem', k, hk, hgk⟩
    -- The anchor as a parent of an ancestor would close a cycle above it.
    · exact absurd (hq.up hr) (hac 0 r .refl n)
    · exact absurd ((hasc.up hr).length_lt_size hd ha hac) (Nat.not_lt.mpr hsize)
    · exact ⟨hmem', k, hk, by omega⟩

theorem isGreatest_label (hd : t.ParentsDeclared) (ha : anchor < t.size)
    (hac : t.AcyclicAbove anchor) {n : Nat} {r : PersonId} (h : Ascent t anchor n r) :
    ∃ g, (finish t anchor).label r = some g ∧ IsGreatest {k | Ascent t anchor k r} g := by
  obtain ⟨hmem, -⟩ := exists_label_of_ascent hd ha hac h
  obtain ⟨g, hg, hasc⟩ := (sound_finish hd ha).label_ancestral hmem
  refine ⟨g, hg, hasc, fun k hk => ?_⟩
  obtain ⟨-, g', hg', hle⟩ := exists_label_of_ascent hd ha hac hk
  rw [Option.some.inj (hg.symm.trans hg')]
  exact hle

/-- Going up a chain, everybody is met until somebody stands in the last generation. -/
theorem met_or_behind_last (hd : t.ParentsDeclared) (ha : anchor < t.size) {p q : PersonId}
    {ps : List PersonId} (hps : (p :: ps).IsChain fun c r => r ∈ t.parentsOf c)
    (hp : p ∈ (finish t anchor).ancestral) (hq : (p :: ps).getLast? = some q) :
    q ∈ (finish t anchor).ancestral ∨
      ∃ r ∈ (p :: ps).dropLast, (finish t anchor).label r = some (t.size - 1) := by
  have hs := sound_finish hd ha
  induction ps generalizing p with
  | nil =>
    obtain rfl : p = q := Option.some.inj hq
    exact Or.inl hp
  | cons r ps ih =>
    obtain ⟨hr, hrest⟩ := List.isChain_cons_cons.mp hps
    rw [List.getLast?_cons_cons] at hq
    rw [List.dropLast_cons_cons]
    obtain ⟨g, hg, -⟩ := hs.label_ancestral hp
    have hup (hmem : r ∈ (finish t anchor).ancestral) :
        q ∈ (finish t anchor).ancestral ∨
          ∃ x ∈ p :: (r :: ps).dropLast, (finish t anchor).label x = some (t.size - 1) := by
      refine (ih hrest hmem hq).imp_right fun ⟨x, hx, hlast⟩ => ?_
      exact ⟨x, List.mem_cons_of_mem p hx, hlast⟩
    rcases settled_finish hd ha hp hg r hr with rfl | hsize | ⟨hmem, -⟩
    · exact hup hs.mem_anchor
    -- Only the last generation keeps a person from raising its parents.
    · have hlt := hs.label_lt hg
      obtain rfl : g = t.size - 1 := by omega
      exact Or.inr ⟨p, List.mem_cons_self, hg⟩
    · exact hup hmem

end Survey

namespace FamilyTree

theorem generationOf_eq_label {t : FamilyTree} {anchor : PersonId} (hd : t.ParentsDeclared)
    (ha : anchor < t.size) (q : PersonId) :
    (t.assignGenerationsFrom anchor).generationOf q = (Survey.finish t anchor).label q := by
  by_cases hq : q < t.size
  · exact generationOf_assignGenerationsFrom t hq
  · have hle := Nat.le_of_not_lt hq
    have hnone : (t.assignGenerationsFrom anchor).person? q = none :=
      person?_eq_none_iff.mpr (by rwa [size_assignGenerationsFrom])
    have hlabels : (Survey.finish t anchor).labels[q]? = none :=
      List.getElem?_eq_none_iff.mpr (by rwa [(Survey.sound_finish hd ha).length_labels])
    rw [generationOf, hnone, Survey.label, hlabels]
    rfl

/-- A generation pass gives the anchor generation 0 and every proper ancestor the length of the
longest chain of parent links from the anchor to it, whatever the history of the tree. -/
theorem generationOf_isGreatest_ascent {cs : List Change} (h : Fitting cs) {anchor : PersonId}
    (ha : anchor < (ofHistory cs).size) (hac : (ofHistory cs).AcyclicAbove anchor) :
    ((ofHistory cs).assignGenerationsFrom anchor).generationOf anchor = some 0 ∧
      ∀ r n, Ascent (ofHistory cs) anchor (n + 1) r →
        ∃ g, ((ofHistory cs).assignGenerationsFrom anchor).generationOf r = some g ∧
          IsGreatest {k | Ascent (ofHistory cs) anchor k r} g := by
  have hd := (recorded_ofHistory h).parentsDeclared
  refine ⟨?_, fun r n hr => ?_⟩
  · rw [generationOf_assignGenerationsFrom _ ha]
    exact (Survey.sound_finish hd ha).label_anchor
  · rw [generationOf_assignGenerationsFrom _ (hr.lt_size hd ha)]
    exact Survey.isGreatest_label hd ha hac hr

/-- Georges is the father of Pierre and, through Paul and Marie, a great-grandfather of Luc, the son
of Pierre and Marie; generations were counted from Paul before. -/
def inbreeding : List Change :=
  [.declare "Luc" ⟨1990, 1, 1⟩ none, .declare "Pierre" ⟨1960, 1, 1⟩ none,
    .declare "Marie" ⟨1960, 1, 1⟩ none, .declare "Paul" ⟨1930, 1, 1⟩ none,
    .declare "Georges" ⟨1900, 1, 1⟩ none, .linkSpouses 1 2 none, .linkChild 1 0, .linkChild 4 1,
    .linkChild 4 3, .assignGenerations 3, .linkChild 3 2]

theorem longest_ascent_of_inbreeding :
    Fitting inbreeding ∧ 0 < (ofHistory inbreeding).size ∧
      (ofHistory inbreeding).AcyclicAbove 0 ∧
      ((ofHistory inbreeding).assignGenerationsFrom 0).generationOf 4 = some 3 ∧
      IsGreatest {k | Ascent (ofHistory inbreeding) 0 k 4} 3 := by
  have fit : Fitting inbreeding := by decide
  have ha : 0 < (ofHistory inbreeding).size := by decide
  have hac : (ofHistory inbreeding).AcyclicAbove 0 := acyclicAbove_of_lt (by decide) 0
  have hlong : Ascent (ofHistory inbreeding) 0 2 4 :=
    (Ascent.refl.up (q := 0) (r := 1) (by decide)).up (by decide)
  obtain ⟨g, hg, hgreatest⟩ := (generationOf_isGreatest_ascent fit ha hac).2 4 1 hlong
  have h3 : ((ofHistory inbreeding).assignGenerationsFrom 0).generationOf 4 = some 3 := by decide
  obtain rfl : g = 3 := Option.some.inj (hg.symm.trans h3)
  exact ⟨fit, ha, hac, h3, hgreatest⟩

/-- An ancestor lacks a generation only if there is a cycle above the anchor, and then every chain
that leads to it passes through somebody in the last generation that there is. -/
theorem generationOf_ancestor_or_behind_last {cs : List Change} (h : Fitting cs)
    {anchor : PersonId} (ha : anchor < (ofHistory cs).size) {n : Nat} {q : PersonId}
    (hq : Ascent (ofHistory cs) anchor n q) :
    (∃ g, ((ofHistory cs).assignGenerationsFrom anchor).generationOf q = some g) ∨
      ¬(ofHistory cs).AcyclicAbove anchor ∧
        ∀ ps : List PersonId, ps.IsChain (fun c p => p ∈ (ofHistory cs).parentsOf c) →
          ps.head? = some anchor → ps.getLast? = some q →
          ∃ p ∈ ps.dropLast, ((ofHistory cs).assignGenerationsFrom anchor).generationOf p =
            some ((ofHistory cs).size - 1) := by
  have hd := (recorded_ofHistory h).parentsDeclared
  simp only [generationOf_eq_label hd ha]
  by_cases hmem : q ∈ (Survey.finish (ofHistory cs) anchor).ancestral
  · obtain ⟨g, hg, -⟩ := (Survey.sound_finish hd ha).label_ancestral hmem
    exact Or.inl ⟨g, hg⟩
  · refine Or.inr ⟨fun hac => hmem (Survey.exists_label_of_ascent hd ha hac hq).1, ?_⟩
    intro ps hps hhead hlast
    obtain ⟨rest, rfl⟩ := List.head?_eq_some_iff.mp hhead
    have hanchor := (Survey.sound_finish hd ha).mem_anchor
    exact (Survey.met_or_behind_last hd ha hps hanchor hlast).resolve_left hmem

theorem Registered.size_lt_of_numbered {t : FamilyTree} (r : Registered t)
    {number : String → UInt32} (hzero : ∀ i < t.size, number (t.nameOf i) ≠ 0)
    (hnames : ∀ i < t.size, ∀ j < t.size,
      number (t.nameOf i) = number (t.nameOf j) → t.nameOf i = t.nameOf j) :
    t.size < UInt32.size := by
  have hmaps : Set.MapsTo (fun i => (number (t.nameOf i)).toNat) (Finset.range t.size)
      (Finset.Ico 1 UInt32.size) := by
    intro i hi
    have hne := hzero i (Finset.mem_range.mp hi)
    refine Finset.mem_coe.mpr (Finset.mem_Ico.mpr ⟨Nat.one_le_iff_ne_zero.mpr fun h0 => ?_, ?_⟩)
    · exact hne (UInt32.toNat_inj.mp h0)
    · exact UInt32.toNat_lt_size _
  have hinj : Set.InjOn (fun i => (number (t.nameOf i)).toNat) (Finset.range t.size) := by
    intro i hi j hj hij
    have hi := Finset.mem_range.mp hi
    have hj := Finset.mem_range.mp hj
    exact r.nameOf_inj hi hj (hnames i hi j hj (UInt32.toNat_inj.mp hij))
  have hcard := Finset.card_le_card_of_injOn _ hmaps hinj
  rw [Finset.card_range, Nat.card_Ico] at hcard
  exact Nat.lt_of_le_pred (by decide) hcard

/-- The number of persons in 32 bits. Where these are too few it is the largest number they hold. -/
def ceiling (t : FamilyTree) : UInt32 :=
  if t.size < UInt32.size then .ofNat t.size else .ofNat (UInt32.size - 1)

theorem lt_ceiling_iff {t : FamilyTree} (h : t.size < UInt32.size) {g : Nat} (hg : g < t.size) :
    (UInt32.ofNat g + 1).toNat = g + 1 ∧ (UInt32.ofNat g + 1 < t.ceiling ↔ g + 1 < t.size) := by
  have hup : (UInt32.ofNat g + 1).toNat = g + 1 := by
    rw [UInt32.toNat_add, UInt32.toNat_ofNat_of_lt' (hg.trans h)]
    exact Nat.mod_eq_of_lt (Nat.lt_of_le_of_lt hg h)
  refine ⟨hup, ?_⟩
  rw [UInt32.lt_iff_toNat_lt, hup, ceiling, if_pos h, UInt32.toNat_ofNat_of_lt' h]

/-- A generation pass ends, whatever cycles there are: its queue runs empty, and what it holds on
the way, the generations from which others are counted up, is always below the number of persons. So
one more than any of them is at most that number, and it is computed and compared exactly in 32 bits
as long as these can number the persons; they can if they can number the names. -/
theorem generation_pass_ends_within_size {cs : List Change} (h : Fitting cs) {anchor : PersonId}
    (ha : anchor < (ofHistory cs).size) :
    (∃ n ≤ Survey.bound (ofHistory cs),
      (∀ i < n, (Survey.after (ofHistory cs) anchor i).pending ≠ []) ∧
      (Survey.after (ofHistory cs) anchor n).pending = [] ∧
      ∀ q, ((ofHistory cs).assignGenerationsFrom anchor).generationOf q =
        (Survey.after (ofHistory cs) anchor n).label q) ∧
    ((ofHistory cs).assignGenerationsFrom anchor).generationOf anchor = some 0 ∧
    (∀ q g, ((ofHistory cs).assignGenerationsFrom anchor).generationOf q = some g →
      g < (ofHistory cs).size) ∧
    (∀ i q g, (q, g) ∈ (Survey.after (ofHistory cs) anchor i).pending →
      g + 1 ≤ (ofHistory cs).size ∧
        ((ofHistory cs).size < UInt32.size → (UInt32.ofNat g + 1).toNat = g + 1 ∧
          (UInt32.ofNat g + 1 < (ofHistory cs).ceiling ↔ g + 1 < (ofHistory cs).size))) ∧
    ∀ number : String → UInt32,
      (∀ i < (ofHistory cs).size, number ((ofHistory cs).nameOf i) ≠ 0) →
      (∀ i < (ofHistory cs).size, ∀ j < (ofHistory cs).size,
        number ((ofHistory cs).nameOf i) = number ((ofHistory cs).nameOf j) →
          (ofHistory cs).nameOf i = (ofHistory cs).nameOf j) →
      (ofHistory cs).size < UInt32.size := by
  have hd := (recorded_ofHistory h).parentsDeclared
  have hs := Survey.sound_finish hd ha
  obtain ⟨n, hle, hbusy, hdone, hfinish⟩ := Survey.exists_finish_eq_after hd ha
  simp only [generationOf_eq_label hd ha]
  refine ⟨⟨n, hle, hbusy, hdone, fun q => by rw [hfinish]⟩, hs.label_anchor,
    fun q g hg => hs.label_lt hg, fun i q g hq => ?_, fun number hzero hnames => ?_⟩
  · have hlt := ((Survey.sound_after hd ha i).of_mem_pending hq).1
    exact ⟨hlt, fun hsize => lt_ceiling_iff hsize hlt⟩
  · exact (registered_ofHistory h).size_lt_of_numbered hzero hnames

def knot : List Change :=
  [.declare "Anne" ⟨1900, 1, 1⟩ none, .declare "Bruno" ⟨1900, 1, 1⟩ none,
    .declare "Clara" ⟨1930, 1, 1⟩ none, .linkSpouses 0 1 none, .linkChild 0 1, .linkChild 1 0,
    .linkChild 0 2]

theorem generation_pass_ends_of_knot :
    Fitting knot ∧ (ofHistory knot).parentsOf 0 = [1, 0] ∧ (ofHistory knot).parentsOf 1 = [0, 1] ∧
      (∃ n ≤ 10, (Survey.after (ofHistory knot) 2 n).pending = []) ∧
      ∃ g, ((ofHistory knot).assignGenerationsFrom 2).generationOf 0 = some g ∧ g < 3 := by
  have fit : Fitting knot := by decide
  have ha : 2 < (ofHistory knot).size := by decide
  have hg : ((ofHistory knot).assignGenerationsFrom 2).generationOf 0 = some 2 := by decide
  obtain ⟨⟨n, hle, -, hdone, -⟩, -, hlt, -⟩ := generation_pass_ends_within_size fit ha
  exact ⟨fit, by decide, by decide, ⟨n, hle, hdone⟩, 2, hg, hlt 0 2 hg⟩

/-- Jean and Jeanne are parents of each other, and Xavier is the other parent of both; Zoe is his
mother. -/
def entanglement : List Change :=
  [.declare "Luc" ⟨1990, 1, 1⟩ none, .declare "Jean" ⟨1960, 1, 1⟩ none,
    .declare "Jeanne" ⟨1960, 1, 1⟩ none, .declare "Xavier" ⟨1930, 1, 1⟩ none,
    .declare "Zoe" ⟨1900, 1, 1⟩ none, .linkChild 1 0, .linkChild 2 1, .linkChild 3 1,
    .linkChild 1 2, .linkChild 3 2, .linkChild 4 3]

theorem ascent_of_entanglement : Ascent (ofHistory entanglement) 0 3 4 :=
  ((Ascent.refl.up (q := 0) (r := 1) (by decide)).up (r := 3) (by decide)).up (by decide)

theorem behind_last_of_entanglement :
    Fitting entanglement ∧ 0 < (ofHistory entanglement).size ∧
      Ascent (ofHistory entanglement) 0 3 4 ∧ ¬(ofHistory entanglement).AcyclicAbove 0 ∧
      [0, 1, 2, 1, 3, 4].IsChain (fun c p => p ∈ (ofHistory entanglement).parentsOf c) ∧
      ∃ p ∈ [0, 1, 2, 1, 3],
        ((ofHistory entanglement).assignGenerationsFrom 0).generationOf p = some 4 := by
  have fit : Fitting entanglement := by decide
  have ha : 0 < (ofHistory entanglement).size := by decide
  have hnone : ((ofHistory entanglement).assignGenerationsFrom 0).generationOf 4 = none := by decide
  have hchain : [0, 1, 2, 1, 3, 4].IsChain
      (fun c p => p ∈ (ofHistory entanglement).parentsOf c) := by decide
  refine ⟨fit, ha, ascent_of_entanglement, ?_⟩
  rcases generationOf_ancestor_or_behind_last fit ha ascent_of_entanglement with
    ⟨g, hg⟩ | ⟨hcycle, hlast⟩
  · exact absurd (hg.symm.trans hnone) (Option.some_ne_none g)
  · exact ⟨hcycle, hchain, hlast _ hchain rfl rfl⟩

/-- Xavier is always moved up before he is served, until nobody above him can be given a
generation any more: Zoe, an ancestor, is left without. -/
theorem ancestor_without_generation :
    Fitting entanglement ∧ 0 < (ofHistory entanglement).size ∧
      Ascent (ofHistory entanglement) 0 3 4 ∧
      ((ofHistory entanglement).assignGenerationsFrom 0).generationOf 4 = none :=
  ⟨by decide, by decide, ascent_of_entanglement, by decide⟩

end FamilyTree
end Pedigree

import Pedigree.Proofs.FamilyDiagrams
import Pedigree.Proofs.Listings
import Pedigree.Proofs.Records

/-! The generations of a family that a history reaches, as groups of persons. Main statement: groups
and the persons without a generation share out all persons, each to its place; a listing tells them
all, and a diagram ranks everybody who has a generation once, with that generation. -/

namespace Pedigree.FamilyTree

open Dot
open scoped List

variable {t : FamilyTree}

def placed (t : FamilyTree) : List (Nat × PersonId) :=
  t.persons.filterMap fun p => p.generation.map (·, p.id)

theorem Registered.mem_placed_iff (r : Registered t) {g : Nat} {i : PersonId} :
    (g, i) ∈ t.placed ↔ t.generationOf i = some g := by
  unfold placed
  rw [List.mem_filterMap]
  constructor
  · intro h
    obtain ⟨p, hp, hentry⟩ := h
    obtain ⟨n, hn, heq⟩ := Option.map_eq_some_iff.mp hentry
    obtain ⟨rfl, rfl⟩ := Prod.mk.inj heq
    exact (generationOf_of_person? (r.mem_persons_iff.mp hp)).trans hn
  · intro h
    obtain ⟨p, hp, hg⟩ := Option.bind_eq_some_iff.mp h
    refine ⟨p, List.mem_of_getElem? hp, ?_⟩
    rw [hg, r.id_of_person? hp]
    rfl

theorem map_snd_placed (t : FamilyTree) :
    t.placed.map Prod.snd = (t.persons.filter (·.generation.isSome)).map Person.id := by
  unfold placed
  rw [List.map_filterMap, ← List.filterMap_eq_filter, List.map_filterMap]
  apply List.filterMap_congr
  intro p _
  cases hg : p.generation <;> simp [hg, Option.guard]

theorem Registered.pairwise_placed (r : Registered t) :
    t.placed.Pairwise fun x y => x.2 < y.2 := by
  apply List.pairwise_map.mp
  rw [map_snd_placed, List.pairwise_map]
  exact r.pairwise_id.filter _

theorem Registered.mem_unplaced_iff (r : Registered t) {i : PersonId} :
    i ∈ t.unplaced ↔ i < t.size ∧ t.generationOf i = none := by
  unfold unplaced
  rw [List.mem_map]
  constructor
  · intro h
    obtain ⟨p, hp, rfl⟩ := h
    obtain ⟨hmem, hnone⟩ := List.mem_filter.mp hp
    have hperson := r.mem_persons_iff.mp hmem
    rw [generationOf_of_person? hperson]
    exact ⟨(List.getElem?_eq_some_iff.mp hperson).1, Option.isNone_iff_eq_none.mp hnone⟩
  · intro h
    obtain ⟨p, hp⟩ := exists_person? h.1
    rw [generationOf_of_person? hp] at h
    refine ⟨p, List.mem_filter.mpr ⟨List.mem_of_getElem? hp, ?_⟩, r.id_of_person? hp⟩
    rw [h.2]
    rfl

theorem Registered.pairwise_unplaced (r : Registered t) : t.unplaced.Pairwise (· < ·) := by
  unfold unplaced
  rw [List.pairwise_map]
  exact r.pairwise_id.filter _

theorem proper_generationGroups (t : FamilyTree) : Grouping.Proper t.generationGroups :=
  Grouping.proper_ofList t.placed

theorem Registered.generationGroups_append_unplaced_perm (r : Registered t) :
    (t.generationGroups.flatMap (·.2) ++ t.unplaced) ~ List.range t.size := by
  have hgroups : t.generationGroups.flatMap (·.2) ~
      (t.persons.filter (·.generation.isSome)).map Person.id := by
    rw [← Grouping.map_snd_toList, ← map_snd_placed]
    exact (Grouping.toList_ofList_perm t.placed).map Prod.snd
  have hsplit : t.persons.filter (·.generation.isSome) ++ t.persons.filter (·.generation.isNone) ~
      t.persons := by
    simpa using List.filter_append_perm (·.generation.isSome) t.persons
  have hids := (hsplit.map Person.id).trans (.of_eq r.map_id)
  rw [List.map_append] at hids
  exact (hgroups.append_right t.unplaced).trans hids

theorem Registered.mem_generationGroups_iff (r : Registered t) {g : Nat} {i : PersonId} :
    (∃ members, (g, members) ∈ t.generationGroups ∧ i ∈ members) ↔ t.generationOf i = some g := by
  have htold : (g, i) ∈ Grouping.toList t.generationGroups ↔ (g, i) ∈ t.placed :=
    (Grouping.toList_ofList_perm t.placed).mem_iff
  rw [← r.mem_placed_iff, ← htold]
  unfold Grouping.toList
  simp

theorem Registered.pairwise_of_mem_generationGroups (r : Registered t) {x : Nat × List PersonId}
    (h : x ∈ t.generationGroups) : x.2.Pairwise (· < ·) := by
  rw [Grouping.eq_of_mem_ofList h, List.pairwise_map]
  exact r.pairwise_placed.filter _

theorem Registered.nodup_members (r : Registered t) :
    (t.generationGroups.flatMap (·.2)).Nodup := by
  have hall := r.generationGroups_append_unplaced_perm.nodup_iff.mpr List.nodup_range
  exact (List.nodup_append'.mp hall).1

theorem Registered.lt_size_of_mem_group (r : Registered t) {x : Nat × List PersonId}
    (hx : x ∈ t.generationGroups) {i : PersonId} (hi : i ∈ x.2) : i < t.size := by
  have hmem : i ∈ t.generationGroups.flatMap (·.2) ++ t.unplaced :=
    List.mem_append_left _ (List.mem_flatMap.mpr ⟨x, hx, hi⟩)
  exact List.mem_range.mp (r.generationGroups_append_unplaced_perm.mem_iff.mp hmem)

theorem Registered.groups_of (r : Registered t) (i : PersonId) :
    (t.generationGroups.filter fun x => decide (i ∈ x.2)).map Prod.fst =
      (t.generationOf i).toList := by
  have hkeys : ((t.generationGroups.filter fun x => decide (i ∈ x.2)).map Prod.fst).Nodup := by
    unfold List.Nodup
    rw [List.pairwise_map]
    exact (t.proper_generationGroups.ascending.filter _).imp Nat.ne_of_lt
  have hmem (g : Nat) : g ∈ (t.generationGroups.filter fun x => decide (i ∈ x.2)).map Prod.fst ↔
      t.generationOf i = some g := by
    rw [← r.mem_generationGroups_iff]
    simp
  cases hg : t.generationOf i with
  | none =>
    apply List.eq_nil_iff_forall_not_mem.mpr
    intro g hmem'
    rw [hmem, hg] at hmem'
    cases hmem'
  | some g =>
    apply List.perm_singleton.mp
    apply (List.perm_ext_iff_of_nodup hkeys (List.nodup_singleton g)).mpr
    intro k
    rw [hmem, hg, List.mem_singleton, Option.some_inj, eq_comm]

theorem generationListing_eq (t : FamilyTree) :
    t.generationListing = String.join (((GenerationListing.linesOf
      (t.generationGroups.map fun x => (x.1, x.2.map t.nameOf)) (t.unplaced.map t.nameOf)).map
        GenerationListing.Line.text).map (· ++ "\n")) := by
  unfold generationListing
  rw [GenerationListing.lines_eq]

theorem Registered.read?_generationListing (r : Registered t) (l : Lettered t) :
    GenerationListing.read? t.generationListing =
      some (t.generationGroups.map (fun x => (x.1, x.2.map t.nameOf)),
        t.unplaced.map t.nameOf) := by
  rw [generationListing_eq]
  apply GenerationListing.read?_linesOf
  have hnames : (t.generationGroups.map fun x => (x.1, x.2.map t.nameOf)).flatMap (·.2) ++
      t.unplaced.map t.nameOf =
        (t.generationGroups.flatMap (·.2) ++ t.unplaced).map t.nameOf := by
    rw [List.map_append, List.flatMap_map, List.map_flatMap]
  intro name hname
  rw [hnames] at hname
  obtain ⟨i, hi, rfl⟩ := List.mem_map.mp hname
  exact l.unparted_nameOf
    (List.mem_range.mp (r.generationGroups_append_unplaced_perm.mem_iff.mp hi))

section
variable {g : Graph}

theorem Registered.nodup_ranked (r : Registered t) (h : t.IsDiagram g) :
    (g.ranks.flatMap (·.2)).Nodup := by
  rw [g.flatMap_ranks, ranked_diagram h, ← List.map_flatMap]
  apply List.Nodup.map_on _ r.nodup_members
  intro i hi j hj hij
  obtain ⟨x, hx, hix⟩ := List.mem_flatMap.mp hi
  obtain ⟨y, hy, hjy⟩ := List.mem_flatMap.mp hj
  exact r.box_inj (r.lt_size_of_mem_group hx hix) (r.lt_size_of_mem_group hy hjy) hij

theorem Registered.ranks_of (r : Registered t) (h : t.IsDiagram g) {i : PersonId}
    (hi : i < t.size) :
    (g.ranks.filter fun rank => decide (t.box i ∈ rank.2)).map Prod.fst =
      ((t.generationOf i).map fun n => s!"generation_{n}").toList := by
  have hbox : ∀ x ∈ t.generationGroups, t.box i ∈ x.2.map t.box ↔ i ∈ x.2 := by
    intro x hx
    constructor
    · intro hmem
      obtain ⟨j, hj, hij⟩ := List.mem_map.mp hmem
      exact r.box_inj (r.lt_size_of_mem_group hx hj) hi hij ▸ hj
    · exact List.mem_map_of_mem
  have hfilter : (t.generationGroups.filter fun x => decide (t.box i ∈ x.2.map t.box)) =
      t.generationGroups.filter fun x => decide (i ∈ x.2) :=
    List.filter_congr fun x hx => decide_eq_decide.mpr (hbox x hx)
  rw [ranks_diagram h, List.filter_map, List.map_map]
  change (t.generationGroups.filter fun x => decide (t.box i ∈ x.2.map t.box)).map
    ((fun n => s!"generation_{n}") ∘ Prod.fst) = _
  rw [hfilter, ← List.map_map, r.groups_of, Option.toList_map]

end

/-- Generations ascend, none is empty, and together with the persons who have none they hold
everybody once, in the order of declaration. A listing under names made of letters tells them all,
and each name means one person. A diagram states nobody twice in its ranks, and everybody who has a
generation in the rank of that generation. -/
theorem generations_share_out_persons {cs : List Change} (h : Fitting cs) :
    Grouping.Proper (ofHistory cs).generationGroups ∧
    ((ofHistory cs).generationGroups.flatMap (·.2) ++ (ofHistory cs).unplaced) ~
      List.range (ofHistory cs).size ∧
    (∀ g i, (∃ members, (g, members) ∈ (ofHistory cs).generationGroups ∧ i ∈ members) ↔
      (ofHistory cs).generationOf i = some g) ∧
    (∀ i, i ∈ (ofHistory cs).unplaced ↔
      i < (ofHistory cs).size ∧ (ofHistory cs).generationOf i = none) ∧
    (∀ x ∈ (ofHistory cs).generationGroups, x.2.Pairwise (· < ·)) ∧
    (ofHistory cs).unplaced.Pairwise (· < ·) ∧
    (Lettered (ofHistory cs) →
      GenerationListing.read? (ofHistory cs).generationListing =
        some ((ofHistory cs).generationGroups.map
            (fun x => (x.1, x.2.map (ofHistory cs).nameOf)),
          (ofHistory cs).unplaced.map (ofHistory cs).nameOf) ∧
      ∀ i < (ofHistory cs).size, (ofHistory cs).find? ((ofHistory cs).nameOf i) = some i) ∧
    ∀ [Color.Reading] (style : Style) rootHue coupleHue, style.rootHue = .ok rootHue →
      style.coupleHue = .ok coupleHue →
      ∃ g, (ofHistory cs).diagram style = .ok g ∧ (g.ranks.flatMap (·.2)).Nodup ∧
        ∀ i < (ofHistory cs).size,
          (g.ranks.filter fun rank => decide ((ofHistory cs).box i ∈ rank.2)).map Prod.fst =
            (((ofHistory cs).generationOf i).map fun n => s!"generation_{n}").toList := by
  have r := registered_ofHistory h
  generalize ofHistory cs = t at r ⊢
  refine ⟨t.proper_generationGroups, r.generationGroups_append_unplaced_perm,
    fun g i => r.mem_generationGroups_iff, fun i => r.mem_unplaced_iff,
    fun x hx => r.pairwise_of_mem_generationGroups hx, r.pairwise_unplaced, ?_, ?_⟩
  · intro l
    exact ⟨r.read?_generationListing l, fun i hi => r.find?_nameOf hi⟩
  · intro _ style rootHue coupleHue hr hc
    obtain ⟨g, hok, hg⟩ := t.exists_diagram hr hc
    exact ⟨g, hok, r.nodup_ranked hg, fun i hi => r.ranks_of hg hi⟩

def headedByName : List Change :=
  [.declare "Jean" ⟨1900, 1, 1⟩ none, .declare "Rose" ⟨1900, 1, 1⟩ none,
    .declare "Marie" ⟨1900, 1, 1⟩ none, .declare "Generation" ⟨1930, 1, 1⟩ none,
    .linkSpouses 0 2 none, .linkChild 0 3, .assignGenerations 3]

theorem generations_of_headedByName :
    letI := twoColors
    Fitting headedByName ∧ Lettered (ofHistory headedByName) ∧
      (default : Style).rootHue = .ok ⟨255, 0, 0⟩ ∧
      (default : Style).coupleHue = .ok ⟨255, 192, 203⟩ ∧
      GenerationListing.read? (ofHistory headedByName).generationListing =
        some ([(0, ["Generation"]), (1, ["Jean", "Marie"])], ["Rose"]) ∧
      ∃ g, (ofHistory headedByName).diagram default = .ok g ∧ (g.ranks.flatMap (·.2)).Nodup ∧
        (g.ranks.filter fun rank => decide (quoted "Marie" ∈ rank.2)).map Prod.fst =
          ["generation_1"] := by
  let := twoColors
  have fit : Fitting headedByName := by decide
  have letters : Lettered (ofHistory headedByName) := by decide
  have hr : (default : Style).rootHue = .ok ⟨255, 0, 0⟩ := by decide
  have hc : (default : Style).coupleHue = .ok ⟨255, 192, 203⟩ := by decide
  obtain ⟨-, -, -, -, -, -, hlisting, hdiagram⟩ := generations_share_out_persons fit
  obtain ⟨hread, -⟩ := hlisting letters
  obtain ⟨g, hg, hnodup, hranks⟩ := hdiagram default _ _ hr hc
  refine ⟨fit, letters, hr, hc, hread.trans (by decide), g, hg, hnodup, ?_⟩
  exact (hranks 2 (by decide)).trans (by decide)

example : (ofHistory headedByName).generationListing =
    "Generation 0:\n    Generation\nGeneration 1:\n    Jean\n    Marie\n" ++
      "Without generation:\n    Rose\n" := by
  decide

end Pedigree.FamilyTree

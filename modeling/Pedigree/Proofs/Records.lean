import Pedigree.Proofs.Ancestry
import Pedigree.Proofs.Refusals

/-! The records of a tree, by number and by name. A number leads to one record, a name to at most
one, and no record holds a number that leads nowhere. Main statement: this holds in every tree that
a history reaches; its records stand in the order in which they were declared, and the root is the
first of them. -/

namespace Pedigree

def Person.relatives (p : Person) : List PersonId := p.spouse.toList ++ (p.parents ++ p.children)

theorem Person.mem_relatives {p : Person} {q : PersonId} :
    q ∈ p.relatives ↔ p.spouse = some q ∨ q ∈ p.parents ∨ q ∈ p.children := by
  unfold relatives
  rw [List.mem_append, List.mem_append, Option.mem_toList]

namespace FamilyTree

variable {t t' : FamilyTree}

theorem root_tryChange {c : Change} (h : t.tryChange c = .ok t') :
    t'.root = t.root.or (c.declared?.map fun _ => t.size) := by
  cases c with
  | declare name birth death =>
    obtain ⟨id, hd⟩ := tryChange_declare.mp h
    obtain ⟨-, -, rfl⟩ := declare_eq_ok.mp hd
    rfl
  | linkSpouses a b date => exact (root_linkSpouses h).trans Option.or_none.symm
  | linkChild parent child => exact (root_linkChild h).trans Option.or_none.symm
  | assignGenerations anchor =>
    obtain rfl := Except.ok.inj h
    exact Option.or_none.symm

theorem root_eq_of_tryChange {c : Change} (hroot : t.root = (List.range t.size).head?)
    (h : t.tryChange c = .ok t') : t'.root = (List.range t'.size).head? := by
  rw [root_tryChange h, hroot, List.head?_range, List.head?_range, ← length_register t',
    ← length_register t]
  rcases tryChange_register h with ⟨name, birth, death, rfl, -, hr⟩ | ⟨hnone, hr⟩
  · rw [hr, List.length_append]
    cases t.register <;> rfl
  · rw [hr, hnone, Option.map_none, Option.or_none]

theorem root_ofHistory {cs : List Change} (h : Fitting cs) :
    (ofHistory cs).root = (List.range (ofHistory cs).size).head? :=
  history_induction (motive := fun _ t => t.root = (List.range t.size).head?) rfl
    (fun _ _ _ _ hroot _ ht => root_eq_of_tryChange hroot ht) h

theorem Registered.root_eq (r : Registered t) (h : t.root = (List.range t.size).head?) :
    t.root = t.persons.head?.map Person.id := by
  rw [h, ← r.map_id, List.head?_map]

theorem Registered.find?_nameOf (r : Registered t) {i : PersonId} (h : i < t.size) :
    t.find? (t.nameOf i) = some i := by
  obtain ⟨p, hp⟩ := exists_person? h
  cases hfind : t.find? (t.nameOf i) with
  | none =>
    rw [nameOf_of_person? hp, find?, List.findIdx?_eq_none_iff] at hfind
    have hother := hfind p (List.mem_of_getElem? hp)
    simp at hother
  | some j =>
    have hj : j < t.size := (List.findIdx?_eq_some_iff_getElem.mp hfind).1
    rw [r.nameOf_inj hj h (nameOf_of_find? hfind)]

theorem Registered.find?_eq_some_iff (r : Registered t) {name : String} {i : PersonId} :
    t.find? name = some i ↔ ∃ p, t.person? i = some p ∧ p.name = name := by
  constructor
  · intro h
    obtain ⟨p, hp⟩ := exists_person? (List.findIdx?_eq_some_iff_getElem.mp h).1
    exact ⟨p, hp, (nameOf_of_person? hp).symm.trans (nameOf_of_find? h)⟩
  · intro h
    obtain ⟨p, hp, rfl⟩ := h
    have hi : i < t.size := (List.getElem?_eq_some_iff.mp hp).1
    rw [← nameOf_of_person? hp]
    exact r.find?_nameOf hi

theorem Recorded.lt_size_of_mem_relatives {T : List (FamilyTree × Change)} (r : Recorded T t)
    {p : Person} (hp : p ∈ t.persons) {q : PersonId} (hq : q ∈ p.relatives) : q < t.size := by
  obtain ⟨i, hi⟩ := List.mem_iff_getElem?.mp hp
  rcases Person.mem_relatives.mp hq with hspouse | hparent | hchild
  · have hiq : t.spouseOf i = some q := (spouseOf_of_person? hi).trans hspouse
    exact lt_size_of_spouseOf (r.mirrored.symm hiq)
  · have hqi : q ∈ t.parentsOf i := parentsOf_of_person? hi ▸ hparent
    exact r.parentsDeclared hqi
  · have hqi : q ∈ t.childrenOf i := childrenOf_of_person? hi ▸ hchild
    exact lt_size_of_mem_parentsOf (r.kinMirrored.mpr hqi)

theorem declared_ofHistory {cs : List Change} (h : Fitting cs) :
    (ofHistory cs).persons.map (fun p => (p.name, p.birth, p.death)) =
      (accepted cs).filterMap Change.declared? := by
  have hregister := register_ofHistory h
  unfold register at hregister
  rw [List.map_map] at hregister
  rw [accepted, List.filterMap_map]
  exact hregister

/-- Each record stands at its own number, under a name of its own, and is found by that name; no
other name is found, and none that the tree did not take a declaration of. Records stand in the
order of the declarations that the tree took, with their dates; whoever a record refers to has a
record; and the root is the first record, if there is one. -/
theorem records_stand_as_declared {cs : List Change} (h : Fitting cs) :
    (∀ i p, (ofHistory cs).person? i = some p → p.id = i) ∧
    ((ofHistory cs).persons.map Person.name).Nodup ∧
    (∀ name i, (ofHistory cs).find? name = some i ↔
      ∃ p, (ofHistory cs).person? i = some p ∧ p.name = name) ∧
    (∀ name, (ofHistory cs).find? name = none ↔
      ∀ birth death, .declare name birth death ∉ accepted cs) ∧
    (ofHistory cs).persons.map (fun p => (p.name, p.birth, p.death)) =
      (accepted cs).filterMap Change.declared? ∧
    (∀ p ∈ (ofHistory cs).persons, ∀ q ∈ p.relatives, q < (ofHistory cs).size) ∧
    (ofHistory cs).root = (ofHistory cs).persons.head?.map Person.id ∧
    ((ofHistory cs).root = none ↔ (ofHistory cs).size = 0) := by
  have r := registered_ofHistory h
  have hroot := root_ofHistory h
  refine ⟨fun i p => r.id_of_person?, r.map_name, fun name i => r.find?_eq_some_iff, ?_,
    declared_ofHistory h, fun p hp q => (recorded_ofHistory h).lt_size_of_mem_relatives hp,
    r.root_eq hroot, ?_⟩
  · intro name
    rw [← Option.not_isSome_iff_eq_none, find?_ofHistory_isSome_iff h]
    simp only [not_exists]
  · rw [hroot, List.head?_eq_none_iff, List.range_eq_nil]

def misfiled : List Change :=
  [.declare "Anne" ⟨1900, 1, 1⟩ none, .linkSpouses 0 0 none,
    .declare "Bruno" ⟨1899, 2, 3⟩ (some ⟨1950, 4, 5⟩), .declare "Anne" ⟨1910, 1, 1⟩ none,
    .linkSpouses 1 0 none, .declare "Clara" ⟨1930, 1, 1⟩ none, .linkChild 1 2,
    .assignGenerations 2]

theorem records_of_misfiled :
    Fitting misfiled ∧ (ofHistory misfiled).find? "Clara" = some 2 ∧
      (ofHistory misfiled).find? "David" = none ∧
      (ofHistory misfiled).persons.map (fun p => (p.name, p.birth, p.death)) =
        [("Anne", ⟨1900, 1, 1⟩, none), ("Bruno", ⟨1899, 2, 3⟩, some ⟨1950, 4, 5⟩),
          ("Clara", ⟨1930, 1, 1⟩, none)] ∧
      (ofHistory misfiled).root = some 0 := by
  have fit : Fitting misfiled := by decide
  obtain ⟨-, -, hfind, hnone, hdeclared, -, hroot, -⟩ := records_stand_as_declared fit
  have haccepted : (accepted misfiled).filterMap Change.declared? =
      [("Anne", ⟨1900, 1, 1⟩, none), ("Bruno", ⟨1899, 2, 3⟩, some ⟨1950, 4, 5⟩),
        ("Clara", ⟨1930, 1, 1⟩, none)] := by
    decide
  refine ⟨fit, (hfind _ _).mpr ⟨_, rfl, by decide⟩, (hnone _).mpr ?_, hdeclared.trans haccepted,
    hroot.trans (by decide)⟩
  intro birth death hmem
  have hmem' : ("David", birth, death) ∈ (accepted misfiled).filterMap Change.declared? :=
    List.mem_filterMap.mpr ⟨_, hmem, rfl⟩
  rw [haccepted] at hmem'
  simp at hmem'

end FamilyTree
end Pedigree

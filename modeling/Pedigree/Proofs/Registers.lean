import Pedigree.Proofs.Marriages

/-! The register of persons. A declaration fixes the number, the name and the dates of life of a
person, and no later change touches them. Main statement: in every tree that a history reaches each
record stands at its own number, and all names are different. -/

namespace Pedigree

def Person.particulars (p : Person) : PersonId × String × Date × Option Date :=
  (p.id, p.name, p.birth, p.death)

def Change.declared? : Change → Option (String × Date × Option Date)
  | .declare name birth death => some (name, birth, death)
  | _ => none

namespace FamilyTree

def register (t : FamilyTree) : List (PersonId × String × Date × Option Date) :=
  t.persons.map Person.particulars

variable {t t' : FamilyTree}

theorem length_register (t : FamilyTree) : t.register.length = t.size := by
  unfold register
  rw [List.length_map]
  rfl

theorem tryChange_register {c : Change} (h : t.tryChange c = .ok t') :
    (∃ name birth death, c = .declare name birth death ∧ t.find? name = none ∧
      t'.register = t.register ++ [(t.size, name, birth, death)]) ∨
      c.declared? = none ∧ t'.register = t.register := by
  cases c with
  | declare name birth death =>
    obtain ⟨id, hd⟩ := tryChange_declare.mp h
    obtain ⟨hnew, -, rfl⟩ := declare_eq_ok.mp hd
    refine Or.inl ⟨name, birth, death, rfl, hnew, ?_⟩
    exact List.map_append
  | linkSpouses a b date =>
    have hkeep := look_linkSpouses (f := Person.particulars) (x := default)
      (fun _ _ _ => rfl) (fun _ => rfl) h
    exact Or.inr ⟨rfl, map_persons_of_look (size_linkSpouses h) hkeep⟩
  | linkChild parent child =>
    have hkeep := look_linkChild (f := Person.particulars) (x := default)
      (fun _ _ => rfl) (fun _ _ => rfl) h
    exact Or.inr ⟨rfl, map_persons_of_look (size_linkChild h) hkeep⟩
  | assignGenerations anchor =>
    obtain rfl := Except.ok.inj h
    have hkeep := look_assignGenerationsFrom (f := Person.particulars) (x := default)
      (fun _ _ => rfl) t anchor
    exact Or.inr ⟨rfl, map_persons_of_look (size_assignGenerationsFrom t anchor) hkeep⟩

theorem register_ofHistory {cs : List Change} (h : Fitting cs) :
    (ofHistory cs).register.map (·.2) = (taken cs).filterMap fun x => x.2.declared? := by
  refine history_induction
    (motive := fun T t => t.register.map (·.2) = T.filterMap fun x => x.2.declared?) rfl ?_ h
  intro T t c t' ih _ ht
  rw [List.filterMap_append, ← ih]
  rcases tryChange_register ht with ⟨name, birth, death, rfl, -, hr⟩ | ⟨hnone, hr⟩
  · rw [hr, List.map_append]
    rfl
  · simp [hr, hnone]

/-- Each record stands at its own number, under a name of its own. -/
structure Registered (t : FamilyTree) : Prop where
  ids : t.register.map (·.1) = List.range t.size
  names_nodup : (t.register.map (·.2.1)).Nodup

theorem registered_empty : Registered empty := ⟨rfl, List.nodup_nil⟩

theorem find?_eq_none_iff {name : String} :
    t.find? name = none ↔ name ∉ t.register.map (·.2.1) := by
  have hnames : t.register.map (·.2.1) = t.persons.map Person.name := List.map_map
  rw [hnames, find?, List.findIdx?_eq_none_iff]
  simp only [decide_eq_false_iff_not, List.mem_map, not_exists, not_and]

theorem Registered.tryChange (r : Registered t) {c : Change} (h : t.tryChange c = .ok t') :
    Registered t' := by
  rcases tryChange_register h with ⟨name, birth, death, -, hnew, hr⟩ | ⟨-, hr⟩
  · have hsize : t'.size = t.size + 1 := by
      rw [← length_register, hr, List.length_append, length_register]
      rfl
    constructor
    · rw [hr, List.map_append, r.ids, hsize, List.range_succ]
      rfl
    · have hname := find?_eq_none_iff.mp hnew
      have hall := r.names_nodup.concat hname
      rw [hr, List.map_append]
      rwa [List.concat_eq_append] at hall
  · have hsize : t'.size = t.size := by
      rw [← length_register, hr, length_register]
    constructor
    · rw [hr, hsize]
      exact r.ids
    · rw [hr]
      exact r.names_nodup

theorem registered_ofHistory {cs : List Change} (h : Fitting cs) : Registered (ofHistory cs) :=
  history_induction (motive := fun _ t => Registered t) registered_empty
    (fun _ _ _ _ r _ ht => r.tryChange ht) h

theorem Registered.map_id (r : Registered t) : t.persons.map Person.id = List.range t.size := by
  have hids := r.ids
  unfold register at hids
  rw [List.map_map] at hids
  exact hids

theorem Registered.map_name (r : Registered t) : (t.persons.map Person.name).Nodup := by
  have hnames := r.names_nodup
  unfold register at hnames
  rw [List.map_map] at hnames
  exact hnames

theorem Registered.id_of_person? (r : Registered t) {i : PersonId} {p : Person}
    (h : t.person? i = some p) : p.id = i := by
  obtain ⟨hi, rfl⟩ := List.getElem?_eq_some_iff.mp h
  have hrange : (List.range t.size)[i]? = some i := List.getElem?_range hi
  rw [← r.map_id, List.getElem?_map, List.getElem?_eq_getElem hi] at hrange
  exact Option.some.inj hrange

theorem Registered.mem_persons_iff (r : Registered t) {p : Person} :
    p ∈ t.persons ↔ t.person? p.id = some p := by
  constructor
  · intro hp
    obtain ⟨i, hi⟩ := List.mem_iff_getElem?.mp hp
    rwa [r.id_of_person? hi]
  · intro hp
    exact List.mem_of_getElem? hp

theorem Registered.pairwise_id (r : Registered t) :
    t.persons.Pairwise fun p q => p.id < q.id := by
  apply List.pairwise_map.mp
  rw [r.map_id]
  exact List.pairwise_lt_range

theorem nameOf_of_person? {i : PersonId} {p : Person} (h : t.person? i = some p) :
    t.nameOf i = p.name := by
  rw [nameOf, h]
  rfl

theorem spouseOf_of_person? {i : PersonId} {p : Person} (h : t.person? i = some p) :
    t.spouseOf i = p.spouse := by
  unfold spouseOf
  rw [h]
  rfl

theorem weddingOf_of_person? {i : PersonId} {p : Person} (h : t.person? i = some p) :
    t.weddingOf i = p.wedding := by
  unfold weddingOf
  rw [h]
  rfl

theorem parentsOf_of_person? {i : PersonId} {p : Person} (h : t.person? i = some p) :
    t.parentsOf i = p.parents := by
  unfold parentsOf
  rw [h]
  rfl

theorem childrenOf_of_person? {i : PersonId} {p : Person} (h : t.person? i = some p) :
    t.childrenOf i = p.children := by
  unfold childrenOf
  rw [h]
  rfl

theorem generationOf_of_person? {i : PersonId} {p : Person} (h : t.person? i = some p) :
    t.generationOf i = p.generation := by
  unfold generationOf
  rw [h]
  rfl

theorem Registered.nameOf_inj (r : Registered t) {i j : PersonId} (hi : i < t.size)
    (hj : j < t.size) (h : t.nameOf i = t.nameOf j) : i = j := by
  obtain ⟨p, hp⟩ := exists_person? hi
  obtain ⟨q, hq⟩ := exists_person? hj
  rw [nameOf_of_person? hp, nameOf_of_person? hq] at h
  have hpq : p = q := List.inj_on_of_nodup_map r.map_name (List.mem_of_getElem? hp)
    (List.mem_of_getElem? hq) h
  rw [← r.id_of_person? hp, ← r.id_of_person? hq, hpq]

end FamilyTree
end Pedigree

import Mathlib.Data.Finset.Prod
import Mathlib.Order.Lattice.Nat
import Pedigree.Chronology
import Pedigree.Proofs.Groupings
import Pedigree.Proofs.Registers

/-! Chronologies of the trees that a history reaches. The scan of the persons tells of everything
that their records hold; that a wedding is told once, although both partners record it, rests on
their records agreeing. Main statement: dates ascend, every event stands once under its date, and
the events of one day follow the order of declaration. -/

namespace Pedigree

instance : IsStrictTotalOrder Date (· < ·) where
  irrefl d := Nat.lt_irrefl d.rank
  trans _ _ _ hde hef := Nat.lt_trans hde hef
  trichotomous d e hde hed := by
    apply Date.rank_inj
    exact Nat.le_antisymm (Nat.le_of_not_lt hed) (Nat.le_of_not_lt hde)

def Date.Before (d e : Date) : Prop :=
  d.year < e.year ∨ d.year = e.year ∧ (d.month < e.month ∨ d.month = e.month ∧ d.day < e.day)

theorem Date.lt_iff_before {d e : Date} : d < e ↔ d.Before e := by
  have hmonth := d.month.toNat_lt
  have hday := d.day.toNat_lt
  have hmonth' := e.month.toNat_lt
  have hday' := e.day.toNat_lt
  rw [Date.lt_iff, Date.rank, Date.rank, Date.Before, UInt16.lt_iff_toNat_lt, UInt8.lt_iff_toNat_lt,
    UInt8.lt_iff_toNat_lt, ← UInt16.toNat_inj, ← UInt8.toNat_inj]
  omega

namespace Event

def owner : Event → PersonId
  | birth p | death p | marriage p _ => p

def stage : Event → Nat
  | birth _ => 0
  | death _ => 1
  | marriage _ _ => 2

def Precedes (e f : Event) : Prop :=
  e.owner < f.owner ∨ e.owner = f.owner ∧ e.stage < f.stage

def RecordedIn (p : Person) (d : Date) : Event → Prop
  | birth _ => p.birth = d
  | death _ => p.death = some d
  | marriage i j => i < j ∧ p.spouse = some j ∧ p.wedding = some d

def TookPlace (t : FamilyTree) (d : Date) (e : Event) : Prop :=
  ∃ p, t.person? e.owner = some p ∧ e.RecordedIn p d

theorem not_precedes_self (e : Event) : ¬e.Precedes e := by
  intro h
  rcases h with hlt | ⟨-, hlt⟩
  · exact Nat.lt_irrefl _ hlt
  · exact Nat.lt_irrefl _ hlt

end Event

theorem Person.mem_events_iff {p : Person} {d : Date} {e : Event} :
    (d, e) ∈ p.events ↔ e.owner = p.id ∧ e.RecordedIn p d := by
  unfold Person.events
  cases e with
  | birth i =>
    cases p.wedding <;> cases p.spouse <;>
      simp [Event.owner, Event.RecordedIn, eq_comm, and_comm]
  | death i =>
    cases p.wedding <;> cases p.spouse <;>
      simp [Event.owner, Event.RecordedIn, eq_comm, and_comm]
  | marriage i j =>
    unfold Event.owner Event.RecordedIn
    cases p.wedding with
    | none => simp
    | some w =>
      cases p.spouse with
      | none => simp
      | some q =>
        simp only [List.mem_cons, List.mem_append, Option.mem_toList, Option.map_eq_some_iff]
        grind

theorem Person.pairwise_events (p : Person) :
    p.events.Pairwise fun x y => x.2.Precedes y.2 := by
  have hstage : p.events.Pairwise fun x y => x.2.stage < y.2.stage := by
    unfold Person.events
    cases p.death <;> cases p.wedding <;> cases p.spouse <;> simp [Event.stage]
    all_goals
      split
      · simp
      · simp
  apply hstage.imp_of_mem
  intro x y hx hy hxy
  have hx' : x.2.owner = p.id := (Person.mem_events_iff.mp hx).1
  have hy' : y.2.owner = p.id := (Person.mem_events_iff.mp hy).1
  exact Or.inr ⟨hx'.trans hy'.symm, hxy⟩

namespace FamilyTree

variable {t : FamilyTree}

theorem tookPlace_marriage_iff {i j : PersonId} {d : Date} :
    (Event.marriage i j).TookPlace t d ↔
      i < j ∧ t.spouseOf i = some j ∧ t.weddingOf i = some d := by
  constructor
  · intro h
    obtain ⟨p, hp, hij, hs, hd⟩ := h
    exact ⟨hij, (spouseOf_of_person? hp).trans hs, (weddingOf_of_person? hp).trans hd⟩
  · intro h
    obtain ⟨hij, hs, hd⟩ := h
    obtain ⟨p, hp⟩ := exists_person? (lt_size_of_spouseOf hs)
    rw [spouseOf_of_person? hp] at hs
    rw [weddingOf_of_person? hp] at hd
    exact ⟨p, hp, hij, hs, hd⟩

theorem Registered.pairwise_events (r : Registered t) :
    (t.persons.flatMap Person.events).Pairwise fun x y => x.2.Precedes y.2 := by
  apply List.pairwise_flatMap.mpr
  refine ⟨fun p _ => p.pairwise_events, ?_⟩
  apply r.pairwise_id.imp
  intro p q hpq x hx y hy
  have hp : x.2.owner = p.id := (Person.mem_events_iff.mp hx).1
  have hq : y.2.owner = q.id := (Person.mem_events_iff.mp hy).1
  exact Or.inl (hp ▸ hq ▸ hpq)

theorem Registered.mem_events_iff (r : Registered t) {d : Date} {e : Event} :
    (d, e) ∈ t.persons.flatMap Person.events ↔ e.TookPlace t d := by
  unfold Event.TookPlace
  rw [List.mem_flatMap]
  constructor
  · intro h
    obtain ⟨p, hp, he⟩ := h
    obtain ⟨howner, hrecorded⟩ := Person.mem_events_iff.mp he
    exact ⟨p, howner ▸ r.mem_persons_iff.mp hp, hrecorded⟩
  · intro h
    obtain ⟨p, hp, hrecorded⟩ := h
    have howner : p.id = e.owner := r.id_of_person? hp
    exact ⟨p, List.mem_of_getElem? hp, Person.mem_events_iff.mpr ⟨howner.symm, hrecorded⟩⟩

theorem Registered.nodup_events (r : Registered t) :
    (t.persons.flatMap Person.events).Nodup := by
  apply r.pairwise_events.imp
  intro x y hxy e
  exact y.2.not_precedes_self (e ▸ hxy)

theorem Registered.mem_chronology_iff (r : Registered t) {d : Date} {e : Event} :
    (d, e) ∈ Grouping.toList (Chronology.ofTree t) ↔ e.TookPlace t d := by
  unfold Chronology.ofTree
  rw [(Grouping.toList_ofList_perm _).mem_iff]
  exact r.mem_events_iff

theorem Registered.nodup_chronology (r : Registered t) :
    (Grouping.toList (Chronology.ofTree t)).Nodup := by
  unfold Chronology.ofTree
  rw [(Grouping.toList_ofList_perm _).nodup_iff]
  exact r.nodup_events

theorem Registered.pairwise_of_mem_chronology (r : Registered t) {d : Date} {es : List Event}
    (h : (d, es) ∈ Chronology.ofTree t) : es.Pairwise Event.Precedes := by
  rw [Grouping.eq_of_mem_ofList h, List.pairwise_map]
  exact r.pairwise_events.filter _

def deceased (t : FamilyTree) : Finset PersonId :=
  (Finset.range t.size).filter fun i => ((t.person? i).bind Person.death).isSome

def datedCouples (t : FamilyTree) : Finset (PersonId × PersonId) :=
  (Finset.range t.size ×ˢ Finset.range t.size).filter fun c =>
    c.1 < c.2 ∧ t.spouseOf c.1 = some c.2 ∧ (t.weddingOf c.1).isSome

def datedEvents (t : FamilyTree) : Finset Event :=
  (Finset.range t.size).image .birth ∪ t.deceased.image .death ∪
    t.datedCouples.image fun c => .marriage c.1 c.2

theorem card_datedEvents (t : FamilyTree) :
    t.datedEvents.card = t.size + t.deceased.card + t.datedCouples.card := by
  have hbirth : Function.Injective Event.birth := fun _ _ h => Event.birth.inj h
  have hdeath : Function.Injective Event.death := fun _ _ h => Event.death.inj h
  have hmarriage : Function.Injective fun c : PersonId × PersonId => Event.marriage c.1 c.2 :=
    fun _ _ h => Prod.ext (Event.marriage.inj h).1 (Event.marriage.inj h).2
  unfold datedEvents
  rw [Finset.card_union_of_disjoint, Finset.card_union_of_disjoint,
    Finset.card_image_of_injective _ hbirth, Finset.card_image_of_injective _ hdeath,
    Finset.card_image_of_injective _ hmarriage, Finset.card_range]
  · simp [Finset.disjoint_left]
  · rw [Finset.disjoint_left]
    intro e he hmarriage
    obtain ⟨c, -, rfl⟩ := Finset.mem_image.mp hmarriage
    simp at he

theorem Mirrored.exists_tookPlace_iff (m : Mirrored t) (e : Event) :
    (∃ d, e.TookPlace t d) ↔ e ∈ t.datedEvents := by
  have hlt {i : PersonId} {p : Person} (hp : t.person? i = some p) : i < t.size :=
    (List.getElem?_eq_some_iff.mp hp).1
  cases e with
  | birth i =>
    have hmem : Event.birth i ∈ t.datedEvents ↔ i < t.size := by simp [datedEvents]
    rw [hmem]
    constructor
    · intro h
      obtain ⟨d, p, hp, -⟩ := h
      exact hlt hp
    · intro h
      obtain ⟨p, hp⟩ := exists_person? h
      exact ⟨p.birth, p, hp, rfl⟩
  | death i =>
    have hmem : Event.death i ∈ t.datedEvents ↔ i ∈ t.deceased := by simp [datedEvents]
    rw [hmem, deceased, Finset.mem_filter, Finset.mem_range, Option.isSome_iff_exists]
    constructor
    · intro h
      obtain ⟨d, p, hp, hd⟩ := h
      exact ⟨hlt hp, d, Option.bind_eq_some_iff.mpr ⟨p, hp, hd⟩⟩
    · intro h
      obtain ⟨-, d, hd⟩ := h
      obtain ⟨p, hp, hd⟩ := Option.bind_eq_some_iff.mp hd
      exact ⟨d, p, hp, hd⟩
  | marriage i j =>
    have hmem : Event.marriage i j ∈ t.datedEvents ↔ (i, j) ∈ t.datedCouples := by
      simp [datedEvents]
    rw [hmem, datedCouples, Finset.mem_filter, Finset.mem_product, Finset.mem_range,
      Finset.mem_range, Option.isSome_iff_exists]
    constructor
    · intro h
      obtain ⟨d, hd⟩ := h
      obtain ⟨hij, hs, hd⟩ := tookPlace_marriage_iff.mp hd
      exact ⟨⟨lt_size_of_spouseOf hs, lt_size_of_spouseOf (m.symm hs)⟩, hij, hs, d, hd⟩
    · intro h
      obtain ⟨-, hij, hs, d, hd⟩ := h
      exact ⟨d, tookPlace_marriage_iff.mpr ⟨hij, hs, hd⟩⟩

theorem tookPlace_unique {e : Event} {d d' : Date} (h : e.TookPlace t d)
    (h' : e.TookPlace t d') : d = d' := by
  obtain ⟨p, hp, hd⟩ := h
  obtain ⟨q, hq, hd'⟩ := h'
  obtain rfl : p = q := Option.some.inj (hp.symm.trans hq)
  cases e with
  | birth i => exact hd.symm.trans hd'
  | death i => exact Option.some.inj (hd.symm.trans hd')
  | marriage i j => exact Option.some.inj (hd.2.2.symm.trans hd'.2.2)

theorem Registered.size_chronology (r : Registered t) (m : Mirrored t) :
    (Chronology.ofTree t).size = t.size + t.deceased.card + t.datedCouples.card := by
  have hnodup : ((Grouping.toList (Chronology.ofTree t)).map Prod.snd).Nodup := by
    apply List.Nodup.map_on ?_ r.nodup_chronology
    intro x hx y hy hxy
    have hx' : x.2.TookPlace t x.1 := r.mem_chronology_iff.mp hx
    have hy' : y.2.TookPlace t y.1 := r.mem_chronology_iff.mp hy
    rw [hxy] at hx'
    exact Prod.ext (tookPlace_unique hx' hy') hxy
  have hset : ((Grouping.toList (Chronology.ofTree t)).map Prod.snd).toFinset = t.datedEvents := by
    ext e
    rw [← m.exists_tookPlace_iff, List.mem_toFinset, List.mem_map]
    constructor
    · intro h
      obtain ⟨x, hx, rfl⟩ := h
      exact ⟨x.1, r.mem_chronology_iff.mp hx⟩
    · intro h
      obtain ⟨d, hd⟩ := h
      exact ⟨(d, e), r.mem_chronology_iff.mpr hd, rfl⟩
  unfold Chronology.size
  rw [← card_datedEvents, ← hset, List.toFinset_card_of_nodup hnodup, List.length_map]

/-- A chronology loses and doubles nothing. Dates ascend and none stands without an event; the
births, deaths and weddings of the records stand there once each, a wedding under the spouse who was
declared first; one day keeps the order of declaration, and birth, death and wedding of one person
come in this order. -/
theorem chronology_tells_events_once {cs : List Change} (h : Fitting cs) :
    (Chronology.ofTree (ofHistory cs)).Pairwise (fun x y => x.1.Before y.1) ∧
    (∀ x ∈ Chronology.ofTree (ofHistory cs), x.2 ≠ []) ∧
    (Grouping.toList (Chronology.ofTree (ofHistory cs))).Nodup ∧
    (∀ d e, (d, e) ∈ Grouping.toList (Chronology.ofTree (ofHistory cs)) ↔
      e.TookPlace (ofHistory cs) d) ∧
    (∀ a b d, (ofHistory cs).spouseOf a = some b → (ofHistory cs).weddingOf a = some d →
      (d, .marriage (min a b) (max a b)) ∈
        Grouping.toList (Chronology.ofTree (ofHistory cs))) ∧
    (∀ d es, (d, es) ∈ Chronology.ofTree (ofHistory cs) → es.Pairwise Event.Precedes) ∧
    (Chronology.ofTree (ofHistory cs)).size =
      (ofHistory cs).size + (ofHistory cs).deceased.card + (ofHistory cs).datedCouples.card := by
  have r := registered_ofHistory h
  have m := mirrored_ofHistory h
  have hproper : Grouping.Proper (Chronology.ofTree (ofHistory cs)) := Grouping.proper_ofList _
  refine ⟨?_, hproper.nonempty, r.nodup_chronology, fun d e => r.mem_chronology_iff, ?_,
    fun d es hes => r.pairwise_of_mem_chronology hes, r.size_chronology m⟩
  · exact hproper.ascending.imp Date.lt_iff_before.mp
  · intro a b d hs hd
    rw [r.mem_chronology_iff, tookPlace_marriage_iff]
    -- The partner with the lower number tells, whose record agrees with the other one.
    rcases Nat.lt_trichotomy a b with hlt | heq | hlt
    · rw [Nat.min_eq_left hlt.le, Nat.max_eq_right hlt.le]
      exact ⟨hlt, hs, hd⟩
    · exact absurd (heq ▸ hs) (m.irrefl a)
    · rw [Nat.min_eq_right hlt.le, Nat.max_eq_left hlt.le]
      exact ⟨hlt, m.symm hs, m.wedding_eq hs ▸ hd⟩

def eventfulDay : List Change :=
  [.declare "Anne" ⟨1900, 1, 1⟩ none, .declare "Bruno" ⟨1895, 5, 5⟩ (some ⟨1920, 6, 1⟩),
    .declare "Clara" ⟨1920, 6, 1⟩ none, .declare "David" ⟨1890, 1, 1⟩ none,
    .linkSpouses 3 0 (some ⟨1919, 1, 1⟩), .linkSpouses 1 0 (some ⟨1920, 6, 1⟩)]

theorem chronology_of_eventfulDay :
    Fitting eventfulDay ∧
      (⟨1920, 6, 1⟩, .marriage 0 1) ∈ Grouping.toList (Chronology.ofTree (ofHistory eventfulDay)) ∧
      (∀ d, (d, .marriage 0 3) ∉ Grouping.toList (Chronology.ofTree (ofHistory eventfulDay))) ∧
      (Chronology.ofTree (ofHistory eventfulDay)).size = 4 + 1 + 1 := by
  have fit : Fitting eventfulDay := by decide
  obtain ⟨-, -, -, htold, hweddings, -, hsize⟩ := chronology_tells_events_once fit
  have hspouse : (ofHistory eventfulDay).spouseOf 1 = some 0 := by decide
  have hwedding : (ofHistory eventfulDay).weddingOf 1 = some ⟨1920, 6, 1⟩ := by decide
  refine ⟨fit, hweddings 1 0 _ hspouse hwedding, ?_, ?_⟩
  · intro d hd
    obtain ⟨-, hanne, -⟩ := tookPlace_marriage_iff.mp ((htold d (.marriage 0 3)).mp hd)
    exact absurd hanne (by decide)
  · have hdeceased : (ofHistory eventfulDay).deceased.card = 1 := by decide
    have hcouples : (ofHistory eventfulDay).datedCouples.card = 1 := by decide
    rw [hsize, hdeceased, hcouples]
    rfl

example : (Chronology.ofTree (ofHistory eventfulDay)).getLast? =
    some (⟨1920, 6, 1⟩, [.marriage 0 1, .death 1, .birth 2]) := by
  decide

end FamilyTree
end Pedigree

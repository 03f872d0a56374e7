import Mathlib.Data.String.Basic
import Pedigree.Diagram.Family
import Pedigree.Proofs.Registers

/-! Couples of a family tree and the texts by which diagrams know them. A pass over all partners
that remembers the pairs it has seen comes across every marriage once, with the earlier declared
spouse first. Main statement: if names are made of letters, the key of a couple tells its partners,
in either order, and is no name. -/

namespace Pedigree.FamilyTree

variable {t : FamilyTree}

def coupleOf (p : Person) : Option (PersonId × PersonId) :=
  p.spouse.bind fun q => if p.id < q then some (p.id, q) else none

theorem coupleOf_eq_some {p : Person} {a b : PersonId} :
    coupleOf p = some (a, b) ↔ p.id = a ∧ a < b ∧ p.spouse = some b := by
  unfold coupleOf
  rw [Option.bind_eq_some_iff]
  constructor
  · intro h
    obtain ⟨q, hq, hpair⟩ := h
    rw [Option.ite_none_right_eq_some, Option.some.injEq, Prod.mk.injEq] at hpair
    obtain ⟨hlt, rfl, rfl⟩ := hpair
    exact ⟨rfl, hlt, hq⟩
  · intro h
    obtain ⟨rfl, hlt, hq⟩ := h
    exact ⟨b, hq, if_pos hlt⟩

theorem pair_eq_pair {a b x y : PersonId} :
    pair a b = pair x y ↔ a = x ∧ b = y ∨ a = y ∧ b = x := by
  unfold pair
  grind

/-- The pairs that a pass has seen once it comes to a person. -/
def Seen (t : FamilyTree) (n : PersonId) (seen : List (PersonId × PersonId)) : Prop :=
  ∀ x, x ∈ seen ↔ ∃ a < n, ∃ b, t.spouseOf a = some b ∧ pair a b = x

variable {n : PersonId} {seen : List (PersonId × PersonId)}

theorem seen_nil : Seen t 0 [] := by
  intro x
  simp

theorem Seen.skip (h : Seen t n seen) (hn : ∀ b, t.spouseOf n = some b → pair n b ∈ seen) :
    Seen t (n + 1) seen := by
  intro x
  rw [h x]
  constructor
  · rintro ⟨a, ha, hx⟩
    exact ⟨a, Nat.lt_succ_of_lt ha, hx⟩
  · rintro ⟨a, ha, b, hab, rfl⟩
    rcases Nat.lt_succ_iff_lt_or_eq.mp ha with hlt | rfl
    · exact ⟨a, hlt, b, hab, rfl⟩
    · exact (h _).mp (hn b hab)

theorem Seen.cons (h : Seen t n seen) {b : PersonId} (hb : t.spouseOf n = some b) :
    Seen t (n + 1) (pair n b :: seen) := by
  intro x
  rw [List.mem_cons, h x]
  constructor
  · rintro (rfl | ⟨a, ha, hx⟩)
    · exact ⟨n, Nat.lt_succ_self n, b, hb, rfl⟩
    · exact ⟨a, Nat.lt_succ_of_lt ha, hx⟩
  · rintro ⟨a, ha, c, hac, rfl⟩
    rcases Nat.lt_succ_iff_lt_or_eq.mp ha with hlt | rfl
    · exact Or.inr ⟨a, hlt, c, hac, rfl⟩
    · exact Or.inl (by rw [Option.some.inj (hac.symm.trans hb)])

theorem Seen.mem_iff (h : Seen t n seen) (m : Mirrored t) {b : PersonId}
    (hb : t.spouseOf n = some b) : pair n b ∈ seen ↔ b < n := by
  rw [h]
  constructor
  · rintro ⟨a, ha, c, -, hpair⟩
    rcases pair_eq_pair.mp hpair with ⟨rfl, -⟩ | ⟨rfl, -⟩
    · exact absurd ha (Nat.lt_irrefl a)
    · exact ha
  · intro hlt
    exact ⟨b, hlt, n, m.symm hb, pair_eq_pair.mpr (Or.inr ⟨rfl, rfl⟩)⟩

theorem couplesFrom_drop (r : Registered t) (m : Mirrored t) (h : Seen t n seen) :
    couplesFrom seen (t.persons.drop n) = (t.persons.drop n).filterMap coupleOf := by
  induction hps : t.persons.drop n generalizing n seen with
  | nil => rfl
  | cons p ps ih =>
    have hp : t.person? n = some p := by
      rw [person?, ← List.head?_drop, hps]
      rfl
    have hrest : t.persons.drop (n + 1) = ps := by
      rw [← List.tail_drop, hps]
      rfl
    have hspouse : t.spouseOf n = p.spouse := spouseOf_of_person? hp
    obtain rfl : p.id = n := r.id_of_person? hp
    cases hq : p.spouse with
    | none =>
      have hnone : coupleOf p = none := by
        unfold coupleOf
        rw [hq]
        rfl
      rw [List.filterMap_cons_none hnone, couplesFrom, hq]
      refine ih (h.skip fun b hb => ?_) hrest
      cases (hspouse.trans hq).symm.trans hb
    | some q =>
      rw [hq] at hspouse
      by_cases hlt : q < p.id
      · have hnone : coupleOf p = none := by
          unfold coupleOf
          rw [hq]
          exact if_neg hlt.asymm
        have hseen : pair p.id q ∈ seen := (h.mem_iff m hspouse).mpr hlt
        rw [List.filterMap_cons_none hnone, couplesFrom, hq]
        refine (if_pos hseen).trans (ih (h.skip fun b hb => ?_) hrest)
        rwa [Option.some.inj (hb.symm.trans hspouse)]
      · have hne : p.id ≠ q := fun e => m.irrefl p.id (e ▸ hspouse)
        have hsome : coupleOf p = some (p.id, q) :=
          coupleOf_eq_some.mpr ⟨rfl, Nat.lt_of_le_of_ne (Nat.le_of_not_lt hlt) hne, hq⟩
        have hnew : pair p.id q ∉ seen := fun hmem => hlt ((h.mem_iff m hspouse).mp hmem)
        rw [List.filterMap_cons_some hsome, couplesFrom, hq]
        exact (if_neg hnew).trans (congrArg _ (ih (h.cons hspouse) hrest))

/-- Of every couple the pass keeps the partner with the lower number in front. -/
theorem couples_eq (r : Registered t) (m : Mirrored t) :
    t.couples = t.persons.filterMap coupleOf := by
  have hall := couplesFrom_drop r m seen_nil
  rwa [List.drop_zero] at hall

theorem Registered.mem_couples_iff (r : Registered t) (m : Mirrored t) {a b : PersonId} :
    (a, b) ∈ t.couples ↔ a < b ∧ t.spouseOf a = some b := by
  rw [couples_eq r m, List.mem_filterMap]
  constructor
  · intro h
    obtain ⟨p, hp, hpair⟩ := h
    obtain ⟨rfl, hlt, hq⟩ := coupleOf_eq_some.mp hpair
    exact ⟨hlt, (spouseOf_of_person? (r.mem_persons_iff.mp hp)).trans hq⟩
  · intro h
    obtain ⟨hlt, hs⟩ := h
    obtain ⟨p, hp, hq⟩ := Option.bind_eq_some_iff.mp hs
    exact ⟨p, List.mem_of_getElem? hp, coupleOf_eq_some.mpr ⟨r.id_of_person? hp, hlt, hq⟩⟩

theorem Registered.nodup_couples (r : Registered t) (m : Mirrored t) : t.couples.Nodup := by
  rw [couples_eq r m]
  apply r.pairwise_id.filterMap
  intro p q hpq c hc d hd hcd
  obtain ⟨hpc, -⟩ := coupleOf_eq_some.mp hc
  obtain ⟨hqd, -⟩ := coupleOf_eq_some.mp hd
  rw [hpc, hqd, hcd] at hpq
  exact Nat.lt_irrefl _ hpq

/-- All names are made of letters, and none is empty. -/
def Lettered (t : FamilyTree) : Prop :=
  ∀ i < t.size, t.nameOf i ≠ "" ∧ ∀ c ∈ (t.nameOf i).toList, c.isAlpha = true

instance (t : FamilyTree) : Decidable (Lettered t) :=
  decidable_of_iff (∀ i < t.size, t.nameOf i ≠ "" ∧ (t.nameOf i).toList.all Char.isAlpha = true)
    (by simp only [Lettered, List.all_eq_true])

theorem Lettered.underscore_notMem (l : Lettered t) {i : PersonId} (h : i < t.size) :
    '_' ∉ (t.nameOf i).toList := by
  intro hmem
  have hletter : '_'.isAlpha = true := (l i h).2 '_' hmem
  exact absurd hletter (by decide)

theorem exists_coupleNode_eq (t : FamilyTree) (a b : PersonId) :
    ∃ x y, (x = a ∧ y = b ∨ x = b ∧ y = a) ∧
      (t.coupleNode a b).toList =
        "marriage".toList ++ '_' :: ((t.nameOf x).toList ++ '_' :: (t.nameOf y).toList) := by
  have hkey (m n : String) : s!"marriage_{m}_{n}".toList =
      "marriage".toList ++ '_' :: (m.toList ++ '_' :: n.toList) := by
    change ("marriage_" ++ m ++ "_" ++ n).toList = _
    simp
  unfold coupleNode
  by_cases hlt : t.nameOf a < t.nameOf b
  · refine ⟨a, b, Or.inl ⟨rfl, rfl⟩, ?_⟩
    rw [← hkey]
    simp only [if_pos hlt]
  · refine ⟨b, a, Or.inr ⟨rfl, rfl⟩, ?_⟩
    rw [← hkey]
    simp only [if_neg hlt]

theorem coupleNode_comm (t : FamilyTree) (a b : PersonId) :
    t.coupleNode a b = t.coupleNode b a := by
  unfold coupleNode
  rcases lt_trichotomy (t.nameOf a) (t.nameOf b) with hlt | heq | hgt
  · simp only [if_pos hlt, if_neg hlt.asymm]
  · simp only [heq]
  · simp only [if_pos hgt, if_neg hgt.asymm]

theorem Lettered.coupleNode_ne_nameOf (l : Lettered t) {i : PersonId} (h : i < t.size)
    (a b : PersonId) : t.coupleNode a b ≠ t.nameOf i := by
  intro e
  obtain ⟨x, y, -, hkey⟩ := t.exists_coupleNode_eq a b
  apply l.underscore_notMem h
  rw [← e, hkey]
  exact List.mem_append_right _ List.mem_cons_self

/-- The first underscore ends the word in front, the second parts the names. -/
theorem Lettered.coupleNode_inj (l : Lettered t) (r : Registered t) {a b c d : PersonId}
    (ha : a < t.size) (hb : b < t.size) (hc : c < t.size) (hd : d < t.size)
    (h : t.coupleNode a b = t.coupleNode c d) : a = c ∧ b = d ∨ a = d ∧ b = c := by
  obtain ⟨x, y, hxy, hab⟩ := t.exists_coupleNode_eq a b
  obtain ⟨z, w, hzw, hcd⟩ := t.exists_coupleNode_eq c d
  have hx : x < t.size := by grind
  have hy : y < t.size := by grind
  have hz : z < t.size := by grind
  have hw : w < t.size := by grind
  rw [h, hcd] at hab
  have hrest := (List.cons.inj (List.append_cancel_left hab)).2
  obtain ⟨hfirst, -, hlast⟩ :=
    (List.append_cons_inj_of_notMem (l.underscore_notMem hz) (l.underscore_notMem hw)).mp hrest
  have hzx : z = x := r.nameOf_inj hz hx (String.toList_injective hfirst)
  have hwy : w = y := r.nameOf_inj hw hy (String.toList_injective hlast)
  grind

end Pedigree.FamilyTree

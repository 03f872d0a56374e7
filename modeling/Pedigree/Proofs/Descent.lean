import Pedigree.Proofs.Ancestry
import Pedigree.Proofs.Couples

/-! Parents who are married to each other. Main statement: a child has no other parents than two who
are married, and a diagram leads from their couple to the child; otherwise it leads from each parent
that the child has. -/

namespace Pedigree.FamilyTree

/-- Two parents of a child who are married to each other. -/
def BornTo (t : FamilyTree) (c a b : PersonId) : Prop :=
  a ∈ t.parentsOf c ∧ b ∈ t.parentsOf c ∧ t.spouseOf a = some b

/-- A tree as histories leave it: records agree, and nobody has more than two parents. -/
structure WellKept (t : FamilyTree) : Prop where
  registered : Registered t
  mirrored : Mirrored t
  parentsDeclared : ParentsDeclared t
  nodup_parentsOf : ∀ c, (t.parentsOf c).Nodup
  length_parentsOf_le : ∀ c, (t.parentsOf c).length ≤ 2

theorem wellKept_ofHistory {cs : List Change} (h : Fitting cs) : WellKept (ofHistory cs) where
  registered := registered_ofHistory h
  mirrored := mirrored_ofHistory h
  parentsDeclared := (recorded_ofHistory h).parentsDeclared
  nodup_parentsOf c := by
    rw [(recorded_ofHistory h).parentsOf_eq]
    exact nodup_eraseDups _
  length_parentsOf_le := (recorded_ofHistory h).length_parentsOf_le

variable {t : FamilyTree}

theorem Mirrored.lt_size (m : Mirrored t) {a b : PersonId} (h : t.spouseOf a = some b) :
    a < t.size ∧ b < t.size :=
  ⟨lt_size_of_spouseOf h, lt_size_of_spouseOf (m.symm h)⟩

theorem WellKept.mem_couples_or_swap (w : WellKept t) {a b : PersonId}
    (h : t.spouseOf a = some b) : (a, b) ∈ t.couples ∨ (b, a) ∈ t.couples := by
  rcases Nat.lt_trichotomy a b with hlt | heq | hgt
  · exact Or.inl ((w.registered.mem_couples_iff w.mirrored).mpr ⟨hlt, h⟩)
  · exact absurd h (heq ▸ w.mirrored.irrefl a)
  · exact Or.inr ((w.registered.mem_couples_iff w.mirrored).mpr ⟨hgt, w.mirrored.symm h⟩)

theorem BornTo.swap (m : Mirrored t) {c a b : PersonId} (h : t.BornTo c a b) : t.BornTo c b a :=
  ⟨h.2.1, h.1, m.symm h.2.2⟩

theorem WellKept.parent_of_bornTo (w : WellKept t) {c a b p : PersonId} (h : t.BornTo c a b)
    (hp : p ∈ t.parentsOf c) : p = a ∨ p = b := by
  obtain ⟨ha, hb, hab⟩ := h
  by_contra hother
  obtain ⟨hpa, hpb⟩ := not_or.mp hother
  have hne : a ≠ b := by
    intro e
    exact w.mirrored.irrefl a (e ▸ hab)
  have hthree : [p, a, b].Nodup := by simp [hpa, hpb, hne]
  have hsub : [p, a, b] ⊆ t.parentsOf c := by simp [hp, ha, hb]
  have hle := (List.subperm_of_subset hthree hsub).length_le
  exact absurd (hle.trans (w.length_parentsOf_le c)) (by simp)

theorem WellKept.bornTo_unique (w : WellKept t) {c a b x y : PersonId} (h : t.BornTo c a b)
    (h' : t.BornTo c x y) : x = a ∧ y = b ∨ x = b ∧ y = a := by
  have hspouse : t.spouseOf x = some y := h'.2.2
  rcases w.parent_of_bornTo h h'.1 with rfl | rfl
  · exact Or.inl ⟨rfl, Option.some.inj (hspouse.symm.trans h.2.2)⟩
  · exact Or.inr ⟨rfl, Option.some.inj (hspouse.symm.trans (w.mirrored.symm h.2.2))⟩

theorem WellKept.parentNodes_eq_of_bornTo (w : WellKept t) {c a b : PersonId} {p : Person}
    (hp : t.person? c = some p) (h : t.BornTo c a b) : t.parentNodes p = [t.coupleNode a b] := by
  have hparents : t.parentsOf c = p.parents := parentsOf_of_person? hp
  have hall : ∀ q ∈ p.parents, q = a ∨ q = b := by
    intro q hq
    exact w.parent_of_bornTo h (hparents ▸ hq)
  have hnodup : p.parents.Nodup := hparents ▸ w.nodup_parentsOf c
  have hle : p.parents.length ≤ 2 := hparents ▸ w.length_parentsOf_le c
  obtain ⟨ha, hb, hab⟩ := h
  rw [hparents] at ha hb
  have hba : t.spouseOf b = some a := w.mirrored.symm hab
  have hne : a ≠ b := by
    intro e
    exact w.mirrored.irrefl a (e ▸ hab)
  unfold parentNodes
  match hps : p.parents with
  | [] =>
    rw [hps] at ha
    exact absurd ha List.not_mem_nil
  | [q] =>
    rw [hps] at ha hb
    have haq : a = q := List.mem_singleton.mp ha
    have hbq : b = q := List.mem_singleton.mp hb
    exact absurd (haq.trans hbq.symm) hne
  | [q, r] =>
    rw [hps] at hall hnodup
    have hqr : q ≠ r := by
      intro e
      exact (List.nodup_cons.mp hnodup).1 (List.mem_singleton.mpr e)
    rcases hall q (by simp) with rfl | rfl
    · obtain rfl := (hall r (by simp)).resolve_left (Ne.symm hqr)
      exact if_pos hab
    · obtain rfl := (hall r (by simp)).resolve_right (Ne.symm hqr)
      rw [t.coupleNode_comm r q]
      exact if_pos hba
  | q :: r :: s :: rest =>
    rw [hps] at hle
    simp at hle

theorem parentNodes_eq_of_not_bornTo {c : PersonId} {p : Person} (hp : t.person? c = some p)
    (h : ∀ a b, ¬t.BornTo c a b) : t.parentNodes p = (t.parentsOf c).map t.nameOf := by
  have hparents : t.parentsOf c = p.parents := parentsOf_of_person? hp
  rw [hparents]
  unfold parentNodes
  split
  · rename_i a b hab
    rw [hab] at hparents ⊢
    have hapart : t.spouseOf a ≠ some b := by
      intro hs
      exact h a b ⟨by simp [hparents], by simp [hparents], hs⟩
    exact if_neg hapart
  · rfl

end Pedigree.FamilyTree

import Mathlib.Data.List.Perm.Subperm
import Pedigree.Proofs.Parentage

/-! Chains of parent links. Main statement: above a person whose ancestry has no cycle, no chain is
as long as the tree has persons. -/

namespace Pedigree.FamilyTree

/-- A chain of so many parent links from a person up to another. -/
inductive Ascent (t : FamilyTree) (p : PersonId) : Nat → PersonId → Prop
  | refl : Ascent t p 0 p
  | up {n : Nat} {q r : PersonId} : Ascent t p n q → r ∈ t.parentsOf q → Ascent t p (n + 1) r

/-- Nobody among a person and its ancestors is an ancestor of itself. -/
def AcyclicAbove (t : FamilyTree) (anchor : PersonId) : Prop :=
  ∀ n p, Ascent t anchor n p → ∀ k, ¬Ascent t p (k + 1) p

def ParentsDeclared (t : FamilyTree) : Prop :=
  ∀ ⦃c p⦄, p ∈ t.parentsOf c → p < t.size

def KinMirrored (t : FamilyTree) : Prop :=
  ∀ ⦃p c⦄, p ∈ t.parentsOf c ↔ c ∈ t.childrenOf p

variable {t : FamilyTree}

theorem lt_size_of_mem_parentsOf {c p : PersonId} (h : p ∈ t.parentsOf c) : c < t.size :=
  lt_size_of_look_ne (f := Person.parents) (x := []) (List.ne_nil_of_mem h)

theorem KinMirrored.parentsDeclared (hk : t.KinMirrored) : t.ParentsDeclared :=
  fun _ _ hp => lt_size_of_mem_childrenOf (hk.mp hp)

theorem Recorded.kinMirrored {T : List (FamilyTree × Change)} (r : Recorded T t) :
    t.KinMirrored :=
  fun _ _ => r.mem_parentsOf_iff

theorem Recorded.parentsDeclared {T : List (FamilyTree × Change)} (r : Recorded T t) :
    t.ParentsDeclared :=
  r.kinMirrored.parentsDeclared

namespace Ascent

theorem lt_size (hd : t.ParentsDeclared) {n : Nat} {p q : PersonId} (h : Ascent t p n q)
    (hp : p < t.size) : q < t.size := by
  cases h with
  | refl => exact hp
  | up _ hr => exact hd hr

theorem mem_of_closed {p q : PersonId} {n : Nat} (h : Ascent t p n q) {ps : List PersonId}
    (hp : p ∈ ps) (hps : ∀ c ∈ ps, ∀ r ∈ t.parentsOf c, r ∈ ps) : q ∈ ps := by
  induction h with
  | refl => exact hp
  | up _ hr ih => exact hps _ ih _ hr

theorem trans {p q r : PersonId} {m n : Nat} (hpq : Ascent t p m q) (hqr : Ascent t q n r) :
    Ascent t p (m + n) r := by
  induction hqr with
  | refl => exact hpq
  | up _ hr ih => exact up ih hr

theorem exists_nodup {anchor : PersonId} (hac : t.AcyclicAbove anchor) {n : Nat} {r : PersonId}
    (h : Ascent t anchor n r) :
    ∃ l : List PersonId, l.length = n + 1 ∧ l.Nodup ∧
      ∀ p ∈ l, (∃ m, Ascent t anchor m p) ∧ ∃ k, Ascent t p k r := by
  induction h with
  | refl =>
    refine ⟨[anchor], rfl, List.nodup_singleton anchor, fun p hp => ?_⟩
    rw [List.mem_singleton.mp hp]
    exact ⟨⟨0, refl⟩, 0, refl⟩
  | @up n q r hq hr ih =>
    obtain ⟨l, hl, hnodup, hmem⟩ := ih
    -- If the new person stood on the chain already, the chain would lead from it back to it.
    have hnew : r ∉ l := fun hrl => by
      obtain ⟨k, hk⟩ := (hmem r hrl).2
      exact hac (n + 1) r (up hq hr) k (up hk hr)
    refine ⟨r :: l, by rw [List.length_cons, hl], List.nodup_cons.mpr ⟨hnew, hnodup⟩, ?_⟩
    intro p hp
    rcases List.mem_cons.mp hp with rfl | hp
    · exact ⟨⟨n + 1, up hq hr⟩, 0, refl⟩
    · obtain ⟨hm, k, hk⟩ := hmem p hp
      exact ⟨hm, k + 1, up hk hr⟩

theorem length_lt_size (hd : t.ParentsDeclared) {anchor : PersonId} (ha : anchor < t.size)
    (hac : t.AcyclicAbove anchor) {n : Nat} {r : PersonId} (h : Ascent t anchor n r) :
    n < t.size := by
  obtain ⟨l, hl, hnodup, hmem⟩ := h.exists_nodup hac
  have hsub : l ⊆ List.range t.size := fun p hp => by
    obtain ⟨⟨m, hm⟩, -⟩ := hmem p hp
    exact List.mem_range.mpr (hm.lt_size hd ha)
  have hle := (List.subperm_of_subset hnodup hsub).length_le
  rw [hl, List.length_range] at hle
  exact hle

end Ascent

theorem acyclicAbove_of_lt (h : ∀ c < t.size, ∀ p ∈ t.parentsOf c, c < p) (anchor : PersonId) :
    t.AcyclicAbove anchor := by
  have hlt : ∀ {c p}, p ∈ t.parentsOf c → c < p := fun {c p} hp =>
    h c (lt_size_of_mem_parentsOf hp) p hp
  have hle : ∀ {n p q}, Ascent t p n q → p ≤ q := by
    intro n p q hpq
    induction hpq with
    | refl => exact Nat.le_refl _
    | up _ hr ih => exact Nat.le_of_lt (Nat.lt_of_le_of_lt ih (hlt hr))
  intro n p _ k hcycle
  cases hcycle with
  | up hq hp => exact Nat.lt_irrefl _ (Nat.lt_of_le_of_lt (hle hq) (hlt hp))

end Pedigree.FamilyTree

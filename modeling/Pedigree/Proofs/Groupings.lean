import Mathlib.Data.List.Induction
import Mathlib.Order.Defs.Unbundled
import Pedigree.Grouping

/-! What a grouping keeps of the values that went into it. Main statements: keys ascend and no group
is empty; a grouping loses and doubles nothing; the values under one key are those that came with
it, in the order in which they came. -/

namespace Pedigree.Grouping

open scoped List

section
variable {κ α : Type} {g : Grouping κ α} {k : κ}

theorem toList_cons (j : κ) (as : List α) (g : Grouping κ α) :
    toList ((j, as) :: g) = as.map (j, ·) ++ toList g := List.flatMap_cons

theorem map_snd_toList (g : Grouping κ α) : (toList g).map Prod.snd = g.flatMap (·.2) := by
  unfold toList
  rw [List.map_flatMap]
  simp only [List.map_map, Function.comp_def, List.map_id']

theorem exists_key_of_mem_toList {x : κ × α} (h : x ∈ toList g) : ∃ y ∈ g, y.1 = x.1 := by
  obtain ⟨y, hy, hx⟩ := List.mem_flatMap.mp h
  obtain ⟨a, -, rfl⟩ := List.mem_map.mp hx
  exact ⟨y, hy, rfl⟩

variable [LT κ]

/-- Keys ascend and no group is empty. -/
structure Proper (g : Grouping κ α) : Prop where
  ascending : g.Pairwise fun x y => x.1 < y.1
  nonempty : ∀ x ∈ g, x.2 ≠ []

theorem Proper.exists_mem_toList (h : Proper g) {x : κ × List α} (hx : x ∈ g) :
    ∃ a, (x.1, a) ∈ toList g := by
  obtain ⟨a, ha⟩ := List.exists_mem_of_ne_nil x.2 (h.nonempty x hx)
  exact ⟨a, List.mem_flatMap.mpr ⟨x, hx, List.mem_map.mpr ⟨a, ha, rfl⟩⟩⟩

theorem Proper.of_cons {x : κ × List α} (h : Proper (x :: g)) :
    Proper g ∧ ∀ y ∈ toList g, x.1 < y.1 := by
  have hpairs := List.pairwise_cons.mp h.ascending
  refine ⟨⟨hpairs.2, fun y hy => h.nonempty y (List.mem_cons_of_mem x hy)⟩, ?_⟩
  intro y hy
  obtain ⟨z, hz, hzy⟩ := exists_key_of_mem_toList hy
  have hlt : x.1 < z.1 := hpairs.1 z hz
  rwa [hzy] at hlt

section
variable [DecidableEq κ] [Std.Irrefl fun x y : κ => x < y]

theorem filter_eq_nil_of_lt {xs : List (κ × α)} (h : ∀ x ∈ xs, k < x.1) :
    xs.filter (·.1 = k) = [] := by
  apply List.filter_eq_nil_iff.mpr
  intro x hx hxk
  have hlt : k < x.1 := h x hx
  rw [of_decide_eq_true hxk] at hlt
  exact irrefl_of (· < ·) k hlt

theorem Proper.eq_of_mem (h : Proper g) {as : List α} (hk : (k, as) ∈ g) :
    as = ((toList g).filter (·.1 = k)).map Prod.snd := by
  induction g with
  | nil => exact absurd hk List.not_mem_nil
  | cons y g ih =>
    obtain ⟨j, bs⟩ := y
    obtain ⟨htail, hbehind⟩ := h.of_cons
    rw [toList_cons, List.filter_append, List.map_append]
    rcases List.mem_cons.mp hk with hhead | hmem
    · obtain ⟨rfl, rfl⟩ := Prod.mk.inj hhead
      have hall : (as.map (k, ·)).filter (·.1 = k) = as.map (k, ·) := by simp
      rw [hall, filter_eq_nil_of_lt hbehind, List.map_map, List.map_nil, List.append_nil]
      exact (List.map_id as).symm
    · have hlt : j < k := (List.pairwise_cons.mp h.ascending).1 _ hmem
      have hjk : j ≠ k := ne_of_irrefl hlt
      have hnone : (bs.map (j, ·)).filter (·.1 = k) = [] := by simp [hjk]
      rw [hnone, List.map_nil, List.nil_append]
      exact ih htail hmem

end

variable [DecidableLT κ]

theorem key_of_mem_add {a : α} {x : κ × List α} (h : x ∈ add k a g) :
    x.1 = k ∨ ∃ y ∈ g, y.1 = x.1 := by
  induction g with
  | nil =>
    have hx : x = (k, [a]) := List.mem_singleton.mp h
    exact Or.inl (congrArg Prod.fst hx)
  | cons y g ih =>
    unfold add at h
    split at h
    · rcases List.mem_cons.mp h with hx | hx
      · exact Or.inl (congrArg Prod.fst hx)
      · exact Or.inr ⟨x, hx, rfl⟩
    · split at h
      · rcases List.mem_cons.mp h with hx | hx
        · exact Or.inr ⟨y, List.mem_cons_self, (congrArg Prod.fst hx).symm⟩
        · refine (ih hx).imp_right ?_
          intro hold
          obtain ⟨z, hz, hzx⟩ := hold
          exact ⟨z, List.mem_cons_of_mem y hz, hzx⟩
      · rcases List.mem_cons.mp h with hx | hx
        · exact Or.inr ⟨y, List.mem_cons_self, (congrArg Prod.fst hx).symm⟩
        · exact Or.inr ⟨x, List.mem_cons_of_mem y hx, rfl⟩

theorem ofList_concat (xs : List (κ × α)) (x : κ × α) :
    ofList (xs ++ [x]) = add x.1 x.2 (ofList xs) := by
  unfold ofList
  rw [List.foldl_append]
  rfl

variable [IsStrictTotalOrder κ (· < ·)]

theorem Proper.add (h : Proper g) (k : κ) (a : α) : Proper (add k a g) := by
  induction g with
  | nil => exact ⟨List.pairwise_singleton _ _, by simp [Grouping.add]⟩
  | cons y g ih =>
    obtain ⟨htail, -⟩ := h.of_cons
    have hpairs := List.pairwise_cons.mp h.ascending
    have hy : y.2 ≠ [] := h.nonempty y List.mem_cons_self
    unfold Grouping.add
    split
    · rename_i hlt
      refine ⟨List.pairwise_cons.mpr ⟨?_, h.ascending⟩, ?_⟩
      · intro x hx
        rcases List.mem_cons.mp hx with rfl | hx
        · exact hlt
        · exact trans_of (· < ·) hlt (hpairs.1 x hx)
      · exact List.forall_mem_cons.mpr ⟨by simp, h.nonempty⟩
    · split
      · rename_i hgt
        have hadded := ih htail
        refine ⟨List.pairwise_cons.mpr ⟨?_, hadded.ascending⟩, ?_⟩
        · intro x hx
          rcases key_of_mem_add hx with hk | ⟨z, hz, hzx⟩
          · exact hk ▸ hgt
          · exact hzx ▸ hpairs.1 z hz
        · exact List.forall_mem_cons.mpr ⟨hy, hadded.nonempty⟩
      · refine ⟨List.pairwise_cons.mpr ⟨hpairs.1, hpairs.2⟩, ?_⟩
        exact List.forall_mem_cons.mpr ⟨by simp, htail.nonempty⟩

theorem Proper.exists_split_add (h : Proper g) (k : κ) (a : α) :
    ∃ before after, toList g = before ++ after ∧
      toList (Grouping.add k a g) = before ++ (k, a) :: after ∧ ∀ x ∈ after, k < x.1 := by
  induction g with
  | nil => exact ⟨[], [], rfl, rfl, by simp⟩
  | cons y g ih =>
    obtain ⟨j, as⟩ := y
    obtain ⟨htail, hbehind⟩ := h.of_cons
    unfold Grouping.add
    split
    · rename_i hlt
      refine ⟨[], toList ((j, as) :: g), rfl, toList_cons k [a] _, ?_⟩
      intro x hx
      rw [toList_cons, List.mem_append, List.mem_map] at hx
      rcases hx with ⟨b, -, rfl⟩ | hx
      · exact hlt
      · exact trans_of (· < ·) hlt (hbehind x hx)
    · rename_i hnlt
      split
      · obtain ⟨before, after, hold, hnew, hafter⟩ := ih htail
        refine ⟨as.map (j, ·) ++ before, after, ?_, ?_, hafter⟩
        · rw [toList_cons, hold, List.append_assoc]
        · rw [toList_cons, hnew, List.append_assoc]
      · rename_i hngt
        have hjk : j = k := (trichotomous_of (· < ·) j k).resolve_left hngt |>.resolve_right hnlt
        subst hjk
        refine ⟨as.map (j, ·), toList g, toList_cons j as g, ?_, hbehind⟩
        rw [toList_cons, List.map_append, List.append_assoc]
        rfl

theorem proper_ofList (xs : List (κ × α)) : Proper (ofList xs) := by
  induction xs using List.reverseRecOn with
  | nil => exact ⟨List.Pairwise.nil, by simp [ofList]⟩
  | append_singleton xs x ih =>
    rw [ofList_concat]
    exact ih.add x.1 x.2

theorem toList_ofList_perm (xs : List (κ × α)) : toList (ofList xs) ~ xs := by
  induction xs using List.reverseRecOn with
  | nil => exact .nil
  | append_singleton xs x ih =>
    obtain ⟨before, after, hold, hnew, -⟩ := (proper_ofList xs).exists_split_add x.1 x.2
    rw [ofList_concat, hnew]
    calc before ++ x :: after ~ x :: (before ++ after) := List.perm_middle
      _ ~ x :: xs := (hold ▸ ih).cons x
      _ ~ xs ++ [x] := (List.perm_append_singleton x xs).symm

variable [DecidableEq κ]

theorem filter_toList_ofList (xs : List (κ × α)) (k : κ) :
    (toList (ofList xs)).filter (·.1 = k) = xs.filter (·.1 = k) := by
  induction xs using List.reverseRecOn with
  | nil => rfl
  | append_singleton xs x ih =>
    obtain ⟨before, after, hold, hnew, hafter⟩ := (proper_ofList xs).exists_split_add x.1 x.2
    have hx : (toList (Grouping.add x.1 x.2 (ofList xs))).filter (·.1 = k) =
        (toList (ofList xs)).filter (·.1 = k) ++ [x].filter (·.1 = k) := by
      rw [hold, hnew, List.filter_append, List.filter_append, List.filter_cons]
      by_cases hk : x.1 = k
      · subst hk
        simp [filter_eq_nil_of_lt hafter]
      · simp [hk]
    rw [ofList_concat, hx, ih, List.filter_append]

/-- A group holds the values that came with its key, in the order in which they came. -/
theorem eq_of_mem_ofList {xs : List (κ × α)} {as : List α} (h : (k, as) ∈ ofList xs) :
    as = (xs.filter (·.1 = k)).map Prod.snd := by
  rw [← filter_toList_ofList]
  exact (proper_ofList xs).eq_of_mem h

end
end Pedigree.Grouping

import Pedigree.Proofs.Generations

/-! Siblings of ancestors. A survey serves its queue in order of generation, and the first ancestor
who is served gives its generation to the siblings that have none. Main statements: a sibling of
ancestors never stands above any of them, and stands below those whom a longer chain moves up later;
every child of an ancestor stands below it; nobody else has a generation. -/

namespace Pedigree

namespace Survey

open FamilyTree

variable {t : FamilyTree} {anchor : PersonId} {s s' : Survey} {p : PersonId} {g : Nat}

/-- The queue is in order and spans two generations, and nobody who was only filled in stands above
the lower one. -/
structure Layered (g : Nat) (s : Survey) : Prop where
  sorted : s.pending.Pairwise fun x y => x.2 ≤ y.2
  span : ∀ e ∈ s.pending, g ≤ e.2 ∧ e.2 ≤ g + 1
  label_le : ∀ {c k}, s.label c = some k → c ∉ s.ancestral → k ≤ g

theorem layered_start (ha : anchor < t.size) : Layered 0 (start t anchor) where
  sorted := List.pairwise_singleton _ _
  span e he := by
    rw [List.mem_singleton.mp he]
    exact ⟨Nat.le_refl 0, Nat.zero_le 1⟩
  label_le {c k} hk hc := by
    rw [label_start ha, if_neg fun e => hc (List.mem_singleton.mpr e.symm)] at hk
    exact absurd hk (Option.some_ne_none k).symm

theorem Layered.move (hd : t.ParentsDeclared) (hs : Sound t anchor s)
    (hm : Move t anchor p g s s') (h : Layered g s) : Layered g s' := by
  cases hm with
  | @raise q hq hr =>
    refine ⟨?_, fun e he => ?_, fun {c k} hk hc => ?_⟩
    · refine List.pairwise_append.mpr ⟨h.sorted, List.pairwise_singleton _ _, fun e he e' he' => ?_⟩
      rw [List.mem_singleton.mp he']
      exact (h.span e he).2
    · rcases List.mem_append.mp he with he | he
      · exact h.span e he
      · rw [List.mem_singleton.mp he]
        exact ⟨Nat.le_succ g, Nat.le_refl _⟩
    · obtain ⟨hqc, hold⟩ := not_or.mp (mt mem_ancestral_raise.mpr hc)
      rw [hs.label_of_raise (hd hq), if_neg (Ne.symm hqc)] at hk
      exact h.label_le hk hold
  | @fill q c hq hc hnone =>
    refine ⟨h.sorted, h.span, fun {r k} hk hr => ?_⟩
    rw [label_setLabel] at hk
    split at hk
    · exact Nat.le_of_eq (Option.some.inj hk).symm
    · exact h.label_le hk hr

theorem Layered.pop (h : Layered g s) {k : Nat} {rest : List (PersonId × Nat)}
    (hpending : s.pending = (p, k) :: rest) : Layered k s.pop := by
  -- The entry at the head of the queue sets the lower generation from now on.
  have hsorted := h.sorted
  rw [hpending, List.pairwise_cons] at hsorted
  have hg : g ≤ k := (h.span (p, k) (hpending ▸ List.mem_cons_self)).1
  have hrest : s.pop.pending = rest := by rw [Survey.pop, hpending, List.tail_cons]
  refine ⟨hrest ▸ hsorted.2, fun e he => ?_, fun hk hc => (h.label_le hk hc).trans hg⟩
  rw [hrest] at he
  have hle := (h.span e (hpending ▸ List.mem_cons_of_mem _ he)).2
  exact ⟨hsorted.1 e he, by omega⟩

theorem sound_and_layered_move (hd : t.ParentsDeclared) (hg : g < t.size)
    (hp : Ascent t anchor g p) :
    ∀ s s', Sound t anchor s ∧ Layered g s → Move t anchor p g s s' →
      Sound t anchor s' ∧ Layered g s' :=
  fun _ _ hs hm => ⟨hs.1.move hd hg hp hm, hs.2.move hd hs.1 hm⟩

theorem Layered.serve (hd : t.ParentsDeclared) (hs : Sound t anchor s) (hg : g < t.size)
    (hp : Ascent t anchor g p) (h : Layered g s) : Layered g (serve t anchor p g s) :=
  (serve_preserves (sound_and_layered_move hd hg hp) ⟨hs, h⟩).2

theorem Layered.step (hd : t.ParentsDeclared) (hs : Sound t anchor s) (h : Layered g s) :
    ∃ k, Layered k (s.step t anchor) := by
  obtain ⟨-, hstep⟩ | ⟨p, k, rest, hpending, hk, hp, ⟨-, hstep⟩ | ⟨-, hstep⟩⟩ := hs.step_cases
  · rw [hstep]
    exact ⟨g, h⟩
  · rw [hstep]
    exact ⟨k, (h.pop hpending).serve hd hs.pop hk hp⟩
  · rw [hstep]
    exact ⟨k, h.pop hpending⟩

/-- The children of a person's parents have a generation; those who are no ancestors stand no higher
than the person. -/
def Filled (t : FamilyTree) (s : Survey) (p : PersonId) (g : Nat) : Prop :=
  ∀ q ∈ t.parentsOf p, ∀ c ∈ t.childrenOf q,
    ∃ k, s.label c = some k ∧ (c ∈ s.ancestral ∨ k ≤ g)

theorem exists_label_move (hd : t.ParentsDeclared) (hs : Sound t anchor s)
    (hm : Move t anchor p g s s') {c : PersonId} (hc : ∃ k, s.label c = some k) :
    ∃ k, s'.label c = some k := by
  obtain ⟨k, hk⟩ := hc
  cases hm with
  | @raise q hq hr =>
    rw [hs.label_of_raise (hd hq)]
    split
    · exact ⟨g + 1, rfl⟩
    · exact ⟨k, hk⟩
  | fill hq hc hnone => exact ⟨k, label_fill_of_some hnone hk⟩

theorem lasting_filled (hd : t.ParentsDeclared) : Lasting t anchor (Filled t) where
  pop h := h
  move {s s' p g r k} hs hm h q hq c hc := by
    obtain ⟨j, hj, hle⟩ := h q hq c hc
    cases hm with
    | @raise u hu hr =>
      rw [hs.label_of_raise (hd hu)]
      split
      · rename_i huc
        exact ⟨g + 1, rfl, Or.inl (mem_ancestral_raise.mpr (Or.inl huc.symm))⟩
      · exact ⟨j, hj, hle.imp_left fun hmem => mem_ancestral_raise.mpr (Or.inr hmem)⟩
    | fill hu hd hnone => exact ⟨j, label_fill_of_some hnone hj, hle⟩

theorem Sound.exists_label_backfill (hs : Sound t anchor s) {c : PersonId} (hc : c < t.size) :
    ∃ k, (s.backfill g c).label c = some k := by
  unfold backfill
  split
  · rw [label_setLabel, if_pos ⟨rfl, hs.length_labels ▸ hc⟩]
    exact ⟨g, rfl⟩
  · rename_i hsome
    exact Option.ne_none_iff_exists'.mp (mt Option.isNone_iff_eq_none.mpr hsome)

theorem exists_label_serve (hkin : t.KinMirrored) (hs : Sound t anchor s) (hg : g < t.size)
    (hp : Ascent t anchor g p) :
    ∀ q ∈ t.parentsOf p, ∀ c ∈ t.childrenOf q, ∃ k, (serve t anchor p g s).label c = some k := by
  have hd := hkin.parentsDeclared
  have hmove {c : PersonId} : ∀ s s', (Sound t anchor s ∧ ∃ k, s.label c = some k) →
      Move t anchor p g s s' → Sound t anchor s' ∧ ∃ k, s'.label c = some k :=
    fun s s' hs hm => ⟨hs.1.move hd hg hp hm, exists_label_move hd hs.1 hm hs.2⟩
  have hsound : ∀ s s', Sound t anchor s → Move t anchor p g s s' → Sound t anchor s' :=
    fun s s' hs hm => hs.move hd hg hp hm
  -- Over the parents of `p`, and for each of them over its children.
  refine foldl_establishes (P := Sound t anchor)
    (Q := fun q s => ∀ c ∈ t.childrenOf q, ∃ k, s.label c = some k)
    (fun q hq s hs => ⟨hs.meet hd hg hp hq, ?_⟩) (fun q hq s hs r hr c hc => ?_) hs
  · refine foldl_establishes (P := Sound t anchor) (Q := fun c s => ∃ k, s.label c = some k)
      (fun c hcq s hs => ?_) (fun c hcq s hs r hr => ?_) ?_
    · have hsize := lt_size_of_mem_parentsOf (hkin.mpr hcq)
      exact ⟨backfill_preserves hsound hq hcq hs, hs.exists_label_backfill hsize⟩
    · exact (backfill_preserves hmove hq hcq ⟨hs, hr⟩).2
    · split
      · rename_i hr
        exact hs.move hd hg hp (.raise hq hr)
      · exact hs
  · exact (meet_preserves hmove hq ⟨hs, hr c hc⟩).2

theorem filled_finish (hkin : t.KinMirrored) (ha : anchor < t.size)
    (hp : p ∈ (finish t anchor).ancestral) (hg : (finish t anchor).label p = some g) :
    Filled t (finish t anchor) p g := by
  have hd := hkin.parentsDeclared
  refine handled_finish hd ha (lasting_filled hd) (P := fun s => ∃ k, Layered k s)
    ⟨0, layered_start ha⟩ (fun s hs h => h.elim fun _ h => h.step hd hs)
    (fun s hs h p g rest hpending q hq c hc => ?_) hp hg
  obtain ⟨hlt, hasc⟩ := hs.of_mem_pending (hpending ▸ List.mem_cons_self)
  obtain ⟨j, hj⟩ := h
  have hlayered := (hj.pop hpending).serve hd hs.pop hlt hasc
  obtain ⟨k, hk⟩ := exists_label_serve hkin hs.pop hlt hasc q hq c hc
  exact ⟨k, hk, or_iff_not_imp_left.mpr fun hmem => hlayered.label_le hk hmem⟩

/-- Whoever has a generation was met as an ancestor, or is a child of a parent of somebody to whom a
chain of that length leads. -/
def Traced (t : FamilyTree) (anchor : PersonId) (s : Survey) : Prop :=
  ∀ c k, s.label c = some k → c ∈ s.ancestral ∨
    ∃ p, Ascent t anchor k p ∧ ∃ q ∈ t.parentsOf p, c ∈ t.childrenOf q

theorem traced_start (ha : anchor < t.size) : Traced t anchor (start t anchor) := by
  intro c k hk
  rw [label_start ha] at hk
  split at hk
  · rename_i hc
    exact Or.inl (List.mem_singleton.mpr hc.symm)
  · exact absurd hk (Option.some_ne_none k).symm

theorem Traced.move (hd : t.ParentsDeclared) (hs : Sound t anchor s) (hp : Ascent t anchor g p)
    (hm : Move t anchor p g s s') (h : Traced t anchor s) : Traced t anchor s' := by
  intro r k hk
  cases hm with
  | @raise q hq hr =>
    rw [hs.label_of_raise (hd hq)] at hk
    split at hk
    · rename_i hqr
      exact Or.inl (mem_ancestral_raise.mpr (Or.inl hqr.symm))
    · exact (h r k hk).imp_left fun hmem => mem_ancestral_raise.mpr (Or.inr hmem)
  | @fill q c hq hc hnone =>
    rw [label_setLabel] at hk
    split at hk
    · rename_i hcr
      obtain rfl := Option.some.inj hk
      exact Or.inr ⟨p, hp, q, hq, hcr.1 ▸ hc⟩
    · exact h r k hk

theorem traced_finish (hd : t.ParentsDeclared) (ha : anchor < t.size) :
    Traced t anchor (finish t anchor) := by
  refine (run_preserves (P := fun s => Sound t anchor s ∧ Traced t anchor s) (fun s hs => ?_) _
    ⟨sound_start ha, traced_start ha⟩).2
  exact ⟨hs.1.step hd, hs.1.step_preserves hd id (fun _ hp hu h hm => h.move hd hu hp hm) hs.2⟩

end Survey

namespace FamilyTree

/-- Two persons have a parent in common, or are one person that has a parent. -/
def SharesParent (t : FamilyTree) (p c : PersonId) : Prop :=
  ∃ r ∈ t.parentsOf p, r ∈ t.parentsOf c

instance (t : FamilyTree) (p c : PersonId) : Decidable (t.SharesParent p c) :=
  inferInstanceAs (Decidable (∃ r ∈ t.parentsOf p, r ∈ t.parentsOf c))

/-- Above an anchor without a cycle, every child of an ancestor has a generation, below that of the
ancestor; a person who is neither the anchor nor an ancestor nor a child of one has none. -/
theorem generationOf_child_lt {cs : List Change} (h : Fitting cs) {anchor : PersonId}
    (ha : anchor < (ofHistory cs).size) (hac : (ofHistory cs).AcyclicAbove anchor) :
    (∀ r n, Ascent (ofHistory cs) anchor (n + 1) r → ∀ c ∈ (ofHistory cs).childrenOf r,
      ∃ k g, ((ofHistory cs).assignGenerationsFrom anchor).generationOf c = some k ∧
        ((ofHistory cs).assignGenerationsFrom anchor).generationOf r = some g ∧ k < g) ∧
    ∀ q, q ≠ anchor → (∀ n, ¬Ascent (ofHistory cs) anchor (n + 1) q) →
      (∀ r n, Ascent (ofHistory cs) anchor (n + 1) r → q ∉ (ofHistory cs).childrenOf r) →
      ((ofHistory cs).assignGenerationsFrom anchor).generationOf q = none := by
  have hkin := (recorded_ofHistory h).kinMirrored
  have hd := hkin.parentsDeclared
  have hs := Survey.sound_finish hd ha
  simp only [generationOf_eq_label hd ha]
  refine ⟨fun r n hr c hc => ?_, fun q hne hnot hnochild => ?_⟩
  · obtain ⟨g, hg, -, hgreatest⟩ := Survey.isGreatest_label hd ha hac hr
    cases hr with
    | @up _ q _ hq hqr =>
      obtain ⟨hmem, -⟩ := Survey.exists_label_of_ascent hd ha hac hq
      obtain ⟨j, hj, hasc⟩ := hs.label_ancestral hmem
      obtain ⟨k, hk, hk'⟩ := Survey.filled_finish hkin ha hmem hj r hqr c hc
      refine ⟨k, g, hk, hg, ?_⟩
      rcases hk' with hmem' | hle
      -- A child that is an ancestor itself stands at the end of a chain that goes on to `r`.
      · obtain ⟨k', hk', hasc'⟩ := hs.label_ancestral hmem'
        obtain rfl : k = k' := Option.some.inj (hk.symm.trans hk')
        exact hgreatest (hasc'.up (hkin.mpr hc))
      · exact Nat.lt_of_le_of_lt hle (hgreatest (hasc.up hqr))
  · refine Option.eq_none_iff_forall_ne_some.mpr fun k hk => ?_
    rcases Survey.traced_finish hd ha q k hk with hmem | ⟨p, hp, r, hr, hc⟩
    · obtain ⟨n, -, hasc⟩ := hs.label_ancestral hmem
      cases hasc with
      | refl => exact hne rfl
      | up hp hq => exact hnot _ (hp.up hq)
    · exact hnochild r k (hp.up hr) hc

/-- Pierre is the father of Luc and, through Marie, a grandfather of his; Georges is the father of
Pierre and Anne, and Anne is the mother of Rose. -/
def unevenDescent : List Change :=
  [.declare "Luc" ⟨1990, 1, 1⟩ none, .declare "Marie" ⟨1970, 1, 1⟩ none,
    .declare "Pierre" ⟨1940, 1, 1⟩ none, .declare "Rose" ⟨1960, 1, 1⟩ none,
    .declare "Anne" ⟨1935, 1, 1⟩ none, .declare "Georges" ⟨1900, 1, 1⟩ none, .linkChild 2 0,
    .linkChild 1 0, .linkChild 2 1, .linkChild 4 3, .linkChild 5 2, .linkChild 5 4]

theorem acyclicAbove_unevenDescent : (ofHistory unevenDescent).AcyclicAbove 0 :=
  acyclicAbove_of_lt (by decide) 0

theorem mem_of_ascent_unevenDescent {n : Nat} {q : PersonId}
    (h : Ascent (ofHistory unevenDescent) 0 n q) : q ∈ [0, 1, 2, 5] :=
  h.mem_of_closed (by decide) (by decide)

theorem child_lt_of_unevenDescent :
    Fitting unevenDescent ∧ 0 < (ofHistory unevenDescent).size ∧
      (ofHistory unevenDescent).AcyclicAbove 0 ∧ 4 ∈ (ofHistory unevenDescent).childrenOf 5 ∧
      (∃ k g, ((ofHistory unevenDescent).assignGenerationsFrom 0).generationOf 4 = some k ∧
        ((ofHistory unevenDescent).assignGenerationsFrom 0).generationOf 5 = some g ∧ k < g) ∧
      ((ofHistory unevenDescent).assignGenerationsFrom 0).generationOf 3 = none := by
  have fit : Fitting unevenDescent := by decide
  have ha : 0 < (ofHistory unevenDescent).size := by decide
  have hac := acyclicAbove_unevenDescent
  have hgeorges : Ascent (ofHistory unevenDescent) 0 2 5 :=
    (Ascent.refl.up (q := 0) (r := 2) (by decide)).up (by decide)
  have hchild : 4 ∈ (ofHistory unevenDescent).childrenOf 5 := by decide
  obtain ⟨hlt, hnone⟩ := generationOf_child_lt fit ha hac
  refine ⟨fit, ha, hac, hchild, hlt 5 1 hgeorges 4 hchild, ?_⟩
  refine hnone 3 (by decide) (fun n hrose => ?_) (fun r n hr => ?_)
  · exact absurd (mem_of_ascent_unevenDescent hrose) (by decide)
  · have hout : ∀ r ∈ [0, 1, 2, 5], 3 ∉ (ofHistory unevenDescent).childrenOf r := by decide
    exact hout r (mem_of_ascent_unevenDescent hr)

/-- Above an anchor without a cycle, the generation of a person who is neither the anchor nor an
ancestor is the length of a chain to some ancestor with whom it shares a parent. It is never above
the generation of any of these, and equals it for those to whom no longer chain leads. -/
theorem generationOf_collateral {cs : List Change} (h : Fitting cs) {anchor : PersonId}
    (ha : anchor < (ofHistory cs).size) (hac : (ofHistory cs).AcyclicAbove anchor)
    {c : PersonId} {k : Nat}
    (hk : ((ofHistory cs).assignGenerationsFrom anchor).generationOf c = some k)
    (hc : ∀ n, ¬Ascent (ofHistory cs) anchor n c) :
    (∃ p, (ofHistory cs).SharesParent p c ∧ Ascent (ofHistory cs) anchor k p) ∧
    ∀ p n, (ofHistory cs).SharesParent p c → Ascent (ofHistory cs) anchor n p →
      ∃ g, ((ofHistory cs).assignGenerationsFrom anchor).generationOf p = some g ∧ k ≤ g ∧
        (g = k ↔ ∀ m, Ascent (ofHistory cs) anchor m p → m ≤ k) := by
  have hkin := (recorded_ofHistory h).kinMirrored
  have hd := hkin.parentsDeclared
  have hs := Survey.sound_finish hd ha
  rw [generationOf_eq_label hd ha] at hk
  have hout : c ∉ (Survey.finish (ofHistory cs) anchor).ancestral := fun hmem => by
    obtain ⟨n, -, hasc⟩ := hs.label_ancestral hmem
    exact hc n hasc
  simp only [generationOf_eq_label hd ha]
  refine ⟨?_, fun p n hshare hp => ?_⟩
  · obtain ⟨p, hp, r, hr, hcr⟩ := (Survey.traced_finish hd ha c k hk).resolve_left hout
    exact ⟨p, ⟨r, hr, hkin.mpr hcr⟩, hp⟩
  · obtain ⟨r, hr, hcr⟩ := hshare
    obtain ⟨hmem, -⟩ := Survey.exists_label_of_ascent hd ha hac hp
    obtain ⟨g, hg, hasc, hgreatest⟩ := Survey.isGreatest_label hd ha hac hp
    obtain ⟨k', hk', hle⟩ := Survey.filled_finish hkin ha hmem hg r hr c (hkin.mp hcr)
    obtain rfl : k = k' := Option.some.inj (hk.symm.trans hk')
    have hkg : k ≤ g := hle.resolve_left hout
    refine ⟨g, hg, hkg, fun e m hm => e ▸ hgreatest hm, fun hmax => ?_⟩
    exact Nat.le_antisymm (hmax g hasc) hkg

theorem collateral_of_unevenDescent :
    Fitting unevenDescent ∧ 0 < (ofHistory unevenDescent).size ∧
      (ofHistory unevenDescent).AcyclicAbove 0 ∧
      ((ofHistory unevenDescent).assignGenerationsFrom 0).generationOf 4 = some 1 ∧
      (∀ n, ¬Ascent (ofHistory unevenDescent) 0 n 4) ∧
      (ofHistory unevenDescent).SharesParent 2 4 ∧ Ascent (ofHistory unevenDescent) 0 1 2 ∧
      ∃ g, ((ofHistory unevenDescent).assignGenerationsFrom 0).generationOf 2 = some g ∧ 1 < g := by
  have fit : Fitting unevenDescent := by decide
  have ha : 0 < (ofHistory unevenDescent).size := by decide
  have hac := acyclicAbove_unevenDescent
  have hk : ((ofHistory unevenDescent).assignGenerationsFrom 0).generationOf 4 = some 1 := by decide
  have hc : ∀ n, ¬Ascent (ofHistory unevenDescent) 0 n 4 :=
    fun n hanne => absurd (mem_of_ascent_unevenDescent hanne) (by decide)
  have hshare : (ofHistory unevenDescent).SharesParent 2 4 := by decide
  have hshort : Ascent (ofHistory unevenDescent) 0 1 2 := Ascent.refl.up (by decide)
  have hlong : Ascent (ofHistory unevenDescent) 0 2 2 :=
    (Ascent.refl.up (q := 0) (r := 1) (by decide)).up (by decide)
  obtain ⟨g, hg, hle, heq⟩ := (generationOf_collateral fit ha hac hk hc).2 2 1 hshare hshort
  refine ⟨fit, ha, hac, hk, hc, hshare, hshort, g, hg, lt_of_le_of_ne hle fun e => ?_⟩
  exact absurd (heq.mp e.symm 2 hlong) (by decide)

/-- Anne is given the generation in which her brother Pierre is served first, and is left there when
he is moved up: no ancestor with whom she shares a parent ends up in it. -/
theorem collateral_left_behind :
    Fitting unevenDescent ∧ 0 < (ofHistory unevenDescent).size ∧
      (ofHistory unevenDescent).AcyclicAbove 0 ∧
      ((ofHistory unevenDescent).assignGenerationsFrom 0).generationOf 4 = some 1 ∧
      (∀ n, ¬Ascent (ofHistory unevenDescent) 0 n 4) ∧
      ∀ p n, (ofHistory unevenDescent).SharesParent p 4 → Ascent (ofHistory unevenDescent) 0 n p →
        ((ofHistory unevenDescent).assignGenerationsFrom 0).generationOf p ≠ some 1 := by
  refine ⟨by decide, by decide, acyclicAbove_unevenDescent, by decide, fun n hanne => ?_, ?_⟩
  · exact absurd (mem_of_ascent_unevenDescent hanne) (by decide)
  · have hall : ∀ p ∈ [0, 1, 2, 5], (ofHistory unevenDescent).SharesParent p 4 →
        ((ofHistory unevenDescent).assignGenerationsFrom 0).generationOf p ≠ some 1 := by decide
    exact fun p n hshare hp => hall p (mem_of_ascent_unevenDescent hp) hshare

end FamilyTree
end Pedigree

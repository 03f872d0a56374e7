import Pedigree.Proofs.Siblings

/-! What a survey writes, in order. Each revision gives a generation to a person, in the place of
another one or of none. Main statement: the queue is in order and spans two generations at most, so
that a generation is only ever revised upwards, also for somebody who was filled in and is then met
as a parent for the first time. -/

namespace Pedigree

namespace Survey

open FamilyTree

/-- A generation given to a person, and the one that stood there before. -/
structure Revision where
  person : PersonId
  old : Option Nat
  new : Nat
deriving DecidableEq, Repr

def Revision.Raises (r : Revision) : Prop := ∀ k, r.old = some k → k < r.new

section Log

variable (t : FamilyTree) (anchor : PersonId)

def along (visit : Survey → PersonId → Survey) (revise : Survey → PersonId → List Revision) :
    Survey → List PersonId → List Revision
  | _, [] => []
  | s, p :: ps => revise s p ++ along visit revise (visit s p) ps

def backfillRevisions (g : Nat) (s : Survey) (sibling : PersonId) : List Revision :=
  if (s.label sibling).isNone then [⟨sibling, s.label sibling, g⟩] else []

def meetRevisions (g : Nat) (s : Survey) (parent : PersonId) : List Revision :=
  if s.rises t anchor parent (g + 1) then
    ⟨parent, s.label parent, g + 1⟩ ::
      along (backfill g) (backfillRevisions g) (s.raise parent (g + 1)) (t.childrenOf parent)
  else along (backfill g) (backfillRevisions g) s (t.childrenOf parent)

def revisions (s : Survey) : List Revision :=
  match s.pending with
  | [] => []
  | (p, g) :: _ =>
    if s.label p = some g then
      along (meet t anchor g) (meetRevisions t anchor g) s.pop (t.parentsOf p)
    else []

end Log

/-- Revisions that lead from some generations to others: each takes the place of what stands there
by then, and nothing else changes. -/
inductive Revised : (PersonId → Option Nat) → List Revision → (PersonId → Option Nat) → Prop
  | nil {l : PersonId → Option Nat} : Revised l [] l
  | cons {l l' : PersonId → Option Nat} {r : Revision} {rs : List Revision} : r.old = l r.person →
      Revised (Function.update l r.person (some r.new)) rs l' → Revised l (r :: rs) l'

theorem Revised.append {l l' l'' : PersonId → Option Nat} {rs rs' : List Revision}
    (h : Revised l rs l') (h' : Revised l' rs' l'') : Revised l (rs ++ rs') l'' := by
  induction h with
  | nil => exact h'
  | cons hold _ ih => exact .cons hold (ih h')

theorem Revised.exists_le {l l' : PersonId → Option Nat} {rs : List Revision}
    (h : Revised l rs l') (hrs : ∀ r ∈ rs, r.Raises) {q : PersonId} {k : Nat}
    (hk : l q = some k) : ∃ k', l' q = some k' ∧ k ≤ k' := by
  induction h generalizing k with
  | nil => exact ⟨k, hk, Nat.le_refl k⟩
  | @cons l l' r rs hold _ ih =>
    obtain ⟨hr, hrs⟩ := List.forall_mem_cons.mp hrs
    by_cases hq : q = r.person
    · subst hq
      have hlt : k < r.new := hr k (hold.trans hk)
      obtain ⟨k', hk', hle⟩ := ih hrs (Function.update_self ..)
      exact ⟨k', hk', by omega⟩
    · exact ih hrs ((Function.update_of_ne hq ..).trans hk)

variable {t : FamilyTree} {anchor : PersonId} {s : Survey} {p q : PersonId} {g : Nat}

theorem revisions_of_pending_eq {rest : List (PersonId × Nat)} (hs : s.pending = (p, g) :: rest) :
    revisions t anchor s =
      if s.label p = some g then
        along (meet t anchor g) (meetRevisions t anchor g) s.pop (t.parentsOf p)
      else [] := by
  rw [revisions, hs]

/-- Revisions that lead from one survey to another, each of them upwards. -/
def Lifted (s : Survey) (rs : List Revision) (s' : Survey) : Prop :=
  Revised s.label rs s'.label ∧ ∀ r ∈ rs, r.Raises

theorem lifted_nil : Lifted s [] s := ⟨.nil, fun _ hr => absurd hr List.not_mem_nil⟩

theorem Lifted.append {s' s'' : Survey} {rs rs' : List Revision} (h : Lifted s rs s')
    (h' : Lifted s' rs' s'') : Lifted s (rs ++ rs') s'' :=
  ⟨h.1.append h'.1, List.forall_mem_append.mpr ⟨h.2, h'.2⟩⟩

theorem lifted_along {visit : Survey → PersonId → Survey}
    {revise : Survey → PersonId → List Revision} {P : Survey → Prop} {ps : List PersonId}
    (hvisit : ∀ p ∈ ps, ∀ s, P s → P (visit s p) ∧ Lifted s (revise s p) (visit s p))
    (hs : P s) : Lifted s (along visit revise s ps) (ps.foldl visit s) := by
  induction ps generalizing s with
  | nil => exact lifted_nil
  | cons p ps ih =>
    obtain ⟨hnext, hlift⟩ := hvisit p List.mem_cons_self s hs
    exact hlift.append (ih (fun q hq => hvisit q (List.mem_cons_of_mem p hq)) hnext)

theorem Sound.lifted_backfill (hs : Sound t anchor s) {c : PersonId} (hc : c < t.size) :
    Lifted s (backfillRevisions g s c) (s.backfill g c) := by
  unfold backfillRevisions backfill
  split
  · rename_i hnone
    have hlabel : (s.setLabel c g).label = Function.update s.label c (some g) := by
      funext q
      rw [label_setLabel, hs.length_labels, Function.update_apply]
      simp only [hc, and_true, eq_comm]
    refine ⟨.cons rfl (hlabel ▸ .nil), List.forall_mem_singleton.mpr fun k hk => ?_⟩
    rw [Option.isNone_iff_eq_none.mp hnone] at hk
    exact absurd hk (Option.some_ne_none k).symm
  · exact lifted_nil

/-- A parent who is met moves upwards: on a first meeting because whoever was only filled in stands
no higher than the person served, on a later one because the two generations are compared. -/
theorem Layered.lifted_raise (hd : t.ParentsDeclared) (hs : Sound t anchor s) (h : Layered g s)
    (hq : q ∈ t.parentsOf p) (hr : s.rises t anchor q (g + 1) = true) :
    Lifted s [⟨q, s.label q, g + 1⟩] (s.raise q (g + 1)) := by
  have hlabel : (s.raise q (g + 1)).label = Function.update s.label q (some (g + 1)) := by
    funext r
    rw [hs.label_of_raise (hd hq), Function.update_apply]
    simp only [eq_comm]
  refine ⟨.cons rfl (hlabel ▸ .nil), List.forall_mem_singleton.mpr fun k hk => ?_⟩
  obtain ⟨-, -, hfirst | hlater⟩ := rises_iff.mp hr
  · exact Nat.lt_succ_of_le (h.label_le hk hfirst)
  · exact hlater k hk

theorem Sound.lifted_backfills (hkin : t.KinMirrored) (hg : g < t.size) (hp : Ascent t anchor g p)
    (hq : q ∈ t.parentsOf p) (hs : Sound t anchor s) :
    Lifted s (along (backfill g) (backfillRevisions g) s (t.childrenOf q))
      ((t.childrenOf q).foldl (backfill g) s) := by
  have hd := hkin.parentsDeclared
  refine lifted_along (P := Sound t anchor) (fun c hc u hu => ⟨?_, ?_⟩) hs
  · exact backfill_preserves (fun _ _ hu hm => hu.move hd hg hp hm) hq hc hu
  · exact hu.lifted_backfill (lt_size_of_mem_parentsOf (hkin.mpr hc))

theorem lifted_meet (hkin : t.KinMirrored) (hg : g < t.size) (hp : Ascent t anchor g p)
    (hq : q ∈ t.parentsOf p) (hs : Sound t anchor s) (h : Layered g s) :
    Lifted s (meetRevisions t anchor g s q) (s.meet t anchor g q) := by
  have hd := hkin.parentsDeclared
  unfold meetRevisions meet
  by_cases hr : s.rises t anchor q (g + 1) = true
  · rw [if_pos hr, if_pos hr]
    have hraised : Sound t anchor (s.raise q (g + 1)) := hs.move hd hg hp (.raise hq hr)
    exact (h.lifted_raise hd hs hq hr).append (hraised.lifted_backfills hkin hg hp hq)
  · rw [if_neg hr, if_neg hr]
    exact hs.lifted_backfills hkin hg hp hq

theorem Layered.lifted_step (hkin : t.KinMirrored) (hs : Sound t anchor s) (h : Layered g s) :
    Lifted s (revisions t anchor s) (s.step t anchor) := by
  have hd := hkin.parentsDeclared
  obtain ⟨hnil, hstep⟩ | ⟨p, k, rest, hpending, hk, hp, ⟨hlabel, hstep⟩ | ⟨hlabel, hstep⟩⟩ :=
    hs.step_cases
  · rw [hstep, revisions, hnil]
    exact lifted_nil
  · rw [hstep, revisions_of_pending_eq hpending, if_pos hlabel]
    refine lifted_along (P := fun u => Sound t anchor u ∧ Layered k u)
      (fun q hq u hu => ⟨?_, lifted_meet hkin hk hp hq hu.1 hu.2⟩) ⟨hs.pop, h.pop hpending⟩
    exact meet_preserves (sound_and_layered_move hd hk hp) hq hu
  · rw [hstep, revisions_of_pending_eq hpending, if_neg hlabel]
    exact lifted_nil

theorem layered_after (hd : t.ParentsDeclared) (ha : anchor < t.size) (n : Nat) :
    ∃ g, Layered g (after t anchor n) := by
  induction n with
  | zero => exact ⟨0, layered_start ha⟩
  | succ n ih =>
    obtain ⟨g, h⟩ := ih
    rw [after, Function.iterate_succ_apply']
    exact h.step hd (sound_after hd ha n)

theorem lifted_after (hkin : t.KinMirrored) (ha : anchor < t.size) (n : Nat) :
    Lifted (after t anchor n) (revisions t anchor (after t anchor n)) (after t anchor (n + 1)) := by
  have hd := hkin.parentsDeclared
  obtain ⟨g, h⟩ := layered_after hd ha n
  rw [after, after, Function.iterate_succ_apply']
  exact h.lifted_step hkin (sound_after hd ha n)

theorem Layered.last_le (h : Layered g s) {x y : PersonId × Nat} (hx : x ∈ s.pending.head?)
    (hy : y ∈ s.pending.getLast?) : y.2 ≤ x.2 + 1 := by
  have hlow := (h.span x (List.mem_of_mem_head? hx)).1
  have hhigh := (h.span y (List.mem_of_mem_getLast? hy)).2
  omega

theorem exists_label_le_of_le (hkin : t.KinMirrored) (ha : anchor < t.size) {i j : Nat}
    (hij : i ≤ j) {k : Nat} (hk : (after t anchor i).label q = some k) :
    ∃ k', (after t anchor j).label q = some k' ∧ k ≤ k' := by
  induction j, hij using Nat.le_induction with
  | base => exact ⟨k, hk, Nat.le_refl k⟩
  | succ j _ ih =>
    obtain ⟨m, hm, hkm⟩ := ih
    obtain ⟨hrevised, hraises⟩ := lifted_after hkin ha j
    obtain ⟨k', hk', hmk⟩ := hrevised.exists_le hraises hm
    exact ⟨k', hk', hkm.trans hmk⟩

end Survey

namespace FamilyTree

/-- In a generation pass the queue is always in order, and its last entry at most one generation
above its first. Whatever is written over a generation is higher than it, and so nobody is lowered,
from any point of the pass to any later one and to its end. -/
theorem generation_pass_only_raises {cs : List Change} (h : Fitting cs) {anchor : PersonId}
    (ha : anchor < (ofHistory cs).size) :
    (∀ i,
      ((Survey.after (ofHistory cs) anchor i).pending.map Prod.snd).Pairwise (· ≤ ·) ∧
      (∀ x ∈ (Survey.after (ofHistory cs) anchor i).pending.head?,
        ∀ y ∈ (Survey.after (ofHistory cs) anchor i).pending.getLast?, y.2 ≤ x.2 + 1) ∧
      Survey.Revised (Survey.after (ofHistory cs) anchor i).label
        (Survey.revisions (ofHistory cs) anchor (Survey.after (ofHistory cs) anchor i))
        (Survey.after (ofHistory cs) anchor (i + 1)).label ∧
      ∀ r ∈ Survey.revisions (ofHistory cs) anchor (Survey.after (ofHistory cs) anchor i),
        ∀ k, r.old = some k → k < r.new) ∧
    (∀ i j, i ≤ j → ∀ q k, (Survey.after (ofHistory cs) anchor i).label q = some k →
      ∃ k', (Survey.after (ofHistory cs) anchor j).label q = some k' ∧ k ≤ k') ∧
    ∃ n, (∀ i < n, (Survey.after (ofHistory cs) anchor i).pending ≠ []) ∧
      (Survey.after (ofHistory cs) anchor n).pending = [] ∧
      ∀ q, ((ofHistory cs).assignGenerationsFrom anchor).generationOf q =
        (Survey.after (ofHistory cs) anchor n).label q := by
  have hkin := (recorded_ofHistory h).kinMirrored
  have hd := hkin.parentsDeclared
  refine ⟨fun i => ?_, fun i j hij q k hk => Survey.exists_label_le_of_le hkin ha hij hk, ?_⟩
  · obtain ⟨g, hlayered⟩ := Survey.layered_after hd ha i
    obtain ⟨hrevised, hraises⟩ := Survey.lifted_after hkin ha i
    refine ⟨List.pairwise_map.mpr hlayered.sorted, fun x hx y hy => ?_, hrevised, hraises⟩
    exact hlayered.last_le hx hy
  · obtain ⟨n, -, hbusy, hdone, hfinish⟩ := Survey.exists_finish_eq_after hd ha
    exact ⟨n, hbusy, hdone, fun q => by rw [generationOf_eq_label hd ha, hfinish]⟩

/-- Paul is given a generation as Pierre's brother before he is met as Marie's father; Marie, in
turn, is the mother of Georges, who is the father of Pierre and Paul. -/
def lateFather : List Change :=
  [.declare "Luc" ⟨1990, 1, 1⟩ none, .declare "Pierre" ⟨1960, 1, 1⟩ none,
    .declare "Marie" ⟨1960, 1, 1⟩ none, .declare "Georges" ⟨1900, 1, 1⟩ none,
    .declare "Paul" ⟨1930, 1, 1⟩ none, .linkChild 2 3, .linkSpouses 1 2 none, .linkChild 1 0,
    .linkChild 3 1, .linkChild 3 4, .linkChild 4 2]

theorem only_raises_of_lateFather :
    Fitting lateFather ∧ 0 < (ofHistory lateFather).size ∧
      ¬(ofHistory lateFather).AcyclicAbove 0 ∧
      4 ∉ (Survey.after (ofHistory lateFather) 0 2).ancestral ∧
      (Survey.after (ofHistory lateFather) 0 2).label 4 = some 1 ∧
      (∃ r ∈ Survey.revisions (ofHistory lateFather) 0 (Survey.after (ofHistory lateFather) 0 2),
        r.person = 4 ∧ r.old = some 1 ∧ 1 < r.new) ∧
      ∃ g, ((ofHistory lateFather).assignGenerationsFrom 0).generationOf 4 = some g ∧ 1 ≤ g := by
  have fit : Fitting lateFather := by decide
  have ha : 0 < (ofHistory lateFather).size := by decide
  have hpaul : (Survey.after (ofHistory lateFather) 0 2).label 4 = some 1 := by decide
  have hmet : (⟨4, some 1, 2⟩ : Survey.Revision) ∈
      Survey.revisions (ofHistory lateFather) 0 (Survey.after (ofHistory lateFather) 0 2) := by
    decide
  have hcycle : ¬(ofHistory lateFather).AcyclicAbove 0 := fun hac => by
    have hmarie : Ascent (ofHistory lateFather) 0 1 2 := Ascent.refl.up (by decide)
    have hround : Ascent (ofHistory lateFather) 2 3 2 :=
      ((Ascent.refl.up (q := 2) (r := 4) (by decide)).up (r := 3) (by decide)).up (by decide)
    exact hac 1 2 hmarie 2 hround
  obtain ⟨hstep, hkept, n, -, hdone, hend⟩ := generation_pass_only_raises fit ha
  obtain ⟨-, -, -, hraises⟩ := hstep 2
  have hn : 2 ≤ n := by
    by_contra hlt
    obtain rfl | rfl : n = 0 ∨ n = 1 := by omega
    · exact absurd hdone (by decide)
    · exact absurd hdone (by decide)
  refine ⟨fit, ha, hcycle, by decide, hpaul, ⟨_, hmet, rfl, rfl, hraises _ hmet 1 rfl⟩, ?_⟩
  rw [hend]
  exact hkept 2 n hn 4 1 hpaul

end FamilyTree
end Pedigree

import Mathlib.Algebra.Order.BigOperators.Group.Finset
import Pedigree.Proofs.Ancestry

/-! The survey that gives generations. All that a step does to a survey is to take the first entry
from the queue, to raise parents of that person and to fill in their other children; each invariant
is shown for these moves. Main statements: generations of ancestors are lengths of chains, every
ancestor has been dealt with or is still queued under its generation, and the queue runs empty. -/

namespace Pedigree.Survey

open FamilyTree

variable {t : FamilyTree} {anchor : PersonId} {s s' : Survey} {p q : PersonId} {g h : Nat}

theorem label_setLabel (s : Survey) (p q : PersonId) (g : Nat) :
    (s.setLabel p g).label q = if p = q ∧ p < s.labels.length then some g else s.label q := by
  unfold label setLabel
  rw [List.getElem?_set]
  by_cases hpq : p = q
  · subst hpq
    by_cases hp : p < s.labels.length
    · rw [if_pos rfl, if_pos hp, if_pos ⟨rfl, hp⟩]
      rfl
    · rw [if_pos rfl, if_neg hp, if_neg fun e => hp e.2,
        List.getElem?_eq_none_iff.mpr (Nat.le_of_not_lt hp)]
  · rw [if_neg hpq, if_neg fun e => hpq e.1]

theorem label_raise (s : Survey) (p q : PersonId) (g : Nat) :
    (s.raise p g).label q = if p = q ∧ p < s.labels.length then some g else s.label q :=
  label_setLabel s p q g

theorem mem_ancestral_raise : q ∈ (s.raise p g).ancestral ↔ q = p ∨ q ∈ s.ancestral :=
  List.mem_insert_iff

theorem rises_iff :
    s.rises t anchor p g = true ↔
      p ≠ anchor ∧ g < t.size ∧ (p ∉ s.ancestral ∨ ∀ h, s.label p = some h → h < g) := by
  unfold rises
  cases s.label p <;> simp [and_assoc]

inductive Move (t : FamilyTree) (anchor p : PersonId) (g : Nat) : Survey → Survey → Prop
  | raise {s : Survey} {q : PersonId} : q ∈ t.parentsOf p → s.rises t anchor q (g + 1) = true →
      Move t anchor p g s (s.raise q (g + 1))
  | fill {s : Survey} {q c : PersonId} : q ∈ t.parentsOf p → c ∈ t.childrenOf q →
      s.label c = none → Move t anchor p g s (s.setLabel c g)

theorem backfill_preserves {P : Survey → Prop}
    (hP : ∀ s s', P s → Move t anchor p g s s' → P s') (hq : q ∈ t.parentsOf p) {c : PersonId}
    (hc : c ∈ t.childrenOf q) (hs : P s) : P (s.backfill g c) := by
  unfold backfill
  split
  · rename_i hnone
    exact hP _ _ hs (.fill hq hc (Option.isNone_iff_eq_none.mp hnone))
  · exact hs

theorem foldl_backfill_preserves {P : Survey → Prop}
    (hP : ∀ s s', P s → Move t anchor p g s s' → P s') (hq : q ∈ t.parentsOf p)
    {cs : List PersonId} (hc : ∀ c ∈ cs, c ∈ t.childrenOf q) (hs : P s) :
    P (cs.foldl (backfill g) s) := by
  induction cs generalizing s with
  | nil => exact hs
  | cons c cs ih =>
    exact ih (fun d hd => hc d (List.mem_cons_of_mem c hd))
      (backfill_preserves hP hq (hc c List.mem_cons_self) hs)

theorem meet_preserves {P : Survey → Prop}
    (hP : ∀ s s', P s → Move t anchor p g s s' → P s') (hq : q ∈ t.parentsOf p) (hs : P s) :
    P (s.meet t anchor g q) := by
  refine foldl_backfill_preserves hP hq (fun _ hc => hc) ?_
  split
  · rename_i hr
    exact hP _ _ hs (.raise hq hr)
  · exact hs

theorem foldl_meet_preserves {P : Survey → Prop}
    (hP : ∀ s s', P s → Move t anchor p g s s' → P s') {ps : List PersonId}
    (hps : ∀ q ∈ ps, q ∈ t.parentsOf p) (hs : P s) : P (ps.foldl (meet t anchor g) s) := by
  induction ps generalizing s with
  | nil => exact hs
  | cons q ps ih =>
    exact ih (fun r hr => hps r (List.mem_cons_of_mem q hr))
      (meet_preserves hP (hps q List.mem_cons_self) hs)

def pop (s : Survey) : Survey := { s with pending := s.pending.tail }

def serve (t : FamilyTree) (anchor p : PersonId) (g : Nat) (s : Survey) : Survey :=
  (t.parentsOf p).foldl (meet t anchor g) s

theorem serve_preserves {P : Survey → Prop} (hP : ∀ s s', P s → Move t anchor p g s s' → P s')
    (hs : P s) : P (serve t anchor p g s) :=
  foldl_meet_preserves hP (fun _ hq => hq) hs

theorem step_of_pending_eq {rest : List (PersonId × Nat)} (hs : s.pending = (p, g) :: rest) :
    s.step t anchor = if s.label p = some g then serve t anchor p g s.pop else s.pop := by
  obtain ⟨labels, ancestral, pending⟩ := s
  obtain rfl : pending = (p, g) :: rest := hs
  rfl

/-- Generations are below the number of persons, ancestors have one that some chain of parent links
is as long as, and so have the entries of the queue. -/
structure Sound (t : FamilyTree) (anchor : PersonId) (s : Survey) : Prop where
  length_labels : s.labels.length = t.size
  label_lt : ∀ {q g}, s.label q = some g → g < t.size
  label_anchor : s.label anchor = some 0
  mem_anchor : anchor ∈ s.ancestral
  label_ancestral : ∀ {q}, q ∈ s.ancestral → ∃ g, s.label q = some g ∧ Ascent t anchor g q
  of_mem_pending : ∀ {q g}, (q, g) ∈ s.pending → g < t.size ∧ Ascent t anchor g q

theorem Sound.label_of_raise (hs : Sound t anchor s) (hp : p < t.size) (q : PersonId) (g : Nat) :
    (s.raise p g).label q = if p = q then some g else s.label q := by
  rw [label_raise]
  simp only [hs.length_labels, hp, and_true]

theorem label_fill_of_some {c : PersonId} (hc : s.label c = none) (hq : s.label q = some h) :
    (s.setLabel c g).label q = some h := by
  rw [label_setLabel, if_neg, hq]
  rintro ⟨rfl, -⟩
  exact absurd (hc.symm.trans hq) (Option.some_ne_none h).symm

theorem Sound.move (hd : t.ParentsDeclared) (hs : Sound t anchor s) (hg : g < t.size)
    (hp : Ascent t anchor g p) (hm : Move t anchor p g s s') : Sound t anchor s' := by
  cases hm with
  | @raise q hq hr =>
    obtain ⟨hne, hlt, -⟩ := rises_iff.mp hr
    have hasc := hp.up hq
    have hlabel (r : PersonId) := hs.label_of_raise (hd hq) r (g + 1)
    refine ⟨?_, fun {r k} hr => ?_, ?_, ?_, fun {r} hr => ?_, fun {r k} hr => ?_⟩
    · exact List.length_set.trans hs.length_labels
    · rw [hlabel] at hr
      split at hr
      · exact Option.some.inj hr ▸ hlt
      · exact hs.label_lt hr
    · rw [hlabel, if_neg hne]
      exact hs.label_anchor
    · exact mem_ancestral_raise.mpr (Or.inr hs.mem_anchor)
    · rw [hlabel]
      by_cases hqr : q = r
      · rw [if_pos hqr]
        exact ⟨g + 1, rfl, hqr ▸ hasc⟩
      · rw [if_neg hqr]
        exact hs.label_ancestral ((mem_ancestral_raise.mp hr).resolve_left (Ne.symm hqr))
    · rcases List.mem_append.mp hr with hr | hr
      · exact hs.of_mem_pending hr
      · obtain ⟨rfl, rfl⟩ := Prod.mk.inj (List.mem_singleton.mp hr)
        exact ⟨hlt, hasc⟩
  | @fill q c hq hc hnone =>
    refine ⟨?_, fun {r k} hr => ?_, ?_, hs.mem_anchor, fun {r} hr => ?_, hs.of_mem_pending⟩
    · exact List.length_set.trans hs.length_labels
    · rw [label_setLabel] at hr
      split at hr
      · exact Option.some.inj hr ▸ hg
      · exact hs.label_lt hr
    · exact label_fill_of_some hnone hs.label_anchor
    · obtain ⟨k, hk, hasc⟩ := hs.label_ancestral hr
      exact ⟨k, label_fill_of_some hnone hk, hasc⟩

theorem Sound.pop (hs : Sound t anchor s) : Sound t anchor s.pop :=
  { hs with of_mem_pending := fun hq => hs.of_mem_pending (List.mem_of_mem_tail hq) }

/-- All that a step can do: nothing if the queue is empty, else to take the first entry from it and
to serve the person if that is still its generation. -/
theorem Sound.step_cases (hs : Sound t anchor s) :
    s.pending = [] ∧ s.step t anchor = s ∨
      ∃ p g rest, s.pending = (p, g) :: rest ∧ g < t.size ∧ Ascent t anchor g p ∧
        (s.label p = some g ∧ s.step t anchor = serve t anchor p g s.pop ∨
          s.label p ≠ some g ∧ s.step t anchor = s.pop) := by
  cases hpending : s.pending with
  | nil =>
    rw [Survey.step, hpending]
    exact Or.inl ⟨rfl, rfl⟩
  | cons e rest =>
    obtain ⟨p, g⟩ := e
    obtain ⟨hg, hp⟩ := hs.of_mem_pending (hpending ▸ List.mem_cons_self)
    refine Or.inr ⟨p, g, rest, rfl, hg, hp, ?_⟩
    rw [step_of_pending_eq hpending]
    by_cases hlabel : s.label p = some g
    · exact Or.inl ⟨hlabel, if_pos hlabel⟩
    · exact Or.inr ⟨hlabel, if_neg hlabel⟩

theorem label_start (ha : anchor < t.size) (q : PersonId) :
    (start t anchor).label q = if anchor = q then some 0 else none := by
  unfold label start
  rw [List.getElem?_set, List.getElem?_replicate, List.length_replicate]
  split_ifs <;> rfl

theorem sound_start (ha : anchor < t.size) : Sound t anchor (start t anchor) := by
  have hlength : (start t anchor).labels.length = t.size := by
    rw [start, List.length_set, List.length_replicate]
  have hself : (start t anchor).label anchor = some 0 := by rw [label_start ha, if_pos rfl]
  refine ⟨hlength, fun {q g} hq => ?_, hself, List.mem_singleton_self anchor, fun {q} hq => ?_,
    fun {q g} hq => ?_⟩
  · rw [label_start ha] at hq
    split at hq
    · exact Option.some.inj hq ▸ Nat.zero_lt_of_lt ha
    · exact absurd hq (Option.some_ne_none g).symm
  · obtain rfl := List.mem_singleton.mp hq
    exact ⟨0, hself, .refl⟩
  · obtain ⟨rfl, rfl⟩ := Prod.mk.inj (List.mem_singleton.mp hq)
    exact ⟨Nat.zero_lt_of_lt ha, .refl⟩

/-- A person is placed at least as high as a generation, or kept below by the rules: it is the
anchor, or the generation reaches the number of persons. -/
def Placed (t : FamilyTree) (anchor : PersonId) (s : Survey) (q : PersonId) (g : Nat) : Prop :=
  q = anchor ∨ t.size ≤ g ∨ q ∈ s.ancestral ∧ ∃ h, s.label q = some h ∧ g ≤ h

def Settled (t : FamilyTree) (anchor : PersonId) (s : Survey) (p : PersonId) (g : Nat) : Prop :=
  ∀ q ∈ t.parentsOf p, Placed t anchor s q (g + 1)

/-- Every ancestor who was met is queued under its generation or dealt with as `D` says, but for
those that are left out. -/
def Handled (D : Survey → PersonId → Nat → Prop) (but : PersonId → Nat → Prop) (s : Survey) :
    Prop :=
  ∀ p g, p ∈ s.ancestral → s.label p = some g → but p g ∨ (p, g) ∈ s.pending ∨ D s p g

structure Lasting (t : FamilyTree) (anchor : PersonId) (D : Survey → PersonId → Nat → Prop) :
    Prop where
  pop : ∀ {s r k}, D s r k → D s.pop r k
  move : ∀ {s s' p g r k}, Sound t anchor s → Move t anchor p g s s' → D s r k → D s' r k

theorem Placed.move (hd : t.ParentsDeclared) (hs : Sound t anchor s)
    (hm : Move t anchor p g s s') {r : PersonId} {k : Nat} (h : Placed t anchor s r k) :
    Placed t anchor s' r k := by
  refine h.imp_right (Or.imp_right ?_)
  rintro ⟨hmem, j, hj, hkj⟩
  cases hm with
  | @raise q hq hr =>
    obtain ⟨-, -, hrise⟩ := rises_iff.mp hr
    refine ⟨mem_ancestral_raise.mpr (Or.inr hmem), ?_⟩
    rw [hs.label_of_raise (hd hq)]
    by_cases hqr : q = r
    · subst hqr
      have hjg := hrise.resolve_left (not_not.mpr hmem) j hj
      exact ⟨g + 1, if_pos rfl, by omega⟩
    · exact ⟨j, (if_neg hqr).trans hj, hkj⟩
  | fill hq hc hnone => exact ⟨hmem, j, label_fill_of_some hnone hj, hkj⟩

theorem lasting_settled (hd : t.ParentsDeclared) : Lasting t anchor (Settled t anchor) where
  pop h := h
  move hs hm h q hq := (h q hq).move hd hs hm

theorem Handled.move (hd : t.ParentsDeclared) (hs : Sound t anchor s)
    (hm : Move t anchor p g s s') {D : Survey → PersonId → Nat → Prop} (hD : Lasting t anchor D)
    {but : PersonId → Nat → Prop} (h : Handled D but s) : Handled D but s' := by
  intro r k hr hk
  have hlasts : D s r k → D s' r k := hD.move hs hm
  cases hm with
  | @raise q hq hrises =>
    rw [hs.label_of_raise (hd hq)] at hk
    by_cases hqr : q = r
    · obtain rfl : g + 1 = k := Option.some.inj ((if_pos hqr).symm.trans hk)
      exact Or.inr (Or.inl (List.mem_append_right _ (hqr ▸ List.mem_cons_self)))
    · have hold := (mem_ancestral_raise.mp hr).resolve_left (Ne.symm hqr)
      refine (h r k hold ((if_neg hqr).symm.trans hk)).imp_right (Or.imp ?_ hlasts)
      exact List.mem_append_left _
  | @fill q c hq hc hnone =>
    obtain ⟨j, hj, -⟩ := hs.label_ancestral hr
    obtain rfl : j = k := Option.some.inj ((label_fill_of_some hnone hj).symm.trans hk)
    exact (h r j hr hj).imp_right (Or.imp_right hlasts)

theorem sound_and_placed_move (hd : t.ParentsDeclared) (hg : g < t.size)
    (hp : Ascent t anchor g p) {r : PersonId} {k : Nat} :
    ∀ s s', Sound t anchor s ∧ Placed t anchor s r k → Move t anchor p g s s' →
      Sound t anchor s' ∧ Placed t anchor s' r k :=
  fun _ _ hs hm => ⟨hs.1.move hd hg hp hm, hs.2.move hd hs.1 hm⟩

theorem Sound.meet (hd : t.ParentsDeclared) (hs : Sound t anchor s) (hg : g < t.size)
    (hp : Ascent t anchor g p) (hq : q ∈ t.parentsOf p) :
    Sound t anchor (s.meet t anchor g q) :=
  meet_preserves (fun _ _ hs hm => hs.move hd hg hp hm) hq hs

theorem placed_meet (hd : t.ParentsDeclared) (hs : Sound t anchor s) (hg : g < t.size)
    (hp : Ascent t anchor g p) (hq : q ∈ t.parentsOf p) :
    Placed t anchor (s.meet t anchor g q) q (g + 1) := by
  refine (foldl_backfill_preserves (sound_and_placed_move hd hg hp) hq (fun _ hc => hc) ?_).2
  split
  · rename_i hr
    refine ⟨hs.move hd hg hp (.raise hq hr), Or.inr (Or.inr ⟨?_, g + 1, ?_, Nat.le_refl _⟩)⟩
    · exact mem_ancestral_raise.mpr (Or.inl rfl)
    · rw [hs.label_of_raise (hd hq), if_pos rfl]
  · rename_i hr
    refine ⟨hs, ?_⟩
    by_cases hanchor : q = anchor
    · exact Or.inl hanchor
    by_cases hsize : t.size ≤ g + 1
    · exact Or.inr (Or.inl hsize)
    rw [rises_iff] at hr
    push Not at hr
    obtain ⟨hmem, k, hk, hle⟩ := hr hanchor (Nat.lt_of_not_le hsize)
    exact Or.inr (Or.inr ⟨hmem, k, hk, hle⟩)

theorem foldl_establishes {α β : Type} {f : β → α → β} {P : β → Prop} {Q : α → β → Prop}
    {l : List α} {b : β} (hf : ∀ a ∈ l, ∀ b, P b → P (f b a) ∧ Q a (f b a))
    (hkeep : ∀ a ∈ l, ∀ b, P b → ∀ x, Q x b → Q x (f b a)) (hb : P b) :
    ∀ a ∈ l, Q a (l.foldl f b) := by
  induction l generalizing b with
  | nil => exact fun _ ha => absurd ha List.not_mem_nil
  | cons a l ih =>
    obtain ⟨hP, hQ⟩ := hf a List.mem_cons_self b hb
    have hrest : ∀ x ∈ l, ∀ b, P b → P (f b x) ∧ Q x (f b x) :=
      fun x hx => hf x (List.mem_cons_of_mem a hx)
    intro x hx
    rcases List.mem_cons.mp hx with rfl | hx
    · refine (List.foldlRecOn (motive := fun b => P b ∧ Q x b) l f ⟨hP, hQ⟩ ?_).2
      intro b hb y hy
      exact ⟨(hrest y hy b hb.1).1, hkeep y (List.mem_cons_of_mem x hy) b hb.1 x hb.2⟩
    · exact ih hrest (fun y hy => hkeep y (List.mem_cons_of_mem a hy)) hP x hx

theorem placed_foldl_meet (hd : t.ParentsDeclared) (hs : Sound t anchor s) (hg : g < t.size)
    (hp : Ascent t anchor g p) {ps : List PersonId} (hps : ∀ q ∈ ps, q ∈ t.parentsOf p) :
    ∀ q ∈ ps, Placed t anchor (ps.foldl (meet t anchor g) s) q (g + 1) := by
  refine foldl_establishes (P := Sound t anchor) (Q := fun q s => Placed t anchor s q (g + 1))
    (fun q hq s hs => ?_) (fun q hq s hs r hr => ?_) hs
  · exact ⟨hs.meet hd hg hp (hps q hq), placed_meet hd hs hg hp (hps q hq)⟩
  · exact (meet_preserves (sound_and_placed_move hd hg hp) (hps q hq) ⟨hs, hr⟩).2

theorem Sound.step_preserves (hd : t.ParentsDeclared) (hs : Sound t anchor s) {P : Survey → Prop}
    (hpop : P s → P s.pop)
    (hP : ∀ {p g u u'}, g < t.size → Ascent t anchor g p → Sound t anchor u → P u →
      Move t anchor p g u u' → P u') (h : P s) : P (s.step t anchor) := by
  obtain ⟨-, hstep⟩ | ⟨p, g, rest, -, hg, hp, ⟨-, hstep⟩ | ⟨-, hstep⟩⟩ := hs.step_cases
  · rw [hstep]
    exact h
  · rw [hstep]
    exact (serve_preserves (P := fun u => Sound t anchor u ∧ P u)
      (fun _ _ hu hm => ⟨hu.1.move hd hg hp hm, hP hg hp hu.1 hu.2 hm⟩) ⟨hs.pop, hpop h⟩).2
  · rw [hstep]
    exact hpop h

theorem Sound.step (hd : t.ParentsDeclared) (hs : Sound t anchor s) :
    Sound t anchor (s.step t anchor) :=
  hs.step_preserves hd Sound.pop (fun hg hp hu _ hm => hu.move hd hg hp hm) hs

/-- Nobody is left out after a step: the person who was served is dealt with, or has been raised
and is queued again. -/
theorem Handled.step (hd : t.ParentsDeclared) (hs : Sound t anchor s)
    {D : Survey → PersonId → Nat → Prop} (hD : Lasting t anchor D)
    (hserved : ∀ p g rest, s.pending = (p, g) :: rest → D (serve t anchor p g s.pop) p g)
    (h : Handled D (fun _ _ => False) s) :
    Handled D (fun _ _ => False) (s.step t anchor) := by
  obtain ⟨-, hstep⟩ | ⟨p, g, rest, hpending, hg, hp, hlabel⟩ := hs.step_cases
  · rw [hstep]
    exact h
  -- The entry that leaves the queue is left out until it is served.
  have hpop : Handled D (fun r k => r = p ∧ k = g) s.pop := by
    intro r k hr hk
    rcases (h r k hr hk).resolve_left id with hmem | hdone
    · rcases List.mem_cons.mp (hpending ▸ hmem) with he | hmem
      · exact Or.inl (Prod.mk.inj he)
      · exact Or.inr (Or.inl (by rw [pop, hpending]; exact hmem))
    · exact Or.inr (Or.inr (hD.pop hdone))
  obtain ⟨-, hstep⟩ | ⟨hlabel, hstep⟩ := hlabel
  · rw [hstep]
    have hserve := (serve_preserves (P := fun s => Sound t anchor s ∧ Handled D _ s)
      (fun _ _ hs hm => ⟨hs.1.move hd hg hp hm, hs.2.move hd hs.1 hm hD⟩) ⟨hs.pop, hpop⟩).2
    intro r k hr hk
    rcases hserve r k hr hk with ⟨rfl, rfl⟩ | hrest
    · exact Or.inr (Or.inr (hserved _ _ rest hpending))
    · exact Or.inr hrest
  -- A stale entry leaves nobody out: the person has another generation by now.
  · rw [hstep]
    intro r k hr hk
    refine Or.inr ((hpop r k hr hk).resolve_left ?_)
    rintro ⟨rfl, rfl⟩
    exact hlabel hk

def room (t : FamilyTree) (s : Survey) (q : PersonId) : Nat :=
  t.size - if q ∈ s.ancestral then (s.label q).getD 0 else 0

/-- The steps that a survey may still take: each either shortens the queue or uses up room. -/
def effort (t : FamilyTree) (s : Survey) : Nat :=
  ∑ q ∈ Finset.range t.size, room t s q + s.pending.length

theorem Sound.room_raise_lt (hd : t.ParentsDeclared) (hs : Sound t anchor s)
    (hq : q ∈ t.parentsOf p) (hr : s.rises t anchor q (g + 1) = true) :
    room t (s.raise q (g + 1)) q < room t s q := by
  obtain ⟨-, hlt, hrise⟩ := rises_iff.mp hr
  unfold room
  rw [hs.label_of_raise (hd hq), if_pos (mem_ancestral_raise.mpr (Or.inl rfl)), if_pos rfl,
    Option.getD_some]
  by_cases hmem : q ∈ s.ancestral
  · obtain ⟨k, hk, -⟩ := hs.label_ancestral hmem
    have hkg := hrise.resolve_left (not_not.mpr hmem) k hk
    rw [if_pos hmem, hk, Option.getD_some]
    omega
  · rw [if_neg hmem]
    omega

theorem Sound.room_raise_of_ne (hd : t.ParentsDeclared) (hs : Sound t anchor s)
    (hq : q ∈ t.parentsOf p) {r : PersonId} (hqr : q ≠ r) :
    room t (s.raise q g) r = room t s r := by
  have hmem : r ∈ (s.raise q g).ancestral ↔ r ∈ s.ancestral :=
    mem_ancestral_raise.trans (or_iff_right (Ne.symm hqr))
  unfold room
  rw [hs.label_of_raise (hd hq), if_neg hqr]
  simp only [hmem]

theorem Sound.effort_move_le (hd : t.ParentsDeclared) (hs : Sound t anchor s)
    (hm : Move t anchor p g s s') : effort t s' ≤ effort t s := by
  unfold effort
  cases hm with
  | @raise q hq hr =>
    have hsum : ∑ r ∈ Finset.range t.size, room t (s.raise q (g + 1)) r <
        ∑ r ∈ Finset.range t.size, room t s r := by
      refine Finset.sum_lt_sum (fun r _ => ?_)
        ⟨q, Finset.mem_range.mpr (hd hq), hs.room_raise_lt hd hq hr⟩
      by_cases hqr : q = r
      · exact hqr ▸ Nat.le_of_lt (hs.room_raise_lt hd hq hr)
      · exact Nat.le_of_eq (hs.room_raise_of_ne hd hq hqr)
    have hlength : (s.raise q (g + 1)).pending.length = s.pending.length + 1 :=
      List.length_append
    omega
  | @fill q c hq hc hnone =>
    -- Who is filled in was not met as an ancestor, so its room is untouched.
    have hroom (r : PersonId) : room t (s.setLabel c g) r = room t s r := by
      have hancestral : (s.setLabel c g).ancestral = s.ancestral := rfl
      unfold room
      rw [hancestral]
      by_cases hr : r ∈ s.ancestral
      · obtain ⟨k, hk, -⟩ := hs.label_ancestral hr
        rw [label_fill_of_some hnone hk, hk]
      · rw [if_neg hr, if_neg hr]
    simp only [hroom]
    exact Nat.le_refl _

theorem Sound.effort_step_lt (hd : t.ParentsDeclared) (hs : Sound t anchor s)
    (hne : s.pending ≠ []) : effort t (s.step t anchor) < effort t s := by
  obtain ⟨hnil, -⟩ | ⟨p, g, rest, hpending, hg, hp, hserved⟩ := hs.step_cases
  · exact absurd hnil hne
  have hpop : effort t s.pop + 1 = effort t s := by
    unfold effort
    rw [Survey.pop, hpending, List.tail_cons, List.length_cons]
    rfl
  obtain ⟨-, hstep⟩ | ⟨-, hstep⟩ := hserved
  · have hserve := (serve_preserves
      (P := fun u => Sound t anchor u ∧ effort t u ≤ effort t s.pop)
      (fun _ _ hu hm => ⟨hu.1.move hd hg hp hm, (hu.1.effort_move_le hd hm).trans hu.2⟩)
      ⟨hs.pop, Nat.le_refl _⟩).2
    rw [hstep]
    omega
  · rw [hstep]
    omega

theorem effort_start_le (t : FamilyTree) (anchor : PersonId) :
    effort t (start t anchor) ≤ bound t := by
  have hroom : ∑ q ∈ Finset.range t.size, room t (start t anchor) q ≤
      ∑ _q ∈ Finset.range t.size, t.size :=
    Finset.sum_le_sum fun _ _ => Nat.sub_le _ _
  rw [Finset.sum_const_nat fun _ _ => rfl, Finset.card_range] at hroom
  exact Nat.add_le_add_right hroom 1

theorem run_preserves {P : Survey → Prop} (hP : ∀ s, P s → P (s.step t anchor)) (n : Nat)
    (hs : P s) : P (run t anchor n s) := by
  induction n generalizing s with
  | zero => exact hs
  | succ n ih =>
    rw [run]
    split
    · exact hs
    · exact ih (hP s hs)

def after (t : FamilyTree) (anchor : PersonId) (n : Nat) : Survey :=
  (step t anchor)^[n] (start t anchor)

theorem sound_after (hd : t.ParentsDeclared) (ha : anchor < t.size) (n : Nat) :
    Sound t anchor (after t anchor n) := by
  induction n with
  | zero => exact sound_start ha
  | succ n ih =>
    rw [after, Function.iterate_succ_apply']
    exact ih.step hd

theorem exists_iterate_pending_eq_nil (hd : t.ParentsDeclared) (hs : Sound t anchor s) :
    ∃ n ≤ effort t s, (∀ i < n, ((step t anchor)^[i] s).pending ≠ []) ∧
      ((step t anchor)^[n] s).pending = [] := by
  induction hn : effort t s using Nat.strong_induction_on generalizing s with
  | _ m ih =>
    by_cases hnil : s.pending = []
    · exact ⟨0, Nat.zero_le m, fun i hi => absurd hi (Nat.not_lt_zero i), hnil⟩
    have hlt := hs.effort_step_lt hd hnil
    obtain ⟨n, hle, hbusy, hdone⟩ := ih _ (hn ▸ hlt) (hs.step hd) rfl
    refine ⟨n + 1, by omega, fun i hi => ?_, hdone⟩
    cases i with
    | zero => exact hnil
    | succ i => exact hbusy i (Nat.lt_of_succ_lt_succ hi)

theorem run_eq_iterate {n m : Nat} (hbusy : ∀ i < n, ((step t anchor)^[i] s).pending ≠ [])
    (hdone : ((step t anchor)^[n] s).pending = []) (hle : n ≤ m) :
    run t anchor m s = (step t anchor)^[n] s := by
  induction m generalizing n s with
  | zero =>
    obtain rfl := Nat.le_zero.mp hle
    rfl
  | succ m ih =>
    rw [run]
    cases n with
    | zero => exact if_pos (List.isEmpty_iff.mpr hdone)
    | succ n =>
      have hne : s.pending ≠ [] := hbusy 0 n.succ_pos
      rw [if_neg (mt List.isEmpty_iff.mp hne)]
      exact ih (fun i hi => hbusy (i + 1) (Nat.succ_lt_succ hi)) hdone (Nat.le_of_succ_le_succ hle)

theorem exists_finish_eq_after (hd : t.ParentsDeclared) (ha : anchor < t.size) :
    ∃ n ≤ bound t, (∀ i < n, (after t anchor i).pending ≠ []) ∧
      (after t anchor n).pending = [] ∧ finish t anchor = after t anchor n := by
  obtain ⟨n, hle, hbusy, hdone⟩ := exists_iterate_pending_eq_nil hd (sound_start ha)
  have hbound := hle.trans (effort_start_le t anchor)
  exact ⟨n, hbound, hbusy, hdone, run_eq_iterate hbusy hdone hbound⟩

theorem sound_finish (hd : t.ParentsDeclared) (ha : anchor < t.size) :
    Sound t anchor (finish t anchor) :=
  run_preserves (fun _ hs => hs.step hd) _ (sound_start ha)

theorem pending_finish (hd : t.ParentsDeclared) (ha : anchor < t.size) :
    (finish t anchor).pending = [] := by
  obtain ⟨n, -, -, hdone, hfinish⟩ := exists_finish_eq_after hd ha
  rw [hfinish]
  exact hdone

theorem handled_start (ha : anchor < t.size) {D : Survey → PersonId → Nat → Prop} :
    Handled D (fun _ _ => False) (start t anchor) := by
  intro p g hp hg
  obtain rfl : p = anchor := List.mem_singleton.mp hp
  obtain rfl : 0 = g := Option.some.inj ((sound_start ha).label_anchor.symm.trans hg)
  exact Or.inr (Or.inl List.mem_cons_self)

theorem handled_finish (hd : t.ParentsDeclared) (ha : anchor < t.size)
    {D : Survey → PersonId → Nat → Prop} (hD : Lasting t anchor D) {P : Survey → Prop}
    (hstart : P (start t anchor)) (hstep : ∀ s, Sound t anchor s → P s → P (s.step t anchor))
    (hserved : ∀ s, Sound t anchor s → P s → ∀ p g rest, s.pending = (p, g) :: rest →
      D (serve t anchor p g s.pop) p g)
    (hp : p ∈ (finish t anchor).ancestral) (hg : (finish t anchor).label p = some g) :
    D (finish t anchor) p g := by
  have hrun := (run_preserves
    (P := fun s => (Sound t anchor s ∧ P s) ∧ Handled D (fun _ _ => False) s)
    (fun s hs => ⟨⟨hs.1.1.step hd, hstep s hs.1.1 hs.1.2⟩,
      hs.2.step hd hs.1.1 hD (hserved s hs.1.1 hs.1.2)⟩) (bound t)
    ⟨⟨sound_start ha, hstart⟩, handled_start ha⟩).2
  rcases (hrun p g hp hg).resolve_left id with hmem | hdone
  · exact absurd (pending_finish hd ha ▸ hmem) List.not_mem_nil
  · exact hdone

theorem settled_finish (hd : t.ParentsDeclared) (ha : anchor < t.size)
    (hp : p ∈ (finish t anchor).ancestral) (hg : (finish t anchor).label p = some g) :
    Settled t anchor (finish t anchor) p g := by
  refine handled_finish hd ha (lasting_settled hd) (P := fun _ => True) trivial
    (fun _ _ _ => trivial) (fun s hs _ p g rest hpending => ?_) hp hg
  obtain ⟨hlt, hasc⟩ := hs.of_mem_pending (hpending ▸ List.mem_cons_self)
  exact placed_foldl_meet hd hs.pop hlt hasc fun _ hq => hq

end Pedigree.Survey

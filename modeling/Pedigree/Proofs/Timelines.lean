import Pedigree.Proofs.Chronologies
import Pedigree.Proofs.Couples
import Pedigree.Proofs.Tidings

/-! Timelines as a reader finds them, who passes over blank lines and remembers the date that stood
last. Main statement: if names are made of letters, the events of the chronology are read from a
timeline in their order, and each century and each year that ends a decade, if anything happened in
it, is announced once and in its place. -/

namespace Pedigree
namespace Timeline

inductive Kind where
  | century
  | year
deriving DecidableEq, Repr

namespace Kind

def number : Kind → Date → Nat
  | century, d => d.century
  | year, d => d.year.toNat

/-- Every century is announced, and of the years those that end a decade. -/
def Due : Kind → Nat → Prop
  | century, _ => True
  | year, n => n % 10 = 0

instance : (k : Kind) → (n : Nat) → Decidable (k.Due n)
  | century, _ => isTrue trivial
  | year, n => inferInstanceAs (Decidable (n % 10 = 0))

theorem number_mono (k : Kind) {d d' : Date} (h : d < d') : k.number d ≤ k.number d' := by
  have hyear : d.year.toNat ≤ d'.year.toNat := by
    rcases Date.lt_iff_before.mp h with hlt | ⟨heq, -⟩
    · exact Nat.le_of_lt (UInt16.lt_iff_toNat_lt.mp hlt)
    · rw [heq]
  cases k with
  | century => exact Nat.div_le_div_right hyear
  | year => exact hyear

end Kind

inductive Mark (ε : Type) where
  | banner (k : Kind) (n : Nat)
  | event (d : Date) (e : ε)
deriving DecidableEq, Repr

section
variable {ε : Type}

def marks? : Option Date → List (Line ε) → Option (List (Mark ε))
  | _, [] => some []
  | last, .blank :: ls => marks? last ls
  | last, .century n :: ls => (marks? last ls).map (.banner .century n :: ·)
  | last, .year n :: ls => (marks? last ls).map (.banner .year n :: ·)
  | _, .dated d e :: ls => (marks? (some d) ls).map (.event d e :: ·)
  | some d, .further e :: ls => (marks? (some d) ls).map (.event d e :: ·)
  | none, .further _ :: _ => none

def Mark.event? : Mark ε → Option (Date × ε)
  | banner _ _ => none
  | event d e => some (d, e)

def Mark.number? (k : Kind) : Mark ε → Option Nat
  | banner l n => if l = k then some n else none
  | event _ _ => none

def told (ms : List (Mark ε)) : List (Date × ε) := ms.filterMap Mark.event?

def banners (k : Kind) (ms : List (Mark ε)) : List Nat := ms.filterMap (Mark.number? k)

/-- Each century, or each year that ends a decade, has one banner if anything happened in it, and
else none; what happened earlier stands before the banner, all else behind it. -/
structure Announced (k : Kind) (ms : List (Mark ε)) : Prop where
  once : ∀ n, (banners k ms).count n =
    if k.Due n ∧ ∃ x ∈ told ms, k.number x.1 = n then 1 else 0
  parts : ∀ n before after, ms = before ++ .banner k n :: after →
    (∀ x ∈ told before, k.number x.1 < n) ∧ ∀ x ∈ told after, n ≤ k.number x.1

end

def read? (body : String) : Option (List (Mark Tidings)) := do
  let lines ← (body.toList.splitOn '\n').mapM Line.read?
  marks? none lines

variable {ε : Type}

namespace Banners

def standing (b : Banners) : Kind → List Nat
  | .century => b.centuries
  | .year => b.years

def Owes (b : Banners) (d : Date) (k : Kind) : Prop :=
  k.Due (k.number d) ∧ k.number d ∉ b.standing k

instance (b : Banners) (d : Date) (k : Kind) : Decidable (b.Owes d k) :=
  inferInstanceAs (Decidable (_ ∧ _))

def marks (b : Banners) (d : Date) : List (Mark ε) :=
  [Kind.century, .year].flatMap fun k => if b.Owes d k then [.banner k (k.number d)] else []

variable {b : Banners} {d : Date} {k : Kind} {n : Nat}

theorem mem_standing_add :
    n ∈ (b.add d).standing k ↔ n ∈ b.standing k ∨ k.Due n ∧ k.number d = n := by
  cases k with
  | century => simp [add, standing, Kind.Due, Kind.number, or_comm, eq_comm]
  | year =>
    unfold add standing Kind.Due Kind.number
    split <;> grind

theorem mem_marks {m : Mark ε} :
    m ∈ b.marks d ↔ ∃ k, b.Owes d k ∧ m = .banner k (k.number d) := by
  unfold marks
  constructor
  · intro h
    obtain ⟨k, -, hm⟩ := List.mem_flatMap.mp h
    split at hm
    · exact ⟨k, ‹_›, List.mem_singleton.mp hm⟩
    · cases hm
  · intro h
    obtain ⟨k, howes, hm⟩ := h
    refine List.mem_flatMap.mpr ⟨k, by cases k <;> simp, ?_⟩
    rw [if_pos howes]
    exact List.mem_singleton.mpr hm

theorem banner_mem_marks :
    (.banner k n : Mark ε) ∈ b.marks d ↔ b.Owes d k ∧ k.number d = n := by
  rw [mem_marks]
  constructor
  · intro h
    obtain ⟨l, howes, hbanner⟩ := h
    obtain ⟨rfl, rfl⟩ := Mark.banner.inj hbanner
    exact ⟨howes, rfl⟩
  · intro h
    obtain ⟨howes, rfl⟩ := h
    exact ⟨k, howes, rfl⟩

theorem marks?_lines (f : Event → ε) (b : Banners) (d : Date) (last : Option Date)
    (ls : List (Line ε)) :
    marks? last ((b.lines d).map (Line.map f) ++ ls) = (marks? last ls).map (b.marks d ++ ·) := by
  unfold lines marks Owes Kind.Due Kind.number standing
  by_cases hcentury : d.century ∈ b.centuries <;>
    by_cases hyear : d.year.toNat % 10 = 0 ∧ d.year.toNat ∉ b.years <;>
    simp [hcentury, hyear, Line.map, marks?, Function.comp_def]

end Banners

def marks (f : Event → ε) : Banners → Chronology → List (Mark ε)
  | _, [] => []
  | b, (d, es) :: rest =>
    b.marks d ++ es.map (fun e => .event d (f e)) ++ marks f (b.add d) rest

theorem marks?_further (f : Event → ε) (d : Date) (es : List Event) (ls : List (Line ε)) :
    marks? (some d) ((es.map .further).map (Line.map f) ++ ls) =
      (marks? (some d) ls).map (es.map (fun e => .event d (f e)) ++ ·) := by
  induction es with
  | nil => simp
  | cons e es ih =>
    rw [List.map_cons, List.map_cons, List.cons_append, Line.map, marks?, ih, Option.map_map]
    rfl

theorem marks?_entries (f : Event → ε) (d : Date) {es : List Event} (h : es ≠ [])
    (last : Option Date) (ls : List (Line ε)) :
    marks? last ((entries d es).map (Line.map f) ++ ls) =
      (marks? (some d) ls).map (es.map (fun e => .event d (f e)) ++ ·) := by
  obtain ⟨e, es, rfl⟩ := List.exists_cons_of_ne_nil h
  rw [entries, List.map_cons, List.cons_append, Line.map, marks?, marks?_further, Option.map_map]
  rfl

theorem marks?_lines (f : Event → ε) {c : Chronology} (h : ∀ x ∈ c, x.2 ≠ []) (b : Banners)
    (last : Option Date) :
    marks? last ((lines b c).map (Line.map f) ++ [.blank]) = some (marks f b c) := by
  induction c generalizing b last with
  | nil => rfl
  | cons x rest ih =>
    obtain ⟨d, es⟩ := x
    obtain ⟨hes, hrest⟩ := List.forall_mem_cons.mp h
    rw [lines, List.map_append, List.map_append, List.append_assoc, List.append_assoc,
      Banners.marks?_lines, marks?_entries f d hes, ih hrest]
    simp [marks]

theorem told_marks (f : Event → ε) (b : Banners) (c : Chronology) :
    told (marks f b c) = (Grouping.toList c).map fun x => (x.1, f x.2) := by
  induction c generalizing b with
  | nil => rfl
  | cons x rest ih =>
    obtain ⟨d, es⟩ := x
    have hbanners : told (b.marks d : List (Mark ε)) = [] := by
      apply List.filterMap_eq_nil_iff.mpr
      intro m hm
      obtain ⟨k, -, rfl⟩ := Banners.mem_marks.mp hm
      rfl
    have hevents : told (es.map fun e => Mark.event d (f e)) = es.map fun e => (d, f e) := by
      unfold told
      rw [List.filterMap_map, ← List.filterMap_eq_map']
      rfl
    have hrest := ih (b.add d)
    unfold told at hbanners hevents hrest ⊢
    rw [marks, List.filterMap_append, List.filterMap_append, hbanners, hevents, hrest,
      Grouping.toList_cons, List.map_append, List.map_map, List.nil_append]
    rfl

theorem mem_told {ms : List (Mark ε)} {d : Date} {e : ε} :
    (d, e) ∈ told ms ↔ .event d e ∈ ms := by
  unfold told
  rw [List.mem_filterMap]
  constructor
  · intro h
    obtain ⟨m, hm, hevent⟩ := h
    cases m with
    | banner k n => cases hevent
    | event d' e' =>
      cases hevent
      exact hm
  · intro h
    exact ⟨_, h, rfl⟩

theorem mem_banners {ms : List (Mark ε)} {k : Kind} {n : Nat} :
    n ∈ banners k ms ↔ .banner k n ∈ ms := by
  unfold banners
  rw [List.mem_filterMap]
  constructor
  · intro h
    obtain ⟨m, hm, hnumber⟩ := h
    cases m with
    | banner l n' =>
      obtain ⟨rfl, hn⟩ := Option.ite_none_right_eq_some.mp hnumber
      cases hn
      exact hm
    | event d e => cases hnumber
  · intro h
    exact ⟨_, h, if_pos rfl⟩

section
variable {f : Event → ε} {b : Banners} {c : Chronology} {k : Kind} {n : Nat} {d : Date} {e : ε}

theorem banner_mem_marks :
    .banner k n ∈ marks f b c ↔
      (k.Due n ∧ n ∉ b.standing k) ∧ ∃ x ∈ c, k.number x.1 = n := by
  induction c generalizing b with
  | nil => simp [marks]
  | cons x rest ih =>
    obtain ⟨d, es⟩ := x
    have hevents : Mark.banner k n ∉ es.map fun e => Mark.event d (f e) := by simp
    -- The first date that has the number owes the banner, and behind it the banner stands.
    rw [marks, List.mem_append, List.mem_append, Banners.banner_mem_marks, ih,
      Banners.mem_standing_add, List.exists_mem_cons_iff, Banners.Owes]
    grind

theorem exists_of_event_mem_marks (h : .event d e ∈ marks f b c) : ∃ x ∈ c, x.1 = d := by
  have htold : (d, e) ∈ (Grouping.toList c).map fun x => (x.1, f x.2) := by
    rw [← told_marks f b]
    exact mem_told.mpr h
  obtain ⟨x, hx, heq⟩ := List.mem_map.mp htold
  obtain ⟨rfl, -⟩ := Prod.mk.inj heq
  exact Grouping.exists_key_of_mem_toList hx

end

/-- In which order two marks stand. Banners of a kind ascend, and each parts what happened before
from all else. -/
def Mark.Before : Mark ε → Mark ε → Prop
  | banner k m, banner l n => k = l → m < n
  | banner k n, event d _ => n ≤ k.number d
  | event d _, banner k n => k.number d < n
  | event _ _, event _ _ => True

section
variable {f : Event → ε} {b : Banners} {rest : Chronology} {d : Date} {es : List Event}

/-- A banner that has to be set up after a date has a higher number than that date, whose own number
stands already where it has to. -/
theorem number_lt_of_banner_mem {k : Kind} {n : Nat} (hlt : ∀ x ∈ rest, d < x.1)
    (h : .banner k n ∈ marks f (b.add d) rest) : k.number d < n := by
  obtain ⟨⟨hdue, hstanding⟩, x, hx, rfl⟩ := banner_mem_marks.mp h
  apply Nat.lt_of_le_of_ne (k.number_mono (hlt x hx))
  intro heq
  exact hstanding (Banners.mem_standing_add.mpr (Or.inr ⟨hdue, heq⟩))

theorem pairwise_marks_of_date (f : Event → ε) (b : Banners) (d : Date) (es : List Event) :
    (b.marks d ++ es.map fun e => Mark.event d (f e)).Pairwise Mark.Before := by
  have hmarks : (b.marks d : List (Mark ε)).Pairwise Mark.Before := by
    have hkinds : [Kind.century, .year].Pairwise (· ≠ ·) := by decide
    apply List.pairwise_flatMap.mpr
    refine ⟨fun k _ => by split <;> simp, hkinds.imp ?_⟩
    intro k l hkl m hm m' hm'
    obtain ⟨-, rfl⟩ := List.mem_ite_nil_right.mp hm |>.imp_right List.mem_singleton.mp
    obtain ⟨-, rfl⟩ := List.mem_ite_nil_right.mp hm' |>.imp_right List.mem_singleton.mp
    exact fun heq => absurd heq hkl
  have hevents : (es.map fun e => Mark.event d (f e)).Pairwise Mark.Before := by
    rw [List.pairwise_map]
    exact List.pairwise_of_forall fun _ _ => trivial
  apply List.pairwise_append.mpr
  refine ⟨hmarks, hevents, ?_⟩
  intro m hm m' hm'
  obtain ⟨k, -, rfl⟩ := Banners.mem_marks.mp hm
  obtain ⟨e, -, rfl⟩ := List.mem_map.mp hm'
  exact Nat.le_refl _

theorem pairwise_marks {c : Chronology} (h : c.Pairwise fun x y => x.1 < y.1) :
    (marks f b c).Pairwise Mark.Before := by
  induction c generalizing b with
  | nil => exact List.Pairwise.nil
  | cons x rest ih =>
    obtain ⟨d, es⟩ := x
    obtain ⟨hlt, hrest⟩ := List.pairwise_cons.mp h
    rw [marks]
    apply List.pairwise_append.mpr
    refine ⟨pairwise_marks_of_date f b d es, ih hrest, ?_⟩
    intro m hm m' hm'
    -- What is said of the first date, by a banner or by an event, comes before the later dates.
    rcases List.mem_append.mp hm with hbanner | hevent
    · obtain ⟨k, -, rfl⟩ := Banners.mem_marks.mp hbanner
      cases m' with
      | banner l n =>
        intro hkl
        subst hkl
        exact number_lt_of_banner_mem hlt hm'
      | event d' e' =>
        obtain ⟨x, hx, rfl⟩ := exists_of_event_mem_marks hm'
        exact k.number_mono (hlt x hx)
    · obtain ⟨e, -, rfl⟩ := List.mem_map.mp hevent
      cases m' with
      | banner l n => exact number_lt_of_banner_mem hlt hm'
      | event d' e' => trivial

end

theorem pairwise_banners {ms : List (Mark ε)} (h : ms.Pairwise Mark.Before) (k : Kind) :
    (banners k ms).Pairwise (· < ·) := by
  apply h.filterMap
  intro m m' hm n hn n' hn'
  cases m with
  | event d e => cases hn
  | banner l i =>
    cases m' with
    | event d e => cases hn'
    | banner l' i' =>
      obtain ⟨rfl, hi⟩ := Option.ite_none_right_eq_some.mp hn
      obtain ⟨rfl, hi'⟩ := Option.ite_none_right_eq_some.mp hn'
      obtain rfl : i = n := Option.some.inj hi
      obtain rfl : i' = n' := Option.some.inj hi'
      exact hm rfl

theorem exists_told_marks_iff (f : Event → ε) (b : Banners) {c : Chronology}
    (h : Grouping.Proper c) (k : Kind) (n : Nat) :
    (∃ x ∈ told (marks f b c), k.number x.1 = n) ↔ ∃ x ∈ c, k.number x.1 = n := by
  rw [told_marks]
  constructor
  · intro hx
    obtain ⟨x, hx, rfl⟩ := hx
    obtain ⟨y, hy, rfl⟩ := List.mem_map.mp hx
    obtain ⟨z, hz, hzy⟩ := Grouping.exists_key_of_mem_toList hy
    exact ⟨z, hz, congrArg k.number hzy⟩
  · intro hx
    obtain ⟨x, hx, rfl⟩ := hx
    obtain ⟨e, he⟩ := h.exists_mem_toList hx
    exact ⟨_, List.mem_map.mpr ⟨_, he, rfl⟩, rfl⟩

theorem announced_marks (f : Event → ε) {c : Chronology} (h : Grouping.Proper c) (k : Kind) :
    Announced k (marks f {} c) := by
  have hpairs : (marks f {} c).Pairwise Mark.Before := pairwise_marks h.ascending
  constructor
  case once =>
    intro n
    have hnone : n ∉ ({} : Banners).standing k := by
      cases k <;> exact List.not_mem_nil
    have hmem : n ∈ banners k (marks f {} c) ↔
        k.Due n ∧ ∃ x ∈ told (marks f {} c), k.number x.1 = n := by
      rw [mem_banners, banner_mem_marks, exists_told_marks_iff f {} h, and_iff_left hnone]
    have hnodup : (banners k (marks f {} c)).Nodup := (pairwise_banners hpairs k).imp Nat.ne_of_lt
    rw [hnodup.count]
    exact if_congr hmem rfl rfl
  case parts =>
    intro n before after hsplit
    rw [hsplit] at hpairs
    obtain ⟨-, hbehind, hfront⟩ := List.pairwise_append.mp hpairs
    constructor
    · intro x hx
      exact hfront _ (mem_told.mp hx) _ List.mem_cons_self
    · intro x hx
      exact (List.pairwise_cons.mp hbehind).1 _ (mem_told.mp hx)

theorem event?_lines (b : Banners) (c : Chronology) :
    (lines b c).filterMap Line.event? = (Grouping.toList c).map Prod.snd := by
  induction c generalizing b with
  | nil => rfl
  | cons x rest ih =>
    obtain ⟨d, es⟩ := x
    have hbanners : (b.lines d).filterMap Line.event? = [] := by
      unfold Banners.lines
      split <;> split <;> rfl
    have hentries : (entries d es).filterMap Line.event? = es := by
      cases es with
      | nil => rfl
      | cons e es =>
        have hfurther : (es.map .further).filterMap Line.event? = es := by
          rw [List.filterMap_map]
          exact List.filterMap_some
        rw [entries, List.filterMap_cons, hfurther]
        rfl
    rw [lines, List.filterMap_append, List.filterMap_append, hbanners, hentries, ih,
      Grouping.toList_cons, List.map_append, List.map_map, List.nil_append]
    congr 1
    exact (List.map_id es).symm

theorem splitOn_join {texts : List String} (h : ∀ text ∈ texts, '\n' ∉ text.toList) :
    (String.join (texts.map (· ++ "\n"))).toList.splitOn '\n' =
      texts.map String.toList ++ [[]] := by
  induction texts with
  | nil => rfl
  | cons text texts ih =>
    obtain ⟨htext, htexts⟩ := List.forall_mem_cons.mp h
    have hchars : (String.join ((text :: texts).map (· ++ "\n"))).toList =
        text.toList ++ '\n' :: (String.join (texts.map (· ++ "\n"))).toList := by
      simp [String.join_cons]
    rw [hchars, List.splitOn_append_cons_self_of_not_mem htext, ih htexts]
    rfl

theorem mapM_eq_some {α β : Type} {f : α → Option β} {g : α → β} {xs : List α}
    (h : ∀ x ∈ xs, f x = some (g x)) : xs.mapM f = some (xs.map g) := by
  induction xs with
  | nil => rfl
  | cons x xs ih =>
    obtain ⟨hx, hxs⟩ := List.forall_mem_cons.mp h
    rw [List.mapM_cons, hx, ih hxs]
    rfl

theorem mapM_splitOn_join {α β : Type} {read : List Char → Option β} {text : α → String}
    {f : α → β} {last : β} {xs : List α} (hnewline : ∀ x ∈ xs, '\n' ∉ (text x).toList)
    (hread : ∀ x ∈ xs, read (text x).toList = some (f x)) (hlast : read [] = some last) :
    ((String.join ((xs.map text).map (· ++ "\n"))).toList.splitOn '\n').mapM read =
      some (xs.map f ++ [last]) := by
  have htexts : xs.mapM (read ∘ String.toList ∘ text) = some (xs.map f) := mapM_eq_some hread
  rw [splitOn_join (List.forall_mem_map.mpr hnewline), List.map_map, List.mapM_append,
    List.mapM_map, htexts, List.mapM_cons, hlast]
  rfl

end Timeline

namespace FamilyTree

open Timeline

variable {t : FamilyTree}

theorem Lettered.unparted_nameOf (l : Lettered t) {i : PersonId} (h : i < t.size) :
    Unparted (t.nameOf i) := by
  intro c hc
  have hletter : c.isAlpha = true := (l i h).2 c hc
  exact (Source.parted_of_isAlphanum (by simp [Char.isAlphanum, hletter])).1

theorem Lettered.unparted_of_mem_names (l : Lettered t) (m : Mirrored t) {d : Date} {e : Event}
    (h : e.TookPlace t d) : ∀ name ∈ (e.tidings t).names, Unparted name := by
  have howner : e.owner < t.size := by
    obtain ⟨p, hp, -⟩ := h
    exact (List.getElem?_eq_some_iff.mp hp).1
  cases e with
  | birth i =>
    have hi : Unparted (t.nameOf i) := l.unparted_nameOf howner
    simpa [Event.tidings, Tidings.names] using hi
  | death i =>
    have hi : Unparted (t.nameOf i) := l.unparted_nameOf howner
    simpa [Event.tidings, Tidings.names] using hi
  | marriage i j =>
    obtain ⟨-, hs, -⟩ := tookPlace_marriage_iff.mp h
    have hi : Unparted (t.nameOf i) := l.unparted_nameOf howner
    have hj : Unparted (t.nameOf j) := l.unparted_nameOf (lt_size_of_spouseOf (m.symm hs))
    simpa [Event.tidings, Tidings.names] using And.intro hi hj

def timelineBody (t : FamilyTree) : String :=
  String.join (((Timeline.lines {} (.ofTree t)).map (Line.text (Event.text t))).map (· ++ "\n"))

theorem timeline_eq_title_append (t : FamilyTree) (title : String) :
    t.timeline title = title ++ "\n" ++ t.timelineBody := by
  unfold timeline timelineBody
  exact String.join_cons

theorem Lettered.unparted_of_mem_lines (l : Lettered t) (r : Registered t) (m : Mirrored t)
    {line : Line Event} (h : line ∈ Timeline.lines {} (.ofTree t)) :
    ∀ word ∈ (line.map (Event.tidings t)).words, Unparted word := by
  apply Line.unparted_of_mem_words
  intro e he
  rw [Line.event?_map] at he
  obtain ⟨event, hevent, rfl⟩ := Option.map_eq_some_iff.mp he
  have hmem : event ∈ (Grouping.toList (Chronology.ofTree t)).map Prod.snd := by
    rw [← event?_lines {}]
    exact List.mem_filterMap.mpr ⟨line, h, hevent⟩
  obtain ⟨x, hx, rfl⟩ := List.mem_map.mp hmem
  exact l.unparted_of_mem_names m (r.mem_chronology_iff.mp hx)

theorem Lettered.read?_timelineBody (l : Lettered t) (r : Registered t) (m : Mirrored t) :
    read? t.timelineBody = some (marks (Event.tidings t) {} (.ofTree t)) := by
  have hwords : ∀ line ∈ Timeline.lines {} (.ofTree t),
      ∀ word ∈ (line.map (Event.tidings t)).words, Unparted word :=
    fun _ hline => l.unparted_of_mem_lines r m hline
  have hlast : Line.read? [] = some .blank := rfl
  have hread := mapM_splitOn_join (fun line hline => Line.newline_notMem_text (hwords line hline))
    (fun line hline => Line.read?_text (hwords line hline)) hlast
  have hnonempty : ∀ x ∈ Chronology.ofTree t, x.2 ≠ [] := (Grouping.proper_ofList _).nonempty
  unfold read? timelineBody
  rw [hread]
  exact marks?_lines (Event.tidings t) hnonempty {} none

/-- Below its title a timeline can be read: whatever the title, a reader who passes over blank lines
and banners, and gives an event behind dashes the date that stood last, finds the events of the
chronology in their order, with their dates and the names of the persons. Each century in which
anything happened is announced once, and each such year that ends a decade, behind all that happened
earlier and before all that happened then; nothing else is announced. -/
theorem timeline_reads_back {cs : List Change} (h : Fitting cs) (l : Lettered (ofHistory cs)) :
    ∃ body marks, (∀ title, (ofHistory cs).timeline title = title ++ "\n" ++ body) ∧
      read? body = some marks ∧
      told marks = (Grouping.toList (Chronology.ofTree (ofHistory cs))).map
        (fun x => (x.1, x.2.tidings (ofHistory cs))) ∧
      Announced .century marks ∧ Announced .year marks := by
  have hproper : Grouping.Proper (Chronology.ofTree (ofHistory cs)) := Grouping.proper_ofList _
  refine ⟨(ofHistory cs).timelineBody, _, timeline_eq_title_append _,
    l.read?_timelineBody (registered_ofHistory h) (mirrored_ofHistory h), told_marks _ _ _, ?_, ?_⟩
  · exact announced_marks _ hproper .century
  · exact announced_marks _ hproper .year

def twoCenturies : List Change :=
  [.declare "Anne" ⟨1899, 3, 3⟩ (some ⟨1930, 2, 2⟩), .declare "Louis" ⟨1930, 2, 2⟩ none,
    .declare "Marie" ⟨1930, 5, 5⟩ none, .linkSpouses 2 1 (some ⟨1950, 6, 1⟩)]

theorem timeline_of_twoCenturies_reads_back :
    Fitting twoCenturies ∧ Lettered (ofHistory twoCenturies) ∧
      ∃ body marks, (ofHistory twoCenturies).timeline "Title" = "Title" ++ "\n" ++ body ∧
        read? body = some marks ∧
        told marks = [(⟨1899, 3, 3⟩, .birth "Anne"), (⟨1930, 2, 2⟩, .death "Anne"),
          (⟨1930, 2, 2⟩, .birth "Louis"), (⟨1930, 5, 5⟩, .birth "Marie"),
          (⟨1950, 6, 1⟩, .marriage "Louis" "Marie")] ∧
        (banners .century marks).count 19 = 1 ∧ (banners .year marks).count 1930 = 1 ∧
        (banners .year marks).count 1899 = 0 := by
  have fit : Fitting twoCenturies := by decide
  have lettered : Lettered (ofHistory twoCenturies) := by decide
  obtain ⟨body, marks, hbody, hread, htold, hcentury, hyear⟩ := timeline_reads_back fit lettered
  have hevents : told marks = [(⟨1899, 3, 3⟩, .birth "Anne"), (⟨1930, 2, 2⟩, .death "Anne"),
      (⟨1930, 2, 2⟩, .birth "Louis"), (⟨1930, 5, 5⟩, .birth "Marie"),
      (⟨1950, 6, 1⟩, .marriage "Louis" "Marie")] := by
    rw [htold]
    decide
  refine ⟨fit, lettered, body, marks, hbody "Title", hread, hevents, ?_, ?_, ?_⟩
  · rw [hcentury.once, hevents]
    decide
  · rw [hyear.once, hevents]
    decide
  · rw [hyear.once, hevents]
    decide

example : Timeline.lines {} (.ofTree (ofHistory twoCenturies)) =
    [.blank, .century 18, .blank, .dated ⟨1899, 3, 3⟩ (.birth 0),
      .blank, .century 19, .blank, .blank, .year 1930, .blank,
      .dated ⟨1930, 2, 2⟩ (.death 0), .further (.birth 1), .dated ⟨1930, 5, 5⟩ (.birth 2),
      .blank, .year 1950, .blank, .dated ⟨1950, 6, 1⟩ (.marriage 1 2)] := by
  decide

end FamilyTree
end Pedigree

import Pedigree.Timeline
import Pedigree.Proofs.Cuts
import Pedigree.Proofs.Dates

/-! Lines of a timeline taken word by word. No word of a line has a blank in it, unless a name has,
so that words are found at the blanks. Main statement: a line whose names have no blanks tells its
event, with the names, and its date; a banner tells its number. -/

namespace Pedigree

def Unparted (word : String) : Prop := ∀ c ∈ word.toList, Source.isBlank c = false

instance (word : String) : Decidable (Unparted word) :=
  decidable_of_iff (word.toList.any Source.isBlank = false)
    (by simp only [Unparted, List.any_eq_false, Bool.not_eq_true])

namespace Unparted

theorem append {word word' : String} (h : Unparted word) (h' : Unparted word') :
    Unparted (word ++ word') := by
  intro c hc
  rw [String.toList_append, List.mem_append] at hc
  exact hc.elim (h c) (h' c)

theorem notMem {word : String} (h : Unparted word) {c : Char} (hc : Source.isBlank c = true) :
    c ∉ word.toList := by
  intro hmem
  exact absurd hc (by simp [h c hmem])

theorem splitOn_intercalate {words : List String} (h : ∀ word ∈ words, Unparted word)
    (hne : words ≠ []) :
    ((" ".intercalate words).toList.splitOn ' ').map String.ofList = words := by
  have hblank : ∀ cs ∈ words.map String.toList, ' ' ∉ cs := by
    intro cs hcs
    obtain ⟨word, hword, rfl⟩ := List.mem_map.mp hcs
    exact (h word hword).notMem rfl
  have hchars : (" ".intercalate words).toList = [' '].intercalate (words.map String.toList) :=
    String.toList_intercalate
  rw [hchars, List.splitOn_intercalate ' ' hblank (by simpa using hne), List.map_map]
  have hid : String.ofList ∘ String.toList = id := funext fun _ => String.ofList_toList
  rw [hid, List.map_id]

theorem newline_notMem_intercalate {words : List String} (h : ∀ word ∈ words, Unparted word) :
    '\n' ∉ (" ".intercalate words).toList := by
  rw [String.toList_intercalate]
  have hnewline : ∀ word ∈ words, '\n' ∉ word.toList := fun word hword => (h word hword).notMem rfl
  induction words with
  | nil => simp
  | cons word words ih =>
    obtain ⟨hword, hwords⟩ := List.forall_mem_cons.mp hnewline
    have htail := ih (List.forall_mem_cons.mp h).2 hwords
    cases words with
    | nil => simpa using hword
    | cons word' words => simpa [List.intercalate_cons_cons, hword] using htail

end Unparted

theorem isBlank_of_isDigit {c : Char} (h : c.isDigit = true) : Source.isBlank c = false :=
  (Source.parted_of_isAlphanum (by simp [Char.isAlphanum, h])).1

def number? (word : String) : Option Nat := Date.number? 1 word.toList.length word.toList

theorem isDigit_of_mem_repr {n : Nat} {c : Char} (h : c ∈ n.repr.toList) : c.isDigit = true := by
  rw [Nat.toList_repr] at h
  exact Nat.isDigit_of_mem_toDigits (by decide) (by decide) h

theorem unparted_repr (n : Nat) : Unparted n.repr :=
  fun _ hc => isBlank_of_isDigit (isDigit_of_mem_repr hc)

theorem number?_repr (n : Nat) : number? n.repr = some n := by
  have hdigits : n.repr.toList = Nat.toDigits 10 n := Nat.toList_repr
  have hne : n.repr.toList ≠ [] := hdigits ▸ Nat.toDigits_ne_nil
  apply Date.number?_eq_some_iff.mpr
  refine ⟨⟨List.length_pos_iff.mpr hne, Nat.le_refl _, fun c hc => isDigit_of_mem_repr hc⟩, ?_⟩
  rw [hdigits, Nat.ofDigitChars_ten_toDigits]

theorem Date.unparted_text (d : Date) : Unparted d.text := by
  have hpadded (width n : Nat) : ∀ c ∈ padded width n, Source.isBlank c = false :=
    fun _ hc => isBlank_of_isDigit (isDigit_of_mem_padded hc)
  have hslash : Source.isBlank '/' = false := by decide
  intro c hc
  have hchars : c ∈ d.chars := String.toList_ofList (l := d.chars) ▸ hc
  unfold chars at hchars
  simp only [List.mem_append, List.mem_cons] at hchars
  rcases hchars with hday | rfl | hmonth | rfl | hyear
  · exact hpadded _ _ c hday
  · exact hslash
  · exact hpadded _ _ c hmonth
  · exact hslash
  · exact hpadded _ _ c hyear

inductive Tidings where
  | birth (p : String)
  | death (p : String)
  | marriage (p q : String)
deriving DecidableEq, Repr

namespace Tidings

def names : Tidings → List String
  | birth p | death p => [p]
  | marriage p q => [p, q]

def words : Tidings → List String
  | birth p => ["Birth", "of", p ++ "."]
  | death p => ["†", "Death", "of", p ++ "."]
  | marriage p q => ["♥", "Marriage", "of", p, "and", q ++ "."]

def unstop? (word : String) : Option String :=
  if word.toList.getLast? = some '.' then some (String.ofList word.toList.dropLast) else none

def ofWords? : List String → Option Tidings
  | ["Birth", "of", p] => (unstop? p).map birth
  | ["†", "Death", "of", p] => (unstop? p).map death
  | ["♥", "Marriage", "of", p, "and", q] => (unstop? q).map (marriage p)
  | _ => none

theorem unstop?_append (word : String) : unstop? (word ++ ".") = some word := by
  have hword : (word ++ ".").toList = word.toList ++ ['.'] := String.toList_append
  unfold unstop?
  rw [hword, List.getLast?_concat, if_pos rfl, List.dropLast_concat, String.ofList_toList]

theorem ofWords?_words (e : Tidings) : ofWords? e.words = some e := by
  cases e
  all_goals
    rw [words, ofWords?, unstop?_append]
    rfl

theorem exists_words_eq_cons (e : Tidings) : ∃ word words, e.words = word :: words := by
  cases e <;> exact ⟨_, _, rfl⟩

theorem unparted_of_mem_words {e : Tidings} (h : ∀ name ∈ e.names, Unparted name) :
    ∀ word ∈ e.words, Unparted word := by
  have hstop : Unparted "." := by decide
  cases e with
  | birth p =>
    have hp : Unparted p := h p (by simp [names])
    simp only [words, List.forall_mem_cons]
    exact ⟨by decide, by decide, hp.append hstop, by simp⟩
  | death p =>
    have hp : Unparted p := h p (by simp [names])
    simp only [words, List.forall_mem_cons]
    exact ⟨by decide, by decide, by decide, hp.append hstop, by simp⟩
  | marriage p q =>
    have hp : Unparted p := h p (by simp [names])
    have hq : Unparted q := h q (by simp [names])
    simp only [words, List.forall_mem_cons]
    exact ⟨by decide, by decide, by decide, hp, by decide, hq.append hstop, by simp⟩

end Tidings

namespace Event

def tidings (t : FamilyTree) : Event → Tidings
  | birth p => .birth (t.nameOf p)
  | death p => .death (t.nameOf p)
  | marriage p q => .marriage (t.nameOf p) (t.nameOf q)

theorem text_eq_intercalate (t : FamilyTree) (e : Event) :
    e.text t = " ".intercalate (e.tidings t).words := by
  apply String.toList_injective
  rw [String.toList_intercalate]
  cases e with
  | birth p =>
    change ("Birth of " ++ t.nameOf p ++ ".").toList = _
    simp [tidings, Tidings.words]
  | death p =>
    change ("† Death of " ++ t.nameOf p ++ ".").toList = _
    simp [tidings, Tidings.words]
  | marriage p q =>
    change ("♥ Marriage of " ++ t.nameOf p ++ " and " ++ t.nameOf q ++ ".").toList = _
    simp [tidings, Tidings.words]

end Event

namespace Timeline

namespace Line

variable {ε ε' : Type}

def map (f : ε → ε') : Line ε → Line ε'
  | blank => blank
  | century n => century n
  | year n => year n
  | dated d e => dated d (f e)
  | further e => further (f e)

def event? : Line ε → Option ε
  | dated _ e | further e => some e
  | _ => none

def words : Line Tidings → List String
  | blank => [""]
  | century n => ["##########", "Century", n.repr, "##########"]
  | year n => ["==========", n.repr, "=========="]
  | dated d e => d.text :: ":" :: e.words
  | further e => "------------" :: e.words

def ofWords? : List String → Option (Line Tidings)
  | [""] => some blank
  | ["##########", "Century", n, "##########"] => (number? n).map century
  | ["==========", n, "=========="] => (number? n).map year
  | "------------" :: e => (Tidings.ofWords? e).map further
  | d :: ":" :: e => do some (dated (← Date.shown? d) (← Tidings.ofWords? e))
  | _ => none

def read? (line : List Char) : Option (Line Tidings) :=
  ofWords? ((line.splitOn ' ').map String.ofList)

theorem ofWords?_words (l : Line Tidings) : ofWords? l.words = some l := by
  cases l with
  | blank => rfl
  | century n =>
    rw [words, ofWords?, number?_repr]
    rfl
  | year n =>
    rw [words, ofWords?, number?_repr]
    rfl
  | dated d e =>
    -- Two of the rules above would take these words if the date were a row of signs.
    have hyear : d.text ≠ "==========" := d.text_ne (by decide)
    have hfurther : d.text ≠ "------------" := d.text_ne (by decide)
    rw [words, ofWords?, Date.shown?_text, Tidings.ofWords?_words]
    · rfl
    · exact fun h _ => hyear h
    · exact hfurther
  | further e =>
    rw [words, ofWords?, Tidings.ofWords?_words]
    rfl

theorem text_eq_intercalate (t : FamilyTree) (l : Line Event) :
    l.text (Event.text t) = " ".intercalate (l.map (Event.tidings t)).words := by
  apply String.toList_injective
  cases l with
  | blank => exact congrArg String.toList String.intercalate_singleton.symm
  | century n =>
    change ("########## Century " ++ n.repr ++ " ##########").toList = _
    simp [map, words]
  | year n =>
    change ("========== " ++ n.repr ++ " ==========").toList = _
    simp [map, words]
  | dated d e =>
    change (d.text ++ " : " ++ e.text t).toList = _
    obtain ⟨word, words', hwords⟩ := (e.tidings t).exists_words_eq_cons
    simp [map, words, Event.text_eq_intercalate, hwords, String.toList_intercalate]
  | further e =>
    change ("------------ " ++ e.text t).toList = _
    obtain ⟨word, words', hwords⟩ := (e.tidings t).exists_words_eq_cons
    simp [map, words, Event.text_eq_intercalate, hwords, String.toList_intercalate]

theorem unparted_of_mem_words {l : Line Tidings}
    (h : ∀ e ∈ l.event?, ∀ name ∈ e.names, Unparted name) : ∀ word ∈ l.words, Unparted word := by
  cases l with
  | blank => decide
  | century n =>
    simp only [words, List.forall_mem_cons]
    exact ⟨by decide, by decide, unparted_repr n, by decide, by simp⟩
  | year n =>
    simp only [words, List.forall_mem_cons]
    exact ⟨by decide, unparted_repr n, by decide, by simp⟩
  | dated d e =>
    simp only [words, List.forall_mem_cons]
    exact ⟨d.unparted_text, by decide, Tidings.unparted_of_mem_words (h e rfl)⟩
  | further e =>
    simp only [words, List.forall_mem_cons]
    exact ⟨by decide, Tidings.unparted_of_mem_words (h e rfl)⟩

theorem event?_map (f : ε → ε') (l : Line ε) : (l.map f).event? = l.event?.map f := by
  cases l <;> rfl

variable {t : FamilyTree} {l : Line Event}

theorem read?_text (h : ∀ word ∈ (l.map (Event.tidings t)).words, Unparted word) :
    read? (l.text (Event.text t)).toList = some (l.map (Event.tidings t)) := by
  have hne : (l.map (Event.tidings t)).words ≠ [] := by
    cases l <;> simp [map, words]
  unfold read?
  rw [text_eq_intercalate, Unparted.splitOn_intercalate h hne, ofWords?_words]

theorem newline_notMem_text (h : ∀ word ∈ (l.map (Event.tidings t)).words, Unparted word) :
    '\n' ∉ (l.text (Event.text t)).toList := by
  rw [text_eq_intercalate]
  exact Unparted.newline_notMem_intercalate h

end Line
end Timeline
end Pedigree

import Mathlib.Data.List.TakeWhile
import Mathlib.Order.Basic
import Pedigree.Source.Scan

/-! The lexemes of the language, told apart from the order in which they are tried. Main statement:
a text that opens with a lexeme, followed by something that does not carry it on, has this lexeme in
front and no other. -/

namespace Pedigree

def Digits (least most : Nat) (cs : List Char) : Prop :=
  least ≤ cs.length ∧ cs.length ≤ most ∧ ∀ c ∈ cs, c.isDigit = true

def Date.Written (cs : List Char) : Prop :=
  ∃ day month year, cs = day ++ '/' :: (month ++ '/' :: year) ∧
    Digits 1 2 day ∧ Digits 1 2 month ∧ Digits 4 4 year

theorem Date.Written.exists_cons {cs : List Char} (h : Date.Written cs) :
    ∃ c cs', cs = c :: cs' ∧ c.isDigit = true := by
  obtain ⟨day, month, year, rfl, ⟨hpos, -, hdigits⟩, -, -⟩ := h
  obtain ⟨c, day, rfl⟩ := List.exists_cons_of_length_pos hpos
  exact ⟨c, _, rfl, hdigits c List.mem_cons_self⟩

namespace Source

theorem digits_takeDigits (n : Nat) (cs : List Char) : Digits 0 n (takeDigits n cs).1 := by
  fun_induction takeDigits n cs with
  | case1 n c cs hc ih =>
    obtain ⟨-, hle, hall⟩ := ih
    refine ⟨Nat.zero_le _, Nat.succ_le_succ hle, ?_⟩
    rintro d (_ | ⟨_, hd⟩)
    · exact hc
    · exact hall d hd
  | case2 n c cs hc => exact ⟨Nat.zero_le _, Nat.zero_le _, by simp⟩
  | case3 n cs => exact ⟨Nat.zero_le _, Nat.zero_le _, by simp⟩

theorem takeDigits_append_of_digits {n least : Nat} {ds rest : List Char} (hds : Digits least n ds)
    (hrest : ds.length = n ∨ ∀ c ∈ rest.head?, c.isDigit = false) :
    takeDigits n (ds ++ rest) = (ds, rest) := by
  obtain ⟨-, hle, hall⟩ := hds
  induction ds generalizing n with
  | nil =>
    cases n with
    | zero => rfl
    | succ n =>
      cases rest with
      | nil => rfl
      | cons c rest =>
        have hc : c.isDigit = false := by simpa using hrest
        simp [takeDigits, hc]
  | cons d ds ih =>
    cases n with
    | zero => simp at hle
    | succ n =>
      have hd : d.isDigit = true := hall d List.mem_cons_self
      have htail := ih (n := n) (by simpa using hrest) (by simpa using hle)
        (fun c hc => hall c (List.mem_cons_of_mem d hc))
      simp [takeDigits, hd, htail]

theorem dateLexeme?_eq_some_iff {cs text rest : List Char} :
    dateLexeme? cs = some (text, rest) ↔ Date.Written text ∧ cs = text ++ rest := by
  constructor
  · intro h
    refine ⟨?_, (dateLexeme?_append h).1.symm⟩
    unfold dateLexeme? at h
    split at h
    · rename_i day cs₁ h₁
      split at h
      · rename_i month cs₂ h₂
        simp only [Option.ite_none_right_eq_some, Option.some.injEq, Prod.mk.injEq] at h
        obtain ⟨⟨hday, hmonth, hyear⟩, rfl, -⟩ := h
        have hd := digits_takeDigits 2 cs
        have hm := digits_takeDigits 2 cs₁
        have hy := digits_takeDigits 4 cs₂
        rw [h₁] at hd
        rw [h₂] at hm
        exact ⟨day, month, _, rfl, ⟨List.length_pos_iff.mpr hday, hd.2⟩,
          ⟨List.length_pos_iff.mpr hmonth, hm.2⟩, Nat.le_of_eq hyear.symm, hy.2⟩
      · cases h
    · cases h
  · rintro ⟨⟨day, month, year, rfl, hday, hmonth, hyear⟩, rfl⟩
    have hslash : ∀ cs : List Char, ∀ c ∈ ('/' :: cs).head?, c.isDigit = false := by
      rintro cs c ⟨⟩
      decide
    have hd := takeDigits_append_of_digits hday
      (Or.inr (hslash (month ++ '/' :: (year ++ rest))))
    have hm := takeDigits_append_of_digits hmonth (Or.inr (hslash (year ++ rest)))
    have hfour : year.length = 4 := Nat.le_antisymm hyear.2.1 hyear.1
    have hy : takeDigits 4 (year ++ rest) = (year, rest) :=
      takeDigits_append_of_digits hyear (Or.inl hfour)
    have hdne : day ≠ [] := List.length_pos_iff.mp hday.1
    have hmne : month ≠ [] := List.length_pos_iff.mp hmonth.1
    simp [dateLexeme?, hd, hm, hy, hdne, hmne, hfour]

theorem takeWhile_dropWhile_eq_iff {p : Char → Bool} {cs text rest : List Char} :
    (cs.takeWhile p = text ∧ cs.dropWhile p = rest) ↔
      cs = text ++ rest ∧ (∀ c ∈ text, p c = true) ∧ ∀ c ∈ rest.head?, p c = false := by
  constructor
  · rintro ⟨rfl, rfl⟩
    refine ⟨List.takeWhile_append_dropWhile.symm, fun c hc => List.mem_takeWhile_imp hc, ?_⟩
    intro c hc
    have hnot := List.head?_dropWhile_not p cs
    rw [Option.mem_def.mp hc] at hnot
    exact hnot
  · rintro ⟨rfl, htext, hrest⟩
    have hnone : rest.takeWhile p = [] ∧ rest.dropWhile p = rest := by
      cases rest with
      | nil => exact ⟨rfl, rfl⟩
      | cons c rest =>
        have hc : p c = false := hrest c rfl
        simp [hc]
    rw [List.takeWhile_append_of_pos htext, List.dropWhile_append_of_pos htext, hnone.1, hnone.2,
      List.append_nil]
    exact ⟨rfl, rfl⟩

theorem run_append_inj {p : Char → Bool} {run rest run' rest' : List Char}
    (hrun : ∀ c ∈ run, p c = true) (hrest : ∀ c ∈ rest.head?, p c = false)
    (hrun' : ∀ c ∈ run', p c = true) (hrest' : ∀ c ∈ rest'.head?, p c = false)
    (h : run ++ rest = run' ++ rest') : run = run' ∧ rest = rest' := by
  obtain ⟨htake, hdrop⟩ := takeWhile_dropWhile_eq_iff.mpr ⟨rfl, hrun, hrest⟩
  obtain ⟨htake', hdrop'⟩ := takeWhile_dropWhile_eq_iff.mpr ⟨h, hrun', hrest'⟩
  exact ⟨htake.symm.trans htake', hdrop.symm.trans hdrop'⟩

theorem nameLexeme?_eq_some_iff {cs text rest : List Char} :
    nameLexeme? cs = some (text, rest) ↔
      text ≠ [] ∧ cs = text ++ rest ∧ (∀ c ∈ text, c.isAlpha = true) ∧
        ∀ c ∈ rest.head?, c.isAlpha = false := by
  rw [← takeWhile_dropWhile_eq_iff, nameLexeme?]
  split
  · rename_i hempty
    have hnil := List.isEmpty_iff.mp hempty
    simp only [hnil, reduceCtorEq, false_iff]
    rintro ⟨hne, rfl, -⟩
    exact hne rfl
  · rename_i hempty
    simp only [Option.some.injEq, Prod.mk.injEq]
    constructor
    · rintro ⟨rfl, rfl⟩
      exact ⟨fun hnil => hempty (List.isEmpty_iff.mpr hnil), rfl, rfl⟩
    · rintro ⟨-, htext, hrest⟩
      exact ⟨htext, hrest⟩

namespace Token

def IsLexeme : Token → Prop
  | name text => text ≠ "" ∧ ∀ c ∈ text.toList, c.isAlpha = true
  | date text => Date.Written text.toList
  | comment text => ∀ c ∈ text.toList, c ≠ '\n'
  | _ => True

def EndsBefore : Token → List Char → Prop
  | name _, rest => ∀ c ∈ rest.head?, c.isAlpha = false
  | comment _, rest => ∀ c ∈ rest.head?, c = '\n'
  | _, _ => True

/-- What is left makes no longer lexeme of the one in front, neither an arrow of a hyphen nor the
keyword of a name. -/
def StandsAlone : Token → List Char → Prop
  | range, rest => ∀ c ∈ rest.head?, c ≠ '>'
  | name text, rest => ¬familyTree.chars <+: text.toList ++ rest
  | _, _ => True

end Token

theorem isLexeme_of_lexeme? {cs rest : List Char} {t : Token} (h : lexeme? cs = some (t, rest)) :
    t.IsLexeme ∧ t.EndsBefore rest ∧ t.StandsAlone rest := by
  unfold lexeme? at h
  split at h
  case h_1 =>
    simp only [Option.some.injEq, Prod.mk.injEq] at h
    obtain ⟨rfl, rfl⟩ := h
    obtain ⟨-, htext, hrest⟩ := takeWhile_dropWhile_eq_iff.mp ⟨rfl, rfl⟩
    refine ⟨fun c hc => ?_, fun c hc => ?_, trivial⟩
    · exact bne_iff_ne.mp (htext c (by simpa using hc))
    · simpa using hrest c hc
  case h_10 _ harrow =>
    simp only [Option.some.injEq, Prod.mk.injEq] at h
    obtain ⟨rfl, rfl⟩ := h
    refine ⟨trivial, trivial, ?_⟩
    rintro c hc rfl
    obtain ⟨cs', hcs'⟩ := List.head?_eq_some_iff.mp (Option.mem_def.mp hc)
    exact harrow cs' (hcs' ▸ rfl)
  case h_11 _ _ hkeyword _ _ _ _ _ _ _ _ =>
    split at h
    · rename_i hd
      simp only [Option.some.injEq, Prod.mk.injEq] at h
      obtain ⟨rfl, rfl⟩ := h
      have hw := (dateLexeme?_eq_some_iff.mp hd).1
      exact ⟨by simpa [Token.IsLexeme] using hw, trivial, trivial⟩
    · simp only [Option.map_eq_some_iff, Prod.mk.injEq, Prod.exists] at h
      obtain ⟨text, _, hn, rfl, rfl⟩ := h
      obtain ⟨hne, happend, hall, hrest⟩ := nameLexeme?_eq_some_iff.mp hn
      refine ⟨⟨by simpa using hne, by simpa using hall⟩, hrest, ?_⟩
      rintro ⟨cs', hcs'⟩
      rw [String.toList_ofList, ← happend] at hcs'
      exact hkeyword cs' hcs'.symm
  all_goals
    simp only [Option.some.injEq, Prod.mk.injEq] at h
    obtain ⟨rfl, rfl⟩ := h
    exact ⟨trivial, trivial, trivial⟩

theorem isDigit_ne_true_of_isAlpha {c : Char} (h : c.isAlpha = true) : c.isDigit ≠ true := by
  unfold Char.isAlpha Char.isUpper Char.isLower at h
  unfold Char.isDigit
  simp only [Bool.or_eq_true, Bool.and_eq_true, decide_eq_true_eq] at *
  grind

theorem lexeme?_of_isAlphanum {cs : List Char} (hc : ∀ c ∈ cs.head?, c.isAlphanum = true)
    (hkeyword : ∀ cs', cs ≠ Token.familyTree.chars ++ cs') :
    lexeme? cs =
      match dateLexeme? cs with
      | some (text, rest) => some (.date (String.ofList text), rest)
      | none => (nameLexeme? cs).map fun (text, rest) => (.name (String.ofList text), rest) := by
  unfold lexeme?
  split
  case h_2 cs' =>
    refine absurd ?_ (hkeyword cs')
    simp [Token.chars, Token.text, Token.kind, Token.Kind.text]
  case h_11 => rfl
  all_goals exact absurd (hc _ rfl) (by decide)

theorem lexeme?_date {text : String} {rest : List Char} (h : (Token.date text).IsLexeme) :
    lexeme? (text.toList ++ rest) = some (.date text, rest) := by
  have hdate : dateLexeme? (text.toList ++ rest) = some (text.toList, rest) :=
    dateLexeme?_eq_some_iff.mpr ⟨h, rfl⟩
  obtain ⟨d, ds, htext, hd⟩ := Date.Written.exists_cons h
  rw [lexeme?_of_isAlphanum, hdate]
  · simp
  · rw [htext]
    rintro c ⟨⟩
    simp [Char.isAlphanum, hd]
  · intro cs' hkeyword
    have hf : d = 'f' := by
      rw [htext] at hkeyword
      exact (List.cons.inj hkeyword).1
    rw [hf] at hd
    exact absurd hd (by decide)

theorem lexeme?_name {text : String} {rest : List Char} (h : (Token.name text).IsLexeme)
    (hends : (Token.name text).EndsBefore rest) (halone : (Token.name text).StandsAlone rest) :
    lexeme? (text.toList ++ rest) = some (.name text, rest) := by
  obtain ⟨hne, halpha⟩ := h
  have hname : nameLexeme? (text.toList ++ rest) = some (text.toList, rest) :=
    nameLexeme?_eq_some_iff.mpr ⟨by simpa using hne, rfl, halpha, hends⟩
  obtain ⟨c, cs, htext⟩ := List.exists_cons_of_ne_nil (show text.toList ≠ [] by simpa using hne)
  have hc : c.isAlpha = true := halpha c (htext ▸ List.mem_cons_self)
  have hdate : dateLexeme? (text.toList ++ rest) = none := by
    rw [Option.eq_none_iff_forall_not_mem]
    rintro ⟨day, rest'⟩ hd
    obtain ⟨hwritten, happend⟩ := dateLexeme?_eq_some_iff.mp hd
    obtain ⟨d, ds, rfl, hdigit⟩ := hwritten.exists_cons
    have hcd : c = d := by
      rw [htext] at happend
      exact (List.cons.inj happend).1
    exact isDigit_ne_true_of_isAlpha hc (hcd ▸ hdigit)
  rw [lexeme?_of_isAlphanum, hdate, hname]
  · simp
  · rw [htext]
    rintro c ⟨⟩
    simp [Char.isAlphanum, hc]
  · intro cs' hkeyword
    exact halone ⟨cs', hkeyword.symm⟩

theorem lexeme?_append_eq_some {t : Token} {rest : List Char} (h : t.IsLexeme)
    (hends : t.EndsBefore rest) (halone : t.StandsAlone rest) :
    lexeme? (t.chars ++ rest) = some (t, rest) := by
  cases t with
  | date text => exact lexeme?_date h
  | name text => exact lexeme?_name h hends halone
  | comment text =>
    have hrun := takeWhile_dropWhile_eq_iff (p := (· != '\n')).mpr
      ⟨rfl, by simpa [Token.IsLexeme] using h, by simpa [Token.EndsBefore] using hends⟩
    simp [Token.chars, Token.text, lexeme?, hrun]
  | range =>
    cases rest with
    | nil => rfl
    | cons c rest =>
      have hc : c ≠ '>' := halone c rfl
      simp [Token.chars, Token.text, Token.kind, Token.Kind.text, lexeme?, hc]
  | _ => simp [Token.chars, Token.text, Token.kind, Token.Kind.text, lexeme?]

theorem lexeme?_eq_some_iff {cs rest : List Char} {t : Token} :
    lexeme? cs = some (t, rest) ↔
      cs = t.chars ++ rest ∧ t.IsLexeme ∧ t.EndsBefore rest ∧ t.StandsAlone rest := by
  constructor
  · intro h
    exact ⟨(lexeme?_append h).1.symm, isLexeme_of_lexeme? h⟩
  · rintro ⟨rfl, h, hends, halone⟩
    exact lexeme?_append_eq_some h hends halone

/-- What is left begins with no character that turns the lexeme in front of it into another one:
`>` makes an arrow of a hyphen and `_` a keyword of a name. -/
def Parted (rest : List Char) : Prop := ∀ c ∈ rest.head?, c ≠ '>' ∧ c ≠ '_'

theorem Parted.standsAlone {t : Token} {rest : List Char} (hparted : Parted rest)
    (h : t.IsLexeme) (hends : t.EndsBefore rest) : t.StandsAlone rest := by
  cases t with
  | range => exact fun c hc => (hparted c hc).1
  | name text =>
    rintro ⟨cs', hkeyword⟩
    obtain ⟨-, hrun⟩ := takeWhile_dropWhile_eq_iff.mpr ⟨rfl, h.2, hends⟩
    -- The letters of the keyword end at its underscore, so this is what would be left.
    rw [← hkeyword] at hrun
    have hunderscore : '_' ∈ rest.head? := by
      rw [← hrun]
      simp [Token.chars, Token.text, Token.kind, Token.Kind.text]
    exact (hparted _ hunderscore).2 rfl
  | _ => trivial

end Source
end Pedigree

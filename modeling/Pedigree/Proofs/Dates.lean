import Mathlib.Algebra.Group.Nat.Defs
import Mathlib.Logic.Function.Basic
import Pedigree.Proofs.Lexemes

/-! Dates as they are written and read. A date is written with digits and two slashes, a digit
first. Main statements: the texts that are read as dates are the written forms of dates, and a date
holds the numbers that are written; different dates are written differently. -/

namespace Pedigree

theorem Digits.slash_notMem {least most : Nat} {cs : List Char} (h : Digits least most cs) :
    '/' ∉ cs := by
  intro hmem
  have hdigit := h.2.2 _ hmem
  revert hdigit
  decide

theorem digit_lt_ten {c : Char} (h : c.isDigit = true) : c.toNat - '0'.toNat < 10 := by
  unfold Char.isDigit at h
  rw [Bool.and_eq_true, decide_eq_true_eq, decide_eq_true_eq] at h
  have hnine : c.toNat ≤ 57 := h.2
  have hzero : '0'.toNat = 48 := rfl
  omega

theorem ofDigitChars_lt {cs : List Char} (h : ∀ c ∈ cs, c.isDigit = true) (n : Nat) :
    Nat.ofDigitChars 10 cs n < (n + 1) * 10 ^ cs.length := by
  induction cs generalizing n with
  | nil =>
    rw [Nat.ofDigitChars_nil, List.length_nil, Nat.pow_zero, Nat.mul_one]
    exact Nat.lt_succ_self n
  | cons c cs ih =>
    have hdigit := digit_lt_ten (h c List.mem_cons_self)
    have htail := ih (fun d hd => h d (List.mem_cons_of_mem c hd)) (10 * n + (c.toNat - '0'.toNat))
    rw [Nat.ofDigitChars_cons, List.length_cons]
    calc _ < (10 * n + (c.toNat - '0'.toNat) + 1) * 10 ^ cs.length := htail
      _ ≤ (n + 1) * 10 * 10 ^ cs.length := Nat.mul_le_mul_right _ (by omega)
      _ = (n + 1) * 10 ^ (cs.length + 1) := by rw [Nat.mul_assoc, Nat.pow_succ, Nat.mul_comm 10]

theorem Digits.ofDigitChars_lt {least most : Nat} {cs : List Char} (h : Digits least most cs) :
    Nat.ofDigitChars 10 cs 0 < 10 ^ most := by
  have hlt := Pedigree.ofDigitChars_lt h.2.2 0
  rw [Nat.zero_add, Nat.one_mul] at hlt
  exact Nat.lt_of_lt_of_le hlt (Nat.pow_le_pow_right (by decide) h.2.1)

theorem Date.number?_eq_some_iff {least most n : Nat} {cs : List Char} :
    Date.number? least most cs = some n ↔
      Digits least most cs ∧ Nat.ofDigitChars 10 cs 0 = n := by
  unfold Date.number? Digits
  rw [Option.ite_none_right_eq_some, Option.some.injEq, List.all_eq_true]

theorem splitOn_slash {day month year : List Char} (hday : '/' ∉ day) (hmonth : '/' ∉ month)
    (hyear : '/' ∉ year) :
    (day ++ '/' :: (month ++ '/' :: year)).splitOn '/' = [day, month, year] := by
  rw [List.splitOn_append_cons_self_of_not_mem hday,
    List.splitOn_append_cons_self_of_not_mem hmonth, List.splitOn_eq_singleton hyear]

theorem Date.ofChars?_of_digits {day month year : List Char} (hday : Digits 1 2 day)
    (hmonth : Digits 1 2 month) (hyear : Digits 4 4 year) :
    Date.ofChars? (day ++ '/' :: (month ++ '/' :: year)) =
      some ⟨.ofNat (Nat.ofDigitChars 10 year 0), .ofNat (Nat.ofDigitChars 10 month 0),
        .ofNat (Nat.ofDigitChars 10 day 0)⟩ := by
  have hsplit := splitOn_slash hday.slash_notMem hmonth.slash_notMem hyear.slash_notMem
  have hd := number?_eq_some_iff.mpr ⟨hday, rfl⟩
  have hm := number?_eq_some_iff.mpr ⟨hmonth, rfl⟩
  have hy := number?_eq_some_iff.mpr ⟨hyear, rfl⟩
  simp [Date.ofChars?, hsplit, hd, hm, hy]

theorem Date.ofChars?_eq_some_iff {cs : List Char} {d : Date} :
    Date.ofChars? cs = some d ↔
      ∃ day month year, cs = day ++ '/' :: (month ++ '/' :: year) ∧
        (Digits 1 2 day ∧ Digits 1 2 month ∧ Digits 4 4 year) ∧
        d.day.toNat = Nat.ofDigitChars 10 day 0 ∧ d.month.toNat = Nat.ofDigitChars 10 month 0 ∧
        d.year.toNat = Nat.ofDigitChars 10 year 0 := by
  constructor
  · intro h
    unfold ofChars? at h
    split at h
    · rename_i day month year hsplit
      simp only [Option.bind_eq_bind, Option.bind_eq_some_iff, number?_eq_some_iff,
        Option.some.injEq] at h
      obtain ⟨k, ⟨hday, rfl⟩, m, ⟨hmonth, rfl⟩, y, ⟨hyear, rfl⟩, rfl⟩ := h
      have hcs : ['/'].intercalate (cs.splitOn '/') = cs := List.intercalate_splitOn '/'
      rw [hsplit] at hcs
      refine ⟨day, month, year, ?_, ⟨hday, hmonth, hyear⟩, ?_, ?_, ?_⟩
      · simpa [List.intercalate_cons_cons] using hcs.symm
      · exact UInt8.toNat_ofNat_of_lt' (Nat.lt_trans hday.ofDigitChars_lt (by decide))
      · exact UInt8.toNat_ofNat_of_lt' (Nat.lt_trans hmonth.ofDigitChars_lt (by decide))
      · exact UInt16.toNat_ofNat_of_lt' (Nat.lt_trans hyear.ofDigitChars_lt (by decide))
    · cases h
  · rintro ⟨day, month, year, rfl, ⟨hday, hmonth, hyear⟩, hd, hm, hy⟩
    rw [ofChars?_of_digits hday hmonth hyear, ← hd, ← hm, ← hy, UInt8.ofNat_toNat,
      UInt8.ofNat_toNat, UInt16.ofNat_toNat]

theorem Date.parse_eq_ok_iff {text : String} {d : Date} :
    Date.parse text = .ok d ↔ Date.ofChars? text.toList = some d := by
  unfold parse
  cases ofChars? text.toList <;> simp

theorem Date.parse_isOk_iff_written {text : String} :
    (∃ d, Date.parse text = .ok d) ↔ Date.Written text.toList := by
  simp only [parse_eq_ok_iff]
  constructor
  · rintro ⟨d, hd⟩
    obtain ⟨day, month, year, htext, hdigits, -⟩ := ofChars?_eq_some_iff.mp hd
    exact ⟨day, month, year, htext, hdigits⟩
  · rintro ⟨day, month, year, htext, hday, hmonth, hyear⟩
    rw [htext]
    exact ⟨_, ofChars?_of_digits hday hmonth hyear⟩

namespace Date

theorem isDigit_of_mem_padded {width n : Nat} {c : Char} (h : c ∈ padded width n) :
    c.isDigit = true := by
  unfold padded List.leftpad at h
  rcases List.mem_append.mp h with hzero | hdigit
  · rw [List.eq_of_mem_replicate hzero]
    decide
  · exact Nat.isDigit_of_mem_toDigits (by decide) (by decide) hdigit

theorem ofDigitChars_padded (width n : Nat) : Nat.ofDigitChars 10 (padded width n) 0 = n := by
  unfold padded List.leftpad
  rw [Nat.ofDigitChars_append, Nat.ofDigitChars_replicate_zero, Nat.mul_zero,
    Nat.ofDigitChars_ten_toDigits]

theorem padded_inj {width m n : Nat} (h : padded width m = padded width n) : m = n := by
  have hread := congrArg (Nat.ofDigitChars 10 · 0) h
  simpa only [ofDigitChars_padded] using hread

theorem padded_ne_nil (width n : Nat) : padded width n ≠ [] := by
  intro hnil
  unfold padded List.leftpad at hnil
  exact Nat.toDigits_ne_nil (List.append_eq_nil_iff.mp hnil).2

theorem exists_chars_eq_cons (d : Date) : ∃ c cs, d.chars = c :: cs ∧ c.isDigit = true := by
  obtain ⟨c, cs, hday⟩ := List.exists_cons_of_ne_nil (padded_ne_nil 2 d.day.toNat)
  have hmem : c ∈ padded 2 d.day.toNat := hday ▸ List.mem_cons_self
  unfold chars
  rw [hday]
  exact ⟨c, _, rfl, isDigit_of_mem_padded hmem⟩

theorem padded_slash_inj {width m n : Nat} {rest rest' : List Char}
    (h : padded width m ++ '/' :: rest = padded width n ++ '/' :: rest') :
    m = n ∧ rest = rest' := by
  have hslash (cs : List Char) : ∀ c ∈ ('/' :: cs).head?, c.isDigit = false := by
    intro c hc
    obtain rfl := Option.some.inj hc
    decide
  obtain ⟨hnumber, hrest⟩ := Source.run_append_inj (fun _ => isDigit_of_mem_padded) (hslash rest)
    (fun _ => isDigit_of_mem_padded) (hslash rest') h
  exact ⟨padded_inj hnumber, (List.cons.inj hrest).2⟩

theorem chars_injective : Function.Injective chars := by
  intro d e h
  obtain ⟨y, m, k⟩ := d
  obtain ⟨y', m', k'⟩ := e
  obtain ⟨hday, hrest⟩ := padded_slash_inj h
  obtain ⟨hmonth, hyear⟩ := padded_slash_inj hrest
  have hk : k = k' := UInt8.toNat_inj.mp hday
  have hm : m = m' := UInt8.toNat_inj.mp hmonth
  have hy : y = y' := UInt16.toNat_inj.mp (padded_inj hyear)
  rw [hk, hm, hy]

def shown? (word : String) : Option Date :=
  match word.toList.splitOn '/' with
  | [day, month, year] =>
    let d : Date := ⟨.ofNat (Nat.ofDigitChars 10 year 0), .ofNat (Nat.ofDigitChars 10 month 0),
      .ofNat (Nat.ofDigitChars 10 day 0)⟩
    if d.text = word then some d else none
  | _ => none

theorem slash_notMem_padded (width n : Nat) : '/' ∉ padded width n := by
  intro hmem
  exact absurd (isDigit_of_mem_padded hmem) (by decide)

theorem toList_text (d : Date) : d.text.toList = d.chars := String.toList_ofList

theorem splitOn_chars (d : Date) : d.chars.splitOn '/' =
    [padded 2 d.day.toNat, padded 2 d.month.toNat, padded 4 d.year.toNat] :=
  splitOn_slash (slash_notMem_padded _ _) (slash_notMem_padded _ _) (slash_notMem_padded _ _)

theorem shown?_text (d : Date) : shown? d.text = some d := by
  simp [shown?, toList_text, splitOn_chars, ofDigitChars_padded]

theorem text_ne {word : String} (h : word.toList.head?.any Char.isDigit = false) (d : Date) :
    d.text ≠ word := by
  intro heq
  obtain ⟨c, cs, hchars, hdigit⟩ := d.exists_chars_eq_cons
  have hword : word.toList = c :: cs := by rw [← heq, text, String.toList_ofList, hchars]
  rw [hword] at h
  have hnot : c.isDigit = false := h
  rw [hdigit] at hnot
  cases hnot

end Date
end Pedigree

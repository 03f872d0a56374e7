import Pedigree.Proofs.Dates

/-! Dates in full. A text may give the day and the month of a date with one digit; in full both have
two. Main statement: a date is read back from its own text exactly if its numbers have room in the
form of dates, and a date that was read from a text is shown as that text in full. -/

namespace Pedigree

theorem zero_le_digit {c : Char} (h : c.isDigit = true) : '0'.toNat ≤ c.toNat := by
  unfold Char.isDigit at h
  rw [Bool.and_eq_true, decide_eq_true_eq, decide_eq_true_eq] at h
  exact h.1

theorem ofDigitChars_inj {cs ds : List Char} (hcs : ∀ c ∈ cs, c.isDigit = true)
    (hds : ∀ d ∈ ds, d.isDigit = true) (hlength : cs.length = ds.length) {m n : Nat}
    (h : Nat.ofDigitChars 10 cs m = Nat.ofDigitChars 10 ds n) : m = n ∧ cs = ds := by
  -- The numbers read so far go along: that they agree is what the next digits come down to.
  induction cs generalizing ds m n with
  | nil =>
    obtain rfl : ds = [] := List.length_eq_zero_iff.mp hlength.symm
    exact ⟨h, rfl⟩
  | cons c cs ih =>
    cases ds with
    | nil => cases hlength
    | cons d ds =>
      obtain ⟨hc, hcs⟩ := List.forall_mem_cons.mp hcs
      obtain ⟨hd, hds⟩ := List.forall_mem_cons.mp hds
      rw [Nat.ofDigitChars_cons, Nat.ofDigitChars_cons] at h
      obtain ⟨hfront, rfl⟩ := ih hcs hds (Nat.succ.inj hlength) h
      have hcten := digit_lt_ten hc
      have hdten := digit_lt_ten hd
      have hczero := zero_le_digit hc
      have hdzero := zero_le_digit hd
      have hmn : m = n := by omega
      have hcd : c.toNat = d.toNat := by omega
      exact ⟨hmn, congrArg (· :: cs) (Char.toNat_inj.mp hcd)⟩

theorem Digits.leftpad {least width : Nat} {cs : List Char} (h : Digits least width cs) :
    Digits width width (cs.leftpad width '0') := by
  obtain ⟨-, hmost, hdigits⟩ := h
  have hlength : (cs.leftpad width '0').length = width := by
    rw [List.length_leftpad, Nat.max_eq_left hmost]
  refine ⟨Nat.le_of_eq hlength.symm, Nat.le_of_eq hlength, ?_⟩
  intro c hc
  unfold List.leftpad at hc
  rcases List.mem_append.mp hc with hzero | hdigit
  · rw [List.eq_of_mem_replicate hzero]
    decide
  · exact hdigits c hdigit

theorem ofDigitChars_leftpad (width : Nat) (cs : List Char) :
    Nat.ofDigitChars 10 (cs.leftpad width '0') 0 = Nat.ofDigitChars 10 cs 0 := by
  unfold List.leftpad
  rw [Nat.ofDigitChars_append, Nat.ofDigitChars_replicate_zero, Nat.mul_zero]

namespace Date

theorem digits_padded {least width n : Nat} (hleast : least ≤ width) (hwidth : 0 < width)
    (h : n < 10 ^ width) : Digits least width (padded width n) := by
  have hshort : (Nat.toDigits 10 n).length ≤ width :=
    (Nat.length_toDigits_le_iff (by decide) hwidth).mpr h
  have hdigits : Digits 0 width (Nat.toDigits 10 n) :=
    ⟨Nat.zero_le _, hshort, fun _ => Nat.isDigit_of_mem_toDigits (by decide) (by decide)⟩
  obtain ⟨hlength, hpadded⟩ := hdigits.leftpad
  exact ⟨hleast.trans hlength, hpadded⟩

theorem padded_ofDigitChars {least width : Nat} {cs : List Char} (hwidth : 0 < width)
    (h : Digits least width cs) :
    padded width (Nat.ofDigitChars 10 cs 0) = cs.leftpad width '0' := by
  obtain ⟨hleast, hmost, hdigits⟩ := digits_padded (Nat.le_refl width) hwidth h.ofDigitChars_lt
  obtain ⟨hleast', hmost', hdigits'⟩ := h.leftpad
  have hlength := (Nat.le_antisymm hmost hleast).trans (Nat.le_antisymm hmost' hleast').symm
  have hread : Nat.ofDigitChars 10 (padded width (Nat.ofDigitChars 10 cs 0)) 0 =
      Nat.ofDigitChars 10 (cs.leftpad width '0') 0 := by
    rw [ofDigitChars_padded, ofDigitChars_leftpad]
  exact (ofDigitChars_inj hdigits hdigits' hlength hread).2

/-- The day and the month have two digits at most, the year has four. -/
structure HasRoom (d : Date) : Prop where
  day : d.day.toNat ≤ 99
  month : d.month.toNat ≤ 99
  year : d.year.toNat ≤ 9999

def inFull (text : String) : String :=
  match text.toList.splitOn '/' with
  | [day, month, year] =>
    String.ofList (day.leftpad 2 '0' ++ '/' :: (month.leftpad 2 '0' ++ '/' :: year))
  | _ => text

variable {d : Date} {text : String}

theorem leftpad_eq_self {width : Nat} {cs : List Char} (h : width ≤ cs.length) :
    cs.leftpad width '0' = cs := by
  unfold List.leftpad
  rw [Nat.sub_eq_zero_of_le h, List.replicate_zero, List.nil_append]

theorem text_eq_inFull_of_parse (h : parse text = .ok d) : d.text = inFull text := by
  obtain ⟨day, month, year, htext, ⟨hday, hmonth, hyear⟩, hd, hm, hy⟩ :=
    ofChars?_eq_some_iff.mp (parse_eq_ok_iff.mp h)
  have hdayPadded : padded 2 d.day.toNat = day.leftpad 2 '0' :=
    hd ▸ padded_ofDigitChars (by decide) hday
  have hmonthPadded : padded 2 d.month.toNat = month.leftpad 2 '0' :=
    hm ▸ padded_ofDigitChars (by decide) hmonth
  have hyearPadded : padded 4 d.year.toNat = year := by
    rw [hy, padded_ofDigitChars (by decide) hyear, leftpad_eq_self hyear.1]
  have hsplit := splitOn_slash hday.slash_notMem hmonth.slash_notMem hyear.slash_notMem
  unfold inFull Date.text chars
  rw [htext, hsplit, hdayPadded, hmonthPadded, hyearPadded]

theorem inFull_text (d : Date) : inFull d.text = d.text := by
  have hfull (n : Nat) : (padded 2 n).leftpad 2 '0' = padded 2 n := by
    apply leftpad_eq_self
    unfold padded
    rw [List.length_leftpad]
    exact Nat.le_max_left ..
  unfold inFull
  rw [toList_text, splitOn_chars]
  dsimp only
  rw [hfull, hfull]
  rfl

theorem text_injective : Function.Injective Date.text := by
  intro d e h
  exact chars_injective (String.ofList_injective h)

theorem hasRoom_of_parse (h : parse text = .ok d) : d.HasRoom := by
  obtain ⟨day, month, year, -, ⟨hday, hmonth, hyear⟩, hd, hm, hy⟩ :=
    ofChars?_eq_some_iff.mp (parse_eq_ok_iff.mp h)
  constructor
  · rw [hd]
    exact Nat.le_of_lt_succ hday.ofDigitChars_lt
  · rw [hm]
    exact Nat.le_of_lt_succ hmonth.ofDigitChars_lt
  · rw [hy]
    exact Nat.le_of_lt_succ hyear.ofDigitChars_lt

theorem HasRoom.parse_text (h : d.HasRoom) : parse d.text = .ok d := by
  have hday : Digits 1 2 (padded 2 d.day.toNat) :=
    digits_padded (by decide) (by decide) (Nat.lt_succ_of_le h.day)
  have hmonth : Digits 1 2 (padded 2 d.month.toNat) :=
    digits_padded (by decide) (by decide) (Nat.lt_succ_of_le h.month)
  have hyear : Digits 4 4 (padded 4 d.year.toNat) :=
    digits_padded (by decide) (by decide) (Nat.lt_succ_of_le h.year)
  rw [parse_eq_ok_iff, toList_text, ofChars?_eq_some_iff]
  refine ⟨_, _, _, rfl, ⟨hday, hmonth, hyear⟩, ?_, ?_, ?_⟩
  · rw [ofDigitChars_padded]
  · rw [ofDigitChars_padded]
  · rw [ofDigitChars_padded]

theorem hasRoom_of_parse_text {e : Date} (h : parse d.text = .ok e) : d.HasRoom := by
  have htext : e.text = d.text := (text_eq_inFull_of_parse h).trans d.inFull_text
  obtain rfl := text_injective htext
  exact hasRoom_of_parse h

/-- A date is read back from its own text if its day and month are at most 99 and its year at most
9999; nothing is read from the text of any other. All dates that are read are of this kind, and
their text is the one that was read, in full, so that two texts are read as one date if they are the
same in full. -/
theorem reads_back_iff_hasRoom :
    (∀ d : Date, ((∃ e, parse d.text = .ok e) ↔ d.HasRoom) ∧
      (d.HasRoom → parse d.text = .ok d)) ∧
    (∀ text d, parse text = .ok d → d.HasRoom ∧ d.text = inFull text) ∧
    ∀ text text' d d', parse text = .ok d → parse text' = .ok d' →
      (d = d' ↔ inFull text = inFull text') := by
  refine ⟨fun d => ⟨⟨?_, ?_⟩, HasRoom.parse_text⟩, ?_, ?_⟩
  · intro h
    obtain ⟨e, he⟩ := h
    exact hasRoom_of_parse_text he
  · intro h
    exact ⟨d, h.parse_text⟩
  · intro text d h
    exact ⟨hasRoom_of_parse h, text_eq_inFull_of_parse h⟩
  · intro text text' d d' h h'
    rw [← text_eq_inFull_of_parse h, ← text_eq_inFull_of_parse h']
    exact text_injective.eq_iff.symm

def last : Date := ⟨65535, 255, 255⟩

theorem reading_of_last :
    (¬∃ e, parse last.text = .ok e) ∧ parse "1/6/1930" = .ok ⟨1930, 6, 1⟩ ∧
      parse "01/6/1930" = .ok ⟨1930, 6, 1⟩ ∧ inFull "1/6/1930" = inFull "01/6/1930" ∧
      parse "01/06/1930" = .ok ⟨1930, 6, 1⟩ := by
  obtain ⟨hback, hread, hsame⟩ := reads_back_iff_hasRoom
  have hlast : ¬last.HasRoom := fun h => absurd h.day (by decide)
  have hshort : parse "1/6/1930" = .ok ⟨1930, 6, 1⟩ := by decide +kernel
  have hmixed : parse "01/6/1930" = .ok ⟨1930, 6, 1⟩ := by decide +kernel
  have hroom : HasRoom ⟨1930, 6, 1⟩ := (hread _ _ hshort).1
  have htext : Date.text ⟨1930, 6, 1⟩ = "01/06/1930" := by decide +kernel
  refine ⟨mt (hback last).1.mp hlast, hshort, hmixed, (hsame _ _ _ _ hshort hmixed).mp rfl, ?_⟩
  rw [← htext]
  exact (hback _).2 hroom

example : last.text = "255/255/65535" := by decide +kernel

end Date
end Pedigree

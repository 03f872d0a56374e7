/-! Dates written day/month/year. A date is three numbers that no calendar checks; dates are
ordered by year, then month, then day. -/

namespace Pedigree

structure Date where
  year : UInt16
  month : UInt8
  day : UInt8
deriving DecidableEq, Repr, Inhabited

namespace Date

def rank (d : Date) : Nat :=
  (d.year.toNat * 256 + d.month.toNat) * 256 + d.day.toNat

instance : LT Date := ⟨fun d e => d.rank < e.rank⟩

instance : DecidableLT Date := fun d e => inferInstanceAs (Decidable (d.rank < e.rank))

theorem lt_iff {d e : Date} : d < e ↔ d.rank < e.rank := Iff.rfl

theorem rank_inj {d e : Date} (h : d.rank = e.rank) : d = e := by
  obtain ⟨y, m, k⟩ := d
  obtain ⟨y', m', k'⟩ := e
  have := m.toNat_lt
  have := k.toNat_lt
  have := m'.toNat_lt
  have := k'.toNat_lt
  simp only [rank] at h
  have hy : y.toNat = y'.toNat := by omega
  have hm : m.toNat = m'.toNat := by omega
  have hk : k.toNat = k'.toNat := by omega
  rw [UInt16.toNat_inj.mp hy, UInt8.toNat_inj.mp hm, UInt8.toNat_inj.mp hk]

def century (d : Date) : Nat := d.year.toNat / 100

def padded (width n : Nat) : List Char := (Nat.toDigits 10 n).leftpad width '0'

def chars (d : Date) : List Char :=
  padded 2 d.day.toNat ++ '/' :: (padded 2 d.month.toNat ++ '/' :: padded 4 d.year.toNat)

def text (d : Date) : String := String.ofList d.chars

instance : ToString Date := ⟨text⟩

def number? (least most : Nat) (cs : List Char) : Option Nat :=
  if least ≤ cs.length ∧ cs.length ≤ most ∧ cs.all Char.isDigit then
    some (Nat.ofDigitChars 10 cs 0)
  else none

def ofChars? (cs : List Char) : Option Date :=
  match cs.splitOn '/' with
  | [day, month, year] => do
    let day ← number? 1 2 day
    let month ← number? 1 2 month
    let year ← number? 4 4 year
    some ⟨.ofNat year, .ofNat month, .ofNat day⟩
  | _ => none

structure Malformed where
  text : String
deriving DecidableEq, Repr

def Malformed.message (e : Malformed) : String :=
  s!"invalid date `{e.text}`: expected DD/MM/YYYY"

def parse (s : String) : Except Malformed Date :=
  match ofChars? s.toList with
  | some d => .ok d
  | none => .error ⟨s⟩

end Date
end Pedigree

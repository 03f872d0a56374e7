import Pedigree.Color.Basic

/-! The parts of a written color: marks, words and numbers, with gaps of blanks and comments
between them. -/

namespace Pedigree.Color

def closeComment : List Char → Option (List Char)
  | '*' :: '/' :: rest => some rest
  | _ :: rest => closeComment rest
  | [] => none

theorem length_lt_of_closeComment {cs rest : List Char} (h : closeComment cs = some rest) :
    rest.length < cs.length := by
  fun_induction closeComment cs with
  | case1 r =>
    obtain rfl := Option.some.inj h
    simp only [List.length_cons]
    omega
  | case2 c r _ ih => exact Nat.lt_succ_of_lt (ih h)
  | case3 => simp at h

def isBlank (c : Char) : Bool := c = ' ' || c = '\t' || c = '\r' || c = '\n'

def skipGaps (cs : List Char) : List Char :=
  match cs with
  | '/' :: '*' :: rest =>
    match _h : closeComment rest with
    | some rest' => skipGaps rest'
    | none => cs
  | c :: rest => if isBlank c then skipGaps rest else cs
  | [] => []
termination_by cs.length
decreasing_by
  · have := length_lt_of_closeComment _h
    simp only [List.length_cons]
    omega
  · simp

def skipComments (cs : List Char) : Option (List Char) :=
  match cs with
  | '/' :: '*' :: rest =>
    match _h : closeComment rest with
    | some rest' => skipComments rest'
    | none => none
  | _ => some cs
termination_by cs.length
decreasing_by
  have := length_lt_of_closeComment _h
  simp only [List.length_cons]
  omega

def nextMark? (c : Char) (cs : List Char) : Option (List Char) :=
  match skipComments cs with
  | some (d :: rest) => if c = d then some rest else none
  | _ => none

def mark? (c : Char) (cs : List Char) : Option (List Char) := nextMark? c (skipGaps cs)

def word? (cs : List Char) : Option (String × List Char) :=
  let opens := fun (c : Char) => c.isAlpha || c = '_' || c = '-'
  let body := fun (c : Char) => opens c || c.isDigit
  let (letters, rest) :=
    match cs with
    | '-' :: c :: more =>
      if opens c then ('-' :: c :: more.takeWhile body, more.dropWhile body) else (['-'], c :: more)
    | c :: more => if opens c then (c :: more.takeWhile body, more.dropWhile body) else ([], cs)
    | [] => ([], [])
  match letters with
  | [] | ['-'] | '-' :: '-' :: _ => none
  | _ => some (String.ofList letters, rest)

def decimal (m : Nat) (e : Int) : Float :=
  let top := (Nat.toDigits 10 m).length + e
  if m = 0 || top < -400 then 0.0
  else if top > 400 then 1.0 / 0.0
  else if 0 ≤ e then Float.ofScientific (m * Nat.pow 10 e.toNat) false 0
  else Float.ofScientific m true e.natAbs

def number? (cs : List Char) : Option (Float × List Char) :=
  let (negative, cs) :=
    match cs with
    | '+' :: rest => (false, rest)
    | '-' :: rest => (true, rest)
    | _ => (false, cs)
  let whole := cs.takeWhile Char.isDigit
  let cs := cs.dropWhile Char.isDigit
  let (places, cs) :=
    match cs with
    | '.' :: rest =>
      let places := rest.takeWhile Char.isDigit
      if places.isEmpty then ([], cs) else (places, rest.dropWhile Char.isDigit)
    | _ => ([], cs)
  let (exponent, rest) : Int × List Char :=
    match cs with
    | e :: rest =>
      if e = 'e' || e = 'E' then
        let (down, rest) :=
          match rest with
          | '+' :: rest => (false, rest)
          | '-' :: rest => (true, rest)
          | _ => (false, rest)
        let digits := rest.takeWhile Char.isDigit
        let n : Int := Nat.ofDigitChars 10 digits 0
        if digits.isEmpty then (0, cs)
        else (if down then -n else n, rest.dropWhile Char.isDigit)
      else (0, cs)
    | [] => (0, cs)
  let digits := whole ++ places
  if digits.isEmpty then none
  else
    let x := decimal (Nat.ofDigitChars 10 digits 0) (exponent - places.length)
    some (if negative then -x else x, rest)

inductive Argument where
  | number (x : Float)
  | percent (x : Float)
  | measure (x : Float) (unit : String)
  | word (name : String)

def argument? (cs : List Char) : Option (Argument × List Char) :=
  match number? cs with
  | some (x, '%' :: rest) => some (.percent x, rest)
  | some (x, rest) =>
    match word? rest with
    | some (unit, rest) => some (.measure x unit, rest)
    | none => some (.number x, rest)
  | none => (word? cs).map fun (name, rest) => (.word name, rest)

end Pedigree.Color

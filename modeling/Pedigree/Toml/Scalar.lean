import Pedigree.Text.Hex
import Pedigree.Toml.Value

/-! Scalars of TOML documents: quoted texts with their escapes, keys, numbers, dates and times. -/

namespace Pedigree.Toml

open Text (hexDigit?)

def isBlank (c : Char) : Bool := c = ' ' || c = '\t'

def skipBlanks (cs : List Char) : List Char := cs.dropWhile isBlank

def isPlain (c : Char) : Bool := c = '\t' || (0x20 ≤ c.toNat && c.toNat != 0x7F)

def charOfHex? (cs : List Char) : Option Char := do
  let n := (← cs.mapM hexDigit?).foldl (fun n d => 16 * n + d) 0
  if n.isValidChar then some (Char.ofNat n) else none

def escaped? : Char → Option Char
  | 'b' => some '\x08'
  | 't' => some '\t'
  | 'n' => some '\n'
  | 'f' => some '\x0c'
  | 'r' => some '\r'
  | 'e' => some '\x1b'
  | '"' => some '"'
  | '\\' => some '\\'
  | _ => none

def endsLine (cs : List Char) : Bool :=
  match skipBlanks cs with
  | '\n' :: _ | '\r' :: '\n' :: _ => true
  | _ => false

def before (c : Char) : Except Fault (List Char × List Char) → Except Fault (List Char × List Char)
  | .ok (text, rest) => .ok (c :: text, rest)
  | .error e => .error e

def beforeEscaped (c : Option Char) (r : Except Fault (List Char × List Char)) :
    Except Fault (List Char × List Char) :=
  match c with
  | some c => before c r
  | none => .error .badEscape

def lineText : List Char → Except Fault (List Char × List Char)
  | [] => .error .unclosedText
  | '"' :: rest => .ok ([], rest)
  | '\\' :: 'x' :: a :: b :: rest => beforeEscaped (charOfHex? [a, b]) (lineText rest)
  | '\\' :: 'u' :: a :: b :: c :: d :: rest =>
    beforeEscaped (charOfHex? [a, b, c, d]) (lineText rest)
  | '\\' :: 'U' :: a :: b :: c :: d :: e :: f :: g :: h :: rest =>
    beforeEscaped (charOfHex? [a, b, c, d, e, f, g, h]) (lineText rest)
  | '\\' :: c :: rest => beforeEscaped (escaped? c) (lineText rest)
  | c :: rest => if isPlain c then before c (lineText rest) else .error .controlCharacter

/-- The rest of a text in three double quotes. A backslash at the end of a line takes away the
blanks and line breaks that follow; `trimming` says that this is under way. -/
def blockText (trimming : Bool) : List Char → Except Fault (List Char × List Char)
  | [] => .error .unclosedText
  | '"' :: '"' :: '"' :: '"' :: '"' :: rest => .ok (['"', '"'], rest)
  | '"' :: '"' :: '"' :: '"' :: rest => .ok (['"'], rest)
  | '"' :: '"' :: '"' :: rest => .ok ([], rest)
  | '\\' :: 'x' :: a :: b :: rest => beforeEscaped (charOfHex? [a, b]) (blockText false rest)
  | '\\' :: 'u' :: a :: b :: c :: d :: rest =>
    beforeEscaped (charOfHex? [a, b, c, d]) (blockText false rest)
  | '\\' :: 'U' :: a :: b :: c :: d :: e :: f :: g :: h :: rest =>
    beforeEscaped (charOfHex? [a, b, c, d, e, f, g, h]) (blockText false rest)
  | '\\' :: '\r' :: '\n' :: rest => blockText true rest
  | '\\' :: c :: rest =>
    if c = '\n' || isBlank c && endsLine rest then blockText true rest
    else beforeEscaped (escaped? c) (blockText false rest)
  | '\r' :: '\n' :: rest =>
    if trimming then blockText true rest else before '\r' (before '\n' (blockText false rest))
  | '\n' :: rest => if trimming then blockText true rest else before '\n' (blockText false rest)
  | c :: rest =>
    if trimming && isBlank c then blockText true rest
    else if isPlain c then before c (blockText false rest)
    else .error .controlCharacter

def rawLineText : List Char → Except Fault (List Char × List Char)
  | [] => .error .unclosedText
  | '\'' :: rest => .ok ([], rest)
  | c :: rest => if isPlain c then before c (rawLineText rest) else .error .controlCharacter

def rawBlockText : List Char → Except Fault (List Char × List Char)
  | [] => .error .unclosedText
  | '\'' :: '\'' :: '\'' :: '\'' :: '\'' :: rest => .ok (['\'', '\''], rest)
  | '\'' :: '\'' :: '\'' :: '\'' :: rest => .ok (['\''], rest)
  | '\'' :: '\'' :: '\'' :: rest => .ok ([], rest)
  | '\r' :: '\n' :: rest => before '\r' (before '\n' (rawBlockText rest))
  | '\n' :: rest => before '\n' (rawBlockText rest)
  | c :: rest => if isPlain c then before c (rawBlockText rest) else .error .controlCharacter

def dropLineBreak : List Char → List Char
  | '\r' :: '\n' :: rest => rest
  | '\n' :: rest => rest
  | cs => cs

def quotedText? : List Char → Option (Except Fault (List Char × List Char))
  | '"' :: '"' :: '"' :: rest => some (blockText false (dropLineBreak rest))
  | '"' :: rest => some (lineText rest)
  | '\'' :: '\'' :: '\'' :: rest => some (rawBlockText (dropLineBreak rest))
  | '\'' :: rest => some (rawLineText rest)
  | _ => none

def isBare (c : Char) : Bool := c.isAlphanum || c = '_' || c = '-'

def simpleKey (cs : List Char) : Except Fault (String × List Char) :=
  match cs with
  | '"' :: '"' :: '"' :: _ | '\'' :: '\'' :: '\'' :: _ => .error .badKey
  | '"' :: rest => do let (text, rest) ← lineText rest; return (String.ofList text, rest)
  | '\'' :: rest => do let (text, rest) ← rawLineText rest; return (String.ofList text, rest)
  | _ =>
    let name := cs.takeWhile isBare
    if name.isEmpty then .error .badKey else .ok (String.ofList name, cs.dropWhile isBare)

def keyPath (most : Nat) (cs : List Char) : Except Fault ((List String × String) × List Char) :=
  match most with
  | 0 => .error .nestedTooDeep
  | most + 1 => do
    let (key, rest) ← simpleKey (skipBlanks cs)
    match skipBlanks rest with
    | '.' :: rest =>
      let ((path, last), rest) ← keyPath most rest
      return ((key :: path, last), rest)
    | rest => return (([], key), rest)

def digits? (isDigit : Char → Bool) (cs : List Char) : Option (List Char) :=
  match cs with
  | [] => none
  | _ =>
    if (cs.splitOn '_').all fun run => !run.isEmpty && run.all isDigit then
      some (cs.filter (· != '_'))
    else none

def natOfDigits? (base : Nat) (cs : List Char) : Option Nat := do
  let digits ← digits? (fun c => (hexDigit? c).any (· < base)) cs
  let values ← digits.mapM hexDigit?
  return values.foldl (fun n d => base * n + d) 0

def decimalNat? (cs : List Char) : Option Nat :=
  match cs with
  | '0' :: _ :: _ => none
  | _ => natOfDigits? 10 cs

def unsigned : List Char → Bool × List Char
  | '+' :: rest => (false, rest)
  | '-' :: rest => (true, rest)
  | cs => (false, cs)

def integer? (cs : List Char) : Option Int :=
  match cs with
  | '0' :: 'x' :: rest => (natOfDigits? 16 rest).map Int.ofNat
  | '0' :: 'o' :: rest => (natOfDigits? 8 rest).map Int.ofNat
  | '0' :: 'b' :: rest => (natOfDigits? 2 rest).map Int.ofNat
  | _ =>
    let (negative, body) := unsigned cs
    (decimalNat? body).map fun n => if negative then -Int.ofNat n else Int.ofNat n

structure Decimal where
  digits : List Char
  exponent : Int

def exponent? (cs : List Char) : Option Int :=
  let (negative, body) := unsigned cs
  (natOfDigits? 10 body).map fun n => if negative then -Int.ofNat n else Int.ofNat n

def decimal? (cs : List Char) : Option Decimal := do
  let (_, body) := unsigned cs
  let isMark := fun (c : Char) => c = '.' || c = 'e' || c = 'E'
  let whole := body.takeWhile (!isMark ·)
  let _ ← decimalNat? whole
  let whole := whole.filter (· != '_')
  match body.dropWhile (!isMark ·) with
  | '.' :: rest =>
    let isMark := fun (c : Char) => c = 'e' || c = 'E'
    let places ← digits? Char.isDigit (rest.takeWhile (!isMark ·))
    match rest.dropWhile (!isMark ·) with
    | [] => return ⟨whole ++ places, -places.length⟩
    | _ :: rest => return ⟨whole ++ places, (← exponent? rest) - places.length⟩
  | _ :: rest => return ⟨whole, ← exponent? rest⟩
  | [] => none

def Decimal.overflows (d : Decimal) : Bool :=
  let m := Nat.ofDigitChars 10 d.digits 0
  let top := (Nat.toDigits 10 m).length + d.exponent
  let limit := (Nat.pow 2 54 - 1) * Nat.pow 2 970
  if m = 0 || top < 300 then false
  else if top > 320 then true
  else if 0 ≤ d.exponent then limit ≤ m * Nat.pow 10 d.exponent.toNat
  else limit * Nat.pow 10 d.exponent.natAbs ≤ m

def number? (n : Nat) (cs : List Char) : Option Nat :=
  if cs.length = n && cs.all Char.isDigit then some (Nat.ofDigitChars 10 cs 0) else none

def daysIn (year month : Nat) : Nat :=
  if month = 2 then
    if year % 4 = 0 && (year % 100 != 0 || year % 400 = 0) then 29 else 28
  else if month = 4 || month = 6 || month = 9 || month = 11 then 30
  else 31

def isDay (cs : List Char) : Bool :=
  match cs.splitOn '-' with
  | [y, m, d] =>
    match number? 4 y, number? 2 m, number? 2 d with
    | some y, some m, some d => 1 ≤ m && m ≤ 12 && 1 ≤ d && d ≤ daysIn y m
    | _, _, _ => false
  | _ => false

def isTime (cs : List Char) : Bool :=
  let below (limit : Nat) (cs : List Char) : Bool := (number? 2 cs).any (· < limit)
  match cs.splitOn ':' with
  | [h, m] => below 24 h && below 60 m
  | [h, m, s] =>
    below 24 h && below 60 m &&
      match s.splitOn '.' with
      | [s] => below 61 s
      | [s, fraction] => below 61 s && !fraction.isEmpty && fraction.all Char.isDigit
      | _ => false
  | _ => false

def isZonedTime (cs : List Char) : Bool :=
  let isSign := fun (c : Char) => c = '+' || c = '-' || c = 'Z' || c = 'z'
  isTime (cs.takeWhile (!isSign ·)) &&
    match cs.dropWhile (!isSign ·) with
    | [] => true
    | [c] => c = 'Z' || c = 'z'
    | c :: offset => (c = '+' || c = '-') && offset.length = 5 && isTime offset

def isMoment (cs : List Char) : Bool :=
  isDay cs || isTime cs ||
    (isDay (cs.take 10) &&
      match cs.drop 10 with
      | c :: time => (c = 'T' || c = 't' || c = ' ') && isZonedTime time
      | [] => false)

def isAtom (c : Char) : Bool :=
  c.isAlphanum || c = '_' || c = '-' || c = '+' || c = '.' || c = ':'

def atom (cs : List Char) : List Char × List Char :=
  let first := cs.takeWhile isAtom
  let rest := cs.dropWhile isAtom
  match rest with
  | ' ' :: c :: more =>
    if isDay first && c.isDigit then
      (first ++ ' ' :: (c :: more).takeWhile isAtom, (c :: more).dropWhile isAtom)
    else (first, rest)
  | _ => (first, rest)

def fits (n : Int) : Bool :=
  if n < 0 then n.natAbs ≤ Nat.pow 2 127 else n.natAbs < Nat.pow 2 128

def scalar (cs : List Char) : Except Fault (Value × List Char) :=
  let (written, rest) := atom cs
  let name := String.ofList written
  if name = "true" then .ok (.boolean true, rest)
  else if name = "false" then .ok (.boolean false, rest)
  else if String.ofList (unsigned written).2 ∈ ["inf", "nan"] then .ok (.float name, rest)
  else if isMoment written then .ok (.moment name, rest)
  else
    match integer? written with
    | some n => if fits n then .ok (.integer n, rest) else .error .outOfRange
    | none =>
      match decimal? written with
      | some d => if d.overflows then .error .outOfRange else .ok (.float name, rest)
      | none => .error .badScalar

end Pedigree.Toml

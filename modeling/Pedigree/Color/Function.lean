import Pedigree.Color.Lexeme

/-! Color functions: intensities of red, green and blue, and colors by hue. Opacity is read and
dropped. -/

namespace Pedigree.Color

inductive Fault where
  | hexDigitCount
  | trailingText
  | unknownForm
  | unknownName
  | unknownComponent
  | unknownAngle
  | unknownAngleUnit
  | unknownSpace
  | missingSpace
  | missingArguments
  | missingComma
  | missingParenthesis
deriving DecidableEq, Repr

def Fault.message : Fault → String
  | hexDigitCount => "wrong number of hex digits"
  | trailingText => "expected end of string"
  | unknownForm => "unknown color syntax"
  | unknownName => "unknown color identifier"
  | unknownComponent => "unknown color component"
  | unknownAngle => "unknown angle"
  | unknownAngleUnit => "unknown angle dimension"
  | unknownSpace => "unknown color space"
  | missingSpace => "expected color space identifier"
  | missingArguments => "expected arguments"
  | missingComma => "expected comma"
  | missingParenthesis => "expected closing parenthesis"

abbrev Reader := StateT (List Char) (Except Fault)

def takenBy (find : List Char → Option (List Char)) : Reader Bool := do
  match find (← get) with
  | some rest => set rest; return true
  | none => return false

def taken (c : Char) : Reader Bool := takenBy (mark? c)

def required (c : Char) (otherwise : Fault) : Reader Unit := do
  unless ← taken c do throw otherwise

def argument : Reader (Option Argument) := do
  match argument? (skipGaps (← get)) with
  | some (a, rest) => set rest; return some a
  | none => return none

def component (unit percentUnit : Float) : Reader Float := do
  match ← argument with
  | some (.number x) => return x * unit
  | some (.percent x) => return x * percentUnit
  | some (.word name) => if name.toLower = "none" then return 0.0 else throw .unknownComponent
  | _ => throw .unknownComponent

def angle : Reader Float := do
  match ← argument with
  | some (.number x) => return x
  | some (.word name) => if name.toLower = "none" then return 0.0 else throw .unknownAngle
  | some (.measure x unit) =>
    match unit.toLower with
    | "deg" => return x
    | "rad" => return x * (180.0 / 3.14159265358979323846)
    | "grad" => return x * 0.9
    | "turn" => return x * 360.0
    | _ => throw .unknownAngleUnit
  | _ => throw .unknownAngle

def opened : Reader Unit := do
  match ← get with
  | '(' :: rest => set rest
  | _ => throw .missingArguments

def closed (commas : Bool) : Reader Unit := do
  if ← taken (if commas then ',' else '/') then
    let _ ← component 1.0 0.01
  required ')' .missingParenthesis

def clamp (x : Float) : Float := if x < 0.0 then 0.0 else if x > 1.0 then 1.0 else x

def byte (x : Float32) : UInt8 := (x * 255.0 + 0.5).toUInt8

def ofShares (r g b : Float32) : Color := ⟨byte r, byte g, byte b⟩

def rgb : Reader Color := do
  opened
  let r ← component (1.0 / 255.0) 0.01
  let commas ← taken ','
  let g ← component (1.0 / 255.0) 0.01
  if commas then required ',' .missingComma
  let b ← component (1.0 / 255.0) 0.01
  closed commas
  return ofShares (clamp r).toFloat32 (clamp g).toFloat32 (clamp b).toFloat32

/-- One channel of a color given by hue in degrees, saturation and lightness in percent; `n` is the
place of the channel on a circle of twelve. -/
def hueChannel (h s l : Float32) (n : Float32) : Float32 :=
  let s := s * 0.01
  let l := l * 0.01
  let rest := 1.0 - l
  let a := s * (if l < rest then l else rest)
  let x := n + h * (1.0 / 30.0)
  let k := x - 12.0 * (x * (1.0 / 12.0)).floor
  let up := k - 3.0
  let down := 9.0 - k
  let m := if up < down then up else down
  l - a * (if m < -1.0 then -1.0 else if m > 1.0 then 1.0 else m)

def hsl : Reader Color := do
  opened
  let h ← angle
  let commas ← takenBy (nextMark? ',')
  let s ← component 1.0 1.0
  if commas then required ',' .missingComma
  let l ← component 1.0 1.0
  closed commas
  let s := if s < 0.0 then 0.0 else s
  let channel := hueChannel h.toFloat32 s.toFloat32 l.toFloat32
  return ofShares (channel 0.0) (channel 8.0) (channel 4.0)

def hwb : Reader Color := do
  opened
  let h ← angle
  let w ← component 1.0 1.0
  let b ← component 1.0 1.0
  closed false
  let w := w.toFloat32 * 0.01
  let b := b.toFloat32 * 0.01
  if w + b >= 1.0 then
    let gray := w / (w + b)
    return ofShares gray gray gray
  else
    let channel := fun n => w + hueChannel h.toFloat32 100.0 50.0 n * (1.0 - w - b)
    return ofShares (channel 0.0) (channel 8.0) (channel 4.0)

def space : Reader Color := do
  opened
  modify skipGaps
  match word? (← get) with
  | none => throw .missingSpace
  | some (name, rest) =>
    unless name.toLower = "srgb" do throw .unknownSpace
    set rest
    let r ← component 1.0 0.01
    let g ← component 1.0 0.01
    let b ← component 1.0 0.01
    closed false
    return ofShares r.toFloat32 g.toFloat32 b.toFloat32

def unrendered : Reader Color := do
  opened
  throw .unknownSpace

end Pedigree.Color

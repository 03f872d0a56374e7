import Pedigree.Color.Function
import Pedigree.Color.Named
import Pedigree.Text.Hex

/-! A reader of colors as style sheets write them: hexadecimal digits, names, and the functions
`rgb`, `hsl` and `hwb`, and `color` in the space `srgb`. Colors of other spaces are refused. -/

namespace Pedigree.Color

open Text (hexDigit?)

def hexadecimal : Reader Color := do
  let cs ← get
  let digits := ((cs.take 8).takeWhile fun c => (hexDigit? c).isSome).filterMap hexDigit?
  set (cs.drop digits.length)
  match digits with
  | [r, g, b] | [r, g, b, _] => return ⟨.ofNat (17 * r), .ofNat (17 * g), .ofNat (17 * b)⟩
  | [r, r', g, g', b, b'] | [r, r', g, g', b, b', _, _] =>
    return ⟨.ofNat (16 * r + r'), .ofNat (16 * g + g'), .ofNat (16 * b + b')⟩
  | _ => throw .hexDigitCount

def folded (name : String) : String := if name.utf8ByteSize ≤ 32 then name.toLower else name

def color : Reader Color := do
  match ← get with
  | '#' :: rest => set rest; hexadecimal
  | cs =>
    match word? cs with
    | none => throw .unknownForm
    | some (name, rest) =>
      set rest
      match folded name with
      | "rgb" | "rgba" => rgb
      | "hsl" | "hsla" => hsl
      | "hwb" => hwb
      | "color" => space
      | "lab" | "lch" | "oklab" | "oklch" => unrendered
      | name =>
        match named? name with
        | some n => return ofRgb n
        | none => throw .unknownName

def isSpace (c : Char) : Bool :=
  let n := c.toNat
  (9 ≤ n && n ≤ 13) || n = 0x20 || n = 0x85 || n = 0xA0 || n = 0x1680 ||
    (0x2000 ≤ n && n ≤ 0x200A) || n = 0x2028 || n = 0x2029 || n = 0x202F || n = 0x205F || n = 0x3000

def trim (cs : List Char) : List Char :=
  ((cs.dropWhile isSpace).reverse.dropWhile isSpace).reverse

def ofStyleSheet (text : String) : Except Fault Color :=
  match color (trim text.toList) with
  | .ok (c, []) => .ok c
  | .ok _ => .error .trailingText
  | .error fault => .error fault

instance : Reading where
  read text := (ofStyleSheet text).mapError Fault.message

end Pedigree.Color

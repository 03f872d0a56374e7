/-! Colors of three bytes. How texts are read as colors is left open: it is asked of a reader. -/

namespace Pedigree

structure Color where
  red : UInt8
  green : UInt8
  blue : UInt8
deriving DecidableEq, Repr

namespace Color

def hexByte (b : UInt8) : List Char := (Nat.toDigits 16 b.toNat).leftpad 2 '0'

def hex (c : Color) : String :=
  String.ofList ('#' :: (hexByte c.red ++ hexByte c.green ++ hexByte c.blue))

def ofRgb (n : Nat) : Color := ⟨.ofNat (n / 65536), .ofNat (n / 256), .ofNat n⟩

structure Invalid where
  text : String
  reason : String
deriving DecidableEq, Repr

def Invalid.message (e : Invalid) : String := s!"invalid color `{e.text}`: {e.reason}"

/-- A reader of colors, which says of every text what color it is or why it is none. -/
class Reading where
  read : String → Except String Color

def ofText [Reading] (text : String) : Except Invalid Color :=
  (Reading.read text).mapError (Invalid.mk text)

end Color
end Pedigree

import Pedigree.Color.Basic

/-! How diagrams look: colors as they were written, the size of the title and its text. Whatever
is not set has a default. -/

namespace Pedigree

structure Style where
  rootColor : Option String := none
  coupleColor : Option String := none
  fontSize : Option Nat := none
  title : Option String := none
deriving DecidableEq, Repr, Inhabited

namespace Style

variable [Color.Reading]

def rootHue (s : Style) : Except Color.Invalid Color := Color.ofText (s.rootColor.getD "red")

def coupleHue (s : Style) : Except Color.Invalid Color := Color.ofText (s.coupleColor.getD "pink")

def titleSize (s : Style) : Nat := s.fontSize.getD 20

end Style
end Pedigree

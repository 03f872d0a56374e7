/-! Directed graphs in the DOT language. Nodes are named by quoted texts. How graphs are printed is
left open: it is asked of a printer. -/

namespace Pedigree.Dot

def escape : List Char → List Char
  | [] => []
  | c :: cs => if c = '\\' ∨ c = '"' then '\\' :: c :: escape cs else c :: escape cs

def joinLines : List String → List Char
  | [] => []
  | [line] => escape line.toList
  | line :: lines => escape line.toList ++ '\\' :: 'n' :: joinLines lines

def quoted (text : String) : String := String.ofList ('"' :: (escape text.toList ++ ['"']))

def multiline (lines : List String) : String := String.ofList ('"' :: (joinLines lines ++ ['"']))

inductive Value where
  | bare (text : String)
  | quoted (text : String)
  | lines (texts : List String)
deriving DecidableEq, Repr

structure Attribute where
  key : String
  value : Value
deriving DecidableEq, Repr

inductive Item where
  | graph (attributes : List Attribute)
  | node (id : String) (attributes : List Attribute)
  | edge (source target : String) (attributes : List Attribute)
  | rank (name : String) (members : List String)
deriving DecidableEq, Repr

structure Graph where
  name : String
  items : List Item
deriving DecidableEq, Repr

def Value.text : Value → String
  | bare text => text
  | quoted text => Dot.quoted text
  | lines texts => multiline texts

class Printing where
  print : Graph → String

end Pedigree.Dot

import Pedigree.Dot

/-! A printer of graphs: one statement to a line, the members of a rank on lines of their own. -/

namespace Pedigree.Dot

def Attribute.text (a : Attribute) : String := a.key ++ "=" ++ a.value.text

def attributeList (attributes : List Attribute) : String :=
  if attributes.isEmpty then ""
  else "[" ++ " ".intercalate (attributes.map Attribute.text) ++ "]"

def Item.lines : Item → List String
  | graph attributes => ["graph" ++ attributeList attributes]
  | node id attributes => [quoted id ++ attributeList attributes]
  | edge source target attributes =>
    let gap := if attributes.isEmpty then "" else " "
    [quoted source ++ " -> " ++ quoted target ++ gap ++ attributeList attributes]
  | rank name members =>
    ("subgraph " ++ name ++ " \x7b") :: "  rank=same" ::
      (members.map fun m => "  " ++ quoted m) ++ ["\x7d"]

def Graph.text (g : Graph) : String :=
  let body := (g.items.flatMap Item.lines).map ("  " ++ ·)
  "\n".intercalate (("digraph " ++ g.name ++ " \x7b") :: body ++ ["\x7d"])

instance : Printing := ⟨Graph.text⟩

end Pedigree.Dot

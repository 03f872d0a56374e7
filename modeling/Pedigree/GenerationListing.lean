import Pedigree.Generation

/-! The persons of a family tree under headings for their generations, youngest generation first,
and at the end those without one. -/

namespace Pedigree

namespace GenerationListing

def underHeading (t : FamilyTree) (heading : String) (members : List PersonId) : List String :=
  heading :: members.map fun p => "    " ++ t.nameOf p

def lines (t : FamilyTree) : List String :=
  let placed := t.generationGroups.flatMap fun (g, members) =>
    underHeading t s!"Generation {g}:" members
  let unplaced := if t.unplaced.isEmpty then [] else underHeading t "Without generation:" t.unplaced
  placed ++ unplaced

end GenerationListing

def FamilyTree.generationListing (t : FamilyTree) : String :=
  String.join ((GenerationListing.lines t).map (· ++ "\n"))

end Pedigree

import Pedigree.Dot
import Pedigree.GenerationListing
import Pedigree.Style
import Pedigree.Timeline

/-! The diagram of a family: a box for each person, a diamond for each couple, and children below
the diamond of their parents, or below each parent if the parents are not married to each other.
The members of a generation stand side by side. -/

namespace Pedigree

namespace FamilyTree

def pair (a b : PersonId) : PersonId × PersonId := if a < b then (a, b) else (b, a)

/-- Couples as one pass over the persons comes across them: the second partner is passed over, since
the pair has been seen by then. -/
def couplesFrom (seen : List (PersonId × PersonId)) : List Person → List (PersonId × PersonId)
  | [] => []
  | p :: ps =>
    match p.spouse with
    | none => couplesFrom seen ps
    | some q =>
      if pair p.id q ∈ seen then couplesFrom seen ps
      else (p.id, q) :: couplesFrom (pair p.id q :: seen) ps

def couples (t : FamilyTree) : List (PersonId × PersonId) := couplesFrom [] t.persons

def coupleNode (t : FamilyTree) (a b : PersonId) : String :=
  let a := t.nameOf a
  let b := t.nameOf b
  if a < b then s!"marriage_{a}_{b}" else s!"marriage_{b}_{a}"

def parentNodes (t : FamilyTree) (child : Person) : List String :=
  match child.parents with
  | [a, b] => if t.spouseOf a = some b then [t.coupleNode a b] else [t.nameOf a, t.nameOf b]
  | parents => parents.map t.nameOf

end FamilyTree

namespace Diagram

open Dot

def lifeSpan (p : Person) : String :=
  match p.death with
  | some d => s!"{p.birth} - {d}†"
  | none => s!"{p.birth} - "

def personNode (t : FamilyTree) (rootHue : Color) (p : Person) : Item :=
  .node p.name [
    ⟨"shape", .bare "box"⟩,
    ⟨"color", if t.root = some p.id then .quoted rootHue.hex else .bare "black"⟩,
    ⟨"label", .lines [p.name, lifeSpan p]⟩]

def coupleItems (t : FamilyTree) (hue : Color) (couple : PersonId × PersonId) : List Item :=
  let (a, b) := couple
  let id := t.coupleNode a b
  let label := ((t.weddingOf a).map fun d => s!"♥ {d} ♥").getD "♥"
  let leads := fun p =>
    .edge (t.nameOf p) id [⟨"color", .quoted hue.hex⟩, ⟨"arrowhead", .bare "none"⟩]
  [.node id [
      ⟨"shape", .bare "diamond"⟩, ⟨"color", .quoted hue.hex⟩, ⟨"label", .quoted label⟩],
    leads a, leads b]

def childEdges (t : FamilyTree) (child : Person) : List Item :=
  (t.parentNodes child).map fun source => .edge source child.name []

def generationRank (t : FamilyTree) (group : Nat × List PersonId) : Item :=
  .rank s!"generation_{group.1}" (group.2.map t.nameOf)

def titleItem (t : FamilyTree) (style : Style) : Item :=
  .graph [
    ⟨"label", .quoted (style.title.getD t.defaultTitle)⟩,
    ⟨"labelloc", .bare "t"⟩,
    ⟨"labeljust", .bare "c"⟩,
    ⟨"fontsize", .bare s!"{style.titleSize}"⟩,
    ⟨"fontcolor", .bare "blue"⟩]

end Diagram

namespace FamilyTree

open Diagram in
def graph (t : FamilyTree) (style : Style) (rootHue coupleHue : Color) : Dot.Graph where
  name := "family_tree"
  items :=
    titleItem t style ::
      (t.persons.map (personNode t rootHue) ++
        t.couples.flatMap (coupleItems t coupleHue) ++
        t.persons.flatMap (childEdges t) ++
        t.generationGroups.map (generationRank t))

def diagram [Color.Reading] (t : FamilyTree) (style : Style) : Except Color.Invalid Dot.Graph := do
  let rootHue ← style.rootHue
  let coupleHue ← style.coupleHue
  return t.graph style rootHue coupleHue

end FamilyTree
end Pedigree

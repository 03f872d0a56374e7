import Pedigree.Dot
import Pedigree.Source.Notice

/-! The diagram of the statements of a source, which grows as an observer of its reading. Every
statement hangs from one node for the whole tree; persons are boxes whose keys join the name and
the date of birth, with a word in front that tells in which kind of statement they are shown. -/

namespace Pedigree.Diagram

open Dot Source

abbrev Outline := List Item

namespace Outline

def start : Outline := [.node "family_tree" [⟨"label", .quoted "family_tree"⟩]]

def personBox (key name : String) (line : String) : Item :=
  .node key [⟨"shape", .bare "box"⟩, ⟨"label", .lines [name, line]⟩]

def member (mark source name : String) (birth : Date) : List Item :=
  let key := s!"{mark}{name}{birth}"
  [personBox key name birth.text, .edge source key []]

def items : Notice → List Item
  | .declaration name birth death isRoot =>
    let key := s!"{name}{birth}"
    let life := (death.map fun d => s!"{birth}-{d}").getD birth.text
    [personBox key name life,
      .edge "family_tree" key [⟨"label", .quoted (if isRoot then "root" else "declaration")⟩]]
  | .maritalLink left leftBirth right rightBirth wedding =>
    let key := s!"marriage{left}{right}" ++ (wedding.map Date.text).getD ""
    .node key [
        ⟨"shape", .bare "diamond"⟩,
        ⟨"label", .lines ("♥ Marriage ♥" :: (wedding.map Date.text).toList)⟩] ::
      .edge "family_tree" key [] ::
      (member "wedd" key left leftBirth ++ member "wedd" key right rightBirth)
  | .familialLink parent parentBirth child childBirth =>
    let key := s!"familial{parent}{child}"
    .node key [⟨"label", .quoted "familial_link"⟩] ::
      .edge "family_tree" key [⟨"label", .quoted "familial_link"⟩] ::
      (member "fam" key parent parentBirth ++ member "fam" key child childBirth)

def hear (n : Notice) (o : Outline) : Outline := o ++ items n

def graph (o : Outline) : Graph := ⟨"statements", o⟩

end Outline
end Pedigree.Diagram

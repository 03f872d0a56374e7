import Pedigree.Source.Cursor

/-! Statements of the family tree language: declarations, marital links and familial links. Two
tokens decide which statement is meant. -/

namespace Pedigree.Source

structure Declaration where
  name : Located String
  birth : Located Date
  death : Option (Located Date)
deriving DecidableEq, Repr

structure MaritalLink where
  left : Located String
  right : Located String
  wedding : Option (Located Date)
deriving DecidableEq, Repr

structure FamilialLink where
  parent : Located String
  child : Located String
deriving DecidableEq, Repr

inductive Statement where
  | declaration (d : Declaration)
  | maritalLink (l : MaritalLink)
  | familialLink (l : FamilialLink)
deriving DecidableEq, Repr

namespace Statement

inductive Kind where
  | declaration
  | maritalLink
  | familialLink
deriving DecidableEq, Repr

def kind : Statement → Kind
  | declaration _ => .declaration
  | maritalLink _ => .maritalLink
  | familialLink _ => .familialLink

def subject : Statement → Located String
  | declaration d => d.name
  | maritalLink l => l.left
  | familialLink l => l.parent

def Kind.ahead? (c : Cursor) : Option Kind := do
  let first ← c.lookahead 0
  let second ← c.lookahead 1
  match first.value.kind, second.value.kind with
  | .name, .leftParen => some .declaration
  | .name, .maritalLink => some .maritalLink
  | .name, .familialLink => some .familialLink
  | _, _ => none

end Statement
end Pedigree.Source

import Pedigree.Source.Span

/-! Diagnostics: what a reader of a source is told when something is wrong with it. -/

namespace Pedigree.Source

inductive Code where
  | strayCharacter
  | unexpectedToken
  | incompleteInput
  | unrecognizedStatement
  | trailingInput
  | undeclaredPerson
  | duplicateDeclaration
  | selfLink
  | tooManyParents
deriving DecidableEq, Repr

namespace Code

def all : List Code :=
  [strayCharacter, unexpectedToken, incompleteInput, unrecognizedStatement, trailingInput,
    undeclaredPerson, duplicateDeclaration, selfLink, tooManyParents]

def text : Code → String
  | strayCharacter => "E001"
  | unexpectedToken => "E100"
  | incompleteInput => "E101"
  | unrecognizedStatement => "E102"
  | trailingInput => "E103"
  | undeclaredPerson => "E200"
  | duplicateDeclaration => "E201"
  | selfLink => "E202"
  | tooManyParents => "E203"

def description : Code → String
  | strayCharacter => "unexpected character"
  | unexpectedToken => "unexpected token"
  | incompleteInput => "incomplete input"
  | unrecognizedStatement => "unrecognized statement"
  | trailingInput => "trailing input"
  | undeclaredPerson => "undeclared person"
  | duplicateDeclaration => "duplicate declaration"
  | selfLink => "self-referential link"
  | tooManyParents => "too many parents"

end Code

structure Label where
  span : Span
  message : String
deriving DecidableEq, Repr

structure Diagnostic where
  code : Code
  message : String
  primary : Label
  context : Option Label := none
  help : Option String := none
deriving DecidableEq, Repr

namespace Diagnostic

def plain (code : Code) (message : String) (span : Span) : Diagnostic where
  code
  message
  primary := ⟨span, code.description⟩

def labelled (d : Diagnostic) (message : String) : Diagnostic :=
  { d with primary := ⟨d.primary.span, message⟩ }

def withContext (d : Diagnostic) (span : Span) (message : String) : Diagnostic :=
  { d with context := some ⟨span, message⟩ }

def withHelp (d : Diagnostic) (help : String) : Diagnostic := { d with help := some help }

def text (d : Diagnostic) : String := s!"error[{d.code.text}]: {d.message}"

end Diagnostic
end Pedigree.Source

import Pedigree.FamilyTree
import Pedigree.Source.Diagnostic
import Pedigree.Source.Token
import Pedigree.Text.Escape

/-! Everything that can be wrong with a source, and the diagnostic that tells it. -/

namespace Pedigree.Source

inductive Fault where
  | strayCharacter (c : Located Char)
  | unexpectedToken (due : Token.Kind) (found : Located Token)
  | malformedDate (date : Located Date.Malformed)
  | incomplete (due : Option Token.Kind) (stop : Nat)
  | unrecognizedStatement (span : Span)
  | trailing (first : Token) (span : Span)
  | undeclared (name : Located String)
  | refused (refusal : Refusal) (span : Span) (declared : Option Span)
deriving DecidableEq, Repr

namespace Fault

def refusalCode : Refusal → Code
  | .alreadyDeclared _ => .duplicateDeclaration
  | .selfLink _ => .selfLink
  | .tooManyParents _ => .tooManyParents

def diagnostic : Fault → Diagnostic
  | strayCharacter c =>
    (Diagnostic.plain .strayCharacter s!"unexpected character `{Text.escape c.value}`" c.span)
      |>.withHelp "names are letters only and dates are written DD/MM/YYYY"
  | unexpectedToken due found =>
    (Diagnostic.plain .unexpectedToken
        s!"expected `{due.text}`, found `{found.value.text}`" found.span)
      |>.labelled s!"expected `{due.text}`"
  | malformedDate date =>
    (Diagnostic.plain .unexpectedToken date.value.message date.span).labelled "invalid date"
  | incomplete due stop =>
    let label :=
      match due with
      | some kind => s!"expected `{kind.text}`"
      | none => "no tokens left"
    (Diagnostic.plain .incompleteInput "unexpected end of input" (.emptyAt stop))
      |>.labelled label
      |>.withHelp "the family tree must be closed with `\x7d`"
  | unrecognizedStatement span =>
    (Diagnostic.plain .unrecognizedStatement
        "expected a declaration, a marital link or a familial link" span)
      |>.withHelp "statements look like `Name(DD/MM/YYYY-);`, `A <=> B;` or `A -> B;`"
  | trailing first span =>
    (Diagnostic.plain .trailingInput
        s!"unexpected `{first.text}` after the end of the family tree" span)
      |>.withHelp "a source holds exactly one `family_tree \x7b ... \x7d` block"
  | undeclared name =>
    (Diagnostic.plain .undeclaredPerson s!"person `{name.value}` is not declared" name.span)
      |>.withHelp s!"declare `{name.value}` before linking it"
  | refused refusal span declared =>
    let d := Diagnostic.plain (refusalCode refusal) refusal.message span
    match refusal, declared with
    | .alreadyDeclared _, some first => d.withContext first "first declared here"
    | .alreadyDeclared _, none => d
    | .selfLink _, _ => d
    | .tooManyParents child, _ =>
      d.withHelp s!"remove one of the links that give `{child}` a parent"

end Fault
end Pedigree.Source

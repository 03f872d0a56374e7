import Pedigree.Diagram.Family
import Pedigree.Diagram.Statements
import Pedigree.Failure
import Pedigree.Source.Draft

/-! Rendering under settings: a source is read, generations are given from the anchor, and the
family is written in one of four forms. -/

namespace Pedigree

inductive Form where
  | tree
  | statements
  | timeline
  | generations
deriving DecidableEq, Repr

namespace Settings

def place (s : Settings) (t : FamilyTree) : Except Failure FamilyTree :=
  match s.anchor with
  | none => .ok t.assignGenerations
  | some name =>
    match t.find? name with
    | some anchor => .ok (t.assignGenerationsFrom anchor)
    | none => .error (.anchor name)

def readWith {ω : Type} (s : Settings) (observe : Source.Notice → ω → ω) (observer : ω)
    (source : String) : ω × Except Failure FamilyTree :=
  match Source.readWith observe observer source with
  | (observer, .ok t) => (observer, s.place t)
  | (observer, .error fault) => (observer, .error (.source fault source))

def read (s : Settings) (source : String) : Except Failure FamilyTree :=
  (s.readWith (fun _ u => u) () source).2

def title (s : Settings) (t : FamilyTree) : String := s.style.title.getD t.defaultTitle

def timeline (s : Settings) (t : FamilyTree) : String := t.timeline (s.title t)

def statementGraph (s : Settings) (source : String) : Except Failure Dot.Graph :=
  match s.readWith Diagram.Outline.hear Diagram.Outline.start source with
  | (outline, .ok _) => .ok (Diagram.Outline.graph outline)
  | (_, .error failure) => .error failure

section
variable [Dot.Printing]

def statementDiagram (s : Settings) (source : String) : Except Failure String :=
  (s.statementGraph source).map Dot.Printing.print

def treeDiagram [Color.Reading] (s : Settings) (t : FamilyTree) : Except Failure String :=
  match t.diagram s.style with
  | .ok graph => .ok (Dot.Printing.print graph)
  | .error invalid => .error (.color invalid)

def write [Color.Reading] (s : Settings) (form : Form) (source : String) : Except Failure String :=
  match form with
  | .timeline => do return s.timeline (← s.read source)
  | .generations => do return (← s.read source).generationListing
  | .tree => do s.treeDiagram (← s.read source)
  | .statements => s.statementDiagram source

end

end Settings
end Pedigree

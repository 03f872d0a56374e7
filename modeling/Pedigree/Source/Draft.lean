import Pedigree.Source.Block
import Pedigree.Source.Notice
import Pedigree.Source.Scan

/-! Family trees from sources. A draft takes in one statement after the other and tells an
observer about each; the first statement that the tree refuses ends it. -/

namespace Pedigree.Source

structure Draft (ω : Type) where
  tree : FamilyTree := .empty
  declaredAt : List Span := []
  observer : ω
deriving Repr

namespace Draft

variable {ω : Type} (observe : Notice → ω → ω)

def resolve (d : Draft ω) (name : Located String) : Except Fault PersonId :=
  match d.tree.find? name.value with
  | some p => .ok p
  | none => .error (.undeclared name)

def birthOf (t : FamilyTree) (p : PersonId) : Date := ((t.person? p).map Person.birth).getD default

def declare (s : Declaration) (d : Draft ω) : Except Fault (Draft ω) :=
  let name := s.name.value
  let death := s.death.map Located.value
  match d.tree.declare name s.birth.value death with
  | .error refusal =>
    let first := (d.tree.find? name).bind fun p => d.declaredAt[p]?
    .error (.refused refusal s.name.span first)
  | .ok (id, tree) =>
    .ok {
      tree
      declaredAt := d.declaredAt ++ [s.name.span]
      observer :=
        observe (.declaration name s.birth.value death (decide (tree.root = some id))) d.observer }

def marry (s : MaritalLink) (d : Draft ω) : Except Fault (Draft ω) := do
  let left ← d.resolve s.left
  let right ← d.resolve s.right
  let wedding := s.wedding.map Located.value
  match d.tree.linkSpouses left right wedding with
  | .error refusal => .error (.refused refusal (s.left.span.union s.right.span) none)
  | .ok tree =>
    let notice := .maritalLink (tree.nameOf left) (birthOf tree left) (tree.nameOf right)
      (birthOf tree right) wedding
    return { d with tree, observer := observe notice d.observer }

def addChild (s : FamilialLink) (d : Draft ω) : Except Fault (Draft ω) := do
  let parent ← d.resolve s.parent
  let child ← d.resolve s.child
  match d.tree.linkChild parent child with
  | .error refusal => .error (.refused refusal (s.parent.span.union s.child.span) none)
  | .ok tree =>
    let notice := .familialLink (tree.nameOf parent) (birthOf tree parent) (tree.nameOf child)
      (birthOf tree child)
    return { d with tree, observer := observe notice d.observer }

def apply (s : Located Statement) (d : Draft ω) : Except Fault (Draft ω) :=
  match s.value with
  | .declaration s => d.declare observe s
  | .maritalLink s => d.marry observe s
  | .familialLink s => d.addChild observe s

end Draft

/-- Reads a family tree from a source. The observer hears of every statement before the first fault,
whatever the end. -/
def readWith {ω : Type} (observe : Notice → ω → ω) (observer : ω) (source : String) :
    ω × Except Fault FamilyTree :=
  match tokens source with
  | .error e => (observer, .error e)
  | .ok tokens =>
    match Block.read (Draft.apply observe) { observer } (.ofTokens tokens source.utf8ByteSize) with
    | (d, .ok ()) => (d.observer, .ok d.tree)
    | (d, .error e) => (d.observer, .error e)

def read (source : String) : Except Fault FamilyTree := (readWith (fun _ u => u) () source).2

end Pedigree.Source

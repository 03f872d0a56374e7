import Pedigree.FamilyTree
import Pedigree.Grouping

/-! Generations count parent links upwards from an anchor, along the longest way. A survey walks
from the anchor to its ancestors, first come first served; children of an ancestor who have no
generation yet share that of the person through whom the ancestor was met. -/

namespace Pedigree

/-- A survey under way: the generations given so far, the persons reached as anchor or parent, and
those whose parents are still to be visited, each with the generation it was queued under. -/
structure Survey where
  labels : List (Option Nat)
  ancestral : List PersonId
  pending : List (PersonId × Nat)
deriving DecidableEq, Repr

namespace Survey

variable (t : FamilyTree) (anchor : PersonId)

def start : Survey where
  labels := (List.replicate t.size none).set anchor (some 0)
  ancestral := [anchor]
  pending := [(anchor, 0)]

def label (s : Survey) (p : PersonId) : Option Nat := (s.labels[p]?).join

def setLabel (s : Survey) (p : PersonId) (g : Nat) : Survey :=
  { s with labels := s.labels.set p (some g) }

/-- Whether meeting a parent moves it up to a generation. The anchor stays where it is, and no
generation reaches the number of persons; otherwise a first meeting always counts, a later one if
the generation is higher than before. -/
def rises (s : Survey) (parent : PersonId) (g : Nat) : Bool :=
  parent != anchor && decide (g < t.size) &&
    (!s.ancestral.contains parent || (s.label parent).all (· < g))

def raise (s : Survey) (parent : PersonId) (g : Nat) : Survey where
  labels := s.labels.set parent (some g)
  ancestral := s.ancestral.insert parent
  pending := s.pending ++ [(parent, g)]

def backfill (g : Nat) (s : Survey) (sibling : PersonId) : Survey :=
  if (s.label sibling).isNone then s.setLabel sibling g else s

def meet (g : Nat) (s : Survey) (parent : PersonId) : Survey :=
  (t.childrenOf parent).foldl (backfill g)
    (if s.rises t anchor parent (g + 1) then s.raise parent (g + 1) else s)

def step (s : Survey) : Survey :=
  match s.pending with
  | [] => s
  | (p, g) :: rest =>
    let s := { s with pending := rest }
    if s.label p = some g then (t.parentsOf p).foldl (meet t anchor g) s else s

def run : Nat → Survey → Survey
  | 0, s => s
  | n + 1, s => if s.pending.isEmpty then s else run n (s.step t anchor)

/-- Enough steps for any tree: no person moves more often than there are persons. -/
def bound : Nat := t.size * t.size + 1

def finish : Survey := (start t anchor).run t anchor (bound t)

end Survey

namespace FamilyTree

def assignGenerationsFrom (t : FamilyTree) (anchor : PersonId) : FamilyTree :=
  let s := Survey.finish t anchor
  { t with persons := t.persons.mapIdx fun i p => { p with generation := s.label i } }

def assignGenerations (t : FamilyTree) : FamilyTree :=
  match t.root with
  | some r => t.assignGenerationsFrom r
  | none => t

def generationGroups (t : FamilyTree) : Grouping Nat PersonId :=
  .ofList (t.persons.filterMap fun p => p.generation.map (·, p.id))

def unplaced (t : FamilyTree) : List PersonId :=
  (t.persons.filter (·.generation.isNone)).map Person.id

end FamilyTree
end Pedigree

import Pedigree.Generation

/-! Family trees by their history: the changes that were tried, in order. A change that the tree
refuses leaves it as it was. -/

namespace Pedigree

inductive Change where
  | declare (name : String) (birth : Date) (death : Option Date)
  | linkSpouses (a b : PersonId) (date : Option Date)
  | linkChild (parent child : PersonId)
  | assignGenerations (anchor : PersonId)
deriving DecidableEq, Repr

namespace FamilyTree

def tryChange (t : FamilyTree) : Change → Except Refusal FamilyTree
  | .declare name birth death => (t.declare name birth death).map Prod.snd
  | .linkSpouses a b date => t.linkSpouses a b date
  | .linkChild parent child => t.linkChild parent child
  | .assignGenerations anchor => .ok (t.assignGenerationsFrom anchor)

def change (t : FamilyTree) (c : Change) : FamilyTree :=
  match t.tryChange c with
  | .ok t' => t'
  | .error _ => t

def ofHistory (cs : List Change) : FamilyTree := cs.foldl change empty

end FamilyTree
end Pedigree

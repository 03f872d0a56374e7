import Pedigree.Date

/-! Persons as a family tree records them. A person is known by its place in the order of
declaration. -/

namespace Pedigree

abbrev PersonId := Nat

def addOnce (ps : List PersonId) (p : PersonId) : List PersonId :=
  if p ∈ ps then ps else ps ++ [p]

structure Person where
  id : PersonId
  name : String
  birth : Date
  death : Option Date := none
  spouse : Option PersonId := none
  wedding : Option Date := none
  parents : List PersonId := []
  children : List PersonId := []
  generation : Option Nat := none
deriving DecidableEq, Repr

namespace Person

def isLiving (p : Person) : Bool := p.death.isNone

def marry (spouse : PersonId) (wedding : Option Date) (p : Person) : Person :=
  { p with spouse := some spouse, wedding := wedding }

def unmarry (p : Person) : Person := { p with spouse := none, wedding := none }

def addChild (child : PersonId) (p : Person) : Person :=
  { p with children := addOnce p.children child }

def inGeneration (g : Option Nat) (p : Person) : Person := { p with generation := g }

@[simp] theorem inGeneration_inGeneration (g h : Option Nat) (p : Person) :
    (p.inGeneration g).inGeneration h = p.inGeneration h := rfl

end Person
end Pedigree

import Pedigree.FamilyTree
import Pedigree.Grouping

/-! The chronology of a family tree: births, deaths and weddings under their dates. A wedding is
told once, by the spouse who was declared first. -/

namespace Pedigree

inductive Event where
  | birth (p : PersonId)
  | death (p : PersonId)
  | marriage (p q : PersonId)
deriving DecidableEq, Repr

def Person.events (p : Person) : List (Date × Event) :=
  (p.birth, .birth p.id) ::
    ((p.death.map (·, .death p.id)).toList ++
      match p.wedding, p.spouse with
      | some d, some q => if p.id < q then [(d, .marriage p.id q)] else []
      | _, _ => [])

abbrev Chronology := Grouping Date Event

namespace Chronology

def ofTree (t : FamilyTree) : Chronology := .ofList (t.persons.flatMap Person.events)

def size (c : Chronology) : Nat := (Grouping.toList c).length

end Chronology
end Pedigree

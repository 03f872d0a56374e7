import Pedigree.Date

/-! What an observer of a source hears, one notice for each statement that went into the family
tree. A link comes with the dates of birth of the persons it joins. -/

namespace Pedigree.Source

inductive Notice where
  | declaration (name : String) (birth : Date) (death : Option Date) (isRoot : Bool)
  | maritalLink (left : String) (leftBirth : Date) (right : String) (rightBirth : Date)
      (wedding : Option Date)
  | familialLink (parent : String) (parentBirth : Date) (child : String) (childBirth : Date)
deriving DecidableEq, Repr

end Pedigree.Source

import Pedigree.Person

/-! Family trees: persons in the order of their declaration, with marital and familial links that
are recorded on both sides. The first person declared is the root. -/

namespace Pedigree

structure FamilyTree where
  persons : List Person := []
  root : Option PersonId := none
deriving DecidableEq, Repr, Inhabited

inductive Refusal where
  | alreadyDeclared (name : String)
  | selfLink (name : String)
  | tooManyParents (child : String)
deriving DecidableEq, Repr

def Refusal.message : Refusal → String
  | alreadyDeclared name => s!"person `{name}` is already declared"
  | selfLink name => s!"person `{name}` cannot be linked to themselves"
  | tooManyParents child => s!"person `{child}` already has two parents"

namespace FamilyTree

def empty : FamilyTree := {}

def size (t : FamilyTree) : Nat := t.persons.length

def person? (t : FamilyTree) (i : PersonId) : Option Person := t.persons[i]?

/-- Records are kept under their names, and a record stands at its own number: only `declare` adds
one, behind all others, and nothing changes its name or number afterwards. So the place where a name
is found is the number in the record. -/
def find? (t : FamilyTree) (name : String) : Option PersonId :=
  t.persons.findIdx? (·.name = name)

def nameOf (t : FamilyTree) (i : PersonId) : String := ((t.person? i).map Person.name).getD ""

def spouseOf (t : FamilyTree) (i : PersonId) : Option PersonId := (t.person? i).bind Person.spouse

def weddingOf (t : FamilyTree) (i : PersonId) : Option Date := (t.person? i).bind Person.wedding

def parentsOf (t : FamilyTree) (i : PersonId) : List PersonId :=
  ((t.person? i).map Person.parents).getD []

def childrenOf (t : FamilyTree) (i : PersonId) : List PersonId :=
  ((t.person? i).map Person.children).getD []

def generationOf (t : FamilyTree) (i : PersonId) : Option Nat :=
  (t.person? i).bind Person.generation

def update (t : FamilyTree) (i : PersonId) (f : Person → Person) : FamilyTree :=
  { t with persons := t.persons.modify i f }

@[simp] theorem size_update (t : FamilyTree) (i : PersonId) (f : Person → Person) :
    (t.update i f).size = t.size := by
  simp [update, size]

theorem person?_update (t : FamilyTree) (i j : PersonId) (f : Person → Person) :
    (t.update i f).person? j = (t.person? j).map fun p => if i = j then f p else p := by
  simp [update, person?, List.getElem?_modify]

def declare (t : FamilyTree) (name : String) (birth : Date) (death : Option Date) :
    Except Refusal (PersonId × FamilyTree) :=
  match t.find? name with
  | some _ => .error (.alreadyDeclared name)
  | none =>
    let id := t.size
    .ok (id, {
      persons := t.persons ++ [{ id, name, birth, death }]
      root := t.root.or (some id) })

def release (t : FamilyTree) (i other : PersonId) : FamilyTree :=
  match t.spouseOf i with
  | some former => if former = other then t else t.update former Person.unmarry
  | none => t

/-- Marries two persons. Spouses that either had before are freed; a couple that is linked again
without a date keeps the date it had. -/
def linkSpouses (t : FamilyTree) (a b : PersonId) (date : Option Date) :
    Except Refusal FamilyTree :=
  if a = b then .error (.selfLink (t.nameOf a))
  else
    let wedding := date.or (if t.spouseOf a = some b then t.weddingOf a else none)
    .ok ((((t.release a b).release b a).update a (.marry b wedding)).update b (.marry a wedding))

def guardians (t : FamilyTree) (parent : PersonId) : List PersonId :=
  parent :: (t.spouseOf parent).toList

/-- Gives a child to a person and to the person's present spouse. A child that would have more than
two parents is refused. -/
def linkChild (t : FamilyTree) (parent child : PersonId) : Except Refusal FamilyTree :=
  if parent = child then .error (.selfLink (t.nameOf parent))
  else
    let parents := (t.guardians parent).foldl addOnce (t.parentsOf child)
    if parents.length > 2 then .error (.tooManyParents (t.nameOf child))
    else
      let t := (t.guardians parent).foldl (fun t g => t.update g (.addChild child)) t
      .ok (t.update child fun p => { p with parents })

def coupleKey (t : FamilyTree) (a b : PersonId) : String :=
  let a := t.nameOf a
  let b := t.nameOf b
  if a < b then a ++ b else b ++ a

def describe (t : FamilyTree) (p : Person) : String :=
  let death := (p.death.map fun d => s!", died {d}").getD ""
  let spouse := (p.spouse.map fun s => s!", married to {t.nameOf s}").getD ""
  let parents :=
    if p.parents.isEmpty then ""
    else
      let names := (p.parents.map t.nameOf).mergeSort fun a b => decide (a ≤ b)
      ", child of " ++ " and ".intercalate names
  s!"{p.name} born {p.birth}" ++ death ++ spouse ++ parents ++ "."

def description (t : FamilyTree) : String :=
  String.join (t.persons.map fun p => t.describe p ++ "\n")

end FamilyTree
end Pedigree

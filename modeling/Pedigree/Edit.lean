import Pedigree.History

/-! Changes carried out in place. A tree that is changed in place is written to record by record,
and what has been written before a refusal stays written. -/

namespace Pedigree

abbrev Edit (α : Type) := ExceptT Refusal (StateM FamilyTree) α

namespace Edit

def carryOut {α : Type} (e : Edit α) (t : FamilyTree) : Except Refusal α × FamilyTree :=
  (ExceptT.run e).run t

def write (i : PersonId) (f : Person → Person) : Edit Unit := modify (·.update i f)

def declare (name : String) (birth : Date) (death : Option Date) : Edit PersonId := do
  let t ← get
  if (t.find? name).isSome then throw (.alreadyDeclared name)
  let id := t.size
  modify fun t => { t with persons := t.persons ++ [{ id, name, birth, death }] }
  modify fun t => if t.root.isNone then { t with root := some id } else t
  return id

def release (i other : PersonId) : Edit Unit := do
  let t ← get
  ((t.spouseOf i).toList.filter (· ≠ other)).forM fun former => write former .unmarry

def linkSpouses (a b : PersonId) (date : Option Date) : Edit Unit := do
  let t ← get
  if a = b then throw (.selfLink (t.nameOf a))
  let wedding := date.or (if t.spouseOf a = some b then t.weddingOf a else none)
  release a b
  release b a
  write a (.marry b wedding)
  write b (.marry a wedding)

def linkChild (parent child : PersonId) : Edit Unit := do
  let t ← get
  if parent = child then throw (.selfLink (t.nameOf parent))
  let parents := (t.guardians parent).foldl addOnce (t.parentsOf child)
  if parents.length > 2 then throw (.tooManyParents (t.nameOf child))
  (t.guardians parent).forM fun g => write g (.addChild child)
  write child fun p => { p with parents }

structure Round where
  ancestral : List PersonId
  pending : List (PersonId × Nat)

def give (i : PersonId) (g : Option Nat) : Edit Unit := write i (.inGeneration g)

def backfill (g : Nat) (sibling : PersonId) : Edit Unit := do
  if ((← get).generationOf sibling).isNone then give sibling (some g)

def raise (anchor : PersonId) (g : Nat) (r : Round) (parent : PersonId) : Edit Round := do
  let t ← get
  -- No generation at all is below every generation.
  if parent ≠ anchor ∧ g < t.size ∧
      (parent ∉ r.ancestral ∨ (t.generationOf parent).all (· < g)) then
    give parent (some g)
    return { ancestral := r.ancestral.insert parent, pending := r.pending ++ [(parent, g)] }
  else return r

def meet (anchor : PersonId) (g : Nat) (r : Round) (parent : PersonId) : Edit Round := do
  let r ← raise anchor (g + 1) r parent
  ((← get).childrenOf parent).forM (backfill g)
  return r

def serve (anchor : PersonId) (r : Round) : Edit Round := do
  match r.pending with
  | [] => return r
  | (p, g) :: rest =>
    let t ← get
    let r := { r with pending := rest }
    if t.generationOf p = some g then (t.parentsOf p).foldlM (meet anchor g) r else return r

def serveAll (anchor : PersonId) : Nat → Round → Edit Unit
  | 0, _ => return ()
  | n + 1, r => if r.pending.isEmpty then return () else do serveAll anchor n (← serve anchor r)

def assignGenerations (anchor : PersonId) : Edit Unit := do
  let t ← get
  (List.range t.size).forM fun i => give i none
  give anchor (some 0)
  serveAll anchor (Survey.bound t) ⟨[anchor], [(anchor, 0)]⟩

end Edit

def Change.edit : Change → Edit Unit
  | .declare name birth death => (fun _ => ()) <$> Edit.declare name birth death
  | .linkSpouses a b date => Edit.linkSpouses a b date
  | .linkChild parent child => Edit.linkChild parent child
  | .assignGenerations anchor => Edit.assignGenerations anchor

end Pedigree

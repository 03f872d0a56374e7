import Pedigree.Failure

/-! Files as a command sees them, and a disk that is a value. A path is walked name by name through
directories that are there; a file is read as text. -/

namespace Pedigree.Command

structure FileAccess (m : Type → Type) where
  read : String → m (Except FileFault String)
  write : String → String → m (Except FileFault Unit)
  isFile : String → m Bool

inductive Entry where
  | text (content : String)
  | bytes
  | directory
deriving DecidableEq, Repr

/-- Entries under the parts of their paths from the top directory. Paths without a slash in front
begin at `here`. -/
structure Disk where
  here : List String
  entries : List (List String × Entry) := []

namespace Disk

def parts (path : String) : List String :=
  ((path.toList.splitOn '/').map String.ofList).filter (· ≠ "")

def enter (place : List String) (name : String) : List String :=
  match name with
  | "." => place
  | ".." => place.dropLast
  | _ => place ++ [name]

def entry? (d : Disk) (place : List String) : Option Entry :=
  if place.isEmpty then some .directory else d.entries.lookup place

def put (d : Disk) (place : List String) (e : Entry) : Disk :=
  if (d.entries.lookup place).isSome then
    { d with entries := d.entries.map fun x => if x.1 = place then (place, e) else x }
  else { d with entries := d.entries ++ [(place, e)] }

def add (d : Disk) (path : String) (e : Entry) : Disk :=
  let place := (parts path).foldl enter (if path.startsWith "/" then [] else d.here)
  let above := (List.range place.length).map place.take
  (above.foldl (fun d p => if (d.entry? p).isSome then d else d.put p .directory) d).put place e

def step (place : List String) (name : String) : Except FileFault (List String) :=
  if 255 < name.utf8ByteSize then .error .nameTooLong else .ok (enter place name)

def walk (d : Disk) (place : List String) : List String → Except FileFault (List String)
  | [] => .ok place
  | name :: names => do
    let next ← step place name
    match d.entry? next with
    | none => throw .notFound
    | some .directory => d.walk next names
    | some _ => throw .notADirectory

/-- Where a path ends: in a directory that is there, or under a name in one; `closed` says that a
slash follows the name. -/
inductive Target where
  | directory
  | name (place : List String) (closed : Bool)
deriving DecidableEq, Repr

def locate (d : Disk) (path : String) : Except FileFault Target := do
  if path.toList.contains '\x00' then throw .zeroInName
  if path.isEmpty then throw .notFound
  if 4095 < path.utf8ByteSize then throw .nameTooLong
  let names := parts path
  let above ← d.walk (if path.startsWith "/" then [] else d.here) names.dropLast
  match names.getLast? with
  | none | some "." | some ".." => return .directory
  | some name => return .name (← step above name) (path.endsWith "/")

def read (d : Disk) (path : String) : Except FileFault String := do
  match ← d.locate path with
  | .directory => throw .isADirectory
  | .name place closed =>
    match d.entry? place with
    | none => throw .notFound
    | some .directory => throw .isADirectory
    | some .bytes => throw (if closed then .notADirectory else .notText)
    | some (.text content) => if closed then throw .notADirectory else return content

def write (d : Disk) (path : String) (content : String) : Except FileFault Disk := do
  match ← d.locate path with
  | .directory | .name _ true => throw .isADirectory
  | .name place false =>
    if d.entry? place = some .directory then throw .isADirectory
    return d.put place (.text content)

def isFile (d : Disk) (path : String) : Bool :=
  match d.read path with
  | .ok _ | .error .notText => true
  | .error _ => false

def access : FileAccess (StateM Disk) where
  read path := return (← get).read path
  write path content := do
    match (← get).write path content with
    | .ok d => set d; return .ok ()
    | .error e => return .error e
  isFile path := return (← get).isFile path

def changes (before d : Disk) : List (String × String) :=
  d.entries.filterMap fun (place, e) =>
    match e with
    | .text content =>
      if before.entries.lookup place = some e || !d.here.isPrefixOf place then none
      else some ("/".intercalate (place.drop d.here.length), content)
    | _ => none

end Disk
end Pedigree.Command

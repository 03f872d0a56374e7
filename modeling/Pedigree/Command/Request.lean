import Pedigree.Rendering

/-! What a command line asks for. Options are settled one after the other: an option that still
waits for its value, or whose value has not been looked at, is settled when the next one begins,
and at the end. -/

namespace Pedigree.Command

structure Request where
  input : String
  output : Option String := none
  form : Form := .timeline
  settings : Option String := none
  logLevel : String := "info"
deriving DecidableEq, Repr

inductive Misuse where
  | missingInput
  | unknown
  | invalidValue
  | repeated
  | surplusValue
  | help (full : Bool)
  | version
deriving DecidableEq, Repr

def form? : String → Option Form
  | "tree" => some .tree
  | "structure" => some .statements
  | "timeline" => some .timeline
  | "generations" => some .generations
  | _ => none

inductive Setting where
  | output
  | form
  | settings
  | logLevel
deriving DecidableEq, Repr

inductive Flag where
  | set (s : Setting)
  | help
  | version
deriving DecidableEq, Repr

def Flag.ofLetter? : Char → Option Flag
  | 'o' => some (.set .output)
  | 'f' => some (.set .form)
  | 'c' => some (.set .settings)
  | 'h' => some .help
  | 'V' => some .version
  | _ => none

def Flag.ofName? : String → Option Flag
  | "output" => some (.set .output)
  | "format" => some (.set .form)
  | "config" => some (.set .settings)
  | "log-level" => some (.set .logLevel)
  | "help" => some .help
  | "version" => some .version
  | _ => none

structure Draft where
  chosen : List (Setting × String) := []
  input : Option String := none
  pending : Option (Setting × Option String) := none
  ended : Bool := false

namespace Draft

def choose (d : Draft) (s : Setting) (v : String) : Except Misuse Draft :=
  if (d.chosen.lookup s).isSome then .error .repeated
  else if s = .form ∧ form? v = none then .error .invalidValue
  else .ok { d with chosen := d.chosen ++ [(s, v)] }

def settle (d : Draft) : Except Misuse Draft :=
  match d.pending with
  | none => .ok d
  | some (_, none) => .error .invalidValue
  | some (s, some v) => { d with pending := none }.choose s v

def takeFlag (d : Draft) (full : Bool) (flag : Flag) (attached : Option String) :
    Except Misuse Draft :=
  match flag, attached with
  | .set s, some v => do (← d.settle).choose s v
  | .set s, none => do return { ← d.settle with pending := some (s, none) }
  | _, some _ => .error .surplusValue
  | .help, none => do
    let _ ← d.settle
    .error (.help full)
  | .version, none => do
    let _ ← d.settle
    .error .version

def takeLetters (d : Draft) : List Char → Except Misuse Draft
  | [] => .ok d
  | c :: cs =>
    match Flag.ofLetter? c with
    | none => .error .unknown
    | some (.set s) =>
      match cs with
      | [] => d.takeFlag false (.set s) none
      | '=' :: v => d.takeFlag false (.set s) (some (String.ofList v))
      | v => d.takeFlag false (.set s) (some (String.ofList v))
    | some flag => do takeLetters (← d.takeFlag false flag none) cs

def takeName (d : Draft) (cs : List Char) : Except Misuse Draft :=
  let attached :=
    match cs.dropWhile (· != '=') with
    | _ :: v => some (String.ofList v)
    | [] => none
  match Flag.ofName? (String.ofList (cs.takeWhile (· != '='))) with
  | none => .error .unknown
  | some flag => d.takeFlag true flag attached

def takeWord (d : Draft) (word : String) : Except Misuse Draft :=
  match d.ended, d.pending with
  | false, some (s, none) => .ok { d with pending := some (s, some word) }
  | _, _ =>
    match d.input with
    | none => do return { ← d.settle with input := some word }
    | some _ => .error .unknown

def take (d : Draft) (word : String) : Except Misuse Draft :=
  if d.ended then d.takeWord word
  else
    match word.toList with
    | ['-', '-'] => .ok { d with ended := true }
    | '-' :: '-' :: cs => d.takeName cs
    | '-' :: c :: cs => d.takeLetters (c :: cs)
    | _ => d.takeWord word

def finish (d : Draft) : Except Misuse Request := do
  let d ← d.settle
  match d.input with
  | none => .error .missingInput
  | some input =>
    return {
      input
      output := d.chosen.lookup .output
      form := ((d.chosen.lookup .form).bind form?).getD .timeline
      settings := d.chosen.lookup .settings
      logLevel := (d.chosen.lookup .logLevel).getD "info" }

end Draft

def Request.parse (words : List String) : Except Misuse Request := do
  (← words.foldlM Draft.take {}).finish

end Pedigree.Command

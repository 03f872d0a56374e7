/-! Values of TOML documents. Numbers with a fraction, dates and times are kept as they were
written. A table remembers how it came about, because that decides whether it may still grow. -/

namespace Pedigree.Toml

inductive Origin where
  | header
  | implied
  | dotted
  | inline
deriving DecidableEq, Repr

inductive Value where
  | absent
  | text (s : String)
  | integer (n : Int)
  | float (written : String)
  | boolean (b : Bool)
  | moment (written : String)
  | array (elements : List Value)
  | table (origin : Origin) (entries : List (String × Value))
  | tables (elements : List (List (String × Value)))
deriving Inhabited

abbrev Entries := List (String × Value)

inductive Fault where
  | unexpectedText
  | controlCharacter
  | badEscape
  | unclosedText
  | badKey
  | badScalar
  | outOfRange
  | unclosedArray
  | unclosedTable
  | nestedTooDeep
  | duplicateKey (key : String)
  | closedTable (key : String)
deriving DecidableEq, Repr

def Fault.message : Fault → String
  | unexpectedText => "unexpected text"
  | controlCharacter => "control characters are not allowed"
  | badEscape => "invalid escape sequence"
  | unclosedText => "unclosed string"
  | badKey => "invalid key"
  | badScalar => "invalid value"
  | outOfRange => "number out of range"
  | unclosedArray => "unclosed array"
  | unclosedTable => "unclosed inline table"
  | nestedTooDeep => "values are nested too deeply"
  | duplicateKey key => s!"duplicate key `{key}`"
  | closedTable key => s!"`{key}` cannot be extended"

namespace Entries

def replace (es : Entries) (key : String) (v : Value) : Entries :=
  es.map fun e => if e.1 = key then (key, v) else e

def put (es : Entries) (key : String) (v : Value) : Except Fault Entries :=
  if (es.lookup key).isSome then .error (.duplicateKey key) else .ok (es ++ [(key, v)])

/-- Adds a value under a dotted key. Tables on the way are made here, or made by dotted keys, or
implied by headers; these count as made by dotted keys from then on. Of an array of tables the key
leads through the last one, but adds nothing to it at once. -/
def putDotted (key : String) (v : Value) : List String → Entries → Except Fault Entries
  | [], es => es.put key v
  | k :: path, es =>
    match es.lookup k with
    | none => do return es ++ [(k, .table .dotted (← putDotted key v path []))]
    | some (.table .dotted below) | some (.table .implied below) => do
      return replace es k (.table .dotted (← putDotted key v path below))
    | some (.tables elements) =>
      match elements.getLast? with
      | some last =>
        if path.isEmpty then .error (.closedTable k)
        else do return replace es k (.tables (elements.dropLast ++ [← putDotted key v path last]))
      | none => .error (.closedTable k)
    | some _ => .error (.closedTable k)

def within (change : Entries → Except Fault Entries) : List String → Entries → Except Fault Entries
  | [], es => change es
  | k :: path, es =>
    match es.lookup k with
    | none => do return es ++ [(k, .table .implied (← within change path []))]
    | some (.table .inline _) => .error (.closedTable k)
    | some (.table origin below) => do
      return replace es k (.table origin (← within change path below))
    | some (.tables elements) =>
      match elements.getLast? with
      | some last => do
        return replace es k (.tables (elements.dropLast ++ [← within change path last]))
      | none => .error (.closedTable k)
    | some _ => .error (.closedTable k)

def openTable (key : String) (es : Entries) : Except Fault Entries :=
  match es.lookup key with
  | none => .ok (es ++ [(key, .table .header [])])
  | some (.table .implied below) => .ok (replace es key (.table .header below))
  | some _ => .error (.duplicateKey key)

def openElement (key : String) (es : Entries) : Except Fault Entries :=
  match es.lookup key with
  | none => .ok (es ++ [(key, .tables [[]])])
  | some (.tables elements) => .ok (replace es key (.tables (elements ++ [[]])))
  | some _ => .error (.duplicateKey key)

end Entries
end Pedigree.Toml

import Pedigree.Toml.Scalar

/-! TOML documents: key and value lines under table headers. Arrays and inline tables may spread
over lines and may end in a comma; values and keys nest at most eighty deep. -/

namespace Pedigree.Toml

def deepest : Nat := 80

def skipLines (inComment : Bool) : List Char → Except Fault (List Char)
  | [] => .ok []
  | '\r' :: '\n' :: rest => skipLines false rest
  | '\n' :: rest => skipLines false rest
  | c :: rest =>
    if inComment then if isPlain c then skipLines true rest else .error .controlCharacter
    else if c = '#' then skipLines true rest
    else if isBlank c then skipLines false rest
    else .ok (c :: rest)

def keyValue (skipGap : List Char → Except Fault (List Char))
    (value : List Char → Except Fault (Value × List Char)) (cs : List Char) :
    Except Fault ((List String × String × Value) × List Char) := do
  let ((path, key), rest) ← keyPath deepest cs
  match ← skipGap rest with
  | '=' :: rest =>
    let (v, rest) ← value (← skipGap rest)
    return ((path, key, v), rest)
  | _ => .error .unexpectedText

def arrayItems (value : List Char → Except Fault (Value × List Char)) :
    Nat → List Char → Except Fault (List Value × List Char)
  | 0, _ => .error .unclosedArray
  | fuel + 1, cs => do
    match ← skipLines false cs with
    | [] => .error .unclosedArray
    | ']' :: rest => return ([], rest)
    | cs =>
      let (v, rest) ← value cs
      match ← skipLines false rest with
      | ',' :: rest =>
        let (vs, rest) ← arrayItems value fuel rest
        return (v :: vs, rest)
      | ']' :: rest => return ([v], rest)
      | _ => .error .unclosedArray

def tableItems (value : List Char → Except Fault (Value × List Char)) :
    Nat → Entries → List Char → Except Fault (Entries × List Char)
  | 0, _, _ => .error .unclosedTable
  | fuel + 1, es, cs => do
    match ← skipLines false cs with
    | [] => .error .unclosedTable
    | '\x7d' :: rest => return (es, rest)
    | cs =>
      let ((path, key, v), rest) ← keyValue (skipLines false) value cs
      let es ← Entries.putDotted key v path es
      match ← skipLines false rest with
      | ',' :: rest => tableItems value fuel es rest
      | '\x7d' :: rest => return (es, rest)
      | _ => .error .unclosedTable

def value : Nat → List Char → Except Fault (Value × List Char)
  | depth, cs =>
    match quotedText? cs with
    | some text => do let (text, rest) ← text; return (.text (String.ofList text), rest)
    | none =>
      match depth, cs with
      | 0, '[' :: _ | 0, '\x7b' :: _ => .error .nestedTooDeep
      | depth + 1, '[' :: rest => do
        let (vs, rest) ← arrayItems (value depth) (rest.length + 1) rest
        return (.array vs, rest)
      | depth + 1, '\x7b' :: rest => do
        let (es, rest) ← tableItems (value depth) (rest.length + 1) [] rest
        return (.table .inline es, rest)
      | _, cs => scalar cs

structure Draft where
  root : Entries := []
  path : List String := []

def header (d : Draft) (cs : List Char) : Except Fault (Draft × List Char) := do
  match cs with
  | '[' :: cs =>
    let ((path, key), rest) ← keyPath deepest cs
    match rest with
    | ']' :: ']' :: rest =>
      return (⟨← Entries.within (Entries.openElement key) path d.root, path ++ [key]⟩, rest)
    | _ => .error .unexpectedText
  | _ =>
    let ((path, key), rest) ← keyPath deepest cs
    match rest with
    | ']' :: rest =>
      return (⟨← Entries.within (Entries.openTable key) path d.root, path ++ [key]⟩, rest)
    | _ => .error .unexpectedText

def line (d : Draft) (cs : List Char) : Except Fault (Draft × List Char) := do
  match cs with
  | '[' :: rest => header d rest
  | _ =>
    let ((path, key, v), rest) ← keyValue (fun cs => .ok (skipBlanks cs)) (value deepest) cs
    let root ← Entries.within (Entries.putDotted key v path) d.path d.root
    return ({ d with root }, rest)

def lineEnds (cs : List Char) : Bool :=
  match skipBlanks cs with
  | [] | '#' :: _ | '\n' :: _ | '\r' :: '\n' :: _ => true
  | _ => false

def lines : Nat → Draft → List Char → Except Fault Draft
  | 0, _, _ => .error .unexpectedText
  | fuel + 1, d, cs => do
    match ← skipLines false cs with
    | [] => return d
    | cs =>
      let (d, rest) ← line d cs
      if lineEnds rest then lines fuel d rest else .error .unexpectedText

def parse (text : String) : Except Fault Value := do
  let cs :=
    match text.toList with
    | '\ufeff' :: cs => cs
    | cs => cs
  let d ← lines (cs.length + 1) {} cs
  return .table .header d.root

end Pedigree.Toml

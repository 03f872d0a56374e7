import Pedigree.Source.Statement.Read

/-! The block of a family tree: statements between braces, and nothing behind them. Every
statement is applied to a state as soon as it is read, so the state that is left tells how far the
block was good. -/

namespace Pedigree.Source.Block

variable {σ : Type} (apply : Located Statement → σ → Except Fault σ)

def statements (s : σ) (c : Cursor) : σ × Except Fault Cursor :=
  match c.peek 0 with
  | .error e => (s, .error e)
  | .ok next =>
    if next.value.kind = .rightBrace then (s, .ok c)
    else
      match _h : Statement.read c with
      | .error e => (s, .error e)
      | .ok (statement, c') =>
        match apply statement s with
        | .error e => (s, .error e)
        | .ok s' => statements s' c'
termination_by c.remaining
decreasing_by exact Statement.remaining_lt_of_read _h

def opening (c : Cursor) : Except Fault Cursor := do
  let (_, c) ← c.expect .familyTree
  let (_, c) ← c.expect .leftBrace
  return c

def closing (c : Cursor) : Except Fault Unit := do
  let (_, c) ← c.expect .rightBrace
  match c.ahead with
  | [] => return ()
  | first :: rest =>
    let last := (first :: rest).getLast (List.cons_ne_nil first rest)
    .error (.trailing first.value (first.span.union last.span))

def read (s : σ) (c : Cursor) : σ × Except Fault Unit :=
  match opening c with
  | .error e => (s, .error e)
  | .ok c =>
    match statements apply s c with
    | (s, .error e) => (s, .error e)
    | (s, .ok c) => (s, closing c)

end Pedigree.Source.Block

import Pedigree.Source.Fault

/-! A place among the tokens of a source. Comments are left out; behind the last token a cursor
still knows where the source ends. -/

namespace Pedigree.Source

structure Cursor where
  ahead : List (Located Token)
  stop : Nat
deriving DecidableEq, Repr

namespace Cursor

def ofTokens (tokens : List (Located Token)) (stop : Nat) : Cursor :=
  ⟨tokens.filter (·.value.kind ≠ .comment), stop⟩

def remaining (c : Cursor) : Nat := c.ahead.length

def isEmpty (c : Cursor) : Bool := c.ahead.isEmpty

def endSpan (c : Cursor) : Span := .emptyAt c.stop

def lookahead (n : Nat) (c : Cursor) : Option (Located Token) := c.ahead[n]?

def peek (n : Nat) (c : Cursor) : Except Fault (Located Token) :=
  match c.ahead[n]? with
  | some token => .ok token
  | none => .error (.incomplete none c.stop)

def take (c : Cursor) : Except Fault (Located Token × Cursor) :=
  match c.ahead with
  | token :: ahead => .ok (token, { c with ahead })
  | [] => .error (.incomplete none c.stop)

def expect (kind : Token.Kind) (c : Cursor) : Except Fault (Located Token × Cursor) :=
  match c.ahead with
  | token :: ahead =>
    if token.value.kind = kind then .ok (token, { c with ahead })
    else .error (.unexpectedToken kind token)
  | [] => .error (.incomplete (some kind) c.stop)

theorem expect_eq_ok {kind : Token.Kind} {c c' : Cursor} {token : Located Token} :
    c.expect kind = .ok (token, c') ↔
      c.ahead = token :: c'.ahead ∧ token.value.kind = kind ∧ c'.stop = c.stop := by
  obtain ⟨ahead, stop⟩ := c
  obtain ⟨ahead', stop'⟩ := c'
  cases ahead with
  | nil => simp [expect]
  | cons t ts =>
    by_cases h : t.value.kind = kind
    · simp only [expect, h, if_true, Except.ok.injEq, Prod.mk.injEq, Cursor.mk.injEq,
        List.cons.injEq]
      constructor
      · rintro ⟨rfl, rfl, rfl⟩
        exact ⟨⟨rfl, rfl⟩, h, rfl⟩
      · rintro ⟨⟨rfl, rfl⟩, -, rfl⟩
        exact ⟨rfl, rfl, rfl⟩
    · simp only [expect, h, if_false, reduceCtorEq, List.cons.injEq, false_iff]
      rintro ⟨⟨rfl, -⟩, h', -⟩
      exact h h'

end Cursor
end Pedigree.Source

import Pedigree.Source.Statement

/-! Reading statements, each closed by a terminator. Main statement: what a reader leaves is a
tail of the tokens it was given, and a statement takes at least one. -/

namespace Pedigree.Source.Statement

def name (c : Cursor) : Except Fault (Located String × Cursor) := do
  let (token, c) ← c.expect .name
  return (token.map Token.text, c)

def date (c : Cursor) : Except Fault (Located Date × Cursor) := do
  let (token, c) ← c.expect .date
  match Date.parse token.value.text with
  | .ok d => return (⟨d, token.span⟩, c)
  | .error e => .error (.malformedDate ⟨e, token.span⟩)

def deathDate (c : Cursor) : Except Fault (Option (Located Date) × Cursor) := do
  let next ← c.peek 0
  if next.value.kind = .date then
    let (d, c) ← date c
    return (some d, c)
  else return (none, c)

def weddingDate (c : Cursor) : Except Fault (Option (Located Date) × Cursor) := do
  let next ← c.peek 0
  if next.value.kind = .leftParen then
    let (_, c) ← c.expect .leftParen
    let (d, c) ← date c
    let (_, c) ← c.expect .rightParen
    return (some d, c)
  else return (none, c)

def readDeclaration (c : Cursor) : Except Fault (Declaration × Cursor) := do
  let (name, c) ← name c
  let (_, c) ← c.expect .leftParen
  let (birth, c) ← date c
  let (_, c) ← c.expect .range
  let (death, c) ← deathDate c
  let (_, c) ← c.expect .rightParen
  return (⟨name, birth, death⟩, c)

def readMaritalLink (c : Cursor) : Except Fault (MaritalLink × Cursor) := do
  let (left, c) ← name c
  let (_, c) ← c.expect .maritalLink
  let (right, c) ← name c
  let (wedding, c) ← weddingDate c
  return (⟨left, right, wedding⟩, c)

def readFamilialLink (c : Cursor) : Except Fault (FamilialLink × Cursor) := do
  let (parent, c) ← name c
  let (_, c) ← c.expect .familialLink
  let (child, c) ← name c
  return (⟨parent, child⟩, c)

def body (kind : Kind) (c : Cursor) : Except Fault (Statement × Cursor) :=
  match kind with
  | .declaration => do
    let (d, c) ← readDeclaration c
    return (declaration d, c)
  | .maritalLink => do
    let (l, c) ← readMaritalLink c
    return (maritalLink l, c)
  | .familialLink => do
    let (l, c) ← readFamilialLink c
    return (familialLink l, c)

def read (c : Cursor) : Except Fault (Located Statement × Cursor) := do
  let first ← c.peek 0
  let second ← c.peek 1
  match Kind.ahead? c with
  | none => .error (.unrecognizedStatement (first.span.union second.span))
  | some kind =>
    let (statement, c) ← body kind c
    let (terminator, c) ← c.expect .terminator
    return (⟨statement, first.span.union terminator.span⟩, c)

theorem bind_eq_ok {ε α β : Type} {x : Except ε α} {f : α → Except ε β} {b : β} :
    x >>= f = .ok b ↔ ∃ a, x = .ok a ∧ f a = .ok b := by
  cases x <;> simp [bind, Except.bind]

theorem pure_eq_ok {ε α : Type} {a b : α} : (pure a : Except ε α) = .ok b ↔ a = b := by
  simp [pure, Except.pure]

def LeavesTail {α : Type} (r : Cursor → Except Fault (α × Cursor)) : Prop :=
  ∀ ⦃c a c'⦄, r c = .ok (a, c') → c'.ahead <:+ c.ahead

theorem expect_leavesTail (kind : Token.Kind) : LeavesTail (·.expect kind) := by
  intro c a c' h
  rw [(Cursor.expect_eq_ok.mp h).1]
  exact List.suffix_cons ..

theorem name_leavesTail : LeavesTail name := by
  intro c a c' h
  simp only [name, bind_eq_ok, pure_eq_ok, Prod.exists, Prod.mk.injEq] at h
  obtain ⟨_, _, h, -, rfl⟩ := h
  exact expect_leavesTail _ h

theorem date_leavesTail : LeavesTail date := by
  intro c a c' h
  simp only [date, bind_eq_ok, Prod.exists] at h
  obtain ⟨token, c₁, h₁, h⟩ := h
  split at h
  · simp only [pure_eq_ok, Prod.mk.injEq] at h
    obtain ⟨-, rfl⟩ := h
    exact expect_leavesTail _ h₁
  · simp at h

theorem deathDate_leavesTail : LeavesTail deathDate := by
  intro c a c' h
  simp only [deathDate, bind_eq_ok] at h
  obtain ⟨_, -, h⟩ := h
  split at h
  · simp only [bind_eq_ok, pure_eq_ok, Prod.exists, Prod.mk.injEq] at h
    obtain ⟨_, _, h, -, rfl⟩ := h
    exact date_leavesTail h
  · simp only [pure_eq_ok, Prod.mk.injEq] at h
    obtain ⟨-, rfl⟩ := h
    exact List.suffix_rfl

theorem weddingDate_leavesTail : LeavesTail weddingDate := by
  intro c a c' h
  simp only [weddingDate, bind_eq_ok] at h
  obtain ⟨_, -, h⟩ := h
  split at h
  · simp only [bind_eq_ok, pure_eq_ok, Prod.exists, Prod.mk.injEq] at h
    obtain ⟨_, _, h₁, _, _, h₂, _, _, h₃, -, rfl⟩ := h
    exact (expect_leavesTail _ h₃).trans ((date_leavesTail h₂).trans (expect_leavesTail _ h₁))
  · simp only [pure_eq_ok, Prod.mk.injEq] at h
    obtain ⟨-, rfl⟩ := h
    exact List.suffix_rfl

theorem body_leavesTail (kind : Kind) : LeavesTail (body kind) := by
  intro c a c' h
  cases kind
  · simp only [body, readDeclaration, bind_eq_ok, pure_eq_ok, Prod.exists, Prod.mk.injEq] at h
    obtain ⟨_, _, ⟨_, _, h₁, _, _, h₂, _, _, h₃, _, _, h₄, _, _, h₅, _, _, h₆, -, rfl⟩, -, rfl⟩ := h
    exact (expect_leavesTail _ h₆).trans <| (deathDate_leavesTail h₅).trans <|
      (expect_leavesTail _ h₄).trans <| (date_leavesTail h₃).trans <|
      (expect_leavesTail _ h₂).trans (name_leavesTail h₁)
  · simp only [body, readMaritalLink, bind_eq_ok, pure_eq_ok, Prod.exists, Prod.mk.injEq] at h
    obtain ⟨_, _, ⟨_, _, h₁, _, _, h₂, _, _, h₃, _, _, h₄, -, rfl⟩, -, rfl⟩ := h
    exact (weddingDate_leavesTail h₄).trans <| (name_leavesTail h₃).trans <|
      (expect_leavesTail _ h₂).trans (name_leavesTail h₁)
  · simp only [body, readFamilialLink, bind_eq_ok, pure_eq_ok, Prod.exists, Prod.mk.injEq] at h
    obtain ⟨_, _, ⟨_, _, h₁, _, _, h₂, _, _, h₃, -, rfl⟩, -, rfl⟩ := h
    exact (name_leavesTail h₃).trans <| (expect_leavesTail _ h₂).trans (name_leavesTail h₁)

theorem remaining_lt_of_read {c c' : Cursor} {s : Located Statement} (h : read c = .ok (s, c')) :
    c'.remaining < c.remaining := by
  simp only [read, bind_eq_ok] at h
  obtain ⟨_, -, _, -, h⟩ := h
  split at h
  · simp at h
  · simp only [bind_eq_ok, pure_eq_ok, Prod.exists, Prod.mk.injEq] at h
    obtain ⟨_, c₁, h₁, _, c₂, h₂, -, rfl⟩ := h
    have shorter := (body_leavesTail _ h₁).length_le
    simp only [(Cursor.expect_eq_ok.mp h₂).1, List.length_cons] at shorter
    exact shorter

end Pedigree.Source.Statement

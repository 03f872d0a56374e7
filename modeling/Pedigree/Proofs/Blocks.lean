import Mathlib.Order.Lattice.Nat
import Pedigree.Source.Block

/-! Reading a block without applying its statements. Main statement: to apply every statement as
soon as it is read comes to the same as to read them all first and to apply them afterwards, where
the first statement that fails hides whatever fault the text has behind it. -/

namespace Pedigree.Source.Block

def collect (s : Located Statement) (ss : List (Located Statement)) :
    Except Fault (List (Located Statement)) :=
  .ok (ss ++ [s])

def parse (c : Cursor) : List (Located Statement) × Except Fault Unit := read collect [] c

/-- Statements that stand one after the other, with the fault that ends them or the cursor at the
closing brace. -/
inductive Lists : Cursor → List (Located Statement) → Except Fault Cursor → Prop
  | exhausted {c : Cursor} {e : Fault} : c.peek 0 = .error e → Lists c [] (.error e)
  | closed {c : Cursor} {next : Located Token} : c.peek 0 = .ok next →
      next.value.kind = .rightBrace → Lists c [] (.ok c)
  | malformed {c : Cursor} {next : Located Token} {e : Fault} : c.peek 0 = .ok next →
      next.value.kind ≠ .rightBrace → Statement.read c = .error e → Lists c [] (.error e)
  | cons {c c' : Cursor} {next : Located Token} {s : Located Statement}
      {ss : List (Located Statement)} {r : Except Fault Cursor} : c.peek 0 = .ok next →
      next.value.kind ≠ .rightBrace → Statement.read c = .ok (s, c') → Lists c' ss r →
      Lists c (s :: ss) r

theorem exists_lists (c : Cursor) : ∃ ss r, Lists c ss r := by
  -- Every statement takes tokens, so the induction is on how many of them are left.
  induction hn : c.remaining using Nat.strong_induction_on generalizing c with
  | _ n ih =>
    cases hnext : c.peek 0 with
    | error e => exact ⟨_, _, .exhausted hnext⟩
    | ok next =>
      by_cases hbrace : next.value.kind = .rightBrace
      · exact ⟨_, _, .closed hnext hbrace⟩
      cases hread : Statement.read c with
      | error e => exact ⟨_, _, .malformed hnext hbrace hread⟩
      | ok x =>
        obtain ⟨s, c'⟩ := x
        obtain ⟨ss, r, h⟩ := ih _ (hn ▸ Statement.remaining_lt_of_read hread) c' rfl
        exact ⟨_, _, .cons hnext hbrace hread h⟩

variable {σ α : Type}

def applyAll (apply : Located Statement → σ → Except Fault σ) (s : σ) :
    List (Located Statement) → σ × Except Fault Unit
  | [] => (s, .ok ())
  | x :: xs =>
    match apply x s with
    | .ok s' => applyAll apply s' xs
    | .error e => (s, .error e)

def settle (r : Except Fault α) : σ × Except Fault Unit → σ × Except Fault α
  | (s, .ok ()) => (s, r)
  | (s, .error e) => (s, .error e)

theorem applyAll_collect (ss ss' : List (Located Statement)) :
    applyAll collect ss ss' = (ss ++ ss', .ok ()) := by
  induction ss' generalizing ss with
  | nil => rw [applyAll, List.append_nil]
  | cons x xs ih =>
    have h : applyAll collect ss (x :: xs) = applyAll collect (ss ++ [x]) xs := rfl
    rw [h, ih, List.append_assoc, List.singleton_append]

variable {apply : Located Statement → σ → Except Fault σ}

theorem applyAll_append {s s' : σ} {xs : List (Located Statement)}
    (h : applyAll apply s xs = (s', .ok ())) (ys : List (Located Statement)) :
    applyAll apply s (xs ++ ys) = applyAll apply s' ys := by
  induction xs generalizing s with
  | nil => rw [List.nil_append, (Prod.mk.inj h).1]
  | cons x xs ih =>
    rw [List.cons_append, applyAll]
    rw [applyAll] at h
    cases hx : apply x s with
    | ok s₁ =>
      rw [hx] at h
      exact ih h
    | error e =>
      rw [hx] at h
      cases h

theorem statements_eq_of_lists {c : Cursor} {ss : List (Located Statement)}
    {r : Except Fault Cursor} (h : Lists c ss r) (s : σ) :
    statements apply s c = settle r (applyAll apply s ss) := by
  induction h generalizing s with
  | exhausted hnext =>
    rw [statements, hnext]
    rfl
  | closed hnext hbrace =>
    rw [statements, hnext]
    simp only [if_pos hbrace]
    rfl
  | malformed hnext hbrace hread =>
    rw [statements, hnext]
    simp only [if_neg hbrace]
    -- The match keeps the equation that ends the recursion, so `hread` cannot be rewritten in it.
    split
    · rename_i h
      cases h.symm.trans hread
      rfl
    · rename_i h
      cases h.symm.trans hread
  | @cons c c' next x ss r hnext hbrace hread _ ih =>
    rw [statements, hnext, applyAll]
    simp only [if_neg hbrace]
    split
    · rename_i h
      cases h.symm.trans hread
    · rename_i h
      cases h.symm.trans hread
      cases apply x s with
      | error e => rfl
      | ok s' => exact ih s'

theorem read_eq_settle_parse (s : σ) (c : Cursor) :
    read apply s c = settle (parse c).2 (applyAll apply s (parse c).1) := by
  unfold parse read
  cases opening c with
  | error e => rfl
  | ok c₁ =>
    obtain ⟨ss, r, h⟩ := exists_lists c₁
    simp only [statements_eq_of_lists h, applyAll_collect, List.nil_append, settle]
    cases r with
    | error e =>
      cases applyAll apply s ss with
      | mk s' r' => cases r' <;> rfl
    | ok c₂ =>
      cases applyAll apply s ss with
      | mk s' r' => cases r' <;> rfl

end Pedigree.Source.Block

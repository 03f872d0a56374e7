/-! Stretches of a source, counted in bytes, and values that were read from one. -/

namespace Pedigree.Source

structure Span where
  start : Nat
  stop : Nat
  start_le_stop : start ≤ stop := by omega
deriving DecidableEq, Repr

namespace Span

def ofBounds (start stop : Nat) : Span := ⟨start, max start stop, Nat.le_max_left ..⟩

def emptyAt (i : Nat) : Span := ⟨i, i, Nat.le_refl i⟩

def size (s : Span) : Nat := s.stop - s.start

def isEmpty (s : Span) : Bool := s.start = s.stop

def union (s s' : Span) : Span where
  start := min s.start s'.start
  stop := max s.stop s'.stop
  start_le_stop := by
    have := s.start_le_stop
    omega

def text (s : Span) : String := s!"{s.start}..{s.stop}"

end Span

structure Located (α : Type) where
  value : α
  span : Span
deriving DecidableEq, Repr

namespace Located

def map {α β : Type} (f : α → β) (x : Located α) : Located β := ⟨f x.value, x.span⟩

def same {α : Type} [DecidableEq α] (x y : Located α) : Bool := x.value = y.value

end Located
end Pedigree.Source

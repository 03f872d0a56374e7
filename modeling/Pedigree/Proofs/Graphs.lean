import Mathlib.Logic.Function.Basic
import Pedigree.Dot

/-! Graphs as they are read off their text. Nodes go by quoted texts, and whoever takes a backslash
together with the character behind it reads the text back. Main statement: different texts are
quoted differently, so that two nodes share an id only if they share the text in it. -/

namespace Pedigree.Dot

def unescape : List Char → Option (List Char)
  | [] => some []
  | ['\\'] => none
  | '\\' :: c :: cs => if c = '\\' ∨ c = '"' then (unescape cs).map (c :: ·) else none
  | c :: cs => if c = '"' then none else (unescape cs).map (c :: ·)

theorem unescape_cons {c : Char} (hslash : c ≠ '\\') (hquote : c ≠ '"') (cs : List Char) :
    unescape (c :: cs) = (unescape cs).map (c :: ·) := by
  rw [unescape, if_neg hquote]
  · rintro rfl
    exact absurd rfl hslash
  · rintro d ds rfl
    exact absurd rfl hslash

theorem unescape_escape (cs : List Char) : unescape (escape cs) = some cs := by
  induction cs with
  | nil => rfl
  | cons c cs ih =>
    unfold escape
    split
    · rename_i hc
      rw [unescape, if_pos hc, ih]
      rfl
    · rename_i hc
      obtain ⟨hslash, hquote⟩ := not_or.mp hc
      rw [unescape_cons hslash hquote, ih]
      rfl

theorem escape_injective : Function.Injective escape := by
  intro cs ds h
  have hread : unescape (escape cs) = unescape (escape ds) := congrArg unescape h
  rw [unescape_escape, unescape_escape] at hread
  exact Option.some.inj hread

theorem quoted_injective : Function.Injective quoted := by
  intro s s' h
  have hchars : '"' :: (escape s.toList ++ ['"']) = '"' :: (escape s'.toList ++ ['"']) :=
    String.ofList_injective h
  have hbody : escape s.toList = escape s'.toList :=
    List.append_cancel_right (List.cons.inj hchars).2
  exact String.toList_injective (escape_injective hbody)

def Item.nodeId? : Item → Option String
  | .node id _ => some (quoted id)
  | _ => none

def Item.nodeShaped? (shape : String) : Item → Option String
  | .node id attributes =>
    if ⟨"shape", .bare shape⟩ ∈ attributes then some (quoted id) else none
  | _ => none

def Item.edge? : Item → Option (String × String)
  | .edge source target _ => some (quoted source, quoted target)
  | _ => none

def Item.members : Item → List String
  | .rank _ members => members.map quoted
  | _ => []

def Item.rank? : Item → Option (String × List String)
  | .rank name members => some (name, members.map quoted)
  | _ => none

namespace Graph

def nodeIds (g : Graph) : List String := g.items.filterMap Item.nodeId?

def nodesShaped (g : Graph) (shape : String) : List String :=
  g.items.filterMap (Item.nodeShaped? shape)

def edges (g : Graph) : List (String × String) := g.items.filterMap Item.edge?

def ranked (g : Graph) : List String := g.items.flatMap Item.members

def ranks (g : Graph) : List (String × List String) := g.items.filterMap Item.rank?

theorem flatMap_ranks (g : Graph) : g.ranks.flatMap (·.2) = g.ranked := by
  unfold ranks ranked
  induction g.items with
  | nil => rfl
  | cons item items ih =>
    rw [List.flatMap_cons, ← ih]
    cases item <;> rfl

end Graph

end Pedigree.Dot

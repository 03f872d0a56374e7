import Pedigree.Style
import Pedigree.Toml.Document

/-! Settings of a run: whom generations are counted from, and the style of diagrams. They are read
from a document whose table `generation` holds the anchor and whose table `style` the rest.
Unknown entries are passed over. -/

namespace Pedigree

structure Settings where
  anchor : Option String := none
  style : Style := {}
deriving DecidableEq, Repr, Inhabited

namespace Settings

inductive Fault where
  | malformed (fault : Toml.Fault)
  | notATable (key : String)
  | surplus (key : String)
  | notAText (key : String)
  | notASize (key : String)
deriving DecidableEq, Repr

def Fault.message : Fault → String
  | malformed fault => fault.message
  | notATable key => s!"`{key}` must be a table"
  | surplus key => s!"`{key}` has too many elements"
  | notAText key => s!"`{key}` must be a string"
  | notASize key => s!"`{key}` must be a number below 4294967296"

open Toml (Value Entries)

/-- The entries of a table. An array holds them in the order of `keys`, and more elements than keys
only if it is not read strictly. A date is a table without entries. -/
def entries (strict : Bool) (table : String) (keys : List String) : Value → Except Fault Entries
  | .table _ es => .ok es
  | .array vs =>
    if strict && keys.length < vs.length then .error (.surplus table) else .ok (keys.zip vs)
  | .tables ess => .ok (keys.zip (ess.map (.table .header)))
  | .moment _ => .ok []
  | _ => .error (.notATable table)

def text? (key : String) : Option Value → Except Fault (Option String)
  | none | some .absent => .ok none
  | some (.text s) => .ok (some s)
  | some _ => .error (.notAText key)

def size? (key : String) : Option Value → Except Fault (Option Nat)
  | none | some .absent => .ok none
  | some (.integer n) =>
    if 0 ≤ n ∧ n < 4294967296 then .ok (some n.toNat) else .error (.notASize key)
  | some _ => .error (.notASize key)

def anchorOf (strict : Bool) (v : Value) : Except Fault (Option String) := do
  let es ← entries strict "generation" ["anchor"] v
  text? "anchor" (es.lookup "anchor")

def styleOf (strict : Bool) (v : Value) : Except Fault Style := do
  let es ← entries strict "style" ["root_color", "couple_color", "font_size", "title"] v
  return {
    rootColor := ← text? "root_color" (es.lookup "root_color")
    coupleColor := ← text? "couple_color" (es.lookup "couple_color")
    fontSize := ← size? "font_size" (es.lookup "font_size")
    title := ← text? "title" (es.lookup "title") }

def ofValue (strict : Bool) (v : Value) : Except Fault Settings := do
  let es ← entries strict "settings" ["generation", "style"] v
  let anchor ←
    match es.lookup "generation" with
    | some g => anchorOf strict g
    | none => .ok none
  let style ←
    match es.lookup "style" with
    | some s => styleOf strict s
    | none => .ok {}
  return { anchor, style }

def parse (text : String) : Except Fault Settings :=
  match Toml.parse text with
  | .ok v => ofValue false v
  | .error fault => .error (.malformed fault)

end Settings
end Pedigree

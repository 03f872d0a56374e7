import Pedigree.Chronology

/-! The timeline of a family tree: a title, and then one line for each event of the chronology. A
banner opens each century, another each year that ends a decade. -/

namespace Pedigree

def FamilyTree.defaultTitle (t : FamilyTree) : String :=
  match t.root with
  | some root => s!"Family tree of {t.nameOf root}"
  | none => "Family tree"

def Event.text (t : FamilyTree) : Event → String
  | birth p => s!"Birth of {t.nameOf p}."
  | death p => s!"† Death of {t.nameOf p}."
  | marriage p q => s!"♥ Marriage of {t.nameOf p} and {t.nameOf q}."

namespace Timeline

/-- A line below the title. Of the events of a date the first stands after the date, the others
stand after dashes. -/
inductive Line (ε : Type) where
  | blank
  | century (n : Nat)
  | year (n : Nat)
  | dated (d : Date) (e : ε)
  | further (e : ε)
deriving DecidableEq, Repr

def Line.text {ε : Type} (describe : ε → String) : Line ε → String
  | blank => ""
  | century n => s!"########## Century {n} ##########"
  | year n => s!"========== {n} =========="
  | dated d e => s!"{d} : {describe e}"
  | further e => s!"------------ {describe e}"

structure Banners where
  centuries : List Nat := []
  years : List Nat := []
deriving DecidableEq, Repr

namespace Banners

def lines (b : Banners) (d : Date) : List (Line Event) :=
  let century := if d.century ∈ b.centuries then [] else [.blank, .century d.century, .blank]
  let year :=
    if d.year.toNat % 10 = 0 ∧ d.year.toNat ∉ b.years then
      [.blank, .year d.year.toNat, .blank]
    else []
  century ++ year

def add (b : Banners) (d : Date) : Banners where
  centuries := b.centuries.insert d.century
  years := if d.year.toNat % 10 = 0 then b.years.insert d.year.toNat else b.years

end Banners

def entries (d : Date) : List Event → List (Line Event)
  | [] => []
  | e :: es => .dated d e :: es.map .further

def lines : Banners → Chronology → List (Line Event)
  | _, [] => []
  | b, (d, es) :: rest => b.lines d ++ entries d es ++ lines (b.add d) rest

end Timeline

def FamilyTree.timeline (t : FamilyTree) (title : String) : String :=
  let lines := (Timeline.lines {} (.ofTree t)).map (Timeline.Line.text (Event.text t))
  String.join ((title :: lines).map (· ++ "\n"))

end Pedigree

import Pedigree.GenerationListing
import Pedigree.Proofs.Timelines

/-! Listings of generations read back. A line is a heading, with or without a number, or a name that
stands in by four blanks; names belong to the heading above them. Main statement: unless a name has
blanks, a listing tells which names stand under which generation, and which under none. -/

namespace Pedigree.GenerationListing

inductive Line where
  | generation (g : Nat)
  | unplaced
  | person (name : String)
  | blank
deriving DecidableEq, Repr

namespace Line

def words : Line → List String
  | generation g => ["Generation", g.repr ++ ":"]
  | unplaced => ["Without", "generation:"]
  | person name => ["", "", "", "", name]
  | blank => [""]

def text (l : Line) : String := " ".intercalate l.words

def name? : Line → Option String
  | person name => some name
  | _ => none

def numbered? (word : String) : Option Nat :=
  match word.toList.splitOn ':' with
  | [digits, []] => number? (String.ofList digits)
  | _ => none

def ofWords? : List String → Option Line
  | ["Generation", word] => (numbered? word).map generation
  | ["Without", "generation:"] => some unplaced
  | ["", "", "", "", name] => some (person name)
  | [""] => some blank
  | _ => none

def read? (line : List Char) : Option Line := ofWords? ((line.splitOn ' ').map String.ofList)

theorem numbered?_repr (n : Nat) : numbered? (n.repr ++ ":") = some n := by
  have hcolon : ':' ∉ n.repr.toList := by
    intro hmem
    exact absurd (isDigit_of_mem_repr hmem) (by decide)
  have hsplit : (n.repr ++ ":").toList.splitOn ':' = [n.repr.toList, []] := by
    have hchars : (n.repr ++ ":").toList = n.repr.toList ++ [':'] := String.toList_append
    rw [hchars, List.splitOn_append_cons_self_of_not_mem hcolon]
    rfl
  unfold numbered?
  rw [hsplit]
  dsimp only
  rw [String.ofList_toList, number?_repr]

theorem ofWords?_words (l : Line) : ofWords? l.words = some l := by
  cases l with
  | generation g =>
    rw [words, ofWords?, numbered?_repr]
    rfl
  | unplaced => rfl
  | person name => rfl
  | blank => rfl

theorem unparted_of_mem_words {l : Line} (h : ∀ name ∈ l.name?, Unparted name) :
    ∀ word ∈ l.words, Unparted word := by
  cases l with
  | generation g =>
    have hcolon : Unparted ":" := by decide
    simp only [words, List.forall_mem_cons]
    exact ⟨by decide, (unparted_repr g).append hcolon, by simp⟩
  | unplaced => decide
  | person name =>
    simp only [words, List.forall_mem_cons]
    exact ⟨by decide, by decide, by decide, by decide, h name rfl, by simp⟩
  | blank => decide

theorem read?_text {l : Line} (h : ∀ name ∈ l.name?, Unparted name) :
    read? l.text.toList = some l := by
  have hne : l.words ≠ [] := by
    cases l <;> simp [words]
  unfold read? text
  rw [Unparted.splitOn_intercalate (unparted_of_mem_words h) hne, ofWords?_words]

theorem newline_notMem_text {l : Line} (h : ∀ name ∈ l.name?, Unparted name) :
    '\n' ∉ l.text.toList :=
  Unparted.newline_notMem_intercalate (unparted_of_mem_words h)

end Line

structure Contents where
  front : List String := []
  groups : Grouping Nat String := []
  unplaced : List String := []
deriving DecidableEq, Repr

/-- Lines are taken from below. The heading without a number has to be the last one. -/
def contents? : List Line → Option Contents
  | [.blank] => some {}
  | .person name :: ls => (contents? ls).map fun c => { c with front := name :: c.front }
  | .generation g :: ls =>
    (contents? ls).map fun c => { c with front := [], groups := (g, c.front) :: c.groups }
  | .unplaced :: ls => do
    let c ← contents? ls
    if c.groups = [] ∧ c.unplaced = [] then some { unplaced := c.front } else none
  | _ => none

def read? (text : String) : Option (Grouping Nat String × List String) := do
  let ls ← (text.toList.splitOn '\n').mapM Line.read?
  let c ← contents? ls
  if c.front = [] then some (c.groups, c.unplaced) else none

def linesOf (groups : Grouping Nat String) (unplaced : List String) : List Line :=
  groups.flatMap (fun x => .generation x.1 :: x.2.map .person) ++
    if unplaced.isEmpty then [] else .unplaced :: unplaced.map .person

theorem contents?_persons {ls : List Line} {c : Contents} (h : contents? ls = some c)
    (names : List String) :
    contents? (names.map .person ++ ls) = some { c with front := names ++ c.front } := by
  induction names with
  | nil => exact h
  | cons name names ih =>
    rw [List.map_cons, List.cons_append, contents?, ih]
    rfl

theorem contents?_linesOf (groups : Grouping Nat String) (unplaced : List String) :
    contents? (linesOf groups unplaced ++ [.blank]) = some ⟨[], groups, unplaced⟩ := by
  unfold linesOf
  induction groups with
  | nil =>
    cases unplaced with
    | nil => rfl
    | cons name names =>
      have hblank : contents? [.blank] = some {} := rfl
      have hnames := contents?_persons hblank (name :: names)
      rw [List.append_nil] at hnames
      change contents? (.unplaced :: ((name :: names).map Line.person ++ [.blank])) = _
      rw [contents?, hnames]
      rfl
  | cons x groups ih =>
    obtain ⟨g, names⟩ := x
    have hnames := contents?_persons ih names
    rw [List.append_nil] at hnames
    rw [List.flatMap_cons, List.append_assoc, List.append_assoc, List.cons_append, contents?,
      ← List.append_assoc (List.flatMap _ groups), hnames]
    rfl

theorem filterMap_name?_linesOf (groups : Grouping Nat String) (unplaced : List String) :
    (linesOf groups unplaced).filterMap Line.name? = groups.flatMap (·.2) ++ unplaced := by
  have hpersons (names : List String) : (names.map Line.person).filterMap Line.name? = names := by
    rw [List.filterMap_map]
    exact List.filterMap_some
  unfold linesOf
  rw [List.filterMap_append, List.filterMap_flatMap]
  congr 1
  · simp only [List.filterMap_cons, Line.name?, hpersons]
  · cases unplaced with
    | nil => rfl
    | cons name names => exact hpersons (name :: names)

theorem read?_linesOf {groups : Grouping Nat String} {unplaced : List String}
    (h : ∀ name ∈ groups.flatMap (·.2) ++ unplaced, Unparted name) :
    read? (String.join (((linesOf groups unplaced).map Line.text).map (· ++ "\n"))) =
      some (groups, unplaced) := by
  have hnames : ∀ l ∈ linesOf groups unplaced, ∀ name ∈ l.name?, Unparted name := by
    intro l hl name hname
    rw [← filterMap_name?_linesOf] at h
    exact h name (List.mem_filterMap.mpr ⟨l, hl, hname⟩)
  have hlast : Line.read? [] = some .blank := rfl
  have hread := Timeline.mapM_splitOn_join (fun l hl => Line.newline_notMem_text (hnames l hl))
    (fun l hl => Line.read?_text (hnames l hl)) hlast
  unfold read?
  rw [hread, List.map_id']
  change ((contents? (linesOf groups unplaced ++ [.blank])).bind _) = _
  rw [contents?_linesOf]
  rfl

variable (t : FamilyTree)

theorem underHeading_eq (l : Line) (members : List PersonId) :
    underHeading t l.text members = (l :: (members.map t.nameOf).map .person).map Line.text := by
  have hperson (name : String) : "    " ++ name = (Line.person name).text := by
    apply String.toList_injective
    unfold Line.text
    rw [String.toList_intercalate]
    simp [Line.words]
  unfold underHeading
  simp only [hperson, List.map_cons, List.map_map, Function.comp_def]

theorem lines_eq :
    lines t = (linesOf (t.generationGroups.map fun x => (x.1, x.2.map t.nameOf))
      (t.unplaced.map t.nameOf)).map Line.text := by
  have hgeneration (g : Nat) : s!"Generation {g}:" = (Line.generation g).text := by
    apply String.toList_injective
    unfold Line.text
    rw [String.toList_intercalate]
    change ("Generation " ++ g.repr ++ ":").toList = _
    simp [Line.words]
  have hunplaced : "Without generation:" = Line.unplaced.text := by decide
  unfold lines linesOf
  simp only [hgeneration, hunplaced, underHeading_eq]
  rw [List.map_append, List.map_flatMap, List.flatMap_map, List.isEmpty_map, apply_ite (List.map _)]
  rfl

end Pedigree.GenerationListing

import Mathlib.Data.String.Basic
import Pedigree.Diagram.Statements
import Pedigree.Proofs.Dates
import Pedigree.Proofs.Graphs
import Pedigree.Proofs.Observers

/-! Diagrams of the statements of a source, and what the keys of their nodes tell. A key is a word
of letters with at most one date behind it. Main statement: a key tells what its node stands for,
but for a person whose name begins like the key of a wedding or a family, and but for links whose
names run together into the same letters. -/

namespace Pedigree.Diagram

open Dot Source

/-- What a node stands for: the whole tree, a person where it is declared, married or put into a
family, a marriage, or a familial link. -/
inductive Depiction where
  | whole
  | declared (name : String) (birth : Date)
  | weddingSide (name : String) (birth : Date)
  | familySide (name : String) (birth : Date)
  | marriage (left right : String) (wedding : Option Date)
  | familialLink (parent child : String)
deriving DecidableEq, Repr

namespace Depiction

def word : Depiction → String
  | whole => "family_tree"
  | declared name _ => name
  | weddingSide name _ => "wedd" ++ name
  | familySide name _ => "fam" ++ name
  | marriage left right _ => "marriage" ++ left ++ right
  | familialLink parent child => "familial" ++ parent ++ child

def day? : Depiction → Option Date
  | declared _ birth | weddingSide _ birth | familySide _ birth => some birth
  | marriage _ _ wedding => wedding
  | whole | familialLink _ _ => none

def key (d : Depiction) : String := d.word ++ (d.day?.map Date.text).getD ""

def names : Depiction → List String
  | whole => []
  | declared name _ | weddingSide name _ | familySide name _ => [name]
  | marriage left right _ => [left, right]
  | familialLink parent child => [parent, child]

/-- Different things with the same key. -/
def Clash : Depiction → Depiction → Prop
  | declared name birth, weddingSide other birth' => name = "wedd" ++ other ∧ birth = birth'
  | declared name birth, familySide other birth' => name = "fam" ++ other ∧ birth = birth'
  | declared name birth, marriage left right wedding =>
    name = "marriage" ++ left ++ right ∧ some birth = wedding
  | marriage left right wedding, marriage left' right' wedding' =>
    left ++ right = left' ++ right' ∧ wedding = wedding' ∧ left ≠ left'
  | familialLink parent child, familialLink parent' child' =>
    parent ++ child = parent' ++ child' ∧ parent ≠ parent'
  | _, _ => False

variable {x y : Depiction}

theorem append_eq_append_iff_or {a b a' b' : String} :
    a ++ b = a' ++ b' ↔ a = a' ∧ b = b' ∨ a ++ b = a' ++ b' ∧ a ≠ a' := by
  constructor
  · intro h
    by_cases ha : a = a'
    · subst ha
      exact Or.inl ⟨rfl, (String.append_right_inj a).mp h⟩
    · exact Or.inr ⟨h, ha⟩
  · intro h
    rcases h with ⟨rfl, rfl⟩ | ⟨h, -⟩
    · rfl
    · exact h

theorem same_iff : x.word = y.word ∧ x.day? = y.day? ↔ x = y ∨ x.Clash y ∨ y.Clash x := by
  cases x with
  | marriage left right wedding =>
    cases y with
    | marriage left' right' wedding' =>
      have hruns : left ++ right = left' ++ right' ↔ left = left' ∧ right = right' ∨
          left ++ right = left' ++ right' ∧ left ≠ left' := append_eq_append_iff_or
      simp only [word, day?, Clash, String.append_assoc, String.append_right_inj, marriage.injEq]
      grind
    | _ => simp [word, day?, Clash, ← String.toList_inj, eq_comm]
  | familialLink parent child =>
    cases y with
    | familialLink parent' child' =>
      have hruns : parent ++ child = parent' ++ child' ↔ parent = parent' ∧ child = child' ∨
          parent ++ child = parent' ++ child' ∧ parent ≠ parent' := append_eq_append_iff_or
      simp only [word, day?, Clash, String.append_assoc, String.append_right_inj,
        familialLink.injEq]
      grind
    | _ => simp [word, day?, Clash, ← String.toList_inj]
  | _ => cases y <;> simp [word, day?, Clash, ← String.toList_inj, eq_comm]

def inWord (c : Char) : Bool := c.isAlpha || c = '_'

theorem inWord_append {s s' : String} (hs : ∀ c ∈ s.toList, inWord c = true)
    (hs' : ∀ c ∈ s'.toList, inWord c = true) : ∀ c ∈ (s ++ s').toList, inWord c = true := by
  intro c hc
  rw [String.toList_append] at hc
  rcases List.mem_append.mp hc with hc | hc
  · exact hs c hc
  · exact hs' c hc

theorem inWord_word (h : ∀ name ∈ x.names, (Token.name name).IsLexeme) :
    ∀ c ∈ x.word.toList, inWord c = true := by
  have hname {name : String} (hx : name ∈ x.names) : ∀ c ∈ name.toList, inWord c = true := by
    intro c hc
    unfold inWord
    rw [(h name hx).2 c hc]
    rfl
  cases x with
  | whole => simp [word, inWord]
  | declared name birth => exact hname List.mem_cons_self
  | weddingSide name birth => exact inWord_append (by simp [inWord]) (hname List.mem_cons_self)
  | familySide name birth => exact inWord_append (by simp [inWord]) (hname List.mem_cons_self)
  | marriage left right wedding =>
    have hleft := inWord_append (s := "marriage") (by simp [inWord]) (hname List.mem_cons_self)
    exact inWord_append hleft (hname (List.mem_cons_of_mem left List.mem_cons_self))
  | familialLink parent child =>
    have hparent := inWord_append (s := "familial") (by simp [inWord]) (hname List.mem_cons_self)
    exact inWord_append hparent (hname (List.mem_cons_of_mem parent List.mem_cons_self))

theorem not_inWord_of_isDigit {c : Char} (h : c.isDigit = true) : inWord c = false := by
  unfold inWord
  have hletter : c.isAlpha = false := by
    by_contra hc
    exact isDigit_ne_true_of_isAlpha (eq_true_of_ne_false hc) h
  have hunderscore : c ≠ '_' := by
    intro e
    rw [e] at h
    exact absurd h (by decide)
  rw [hletter, decide_eq_false hunderscore]
  rfl

def dateChars (day : Option Date) : List Char := (day.map Date.chars).getD []

theorem not_inWord_dateChars (day : Option Date) :
    ∀ c ∈ (dateChars day).head?, inWord c = false := by
  intro c hc
  cases day with
  | none => cases hc
  | some d =>
    obtain ⟨c', cs, hd, hdigit⟩ := d.exists_chars_eq_cons
    have hhead : (dateChars (some d)).head? = some c' := congrArg List.head? hd
    obtain rfl := Option.some.inj (hhead.symm.trans hc)
    exact not_inWord_of_isDigit hdigit

theorem dateChars_injective : Function.Injective dateChars := by
  intro d e h
  cases d with
  | none =>
    cases e with
    | none => rfl
    | some e =>
      obtain ⟨c, cs, he, -⟩ := e.exists_chars_eq_cons
      exact absurd (h.trans he) (List.cons_ne_nil c cs).symm
  | some d =>
    cases e with
    | none =>
      obtain ⟨c, cs, hd, -⟩ := d.exists_chars_eq_cons
      exact absurd (h.symm.trans hd) (List.cons_ne_nil c cs).symm
    | some e => exact congrArg some (Date.chars_injective h)

theorem toList_key (d : Depiction) : d.key.toList = d.word.toList ++ dateChars d.day? := by
  unfold key
  rw [String.toList_append]
  cases d.day? with
  | none => rfl
  | some day => exact congrArg _ String.toList_ofList

theorem key_eq_iff (hx : ∀ name ∈ x.names, (Token.name name).IsLexeme)
    (hy : ∀ name ∈ y.names, (Token.name name).IsLexeme) :
    x.key = y.key ↔ x.word = y.word ∧ x.day? = y.day? := by
  constructor
  · intro h
    have hchars : x.key.toList = y.key.toList := congrArg String.toList h
    rw [toList_key, toList_key] at hchars
    obtain ⟨hword, hdate⟩ := run_append_inj (inWord_word hx) (not_inWord_dateChars x.day?)
      (inWord_word hy) (not_inWord_dateChars y.day?) hchars
    exact ⟨String.toList_injective hword, dateChars_injective hdate⟩
  · intro h
    unfold key
    rw [h.1, h.2]

end Depiction

def depicted : Notice → List Depiction
  | .declaration name birth _ _ => [.declared name birth]
  | .maritalLink left leftBirth right rightBirth wedding =>
    [.marriage left right wedding, .weddingSide left leftBirth, .weddingSide right rightBirth]
  | .familialLink parent parentBirth child childBirth =>
    [.familialLink parent child, .familySide parent parentBirth, .familySide child childBirth]

def depictions (source : String) : List Depiction := .whole :: (heard source).flatMap depicted

theorem nodeIds_items (n : Notice) :
    (Outline.items n).filterMap Item.nodeId? = (depicted n).map fun d => quoted d.key := by
  cases n with
  | declaration name birth death isRoot => rfl
  | maritalLink left leftBirth right rightBirth wedding => rfl
  | familialLink parent parentBirth child childBirth =>
    have hkey : (Depiction.familialLink parent child).key = "familial" ++ parent ++ child :=
      String.append_empty
    simp only [depicted, List.map_cons, hkey]
    rfl

theorem hear_outline (o : Outline) (ns : List Notice) :
    hear Outline.hear o ns = o ++ ns.flatMap Outline.items := by
  unfold hear
  induction ns generalizing o with
  | nil => exact (List.append_nil o).symm
  | cons n ns ih =>
    rw [List.foldl_cons, ih, List.flatMap_cons, ← List.append_assoc]
    rfl

theorem nodeIds_outline (source : String) :
    (Outline.graph (readWith Outline.hear Outline.start source).1).nodeIds =
      (depictions source).map fun d => quoted d.key := by
  rw [observer_readWith, hear_outline]
  unfold Graph.nodeIds Outline.graph depictions
  rw [List.filterMap_append, List.filterMap_flatMap, List.map_cons, List.map_flatMap]
  simp only [nodeIds_items]
  rfl

theorem names_of_mem_depicted {n : Notice} {d : Depiction} (h : d ∈ depicted n) :
    ∀ name ∈ d.names, name ∈ n.names := by
  cases n with
  | declaration name birth death isRoot =>
    obtain rfl := List.mem_singleton.mp h
    exact fun _ => id
  | maritalLink left leftBirth right rightBirth wedding =>
    simp only [depicted, List.mem_cons, List.not_mem_nil, or_false] at h
    rcases h with rfl | rfl | rfl <;> simp [Depiction.names, Notice.names]
  | familialLink parent parentBirth child childBirth =>
    simp only [depicted, List.mem_cons, List.not_mem_nil, or_false] at h
    rcases h with rfl | rfl | rfl <;> simp [Depiction.names, Notice.names]

theorem isLexeme_of_mem_depictions {source : String} {d : Depiction} (h : d ∈ depictions source) :
    ∀ name ∈ d.names, (Token.name name).IsLexeme := by
  intro name hname
  rcases List.mem_cons.mp h with rfl | hmem
  · exact absurd hname List.not_mem_nil
  · obtain ⟨n, hn, hd⟩ := List.mem_flatMap.mp hmem
    exact isLexeme_of_mem_heard hn (names_of_mem_depicted hd name hname)

/-- The nodes of the diagram of a source are what its declarations and links depict. Nodes with one
id stand for one thing, or they clash: the name of a person begins with the mark of another key, or
the names of two links run together into the same letters. -/
theorem outline_ids_equal_iff_same_or_clash (source : String) :
    (Outline.graph (readWith Outline.hear Outline.start source).1).nodeIds =
      (depictions source).map (fun d => quoted d.key) ∧
    ∀ x ∈ depictions source, ∀ y ∈ depictions source,
      (quoted x.key = quoted y.key ↔ x = y ∨ x.Clash y ∨ y.Clash x) := by
  refine ⟨nodeIds_outline source, ?_⟩
  intro x hx y hy
  rw [quoted_injective.eq_iff, ← Depiction.same_iff]
  exact Depiction.key_eq_iff (isLexeme_of_mem_depictions hx) (isLexeme_of_mem_depictions hy)

def runTogether : String :=
  "family_tree\x7bA(1/1/1900-);AB(1/1/1900-);BC(1/1/1900-);C(1/1/1900-);weddA(1/1/1900-);" ++
    "A<=>BC;AB<=>C;\x7d"

theorem depictions_runTogether :
    depictions runTogether =
      [.whole, .declared "A" ⟨1900, 1, 1⟩, .declared "AB" ⟨1900, 1, 1⟩,
        .declared "BC" ⟨1900, 1, 1⟩, .declared "C" ⟨1900, 1, 1⟩, .declared "weddA" ⟨1900, 1, 1⟩,
        .marriage "A" "BC" none, .weddingSide "A" ⟨1900, 1, 1⟩, .weddingSide "BC" ⟨1900, 1, 1⟩,
        .marriage "AB" "C" none, .weddingSide "AB" ⟨1900, 1, 1⟩,
        .weddingSide "C" ⟨1900, 1, 1⟩] := by
  decide +kernel

theorem marriages_of_runTogether_share_an_id :
    (readWith Outline.hear Outline.start runTogether).2.isOk = true ∧
      Depiction.marriage "A" "BC" none ∈ depictions runTogether ∧
      Depiction.marriage "AB" "C" none ∈ depictions runTogether ∧
      Depiction.marriage "A" "BC" none ≠ .marriage "AB" "C" none ∧
      quoted (Depiction.marriage "A" "BC" none).key =
        quoted (Depiction.marriage "AB" "C" none).key ∧
      (Outline.graph (readWith Outline.hear Outline.start runTogether).1).nodeIds.count
        (quoted "marriageABC") = 2 := by
  rw [nodeIds_outline, depictions_runTogether]
  decide +kernel

theorem ids_of_runTogether :
    Depiction.declared "weddA" ⟨1900, 1, 1⟩ ∈ depictions runTogether ∧
      Depiction.weddingSide "A" ⟨1900, 1, 1⟩ ∈ depictions runTogether ∧
      Depiction.weddingSide "AB" ⟨1900, 1, 1⟩ ∈ depictions runTogether ∧
      quoted (Depiction.declared "weddA" ⟨1900, 1, 1⟩).key =
        quoted (Depiction.weddingSide "A" ⟨1900, 1, 1⟩).key ∧
      quoted (Depiction.declared "weddA" ⟨1900, 1, 1⟩).key ≠
        quoted (Depiction.weddingSide "AB" ⟨1900, 1, 1⟩).key := by
  have hdeclared : Depiction.declared "weddA" ⟨1900, 1, 1⟩ ∈ depictions runTogether := by
    rw [depictions_runTogether]
    decide
  have hside : Depiction.weddingSide "A" ⟨1900, 1, 1⟩ ∈ depictions runTogether := by
    rw [depictions_runTogether]
    decide
  have hother : Depiction.weddingSide "AB" ⟨1900, 1, 1⟩ ∈ depictions runTogether := by
    rw [depictions_runTogether]
    decide
  have hids := (outline_ids_equal_iff_same_or_clash runTogether).2 _ hdeclared
  refine ⟨hdeclared, hside, hother, (hids _ hside).mpr ?_, ?_⟩
  · exact Or.inr (Or.inl ⟨rfl, rfl⟩)
  · intro h
    rcases (hids _ hother).mp h with heq | hclash | hclash
    · cases heq
    · exact absurd hclash.1 (by decide)
    · exact hclash

end Pedigree.Diagram

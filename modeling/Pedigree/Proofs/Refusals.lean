import Mathlib.Data.Finset.Card
import Pedigree.Proofs.Edits
import Pedigree.Proofs.Parentage
import Pedigree.Proofs.Registers

/-! Refused changes. Main statement: a tree refuses a declaration of a name that was declared
before, a link of a person to itself and a link that would give a child more than two parents, and
nothing else; and every refusal comes before the first write. -/

namespace Pedigree

namespace FamilyTree

theorem Recorded.length_foldl_addOnce {T : List (FamilyTree × Change)} {t : FamilyTree}
    (r : Recorded T t) (c : PersonId) (ps : List PersonId) :
    (ps.foldl addOnce (t.parentsOf c)).length = (t.parentsOf c ++ ps).toFinset.card := by
  have hdups : ps.foldl addOnce (t.parentsOf c) = (parentRecord c T ++ ps).eraseDups := by
    rw [r.parentsOf_eq c, foldl_addOnce_eraseDups]
  have hset : (ps.foldl addOnce (t.parentsOf c)).toFinset = (t.parentsOf c ++ ps).toFinset := by
    ext p
    rw [hdups, r.parentsOf_eq c]
    simp only [List.mem_toFinset, List.mem_eraseDups, List.mem_append]
  rw [← hset, List.toFinset_card_of_nodup (hdups ▸ nodup_eraseDups _)]

theorem find?_ofHistory_isSome_iff {cs : List Change} (h : Fitting cs) {name : String} :
    ((ofHistory cs).find? name).isSome ↔
      ∃ birth death, .declare name birth death ∈ accepted cs := by
  have hnames : (ofHistory cs).register.map (·.2.1) =
      ((accepted cs).filterMap Change.declared?).map Prod.fst := by
    rw [accepted, List.filterMap_map]
    exact List.map_map.symm.trans (congrArg (List.map Prod.fst) (register_ofHistory h))
  have hmem : name ∈ ((accepted cs).filterMap Change.declared?).map Prod.fst ↔
      ∃ birth death, .declare name birth death ∈ accepted cs := by
    rw [List.mem_map]
    constructor
    · rintro ⟨⟨_, birth, death⟩, hx, rfl⟩
      obtain ⟨c, hc, hd⟩ := List.mem_filterMap.mp hx
      cases c with
      | declare name' birth' death' =>
        cases hd
        exact ⟨birth, death, hc⟩
      | _ => cases hd
    · rintro ⟨birth, death, hc⟩
      exact ⟨(name, birth, death), List.mem_filterMap.mpr ⟨_, hc, rfl⟩, rfl⟩
  rw [← hmem, ← hnames, Option.isSome_iff_ne_none, Ne, find?_eq_none_iff, not_not]

/-- A declaration is refused if its name was declared before, a link if it is one of a person to
itself, and a familial link also if the parents of the child, the person and the spouse of that
person are more than two. Nothing else is refused. A change that is carried out in place and is
refused leaves the tree as it met it, and one that is not refused ends as it does all at once. -/
theorem refused_iff_and_refusal_keeps_tree {cs : List Change} (h : Fitting cs) :
    (∀ name birth death r, (ofHistory cs).declare name birth death = .error r ↔
      r = .alreadyDeclared name ∧ ∃ b d, .declare name b d ∈ accepted cs) ∧
    (∀ a b date r, (ofHistory cs).linkSpouses a b date = .error r ↔
      a = b ∧ r = .selfLink ((ofHistory cs).nameOf a)) ∧
    (∀ p c r, (ofHistory cs).linkChild p c = .error r ↔
      p = c ∧ r = .selfLink ((ofHistory cs).nameOf p) ∨
      p ≠ c ∧ r = .tooManyParents ((ofHistory cs).nameOf c) ∧
        2 < ((ofHistory cs).parentsOf c ++
          p :: ((ofHistory cs).spouseOf p).toList).toFinset.card) ∧
    (∀ c r, (ofHistory cs).tryChange c = .error r →
      c.edit.carryOut (ofHistory cs) = (.error r, ofHistory cs)) ∧
    ∀ c t, (ofHistory cs).tryChange c = .ok t →
      c.edit.carryOut (ofHistory cs) = (.ok (), t) := by
  refine ⟨fun name birth death r => ?_, fun a b date r => linkSpouses_eq_error,
    fun p c r => ?_, fun c r hr => ?_, fun c t ht => ?_⟩
  · rw [declare_eq_error, find?_ofHistory_isSome_iff h, and_comm]
  · rw [linkChild_eq_error, (recorded_ofHistory h).length_foldl_addOnce, guardians,
      and_comm (a := 2 < _)]
  · rw [Edit.carryOut_edit, hr, change_of_error hr]
    rfl
  · rw [Edit.carryOut_edit, ht, change_of_ok ht]
    rfl

def adoption : List Change :=
  [.declare "Anne" ⟨1900, 1, 1⟩ none, .declare "Bruno" ⟨1900, 1, 1⟩ none,
    .declare "Clara" ⟨1900, 1, 1⟩ none, .declare "Dora" ⟨1930, 1, 1⟩ none,
    .linkSpouses 0 1 none, .linkChild 0 3, .declare "Anne" ⟨1950, 1, 1⟩ none, .linkChild 2 3]

theorem refused_of_adoption :
    Fitting adoption ∧
      (ofHistory adoption).declare "Clara" ⟨1960, 1, 1⟩ none = .error (.alreadyDeclared "Clara") ∧
      (ofHistory adoption).linkChild 2 3 = .error (.tooManyParents "Dora") ∧
      (Change.linkChild 2 3).edit.carryOut (ofHistory adoption) =
        (.error (.tooManyParents "Dora"), ofHistory adoption) := by
  have fit : Fitting adoption := by decide
  obtain ⟨hdeclare, -, hchild, hkeep, -⟩ := refused_iff_and_refusal_keeps_tree fit
  have hmany : (ofHistory adoption).linkChild 2 3 = .error (.tooManyParents "Dora") :=
    (hchild 2 3 _).mpr (Or.inr ⟨by decide, by decide, by decide⟩)
  refine ⟨fit, (hdeclare _ _ _ _).mpr ⟨rfl, ⟨1900, 1, 1⟩, none, by decide⟩, hmany, ?_⟩
  exact hkeep (.linkChild 2 3) _ hmany

end FamilyTree
end Pedigree

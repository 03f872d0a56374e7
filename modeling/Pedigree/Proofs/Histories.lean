import Mathlib.Data.List.Induction
import Pedigree.Proofs.Operations

/-! Histories in which every change speaks of persons who are declared by then, and the changes of
a history that the tree took. What a successful change preserves holds at the end of every such
history, since refused changes leave neither a record nor a trace. -/

namespace Pedigree

def Change.Fits (t : FamilyTree) : Change → Prop
  | .declare _ _ _ => True
  | .linkSpouses a b _ => a < t.size ∧ b < t.size
  | .linkChild parent child => parent < t.size ∧ child < t.size
  | .assignGenerations anchor => anchor < t.size

instance (t : FamilyTree) (c : Change) : Decidable (c.Fits t) := by
  cases c <;> unfold Change.Fits <;> infer_instance

namespace FamilyTree

def FitsFrom : FamilyTree → List Change → Prop
  | _, [] => True
  | t, c :: cs => c.Fits t ∧ FitsFrom (t.change c) cs

instance : ∀ (t : FamilyTree) (cs : List Change), Decidable (FitsFrom t cs)
  | _, [] => isTrue trivial
  | t, c :: cs =>
    have := instDecidableFitsFrom (t.change c) cs
    inferInstanceAs (Decidable (c.Fits t ∧ FitsFrom (t.change c) cs))

/-- Every change of a history speaks of persons who are declared by then. -/
abbrev Fitting (cs : List Change) : Prop := FitsFrom empty cs

def takenFrom : FamilyTree → List Change → List (FamilyTree × Change)
  | _, [] => []
  | t, c :: cs =>
    match t.tryChange c with
    | .ok t' => (t, c) :: takenFrom t' cs
    | .error _ => takenFrom t cs

/-- The successful changes of a history in order, each with the tree that it met. -/
def taken (cs : List Change) : List (FamilyTree × Change) := takenFrom empty cs

variable {t t' : FamilyTree}

theorem change_of_ok {c : Change} (h : t.tryChange c = .ok t') : t.change c = t' := by
  rw [change, h]

theorem change_of_error {c : Change} {r : Refusal} (h : t.tryChange c = .error r) :
    t.change c = t := by
  rw [change, h]

theorem ofHistory_concat (cs : List Change) (c : Change) :
    ofHistory (cs ++ [c]) = (ofHistory cs).change c := by
  rw [ofHistory, List.foldl_append]
  rfl

theorem fitsFrom_concat (t : FamilyTree) (cs : List Change) (c : Change) :
    FitsFrom t (cs ++ [c]) ↔ FitsFrom t cs ∧ c.Fits (cs.foldl change t) := by
  induction cs generalizing t with
  | nil => exact ⟨fun h => ⟨trivial, h.1⟩, fun h => ⟨h.2, trivial⟩⟩
  | cons d ds ih => rw [List.cons_append, FitsFrom, ih, FitsFrom, List.foldl_cons, and_assoc]

theorem takenFrom_cons_of_ok {c : Change} (h : t.tryChange c = .ok t') (cs : List Change) :
    takenFrom t (c :: cs) = (t, c) :: takenFrom t' cs := by
  rw [takenFrom]
  simp only [h]

theorem takenFrom_cons_of_error {c : Change} {r : Refusal} (h : t.tryChange c = .error r)
    (cs : List Change) : takenFrom t (c :: cs) = takenFrom t cs := by
  rw [takenFrom]
  simp only [h]

theorem takenFrom_append (t : FamilyTree) (cs ds : List Change) :
    takenFrom t (cs ++ ds) = takenFrom t cs ++ takenFrom (cs.foldl change t) ds := by
  induction cs generalizing t with
  | nil => rfl
  | cons c cs ih =>
    rw [List.cons_append, List.foldl_cons]
    cases h : t.tryChange c with
    | ok t' =>
      rw [takenFrom_cons_of_ok h, takenFrom_cons_of_ok h, ih, change_of_ok h, List.cons_append]
    | error r =>
      rw [takenFrom_cons_of_error h, takenFrom_cons_of_error h, ih, change_of_error h]

theorem taken_concat_of_ok {cs : List Change} {c : Change}
    (h : (ofHistory cs).tryChange c = .ok t') :
    taken (cs ++ [c]) = taken cs ++ [(ofHistory cs, c)] := by
  have hc : takenFrom (ofHistory cs) [c] = [(ofHistory cs, c)] := takenFrom_cons_of_ok h []
  rw [taken, takenFrom_append, ← hc]
  rfl

theorem taken_concat_of_error {cs : List Change} {c : Change} {r : Refusal}
    (h : (ofHistory cs).tryChange c = .error r) : taken (cs ++ [c]) = taken cs := by
  have hc : takenFrom (ofHistory cs) [c] = [] := takenFrom_cons_of_error h []
  rw [taken, takenFrom_append]
  exact (congrArg _ hc).trans (List.append_nil _)

theorem mem_taken {cs : List Change} {c : Change} :
    (t, c) ∈ taken cs ↔
      ∃ before after, cs = before ++ c :: after ∧ t = ofHistory before ∧
        ∃ t', t.tryChange c = .ok t' := by
  have hsplit (before after : List Change) :
      taken (before ++ c :: after) =
        taken before ++ takenFrom (ofHistory before) (c :: after) := takenFrom_append ..
  constructor
  · intro h
    induction cs using List.reverseRecOn with
    | nil => exact absurd h List.not_mem_nil
    | append_singleton cs d ih =>
      have hold (h : (t, c) ∈ taken cs) : ∃ before after, cs ++ [d] = before ++ c :: after ∧
          t = ofHistory before ∧ ∃ t', t.tryChange c = .ok t' := by
        obtain ⟨before, after, rfl, ht⟩ := ih h
        exact ⟨before, after ++ [d], by simp, ht⟩
      cases hd : (ofHistory cs).tryChange d with
      | error r => exact hold (taken_concat_of_error hd ▸ h)
      | ok t' =>
        rw [taken_concat_of_ok hd, List.mem_append, List.mem_singleton] at h
        rcases h with h | h
        · exact hold h
        · obtain ⟨rfl, rfl⟩ := Prod.mk.inj h
          exact ⟨cs, [], rfl, rfl, t', hd⟩
  · rintro ⟨before, after, rfl, rfl, t', ht⟩
    rw [hsplit, takenFrom_cons_of_ok ht]
    exact List.mem_append_right _ List.mem_cons_self

/-- What holds of the empty tree and is preserved by every successful change holds at the end of a
history, together with the record of what was taken. -/
theorem history_induction {motive : List (FamilyTree × Change) → FamilyTree → Prop}
    (nil : motive [] empty)
    (concat : ∀ T t c t', motive T t → c.Fits t → t.tryChange c = .ok t' →
      motive (T ++ [(t, c)]) t')
    {cs : List Change} (h : Fitting cs) : motive (taken cs) (ofHistory cs) := by
  induction cs using List.reverseRecOn with
  | nil => exact nil
  | append_singleton cs c ih =>
    obtain ⟨hcs, hc⟩ := (fitsFrom_concat empty cs c).mp h
    rw [ofHistory_concat]
    cases ht : (ofHistory cs).tryChange c with
    | ok t' =>
      rw [taken_concat_of_ok ht, change_of_ok ht]
      exact concat _ _ _ _ (ih hcs) hc ht
    -- A refused change leaves the tree and the record as they were.
    | error r =>
      rw [taken_concat_of_error ht, change_of_error ht]
      exact ih hcs

theorem tryChange_declare {name : String} {birth : Date} {death : Option Date} :
    t.tryChange (.declare name birth death) = .ok t' ↔
      ∃ id, t.declare name birth death = .ok (id, t') := by
  change (t.declare name birth death).map Prod.snd = .ok t' ↔ _
  cases t.declare name birth death with
  | error r => simp [Except.map]
  | ok r =>
    obtain ⟨id, u⟩ := r
    simp [Except.map]

theorem tryChange_declare_eq_error {name : String} {birth : Date} {death : Option Date}
    {r : Refusal} :
    t.tryChange (.declare name birth death) = .error r ↔ t.declare name birth death = .error r := by
  change (t.declare name birth death).map Prod.snd = .error r ↔ _
  cases t.declare name birth death <;> simp [Except.map]

end FamilyTree
end Pedigree

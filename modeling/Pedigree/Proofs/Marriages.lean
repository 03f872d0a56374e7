import Pedigree.Proofs.Histories

/-! Marriages over a history. Spouses mirror each other with their wedding date in every tree that a
history reaches. Main statement: who is married to whom, and since which date, is decided by the
marital links that the tree took. -/

namespace Pedigree

namespace Change

def Joins (a b : PersonId) : Change → Prop
  | .linkSpouses x y _ => x = a ∧ y = b ∨ x = b ∧ y = a
  | _ => False

def Parts (a b : PersonId) : Change → Prop
  | .linkSpouses x y _ => ¬((x = a ∨ y = a) ↔ (x = b ∨ y = b))
  | _ => False

def wedding? : Change → Option Date
  | .linkSpouses _ _ date => date
  | _ => none

theorem not_parts_of_joins {a b : PersonId} {c : Change} (h : c.Joins a b) : ¬c.Parts a b := by
  cases c with
  | linkSpouses x y date =>
    simp only [Parts, not_not]
    rcases h with ⟨rfl, rfl⟩ | ⟨rfl, rfl⟩
    · exact ⟨fun _ => Or.inr rfl, fun _ => Or.inl rfl⟩
    · exact ⟨fun _ => Or.inl rfl, fun _ => Or.inr rfl⟩
  | _ => exact absurd h id

end Change

/-- Some entry of a list is of one kind, and all behind it are of another. -/
def Since {α : Type} (P Q : α → Prop) (l : List α) : Prop :=
  ∃ before x after, l = before ++ x :: after ∧ P x ∧ ∀ y ∈ after, Q y

theorem not_since_nil {α : Type} {P Q : α → Prop} : ¬Since P Q [] := by
  rintro ⟨before, x, after, h, -⟩
  exact absurd h.symm (List.append_ne_nil_of_right_ne_nil _ (List.cons_ne_nil x after))

theorem since_concat {α : Type} {P Q : α → Prop} {l : List α} {x : α} :
    Since P Q (l ++ [x]) ↔ P x ∨ Since P Q l ∧ Q x := by
  constructor
  · rintro ⟨before, y, after, h, hy, hafter⟩
    rcases List.eq_nil_or_concat after with rfl | ⟨after, z, rfl⟩
    · obtain ⟨rfl, hxy⟩ := List.append_inj' h rfl
      obtain rfl := List.singleton_inj.mp hxy
      exact Or.inl hy
    · rw [List.concat_eq_append, ← List.cons_append, ← List.append_assoc] at h
      obtain ⟨rfl, hxz⟩ := List.append_inj' h rfl
      obtain rfl := List.singleton_inj.mp hxz
      rw [List.concat_eq_append] at hafter
      refine Or.inr ⟨⟨before, y, after, rfl, hy, fun w hw => hafter w ?_⟩, hafter x ?_⟩
      · exact List.mem_append_left _ hw
      · exact List.mem_append_right _ List.mem_cons_self
  · rintro (hx | ⟨⟨before, y, after, rfl, hy, hafter⟩, hx⟩)
    · exact ⟨l, x, [], rfl, hx, fun _ h => absurd h List.not_mem_nil⟩
    · refine ⟨before, y, after ++ [x], by simp, hy, fun w hw => ?_⟩
      rcases List.mem_append.mp hw with hw | hw
      · exact hafter w hw
      · exact List.mem_singleton.mp hw ▸ hx

theorem Since.mono {α : Type} {P P' Q Q' : α → Prop} {l : List α} (hP : ∀ x, P x → P' x)
    (hQ : ∀ x, Q x → Q' x) : Since P Q l → Since P' Q' l := by
  rintro ⟨before, x, after, rfl, hx, hafter⟩
  exact ⟨before, x, after, rfl, hP x hx, fun y hy => hQ y (hafter y hy)⟩

namespace FamilyTree

/-- The successful changes of a history, in order. -/
def accepted (cs : List Change) : List Change := (taken cs).map Prod.snd

variable {t t' : FamilyTree}

theorem tryChange_marital {c : Change} (h : t.tryChange c = .ok t') :
    (∃ a b date, c = .linkSpouses a b date ∧ t.linkSpouses a b date = .ok t') ∨
      (∀ a b, ¬c.Joins a b ∧ ¬c.Parts a b) ∧
        ∀ i, t'.spouseOf i = t.spouseOf i ∧ t'.weddingOf i = t.weddingOf i := by
  simp only [spouseOf_eq_look, weddingOf_eq_look]
  cases c with
  | declare name birth death =>
    obtain ⟨_, h⟩ := tryChange_declare.mp h
    exact Or.inr ⟨fun _ _ => ⟨id, id⟩, fun i => ⟨look_declare rfl h i, look_declare rfl h i⟩⟩
  | linkSpouses a b date => exact Or.inl ⟨a, b, date, rfl, h⟩
  | linkChild parent child =>
    refine Or.inr ⟨fun _ _ => ⟨id, id⟩, fun i => ⟨?_, ?_⟩⟩
    · exact look_linkChild (fun _ _ => rfl) (fun _ _ => rfl) h i
    · exact look_linkChild (fun _ _ => rfl) (fun _ _ => rfl) h i
  | assignGenerations anchor =>
    obtain rfl := Except.ok.inj h
    refine Or.inr ⟨fun _ _ => ⟨id, id⟩, fun i => ⟨?_, ?_⟩⟩
    · exact look_assignGenerationsFrom (fun _ _ => rfl) t anchor i
    · exact look_assignGenerationsFrom (fun _ _ => rfl) t anchor i

/-- Both partners of a marriage record it, with one date, and nobody else has a wedding date. -/
structure Mirrored (t : FamilyTree) : Prop where
  symm : ∀ {a b}, t.spouseOf a = some b → t.spouseOf b = some a
  irrefl : ∀ a, t.spouseOf a ≠ some a
  wedding_eq : ∀ {a b}, t.spouseOf a = some b → t.weddingOf a = t.weddingOf b
  wedding_eq_none : ∀ {a}, t.spouseOf a = none → t.weddingOf a = none

theorem spouseOf_empty (a : PersonId) : empty.spouseOf a = none := rfl

theorem mirrored_empty : Mirrored empty where
  symm {a b} h := absurd (spouseOf_empty a ▸ h) (Option.some_ne_none b).symm
  irrefl a h := absurd (spouseOf_empty a ▸ h) (Option.some_ne_none a).symm
  wedding_eq {a b} h := absurd (spouseOf_empty a ▸ h) (Option.some_ne_none b).symm
  wedding_eq_none _ := rfl

theorem Mirrored.congr (m : Mirrored t)
    (h : ∀ i, t'.spouseOf i = t.spouseOf i ∧ t'.weddingOf i = t.weddingOf i) : Mirrored t' where
  symm {a b} hab := (h b).1.trans (m.symm ((h a).1 ▸ hab))
  irrefl a ha := m.irrefl a ((h a).1 ▸ ha)
  wedding_eq {a b} hab := by
    rw [(h a).2, (h b).2]
    exact m.wedding_eq ((h a).1 ▸ hab)
  wedding_eq_none {a} ha := (h a).2.trans (m.wedding_eq_none ((h a).1 ▸ ha))

theorem Mirrored.spouseOf_linkSpouses_iff (m : Mirrored t) {a b : PersonId} {date : Option Date}
    (h : t.linkSpouses a b date = .ok t') (ha : a < t.size) (hb : b < t.size) {i j : PersonId} :
    t'.spouseOf i = some j ↔ i = a ∧ j = b ∨ i = b ∧ j = a ∨
      t.spouseOf i = some j ∧ i ≠ a ∧ i ≠ b ∧ j ≠ a ∧ j ≠ b := by
  have hab : a ≠ b := (linkSpouses_eq_ok.mp h).1
  rw [spouseOf_linkSpouses h ha hb]
  by_cases ia : i = a
  · subst ia
    simp [hab, eq_comm]
  by_cases ib : i = b
  · subst ib
    simp [ia, eq_comm]
  simp only [ia, ib, if_false, false_and, false_or, ne_eq, not_false_eq_true, true_and]
  split
  · rename_i hformer
    refine ⟨fun e => absurd e (Option.some_ne_none j).symm, ?_⟩
    rintro ⟨hij, ja, jb⟩
    -- The partner that `i` has is the one who leaves, whom the right side leaves out.
    rcases hformer with hf | hf
    · exact absurd (Option.some.inj (hij.symm.trans (m.symm hf))) ja
    · exact absurd (Option.some.inj (hij.symm.trans (m.symm hf))) jb
  · rename_i hformer
    refine ⟨fun hij => ⟨hij, ?_, ?_⟩, And.left⟩
    · rintro rfl
      exact hformer (Or.inl (m.symm hij))
    · rintro rfl
      exact hformer (Or.inr (m.symm hij))

theorem Mirrored.weddingOf_linkSpouses_of_ne (m : Mirrored t) {a b : PersonId} {date : Option Date}
    (h : t.linkSpouses a b date = .ok t') (ha : a < t.size) (hb : b < t.size) {i j : PersonId}
    (hij : t.spouseOf i = some j) (ia : i ≠ a) (ib : i ≠ b) (ja : j ≠ a) (jb : j ≠ b) :
    t'.weddingOf i = t.weddingOf i := by
  have hformer : ¬(t.spouseOf a = some i ∨ t.spouseOf b = some i) := by
    rintro (e | e)
    · exact ja (Option.some.inj (hij.symm.trans (m.symm e)))
    · exact jb (Option.some.inj (hij.symm.trans (m.symm e)))
  rw [weddingOf_linkSpouses h ha hb, if_neg ia, if_neg ib, if_neg hformer]

theorem Mirrored.weddingFor_comm (m : Mirrored t) (a b : PersonId) (date : Option Date) :
    t.weddingFor a b date = t.weddingFor b a date := by
  unfold weddingFor
  by_cases hab : t.spouseOf a = some b
  · rw [if_pos hab, if_pos (m.symm hab), m.wedding_eq hab]
  · rw [if_neg hab, if_neg (mt m.symm hab)]

theorem Mirrored.linkSpouses (m : Mirrored t) {a b : PersonId} {date : Option Date}
    (h : t.linkSpouses a b date = .ok t') (ha : a < t.size) (hb : b < t.size) : Mirrored t' where
  symm {i j} hij := by
    rw [m.spouseOf_linkSpouses_iff h ha hb] at hij ⊢
    rcases hij with ⟨rfl, rfl⟩ | ⟨rfl, rfl⟩ | ⟨hij, ia, ib, ja, jb⟩
    · exact Or.inr (Or.inl ⟨rfl, rfl⟩)
    · exact Or.inl ⟨rfl, rfl⟩
    · exact Or.inr (Or.inr ⟨m.symm hij, ja, jb, ia, ib⟩)
  irrefl i hi := by
    have hab : a ≠ b := (linkSpouses_eq_ok.mp h).1
    rw [m.spouseOf_linkSpouses_iff h ha hb] at hi
    rcases hi with ⟨rfl, rfl⟩ | ⟨rfl, rfl⟩ | ⟨hi, -⟩
    · exact hab rfl
    · exact hab rfl
    · exact m.irrefl i hi
  wedding_eq {i j} hij := by
    have hab : a ≠ b := (linkSpouses_eq_ok.mp h).1
    rcases (m.spouseOf_linkSpouses_iff h ha hb).mp hij with
      ⟨rfl, rfl⟩ | ⟨rfl, rfl⟩ | ⟨hold, ia, ib, ja, jb⟩
    · rw [weddingOf_linkSpouses h ha hb, weddingOf_linkSpouses h ha hb, if_pos rfl,
        if_neg (Ne.symm hab), if_pos rfl]
    · rw [weddingOf_linkSpouses h ha hb, weddingOf_linkSpouses h ha hb, if_pos rfl,
        if_neg (Ne.symm hab), if_pos rfl]
    · rw [m.weddingOf_linkSpouses_of_ne h ha hb hold ia ib ja jb,
        m.weddingOf_linkSpouses_of_ne h ha hb (m.symm hold) ja jb ia ib]
      exact m.wedding_eq hold
  wedding_eq_none {i} hi := by
    rw [spouseOf_linkSpouses h ha hb] at hi
    rw [weddingOf_linkSpouses h ha hb]
    split_ifs at hi ⊢
    · rfl
    · exact m.wedding_eq_none hi

theorem Mirrored.tryChange (m : Mirrored t) {c : Change} (hc : c.Fits t)
    (h : t.tryChange c = .ok t') : Mirrored t' := by
  rcases tryChange_marital h with ⟨a, b, date, rfl, hl⟩ | ⟨-, hkeep⟩
  · exact m.linkSpouses hl hc.1 hc.2
  · exact m.congr hkeep

theorem mirrored_ofHistory {cs : List Change} (h : Fitting cs) : Mirrored (ofHistory cs) :=
  history_induction (motive := fun _ t => Mirrored t) mirrored_empty
    (fun _ _ _ _ m hc ht => m.tryChange hc ht) h

theorem Mirrored.spouseOf_linkSpouses_iff_joins (m : Mirrored t) {x y : PersonId}
    {date : Option Date} (h : t.linkSpouses x y date = .ok t') (hx : x < t.size) (hy : y < t.size)
    {a b : PersonId} (hab : a ≠ b) :
    t'.spouseOf a = some b ↔ (Change.linkSpouses x y date).Joins a b ∨
      t.spouseOf a = some b ∧ ¬(Change.linkSpouses x y date).Parts a b := by
  rw [m.spouseOf_linkSpouses_iff h hx hy]
  simp only [Change.Joins, Change.Parts, not_not]
  constructor
  · rintro (⟨rfl, rfl⟩ | ⟨rfl, rfl⟩ | ⟨hs, ax, ay, bx, yb⟩)
    · exact Or.inl (Or.inl ⟨rfl, rfl⟩)
    · exact Or.inl (Or.inr ⟨rfl, rfl⟩)
    · refine Or.inr ⟨hs, ?_⟩
      simp only [Ne.symm ax, Ne.symm ay, Ne.symm bx, Ne.symm yb, or_self]
  · rintro ((⟨rfl, rfl⟩ | ⟨rfl, rfl⟩) | ⟨hs, hboth⟩)
    · exact Or.inl ⟨rfl, rfl⟩
    · exact Or.inr (Or.inl ⟨rfl, rfl⟩)
    · by_cases hnamed : x = a ∨ y = a
      · rcases hnamed, hboth.mp hnamed with ⟨rfl | rfl, rfl | rfl⟩
        · exact absurd rfl hab
        · exact Or.inl ⟨rfl, rfl⟩
        · exact Or.inr (Or.inl ⟨rfl, rfl⟩)
        · exact absurd rfl hab
      · have hother := mt hboth.mpr hnamed
        rw [not_or] at hnamed hother
        exact Or.inr (Or.inr ⟨hs, Ne.symm hnamed.1, Ne.symm hnamed.2, Ne.symm hother.1,
          Ne.symm hother.2⟩)

/-- The last marital link of a couple that gave a date, and that nothing has undone. -/
abbrev LastDated (a b : PersonId) (d : Date) (cs : List Change) : Prop :=
  Since (fun c => c.Joins a b ∧ c.wedding? = some d)
    (fun c => ¬c.Parts a b ∧ (c.Joins a b → c.wedding? = none)) cs

theorem LastDated.since_joins {a b : PersonId} {d : Date} {cs : List Change}
    (h : LastDated a b d cs) : Since (Change.Joins a b) (fun c => ¬c.Parts a b) cs :=
  Since.mono (fun _ => And.left) (fun _ => And.left) h

theorem Mirrored.weddingOf_linkSpouses_of_joins (m : Mirrored t) {x y : PersonId}
    {date : Option Date} (h : t.linkSpouses x y date = .ok t') (hx : x < t.size) (hy : y < t.size)
    {a b : PersonId} (hj : (Change.linkSpouses x y date).Joins a b) :
    t'.weddingOf a = t.weddingFor a b date := by
  rw [weddingOf_linkSpouses h hx hy]
  rcases hj with ⟨rfl, rfl⟩ | ⟨rfl, rfl⟩
  · rw [if_pos rfl]
  · rw [if_neg (Ne.symm (linkSpouses_eq_ok.mp h).1), if_pos rfl, m.weddingFor_comm]

structure Told (a b : PersonId) (T : List Change) (t : FamilyTree) : Prop where
  mirrored : Mirrored t
  spouseOf_iff : t.spouseOf a = some b ↔ Since (Change.Joins a b) (fun c => ¬c.Parts a b) T
  weddingOf_iff : t.spouseOf a = some b → ∀ d, t.weddingOf a = some d ↔ LastDated a b d T

theorem told_nil (a b : PersonId) : Told a b [] empty where
  mirrored := mirrored_empty
  spouseOf_iff := ⟨fun h => absurd (spouseOf_empty a ▸ h) (Option.some_ne_none b).symm,
    fun h => absurd h not_since_nil⟩
  weddingOf_iff h := absurd (spouseOf_empty a ▸ h) (Option.some_ne_none b).symm

theorem Told.weddingOf_linkSpouses {a b : PersonId} {T : List Change} (w : Told a b T t)
    (hab : a ≠ b) {x y : PersonId} {date : Option Date} (h : t.linkSpouses x y date = .ok t')
    (hx : x < t.size) (hy : y < t.size) (hs : t'.spouseOf a = some b) (d : Date) :
    t'.weddingOf a = some d ↔ LastDated a b d (T ++ [.linkSpouses x y date]) := by
  have m := w.mirrored
  have hw : (Change.linkSpouses x y date).wedding? = date := rfl
  rw [LastDated, since_concat, hw]
  by_cases hj : (Change.linkSpouses x y date).Joins a b
  · have hparts := Change.not_parts_of_joins hj
    rw [m.weddingOf_linkSpouses_of_joins h hx hy hj, weddingFor]
    simp only [hj, hparts, true_and, not_false_eq_true, true_imp_iff]
    cases date with
    | some e => simp
    | none =>
      rw [Option.none_or]
      simp only [reduceCtorEq, false_or, and_true]
      by_cases hold : t.spouseOf a = some b
      · rw [if_pos hold]
        exact w.weddingOf_iff hold d
      -- A couple that was no couple before has no date that still counts.
      · rw [if_neg hold]
        exact ⟨fun e => absurd e (Option.some_ne_none d).symm,
          fun hl => absurd (w.spouseOf_iff.mpr (LastDated.since_joins hl)) hold⟩
  · obtain ⟨hold, hparts⟩ :=
      ((m.spouseOf_linkSpouses_iff_joins h hx hy hab).mp hs).resolve_left hj
    rcases (m.spouseOf_linkSpouses_iff h hx hy).mp hs with
      ⟨rfl, rfl⟩ | ⟨rfl, rfl⟩ | ⟨-, ax, ay, bx, yb⟩
    · exact absurd (Or.inl ⟨rfl, rfl⟩) hj
    · exact absurd (Or.inr ⟨rfl, rfl⟩) hj
    · rw [m.weddingOf_linkSpouses_of_ne h hx hy hold ax ay bx yb, w.weddingOf_iff hold d]
      simp only [hj, hparts, false_and, false_or, not_false_eq_true, false_imp_iff, and_true]

theorem Told.tryChange {a b : PersonId} {T : List Change} (w : Told a b T t) (hab : a ≠ b)
    {c : Change} (hc : c.Fits t) (h : t.tryChange c = .ok t') : Told a b (T ++ [c]) t' := by
  have hm := w.mirrored.tryChange hc h
  rcases tryChange_marital h with ⟨x, y, date, rfl, hl⟩ | ⟨hother, hkeep⟩
  · refine ⟨hm, ?_, w.weddingOf_linkSpouses hab hl hc.1 hc.2⟩
    rw [since_concat, ← w.spouseOf_iff]
    exact w.mirrored.spouseOf_linkSpouses_iff_joins hl hc.1 hc.2 hab
  · refine ⟨hm, ?_, fun hs d => ?_⟩
    · rw [since_concat, (hkeep a).1, w.spouseOf_iff]
      simp only [hother a b, not_false_eq_true, and_true, false_or]
    · rw [LastDated, since_concat, (hkeep a).2, w.weddingOf_iff ((hkeep a).1 ▸ hs) d]
      simp only [hother a b, false_and, false_or, not_false_eq_true, false_imp_iff, and_true]

theorem told_ofHistory {cs : List Change} (h : Fitting cs) {a b : PersonId} (hab : a ≠ b) :
    Told a b (accepted cs) (ofHistory cs) := by
  refine history_induction (motive := fun T t => Told a b (T.map Prod.snd) t) (told_nil a b) ?_ h
  intro T t c t' w hc ht
  rw [List.map_append]
  exact w.tryChange hab hc ht

/-- Two persons are married at the end of a history if a marital link joined them and none after it
named only one of them. Both then hold the last date that came with such a link, and whoever is not
married has no wedding date. -/
theorem marriage_iff_accepted_links {cs : List Change} (h : Fitting cs) {a b : PersonId}
    (hab : a ≠ b) :
    ((ofHistory cs).spouseOf a = some b ↔
      ∃ before c after, accepted cs = before ++ c :: after ∧ c.Joins a b ∧
        ∀ c' ∈ after, ¬c'.Parts a b) ∧
    ((ofHistory cs).spouseOf a = some b →
      (ofHistory cs).spouseOf b = some a ∧
      (ofHistory cs).weddingOf b = (ofHistory cs).weddingOf a ∧
      ∀ d, (ofHistory cs).weddingOf a = some d ↔
        ∃ before c after, accepted cs = before ++ c :: after ∧
          (c.Joins a b ∧ c.wedding? = some d) ∧
          ∀ c' ∈ after, ¬c'.Parts a b ∧ (c'.Joins a b → c'.wedding? = none)) ∧
    (ofHistory cs).spouseOf a ≠ some a ∧
    ((ofHistory cs).spouseOf a = none → (ofHistory cs).weddingOf a = none) := by
  have w := told_ofHistory h hab
  refine ⟨w.spouseOf_iff, fun hs => ⟨w.mirrored.symm hs, ?_, w.weddingOf_iff hs⟩,
    w.mirrored.irrefl a, w.mirrored.wedding_eq_none⟩
  exact (w.mirrored.wedding_eq hs).symm

def remarriage : List Change :=
  [.declare "Anne" ⟨1900, 1, 1⟩ none, .declare "Bruno" ⟨1900, 1, 1⟩ none,
    .declare "Clara" ⟨1900, 1, 1⟩ none, .linkSpouses 0 1 (some ⟨1920, 1, 1⟩),
    .linkSpouses 0 2 none, .linkSpouses 2 2 none, .linkSpouses 1 0 (some ⟨1930, 6, 1⟩),
    .linkSpouses 0 1 none]

theorem marriage_of_remarriage :
    Fitting remarriage ∧ (ofHistory remarriage).spouseOf 0 = some 1 ∧
      (ofHistory remarriage).weddingOf 0 = some ⟨1930, 6, 1⟩ ∧
      (ofHistory remarriage).spouseOf 2 ≠ some 0 := by
  have fit : Fitting remarriage := by decide
  have h := marriage_iff_accepted_links fit (a := 0) (b := 1) (by decide)
  have htaken : accepted remarriage = remarriage.take 5 ++ remarriage.drop 6 := by decide
  have hs : (ofHistory remarriage).spouseOf 0 = some 1 :=
    h.1.mpr ⟨(accepted remarriage).take 6, .linkSpouses 0 1 none, [], by rw [htaken]; rfl,
      Or.inl ⟨rfl, rfl⟩, fun _ hc => absurd hc List.not_mem_nil⟩
  have hw : (ofHistory remarriage).weddingOf 0 = some ⟨1930, 6, 1⟩ := by
    refine ((h.2.1 hs).2.2 _).mpr ⟨(accepted remarriage).take 5,
      .linkSpouses 1 0 (some ⟨1930, 6, 1⟩), [.linkSpouses 0 1 none], by rw [htaken]; rfl,
      ⟨Or.inr ⟨rfl, rfl⟩, rfl⟩, fun c hc => ?_⟩
    obtain rfl := List.mem_singleton.mp hc
    exact ⟨Change.not_parts_of_joins (Or.inl ⟨rfl, rfl⟩), fun _ => rfl⟩
  have h' := marriage_iff_accepted_links fit (a := 2) (b := 0) (by decide)
  refine ⟨fit, hs, hw, fun e => ?_⟩
  exact absurd (Option.some.inj ((h'.2.1 e).1.symm.trans hs)) (by decide)

end FamilyTree
end Pedigree

import Mathlib.Order.Lattice.Nat
import Pedigree.History

/-! What each change writes into the records of a family tree. Marital links touch spouses and
weddings only, familial links touch parents and children only, and generations are kept apart from
both; what a link writes is read back person by person. -/

namespace Pedigree

theorem mem_addOnce {ps : List PersonId} {p q : PersonId} : q ∈ addOnce ps p ↔ q ∈ ps ∨ q = p := by
  unfold addOnce
  split
  · rename_i h
    exact ⟨Or.inl, fun hq => hq.elim id fun e => e ▸ h⟩
  · rw [List.mem_append, List.mem_singleton]

theorem addOnce_eraseDups (ps : List PersonId) (p : PersonId) :
    addOnce ps.eraseDups p = (ps ++ [p]).eraseDups := by
  have hp : [p].removeAll ps = if p ∈ ps then [] else [p] := by
    by_cases h : p ∈ ps <;> simp [List.removeAll, h]
  rw [List.eraseDups_append, hp]
  unfold addOnce
  by_cases h : p ∈ ps
  · rw [if_pos (List.mem_eraseDups.mpr h), if_pos h, List.eraseDups_nil, List.append_nil]
  · rw [if_neg (mt List.mem_eraseDups.mp h), if_neg h]
    rfl

theorem foldl_addOnce_eraseDups (ps qs : List PersonId) :
    qs.foldl addOnce ps.eraseDups = (ps ++ qs).eraseDups := by
  induction qs generalizing ps with
  | nil => rw [List.append_nil, List.foldl_nil]
  | cons q qs ih =>
    rw [List.foldl_cons, addOnce_eraseDups, ih, List.append_assoc, List.singleton_append]

theorem foldl_addOnce_of_forall_mem {ps qs : List PersonId} (h : ∀ q ∈ qs, q ∈ ps) :
    qs.foldl addOnce ps = ps := by
  induction qs with
  | nil => rfl
  | cons q qs ih =>
    have hq : addOnce ps q = ps := if_pos (h q List.mem_cons_self)
    rw [List.foldl_cons, hq]
    exact ih fun r hr => h r (List.mem_cons_of_mem q hr)

theorem addOnce_addOnce (ps : List PersonId) (p : PersonId) :
    addOnce (addOnce ps p) p = addOnce ps p := by
  have h : p ∈ addOnce ps p := mem_addOnce.mpr (Or.inr rfl)
  rw [addOnce, if_pos h]

namespace FamilyTree

variable {t t' : FamilyTree} {α : Type} {f : Person → α} {x : α}

theorem person?_eq_none_iff {i : PersonId} : t.person? i = none ↔ t.size ≤ i :=
  List.getElem?_eq_none_iff

theorem exists_person? {i : PersonId} (h : i < t.size) : ∃ p, t.person? i = some p :=
  ⟨_, List.getElem?_eq_getElem h⟩

theorem ext_person? (hr : t.root = t'.root) (h : ∀ i, t.person? i = t'.person? i) : t = t' := by
  obtain ⟨persons, root⟩ := t
  obtain ⟨persons', root'⟩ := t'
  obtain rfl : root = root' := hr
  obtain rfl : persons = persons' := List.ext_getElem? h
  rfl

/-- One value of a person's record, or `x` if there is no such person. -/
def look (t : FamilyTree) (f : Person → α) (x : α) (i : PersonId) : α :=
  ((t.person? i).map f).getD x

theorem parentsOf_eq_look (i : PersonId) : t.parentsOf i = t.look Person.parents [] i := rfl

theorem childrenOf_eq_look (i : PersonId) : t.childrenOf i = t.look Person.children [] i := rfl

theorem spouseOf_eq_look (i : PersonId) : t.spouseOf i = t.look Person.spouse none i := by
  unfold spouseOf look
  cases t.person? i <;> rfl

theorem weddingOf_eq_look (i : PersonId) : t.weddingOf i = t.look Person.wedding none i := by
  unfold weddingOf look
  cases t.person? i <;> rfl

theorem look_of_size_le {i : PersonId} (h : t.size ≤ i) : t.look f x i = x := by
  rw [look, person?_eq_none_iff.mpr h]
  rfl

theorem lt_size_of_look_ne {i : PersonId} (h : t.look f x i ≠ x) : i < t.size :=
  Nat.lt_of_not_le fun hi => h (look_of_size_le hi)

theorem lt_size_of_spouseOf {i s : PersonId} (h : t.spouseOf i = some s) : i < t.size := by
  refine lt_size_of_look_ne (f := Person.spouse) (x := none) ?_
  rw [← spouseOf_eq_look, h]
  exact Option.some_ne_none s

theorem lt_size_of_mem_childrenOf {i c : PersonId} (h : c ∈ t.childrenOf i) : i < t.size :=
  lt_size_of_look_ne (f := Person.children) (x := []) (List.ne_nil_of_mem h)

theorem look_update {g : Person → Person} (hg : ∀ p, f (g p) = f p) (i j : PersonId) :
    (t.update i g).look f x j = t.look f x j := by
  have h : (t.update i g).person? j = (t.person? j).map fun p => if i = j then g p else p :=
    person?_update t i j g
  rw [look, look, h]
  cases t.person? j with
  | none => rfl
  | some p =>
    by_cases e : i = j
    · simp only [e, if_true, Option.map_some, Option.getD_some, hg]
    · simp only [e, if_false, Option.map_some, Option.getD_some]

theorem look_update_of_ne {g : Person → Person} {i j : PersonId} (h : i ≠ j) :
    (t.update i g).look f x j = t.look f x j := by
  rw [look, look, person?_update]
  simp only [if_neg h, Option.map_id']

theorem look_update_self {g : Person → Person} {k : α → α} (hg : ∀ p, f (g p) = k (f p))
    {i : PersonId} (h : i < t.size) : (t.update i g).look f x i = k (t.look f x i) := by
  obtain ⟨p, hp⟩ := exists_person? h
  rw [look, look, person?_update, hp]
  simp only [if_true, Option.map_some, Option.getD_some, hg]

theorem size_foldl_update (g : Person → Person) (is : List PersonId) :
    (is.foldl (fun t i => t.update i g) t).size = t.size := by
  induction is generalizing t with
  | nil => rfl
  | cons i is ih => rw [List.foldl_cons, ih, size_update]

theorem root_foldl_update (g : Person → Person) (is : List PersonId) :
    (is.foldl (fun t i => t.update i g) t).root = t.root := by
  induction is generalizing t with
  | nil => rfl
  | cons i is ih =>
    rw [List.foldl_cons, ih]
    rfl

theorem look_foldl_update {g : Person → Person} (hg : ∀ p, f (g p) = f p) (is : List PersonId)
    (j : PersonId) : (is.foldl (fun t i => t.update i g) t).look f x j = t.look f x j := by
  induction is generalizing t with
  | nil => rfl
  | cons i is ih => rw [List.foldl_cons, ih, look_update hg]

theorem update_eq_self {i : PersonId} {g : Person → Person}
    (h : ∀ p, t.person? i = some p → g p = p) : t.update i g = t := by
  refine ext_person? rfl fun j => ?_
  rw [person?_update]
  cases hp : t.person? j with
  | none => rfl
  | some p =>
    have hkeep : (if i = j then g p else p) = p := by
      split
      · rename_i hij
        exact h p (hij ▸ hp)
      · rfl
    exact congrArg some hkeep

theorem map_persons_of_look (hs : t'.size = t.size) (h : ∀ i, t'.look f x i = t.look f x i) :
    t'.persons.map f = t.persons.map f := by
  refine List.ext_getElem (by rw [List.length_map, List.length_map]; exact hs) fun i hi hi' => ?_
  rw [List.length_map] at hi hi'
  rw [List.getElem_map, List.getElem_map]
  have hold := h i
  rwa [look, look, person?, person?, List.getElem?_eq_getElem hi, List.getElem?_eq_getElem hi',
    Option.map_some, Option.map_some, Option.getD_some, Option.getD_some] at hold

theorem nameOf_of_find? {name : String} {i : PersonId} (h : t.find? name = some i) :
    t.nameOf i = name := by
  obtain ⟨hi, hn, -⟩ := List.findIdx?_eq_some_iff_getElem.mp h
  rw [nameOf, person?, List.getElem?_eq_getElem hi]
  exact of_decide_eq_true hn

theorem declare_eq_ok {name : String} {birth : Date} {death : Option Date} {id : PersonId} :
    t.declare name birth death = .ok (id, t') ↔
      t.find? name = none ∧ id = t.size ∧
        t' = ⟨t.persons ++ [{ id := t.size, name, birth, death }], t.root.or (some t.size)⟩ := by
  unfold declare
  cases t.find? name <;> simp [eq_comm]

theorem declare_eq_error {name : String} {birth : Date} {death : Option Date} {r : Refusal} :
    t.declare name birth death = .error r ↔
      (t.find? name).isSome ∧ r = .alreadyDeclared name := by
  unfold declare
  cases t.find? name <;> simp [eq_comm]

theorem person?_append (ps : List Person) (p : Person) (root : Option PersonId) (i : PersonId) :
    person? ⟨ps ++ [p], root⟩ i = if i = ps.length then some p else ps[i]? := by
  unfold person?
  rcases Nat.lt_trichotomy i ps.length with h | h | h
  · rw [List.getElem?_append_left h, if_neg (Nat.ne_of_lt h)]
  · rw [h, List.getElem?_concat_length, if_pos rfl]
  · rw [if_neg (Nat.ne_of_gt h), List.getElem?_eq_none_iff.mpr (Nat.le_of_lt h),
      List.getElem?_eq_none_iff, List.length_append, List.length_singleton]
    exact h

theorem look_declare {name : String} {birth : Date} {death : Option Date} {id : PersonId}
    (hx : f { id := t.size, name, birth, death } = x)
    (h : t.declare name birth death = .ok (id, t')) (i : PersonId) :
    t'.look f x i = t.look f x i := by
  obtain ⟨-, -, rfl⟩ := declare_eq_ok.mp h
  rw [look, person?_append]
  split
  · rename_i hi
    rw [look_of_size_le (hi ▸ Nat.le_refl t.size : t.size ≤ i), Option.map_some,
      Option.getD_some, hx]
  · rfl

def weddingFor (t : FamilyTree) (a b : PersonId) (date : Option Date) : Option Date :=
  date.or (if t.spouseOf a = some b then t.weddingOf a else none)

theorem linkSpouses_eq_ok {a b : PersonId} {date : Option Date} :
    t.linkSpouses a b date = .ok t' ↔ a ≠ b ∧
      t' = (((t.release a b).release b a).update a (.marry b (t.weddingFor a b date))).update b
        (.marry a (t.weddingFor a b date)) := by
  unfold linkSpouses weddingFor
  by_cases h : a = b
  · simp [h]
  · simp [h, eq_comm]

theorem linkSpouses_eq_error {a b : PersonId} {date : Option Date} {r : Refusal} :
    t.linkSpouses a b date = .error r ↔ a = b ∧ r = .selfLink (t.nameOf a) := by
  unfold linkSpouses
  by_cases h : a = b
  · simp [h, eq_comm]
  · simp [h]

theorem size_release (t : FamilyTree) (i other : PersonId) : (t.release i other).size = t.size := by
  unfold release
  split
  · split
    · rfl
    · rw [size_update]
  · rfl

theorem size_linkSpouses {a b : PersonId} {date : Option Date}
    (h : t.linkSpouses a b date = .ok t') : t'.size = t.size := by
  obtain ⟨-, rfl⟩ := linkSpouses_eq_ok.mp h
  rw [size_update, size_update, size_release, size_release]

theorem root_release (t : FamilyTree) (i other : PersonId) : (t.release i other).root = t.root := by
  unfold release
  split
  · split <;> rfl
  · rfl

theorem root_linkSpouses {a b : PersonId} {date : Option Date}
    (h : t.linkSpouses a b date = .ok t') : t'.root = t.root := by
  obtain ⟨-, rfl⟩ := linkSpouses_eq_ok.mp h
  exact (root_release _ b a).trans (root_release t a b)

theorem look_release (hu : ∀ p : Person, f p.unmarry = f p) (i other j : PersonId) :
    (t.release i other).look f x j = t.look f x j := by
  unfold release
  split
  · split
    · rfl
    · exact look_update hu _ j
  · rfl

theorem look_linkSpouses (hm : ∀ s w p, f (Person.marry s w p) = f p)
    (hu : ∀ p : Person, f p.unmarry = f p) {a b : PersonId} {date : Option Date}
    (h : t.linkSpouses a b date = .ok t') (i : PersonId) : t'.look f x i = t.look f x i := by
  obtain ⟨-, rfl⟩ := linkSpouses_eq_ok.mp h
  rw [look_update (hm _ _), look_update (hm _ _), look_release hu, look_release hu]

theorem look_release_former (hu : ∀ p : Person, f p.unmarry = x) (i other j : PersonId) :
    (t.release i other).look f x j =
      if t.spouseOf i = some j ∧ j ≠ other then x else t.look f x j := by
  unfold release
  cases hi : t.spouseOf i with
  | none => simp
  | some former =>
    by_cases hf : former = other
    · have : ¬(some former = some j ∧ j ≠ other) := by
        rintro ⟨e, hj⟩
        exact hj (Option.some.inj e ▸ hf)
      simp only [if_pos hf, if_neg this]
    · simp only [if_neg hf]
      by_cases hj : former = j
      · subst hj
        rw [if_pos ⟨rfl, hf⟩]
        by_cases hs : former < t.size
        · exact look_update_self (k := fun _ => x) hu hs
        · exact look_of_size_le (by rw [size_update]; exact Nat.le_of_not_lt hs)
      · rw [look_update_of_ne hj, if_neg fun e => hj (Option.some.inj e.1)]

theorem look_linkSpouses_marital {k : PersonId → Option Date → α}
    (hm : ∀ s w p, f (Person.marry s w p) = k s w) (hu : ∀ p : Person, f p.unmarry = x)
    {a b : PersonId} {date : Option Date} (h : t.linkSpouses a b date = .ok t')
    (ha : a < t.size) (hb : b < t.size) (i : PersonId) :
    t'.look f x i =
      if i = a then k b (t.weddingFor a b date)
      else if i = b then k a (t.weddingFor a b date)
      else if t.spouseOf a = some i ∨ t.spouseOf b = some i then x else t.look f x i := by
  obtain ⟨hab, rfl⟩ := linkSpouses_eq_ok.mp h
  have hsize := (size_release (t.release a b) b a).trans (size_release t a b)
  by_cases ia : i = a
  · subst ia
    rw [if_pos rfl, look_update_of_ne (Ne.symm hab)]
    exact look_update_self (k := fun _ => k b _) (hm b _) (hsize ▸ ha)
  rw [if_neg ia]
  by_cases ib : i = b
  · subst ib
    rw [if_pos rfl]
    exact look_update_self (k := fun _ => k a _) (hm a _) (by rw [size_update, hsize]; exact hb)
  -- The second release reads the spouse of `b`, whom the first one never frees.
  have hspouse : (t.release a b).spouseOf b = t.spouseOf b := by
    rw [spouseOf_eq_look, look_release_former (fun _ => rfl), if_neg fun e => e.2 rfl,
      ← spouseOf_eq_look]
  rw [if_neg ib, look_update_of_ne (Ne.symm ib), look_update_of_ne (Ne.symm ia),
    look_release_former hu, look_release_former hu, hspouse]
  by_cases h₁ : t.spouseOf a = some i <;> by_cases h₂ : t.spouseOf b = some i <;>
    simp only [h₁, h₂, ia, ib, ne_eq, not_false_eq_true, and_self, and_true, or_true, true_or,
      or_self, if_true, if_false]

theorem spouseOf_linkSpouses {a b : PersonId} {date : Option Date}
    (h : t.linkSpouses a b date = .ok t') (ha : a < t.size) (hb : b < t.size) (i : PersonId) :
    t'.spouseOf i =
      if i = a then some b else if i = b then some a
      else if t.spouseOf a = some i ∨ t.spouseOf b = some i then none else t.spouseOf i := by
  rw [spouseOf_eq_look, spouseOf_eq_look i]
  exact look_linkSpouses_marital (k := fun s _ => some s) (fun _ _ _ => rfl) (fun _ => rfl) h ha hb
    i

theorem weddingOf_linkSpouses {a b : PersonId} {date : Option Date}
    (h : t.linkSpouses a b date = .ok t') (ha : a < t.size) (hb : b < t.size) (i : PersonId) :
    t'.weddingOf i =
      if i = a then t.weddingFor a b date else if i = b then t.weddingFor a b date
      else if t.spouseOf a = some i ∨ t.spouseOf b = some i then none else t.weddingOf i := by
  rw [weddingOf_eq_look, weddingOf_eq_look i]
  exact look_linkSpouses_marital (k := fun _ w => w) (fun _ _ _ => rfl) (fun _ => rfl) h ha hb i

theorem linkChild_eq_ok {parent child : PersonId} :
    t.linkChild parent child = .ok t' ↔ parent ≠ child ∧
      ((t.guardians parent).foldl addOnce (t.parentsOf child)).length ≤ 2 ∧
      t' = ((t.guardians parent).foldl (fun t g => t.update g (.addChild child)) t).update child
        fun p => { p with parents := (t.guardians parent).foldl addOnce (t.parentsOf child) } := by
  unfold linkChild
  by_cases h : parent = child
  · simp [h]
  by_cases hl : ((t.guardians parent).foldl addOnce (t.parentsOf child)).length > 2
  · simp [h, hl]
  · simp [h, hl, Nat.le_of_not_lt hl, eq_comm]

theorem linkChild_eq_error {parent child : PersonId} {r : Refusal} :
    t.linkChild parent child = .error r ↔
      parent = child ∧ r = .selfLink (t.nameOf parent) ∨
      parent ≠ child ∧ 2 < ((t.guardians parent).foldl addOnce (t.parentsOf child)).length ∧
        r = .tooManyParents (t.nameOf child) := by
  unfold linkChild
  by_cases h : parent = child
  · simp [h, eq_comm]
  by_cases hl : ((t.guardians parent).foldl addOnce (t.parentsOf child)).length > 2
  · simp [h, hl, eq_comm]
  · simp [h, hl]

theorem mem_guardians {parent g : PersonId} :
    g ∈ t.guardians parent ↔ g = parent ∨ t.spouseOf parent = some g := by
  unfold guardians
  rw [List.mem_cons, Option.mem_toList]

theorem size_linkChild {parent child : PersonId} (h : t.linkChild parent child = .ok t') :
    t'.size = t.size := by
  obtain ⟨-, -, rfl⟩ := linkChild_eq_ok.mp h
  rw [size_update, size_foldl_update]

theorem root_linkChild {parent child : PersonId} (h : t.linkChild parent child = .ok t') :
    t'.root = t.root := by
  obtain ⟨-, -, rfl⟩ := linkChild_eq_ok.mp h
  exact root_foldl_update (.addChild child) (t.guardians parent)

theorem look_linkChild (hc : ∀ c p, f (Person.addChild c p) = f p)
    (hp : ∀ ps p, f { p with parents := ps } = f p) {parent child : PersonId}
    (h : t.linkChild parent child = .ok t') (i : PersonId) : t'.look f x i = t.look f x i := by
  obtain ⟨-, -, rfl⟩ := linkChild_eq_ok.mp h
  rw [look_update (hp _), look_foldl_update (hc _)]

theorem parentsOf_linkChild {parent child : PersonId} (h : t.linkChild parent child = .ok t')
    (hs : child < t.size) (i : PersonId) :
    t'.parentsOf i =
      if i = child then (t.guardians parent).foldl addOnce (t.parentsOf child)
      else t.parentsOf i := by
  obtain ⟨-, -, rfl⟩ := linkChild_eq_ok.mp h
  rw [parentsOf_eq_look]
  by_cases hi : i = child
  · subst hi
    rw [if_pos rfl,
      look_update_self (k := fun _ => (t.guardians parent).foldl addOnce (t.parentsOf i))
      (fun _ => rfl) (by rw [size_foldl_update]; exact hs)]
  · rw [if_neg hi, look_update_of_ne (Ne.symm hi)]
    exact look_foldl_update (g := .addChild child) (fun _ => rfl) _ i

theorem childrenOf_foldl_addChild {child : PersonId} (gs : List PersonId) {i : PersonId}
    (hs : i < t.size) :
    (gs.foldl (fun t g => t.update g (.addChild child)) t).childrenOf i =
      if i ∈ gs then addOnce (t.childrenOf i) child else t.childrenOf i := by
  induction gs generalizing t with
  | nil => rfl
  | cons g gs ih =>
    rw [List.foldl_cons, ih (by rw [size_update]; exact hs)]
    -- Whoever is named twice gets the child once.
    by_cases hg : g = i
    · subst hg
      have hself : (t.update g (.addChild child)).childrenOf g = addOnce (t.childrenOf g) child :=
        look_update_self (f := Person.children) (k := (addOnce · child)) (fun _ => rfl) hs
      rw [hself, addOnce_addOnce, if_pos List.mem_cons_self]
      split <;> rfl
    · have hother : (t.update g (.addChild child)).childrenOf i = t.childrenOf i :=
        look_update_of_ne (f := Person.children) hg
      rw [hother]
      simp only [List.mem_cons, Ne.symm hg, false_or]

theorem childrenOf_linkChild {parent child : PersonId} (h : t.linkChild parent child = .ok t')
    {i : PersonId} (hs : i < t.size) :
    t'.childrenOf i =
      if i = parent ∨ t.spouseOf parent = some i then addOnce (t.childrenOf i) child
      else t.childrenOf i := by
  obtain ⟨-, -, rfl⟩ := linkChild_eq_ok.mp h
  have hparents (ps : List PersonId) (p : Person) :
      { p with parents := ps }.children = p.children := rfl
  rw [childrenOf_eq_look, look_update (hparents _), ← childrenOf_eq_look,
    childrenOf_foldl_addChild _ hs]
  simp only [mem_guardians]

def withGenerations (t : FamilyTree) (label : PersonId → Option Nat) : FamilyTree :=
  { t with persons := t.persons.mapIdx fun i p => p.inGeneration (label i) }

theorem person?_withGenerations (t : FamilyTree) (label : PersonId → Option Nat) (i : PersonId) :
    (t.withGenerations label).person? i = (t.person? i).map (Person.inGeneration (label i)) := by
  unfold withGenerations person?
  rw [List.getElem?_mapIdx]

theorem size_withGenerations (t : FamilyTree) (label : PersonId → Option Nat) :
    (t.withGenerations label).size = t.size := by
  unfold withGenerations size
  rw [List.length_mapIdx]

theorem look_withGenerations (hg : ∀ g p, f (Person.inGeneration g p) = f p) (t : FamilyTree)
    (label : PersonId → Option Nat) (i : PersonId) :
    (t.withGenerations label).look f x i = t.look f x i := by
  rw [look, look, person?_withGenerations]
  cases t.person? i with
  | none => rfl
  | some p => exact hg _ p

theorem generationOf_withGenerations (t : FamilyTree) (label : PersonId → Option Nat)
    {i : PersonId} (hi : i < t.size) : (t.withGenerations label).generationOf i = label i := by
  obtain ⟨p, hp⟩ := exists_person? hi
  rw [generationOf, person?_withGenerations, hp]
  rfl

theorem person?_assignGenerationsFrom (t : FamilyTree) (anchor i : PersonId) :
    (t.assignGenerationsFrom anchor).person? i =
      (t.person? i).map fun p => { p with generation := (Survey.finish t anchor).label i } :=
  t.person?_withGenerations _ i

@[simp] theorem size_assignGenerationsFrom (t : FamilyTree) (anchor : PersonId) :
    (t.assignGenerationsFrom anchor).size = t.size :=
  t.size_withGenerations _

theorem look_assignGenerationsFrom (hg : ∀ g p, f { p with generation := g } = f p)
    (t : FamilyTree) (anchor i : PersonId) :
    (t.assignGenerationsFrom anchor).look f x i = t.look f x i :=
  look_withGenerations hg t _ i

theorem generationOf_assignGenerationsFrom (t : FamilyTree) {anchor i : PersonId}
    (hs : i < t.size) :
    (t.assignGenerationsFrom anchor).generationOf i = (Survey.finish t anchor).label i :=
  t.generationOf_withGenerations _ hs

theorem foldl_addChild_eq_self {child : PersonId} {gs : List PersonId}
    (h : ∀ g ∈ gs, child ∈ t.childrenOf g) :
    gs.foldl (fun t g => t.update g (.addChild child)) t = t := by
  induction gs with
  | nil => rfl
  | cons g gs ih =>
    have hg : t.update g (.addChild child) = t := by
      apply update_eq_self
      intro p hp
      have hmem : child ∈ p.children := by
        have hchild := h g List.mem_cons_self
        unfold childrenOf at hchild
        rwa [hp] at hchild
      unfold Person.addChild addOnce
      rw [if_pos hmem]
    rw [List.foldl_cons, hg]
    exact ih fun g' hg' => h g' (List.mem_cons_of_mem g hg')

theorem linkChild_eq_self {parent child : PersonId} (hne : parent ≠ child)
    (hparents : ∀ g ∈ t.guardians parent, g ∈ t.parentsOf child)
    (hchildren : ∀ g ∈ t.guardians parent, child ∈ t.childrenOf g)
    (hfew : (t.parentsOf child).length ≤ 2) : t.linkChild parent child = .ok t := by
  have hfold := foldl_addOnce_of_forall_mem hparents
  have hkeep : t.update child (fun p => { p with parents := t.parentsOf child }) = t := by
    apply update_eq_self
    intro p hp
    unfold parentsOf
    rw [hp]
    rfl
  rw [linkChild_eq_ok, hfold, foldl_addChild_eq_self hchildren]
  exact ⟨hne, hfew, hkeep.symm⟩

end FamilyTree
end Pedigree

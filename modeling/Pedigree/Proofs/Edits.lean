import Pedigree.Edit
import Pedigree.Proofs.Surveys

/-! What changes in place come to. Main statements: a generation that is written leaves everything
else as it is; a change that is carried out in place, write by write, ends as it does all at once, and
one that is refused has written nothing. -/

namespace Pedigree

namespace Edit

open FamilyTree

variable {α β : Type} {t : FamilyTree}

theorem carryOut_bind_ok {e : Edit α} {k : α → Edit β} {a : α} {t' : FamilyTree}
    (h : e.carryOut t = (.ok a, t')) : carryOut (e >>= k) t = (k a).carryOut t' := by
  show ExceptT.bindCont k (e.carryOut t).1 (e.carryOut t).2 = _
  rw [h]
  rfl

theorem carryOut_get_bind (k : FamilyTree → Edit β) (t : FamilyTree) :
    carryOut (get >>= k) t = (k t).carryOut t := rfl

theorem carryOut_throw_bind (r : Refusal) (k : α → Edit β) (t : FamilyTree) :
    carryOut (throw r >>= k) t = (.error r, t) := rfl

theorem carryOut_modify (f : FamilyTree → FamilyTree) (t : FamilyTree) :
    carryOut (modify f) t = (.ok (), f t) := rfl

theorem carryOut_modify_bind (f : FamilyTree → FamilyTree) (k : Unit → Edit β) (t : FamilyTree) :
    carryOut (modify f >>= k) t = (k ()).carryOut (f t) := rfl

theorem carryOut_map (f : α → β) (e : Edit α) (t : FamilyTree) :
    carryOut (f <$> e) t = ((e.carryOut t).1.map f, (e.carryOut t).2) := by
  rw [carryOut, ExceptT.run_map]
  rfl

theorem carryOut_forM_write (f : Person → Person) (ps : List PersonId) (t : FamilyTree) :
    carryOut (ps.forM fun p => write p f) t =
      (.ok (), ps.foldl (fun t p => t.update p f) t) := by
  induction ps generalizing t with
  | nil => rfl
  | cons p ps ih => exact ih (t.update p f)

theorem carryOut_release (i other : PersonId) (t : FamilyTree) :
    carryOut (release i other) t = (.ok (), t.release i other) := by
  have hfold : ((t.spouseOf i).toList.filter (· ≠ other)).foldl
      (fun t former => t.update former .unmarry) t = t.release i other := by
    unfold FamilyTree.release
    cases t.spouseOf i with
    | none => rfl
    | some former => by_cases hf : former = other <;> simp [hf]
  rw [← hfold]
  exact carryOut_forM_write _ _ t

theorem carryOut_eq_of_tryChange {e : Edit α} {c : Change} {f : FamilyTree → α}
    (herror : ∀ r, t.tryChange c = .error r → e.carryOut t = (.error r, t))
    (hok : ∀ t', t.tryChange c = .ok t' → e.carryOut t = (.ok (f t'), t')) :
    e.carryOut t = ((t.tryChange c).map f, t.change c) := by
  cases h : t.tryChange c with
  | error r =>
    rw [change_of_error h]
    exact herror r h
  | ok t' =>
    rw [change_of_ok h]
    exact hok t' h

theorem carryOut_declare (name : String) (birth : Date) (death : Option Date) (t : FamilyTree) :
    carryOut (declare name birth death) t =
      ((t.tryChange (.declare name birth death)).map fun _ => t.size,
        t.change (.declare name birth death)) := by
  refine carryOut_eq_of_tryChange (fun r h => ?_) (fun t' h => ?_)
  · obtain ⟨hsome, rfl⟩ := declare_eq_error.mp (tryChange_declare_eq_error.mp h)
    rw [declare, carryOut_get_bind, if_pos hsome]
    exact carryOut_throw_bind _ _ t
  · obtain ⟨id, h⟩ := tryChange_declare.mp h
    obtain ⟨hnone, rfl, rfl⟩ := declare_eq_ok.mp h
    rw [declare, carryOut_get_bind, if_neg (by simp [hnone])]
    refine (carryOut_modify_bind _ _ t).trans ((carryOut_modify_bind _ _ _).trans ?_)
    cases t.root <;> rfl

theorem carryOut_linkSpouses (a b : PersonId) (date : Option Date) (t : FamilyTree) :
    carryOut (linkSpouses a b date) t =
      ((t.tryChange (.linkSpouses a b date)).map fun _ => (),
        t.change (.linkSpouses a b date)) := by
  refine carryOut_eq_of_tryChange (fun r h => ?_) (fun t' h => ?_)
  · obtain ⟨hab, rfl⟩ := linkSpouses_eq_error.mp h
    rw [linkSpouses, carryOut_get_bind, if_pos hab]
    exact carryOut_throw_bind _ _ t
  · obtain ⟨hab, rfl⟩ := linkSpouses_eq_ok.mp h
    rw [linkSpouses, carryOut_get_bind, if_neg hab]
    refine (carryOut_bind_ok (carryOut_release a b t)).trans ?_
    refine (carryOut_bind_ok (carryOut_release b a _)).trans ?_
    exact (carryOut_modify_bind _ _ _).trans (carryOut_modify _ _)

theorem carryOut_linkChild (parent child : PersonId) (t : FamilyTree) :
    carryOut (linkChild parent child) t =
      ((t.tryChange (.linkChild parent child)).map fun _ => (),
        t.change (.linkChild parent child)) := by
  refine carryOut_eq_of_tryChange (fun r h => ?_) (fun t' h => ?_)
  · rw [linkChild, carryOut_get_bind]
    rcases linkChild_eq_error.mp h with ⟨heq, rfl⟩ | ⟨hne, hmany, rfl⟩
    · rw [if_pos heq]
      exact carryOut_throw_bind _ _ t
    · rw [if_neg hne, if_pos hmany]
      exact carryOut_throw_bind _ _ t
  · obtain ⟨hne, hfew, rfl⟩ := linkChild_eq_ok.mp h
    rw [linkChild, carryOut_get_bind, if_neg hne, if_neg (Nat.not_lt.mpr hfew)]
    exact (carryOut_bind_ok (carryOut_forM_write _ _ t)).trans (carryOut_modify _ _)

theorem parentsOf_withGenerations (t : FamilyTree) (label : PersonId → Option Nat) (i : PersonId) :
    (t.withGenerations label).parentsOf i = t.parentsOf i :=
  look_withGenerations (fun _ _ => rfl) t label i

theorem childrenOf_withGenerations (t : FamilyTree) (label : PersonId → Option Nat)
    (i : PersonId) : (t.withGenerations label).childrenOf i = t.childrenOf i :=
  look_withGenerations (fun _ _ => rfl) t label i

theorem look_give {γ : Type} {f : Person → γ} {x : γ}
    (hf : ∀ g p, f (Person.inGeneration g p) = f p) (i j : PersonId) (g : Option Nat)
    (t : FamilyTree) : ((give i g).carryOut t).2.look f x j = t.look f x j :=
  look_update (hf g) i j

theorem person?_foldl_update {f : Person → Person} (hf : ∀ p, f (f p) = f p) (is : List PersonId)
    (t : FamilyTree) (j : PersonId) :
    (is.foldl (fun t i => t.update i f) t).person? j =
      (t.person? j).map fun p => if j ∈ is then f p else p := by
  induction is generalizing t with
  | nil => simp
  | cons i is ih =>
    rw [List.foldl_cons, ih, person?_update, Option.map_map]
    congr
    funext p
    by_cases hij : i = j <;> by_cases hmem : j ∈ is <;> simp [hij, hmem, hf, Ne.symm]

theorem foldl_clear (t : FamilyTree) :
    (List.range t.size).foldl (fun t i => t.update i (.inGeneration none)) t =
      t.withGenerations fun _ => none := by
  refine ext_person? (root_foldl_update _ _) fun j => ?_
  rw [person?_foldl_update (Person.inGeneration_inGeneration none none), person?_withGenerations]
  by_cases hj : j < t.size
  · simp only [List.mem_range, hj, if_true]
  · rw [person?_eq_none_iff.mpr (Nat.le_of_not_lt hj)]
    rfl

/-- A generation that is written in place is given in the survey. -/
theorem update_withGenerations {s : Survey} (hs : s.labels.length = t.size) (i : PersonId)
    (g : Nat) :
    (t.withGenerations s.label).update i (.inGeneration (some g)) =
      t.withGenerations (s.setLabel i g).label := by
  refine ext_person? rfl fun j => ?_
  rw [person?_update, person?_withGenerations, person?_withGenerations, Option.map_map,
    Survey.label_setLabel, hs]
  by_cases hj : j < t.size
  · obtain ⟨p, hp⟩ := exists_person? hj
    rw [hp]
    by_cases hij : i = j
    · subst hij
      simp [hj]
    · simp [hij]
  · rw [person?_eq_none_iff.mpr (Nat.le_of_not_lt hj)]
    rfl

theorem generationOf_withGenerations_label {s : Survey} (hs : s.labels.length = t.size)
    (i : PersonId) : (t.withGenerations s.label).generationOf i = s.label i := by
  by_cases hi : i < t.size
  · exact generationOf_withGenerations t _ hi
  · have hnone : t.person? i = none := person?_eq_none_iff.mpr (Nat.le_of_not_lt hi)
    rw [generationOf, person?_withGenerations, hnone, Survey.label,
      List.getElem?_eq_none_iff.mpr (hs ▸ Nat.le_of_not_lt hi)]
    rfl

def roundOf (s : Survey) : Round := ⟨s.ancestral, s.pending⟩

variable {s : Survey}

theorem length_backfill (s : Survey) (g : Nat) (c : PersonId) :
    (s.backfill g c).labels.length = s.labels.length := by
  unfold Survey.backfill
  split
  · exact List.length_set
  · rfl

theorem roundOf_backfill (s : Survey) (g : Nat) (c : PersonId) :
    roundOf (s.backfill g c) = roundOf s := by
  unfold Survey.backfill
  split <;> rfl

theorem carryOut_backfill (hs : s.labels.length = t.size) (g : Nat) (c : PersonId) :
    (backfill g c).carryOut (t.withGenerations s.label) =
      (.ok (), t.withGenerations (s.backfill g c).label) := by
  rw [backfill, carryOut_get_bind, generationOf_withGenerations_label hs]
  unfold Survey.backfill
  split
  · rw [give, write, carryOut_modify, update_withGenerations hs]
  · rfl

/-- An edit takes a pass in place from where one survey is to where another one is. -/
structure Follows (e : Edit Round) (t : FamilyTree) (s s' : Survey) : Prop where
  length_labels : s'.labels.length = t.size
  carryOut_eq : e.carryOut (t.withGenerations s.label) =
    (.ok (roundOf s'), t.withGenerations s'.label)

theorem Follows.bind {e : Edit Round} {k : Round → Edit Round} {s' s'' : Survey}
    (h : Follows e t s s') (hk : Follows (k (roundOf s')) t s' s'') : Follows (e >>= k) t s s'' :=
  ⟨hk.length_labels, (carryOut_bind_ok h.carryOut_eq).trans hk.carryOut_eq⟩

theorem follows_return (hs : s.labels.length = t.size) : Follows (return roundOf s) t s s :=
  ⟨hs, rfl⟩

theorem follows_backfills (hs : s.labels.length = t.size) (g : Nat) (cs : List PersonId) :
    Follows (cs.forM (backfill g) >>= fun _ => return roundOf s) t s
      (cs.foldl (Survey.backfill g) s) := by
  induction cs generalizing s with
  | nil => exact follows_return hs
  | cons c cs ih =>
    have hrest := ih ((length_backfill s g c).trans hs)
    rw [roundOf_backfill s g c] at hrest
    have hcons : (c :: cs).forM (backfill g) = backfill g c >>= fun _ => cs.forM (backfill g) := rfl
    refine ⟨hrest.length_labels, ?_⟩
    rw [hcons, bind_assoc]
    exact (carryOut_bind_ok (carryOut_backfill hs g c)).trans hrest.carryOut_eq

theorem follows_raise (hs : s.labels.length = t.size) (anchor : PersonId) (g : Nat)
    (p : PersonId) : Follows (raise anchor g (roundOf s) p) t s
      (if s.rises t anchor p g then s.raise p g else s) := by
  have hrises : (p ≠ anchor ∧ g < (t.withGenerations s.label).size ∧
      (p ∉ (roundOf s).ancestral ∨
        ((t.withGenerations s.label).generationOf p).all (· < g) = true)) ↔
        s.rises t anchor p g = true := by
    rw [size_withGenerations, generationOf_withGenerations_label hs]
    unfold Survey.rises roundOf
    simp [and_assoc]
  by_cases hr : s.rises t anchor p g = true
  · rw [if_pos hr]
    refine ⟨List.length_set.trans hs, ?_⟩
    rw [raise, carryOut_get_bind, if_pos (hrises.mpr hr), give, write]
    refine (carryOut_modify_bind _ _ _).trans ?_
    rw [update_withGenerations hs]
    rfl
  · rw [if_neg hr]
    refine ⟨hs, ?_⟩
    rw [raise, carryOut_get_bind, if_neg (mt hrises.mp hr)]
    rfl

theorem follows_meet (hs : s.labels.length = t.size) (anchor : PersonId) (g : Nat)
    (p : PersonId) : Follows (meet anchor g (roundOf s) p) t s (s.meet t anchor g p) := by
  have hraise := follows_raise hs anchor (g + 1) p
  have hfill := follows_backfills hraise.length_labels g (t.childrenOf p)
  refine hraise.bind ⟨hfill.length_labels, ?_⟩
  rw [carryOut_get_bind, childrenOf_withGenerations]
  exact hfill.carryOut_eq

theorem follows_foldlM_meet (hs : s.labels.length = t.size) (anchor : PersonId) (g : Nat)
    (ps : List PersonId) : Follows (ps.foldlM (meet anchor g) (roundOf s)) t s
      (ps.foldl (Survey.meet t anchor g) s) := by
  induction ps generalizing s with
  | nil => exact follows_return hs
  | cons p ps ih =>
    have hmeet := follows_meet hs anchor g p
    rw [List.foldlM_cons]
    exact hmeet.bind (ih hmeet.length_labels)

theorem serve_of_pending_eq {anchor p : PersonId} {g : Nat} {r : Round}
    {rest : List (PersonId × Nat)} (hr : r.pending = (p, g) :: rest) :
    serve anchor r = get >>= fun t =>
      if t.generationOf p = some g then
        (t.parentsOf p).foldlM (meet anchor g) { r with pending := rest }
      else return { r with pending := rest } := by
  obtain ⟨ancestral, pending⟩ := r
  obtain rfl : pending = (p, g) :: rest := hr
  rfl

theorem follows_serve (hs : s.labels.length = t.size) (anchor : PersonId) :
    Follows (serve anchor (roundOf s)) t s (s.step t anchor) := by
  cases hp : s.pending with
  | nil =>
    obtain ⟨labels, ancestral, pending⟩ := s
    obtain rfl : pending = [] := hp
    exact follows_return hs
  | cons entry rest =>
    obtain ⟨p, g⟩ := entry
    have hpop : roundOf s.pop = { roundOf s with pending := rest } := by
      unfold roundOf Survey.pop
      rw [hp]
      rfl
    have hserve : Follows (if s.label p = some g then
        (t.parentsOf p).foldlM (meet anchor g) (roundOf s.pop) else return roundOf s.pop) t s.pop
        (if s.label p = some g then Survey.serve t anchor p g s.pop else s.pop) := by
      split
      · exact follows_foldlM_meet (s := s.pop) hs anchor g (t.parentsOf p)
      · exact follows_return (s := s.pop) hs
    rw [Survey.step_of_pending_eq hp]
    refine ⟨hserve.length_labels, ?_⟩
    rw [serve_of_pending_eq hp, carryOut_get_bind, generationOf_withGenerations_label hs,
      parentsOf_withGenerations, ← hpop]
    exact hserve.carryOut_eq

theorem carryOut_serveAll (hs : s.labels.length = t.size) (anchor : PersonId) (n : Nat) :
    (serveAll anchor n (roundOf s)).carryOut (t.withGenerations s.label) =
      (.ok (), t.withGenerations (s.run t anchor n).label) := by
  induction n generalizing s with
  | zero => rfl
  | succ n ih =>
    have hserve := follows_serve hs anchor
    have hpending : (roundOf s).pending = s.pending := rfl
    rw [serveAll, Survey.run, hpending]
    split
    · rfl
    · exact (carryOut_bind_ok hserve.carryOut_eq).trans (ih hserve.length_labels)

theorem carryOut_assignGenerations (anchor : PersonId) (t : FamilyTree) :
    (assignGenerations anchor).carryOut t = (.ok (), t.assignGenerationsFrom anchor) := by
  have hlength : (List.replicate t.size (none : Option Nat)).length = t.size :=
    List.length_replicate
  have hclear : (List.range t.size).foldl (fun t i => t.update i (.inGeneration none)) t =
      t.withGenerations (Survey.mk (List.replicate t.size none) [] []).label := by
    have hnone : (Survey.mk (List.replicate t.size none) [] []).label = fun _ => none := by
      funext i
      unfold Survey.label
      rw [List.getElem?_replicate]
      split <;> rfl
    rw [hnone, foldl_clear]
  have hstart : (Survey.start t anchor).labels.length = t.size :=
    List.length_set.trans List.length_replicate
  rw [assignGenerations, carryOut_get_bind]
  refine (carryOut_bind_ok (carryOut_forM_write _ _ t)).trans ?_
  rw [hclear]
  refine (carryOut_modify_bind _ _ _).trans ?_
  rw [update_withGenerations hlength]
  exact carryOut_serveAll hstart anchor (Survey.bound t)

/-- A change in place ends as it does all at once, and one that is refused has written nothing. -/
theorem carryOut_edit (c : Change) (t : FamilyTree) :
    c.edit.carryOut t = ((t.tryChange c).map fun _ => (), t.change c) := by
  cases c with
  | declare name birth death =>
    refine (carryOut_map _ _ t).trans ?_
    rw [carryOut_declare]
    cases t.tryChange (.declare name birth death) <;> rfl
  | linkSpouses a b date => exact carryOut_linkSpouses a b date t
  | linkChild parent child => exact carryOut_linkChild parent child t
  | assignGenerations anchor => exact carryOut_assignGenerations anchor t

end Edit

end Pedigree

import Pedigree.Proofs.Viability

/-! What the diagnostic of a text that is no sentence tells. Main statement: its code and its span
say up to where the tokens of the text are the beginning of a sentence, and which token is the first
with which they are not. -/

namespace Pedigree.Source

open Grammar

variable {us : List (Located Token)} {t u : Located Token}

/-- A diagnostic that points at the place where the tokens of a text cease to be the beginning of a
sentence. -/
structure Diagnostic.Locates (us : List (Located Token)) (d : Diagnostic) : Prop where
  code : d.code = .unexpectedToken ∨ d.code = .incompleteInput ∨
    d.code = .unrecognizedStatement ∨ d.code = .trailingInput
  unexpected : d.code = .unexpectedToken →
    (∃ t ∈ us, d.primary.span = t.span) ∧
      ∀ i t, us[i]? = some t → d.primary.span = t.span →
        Viable (kinds (us.take i)) ∧ ¬Viable (kinds (us.take (i + 1)))
  unrecognized : d.code = .unrecognizedStatement →
    (∃ i t u, us[i]? = some t ∧ us[i + 1]? = some u ∧ d.primary.span = t.span.union u.span) ∧
      ∀ i t u, us[i]? = some t → us[i + 1]? = some u → d.primary.span = t.span.union u.span →
        AtBoundary (kinds (us.take i)) ∧ ¬Viable (kinds (us.take (i + 2)))
  trailing : d.code = .trailingInput →
    ∃ i t last, us[i]? = some t ∧ us.getLast? = some last ∧ kinds (us.take i) ∈ familyTree ∧
      d.primary.span.start = t.span.start ∧ d.primary.span.stop = last.span.stop
  incomplete_of_viable : Viable (kinds us) → d.code = .incompleteInput
  of_incomplete : d.code = .incompleteInput →
    Viable (kinds us) ∨ us ≠ [] ∧ AtBoundary (kinds us.dropLast)

theorem index_eq_of_start {i j : Nat} (hordered : us.Pairwise fun t u => t.span.stop ≤ u.span.start)
    (hwide : ∀ t ∈ us, t.span.start < t.span.stop) (ht : us[i]? = some t) (hu : us[j]? = some u)
    (h : t.span.start = u.span.start) : i = j := by
  obtain ⟨hi, rfl⟩ := List.getElem?_eq_some_iff.mp ht
  obtain ⟨hj, rfl⟩ := List.getElem?_eq_some_iff.mp hu
  have hbefore := List.pairwise_iff_getElem.mp hordered
  have hi' := hwide _ (List.getElem_mem hi)
  have hj' := hwide _ (List.getElem_mem hj)
  rcases Nat.lt_trichotomy i j with hij | hij | hij
  · have := hbefore i j hi hj hij
    omega
  · exact hij
  · have := hbefore j i hj hi hij
    omega

theorem bounds_union {i j : Nat} (hordered : us.Pairwise fun t u => t.span.stop ≤ u.span.start)
    (ht : us[i]? = some t) (hu : us[j]? = some u) (hij : i ≤ j) :
    (t.span.union u.span).start = t.span.start ∧ (t.span.union u.span).stop = u.span.stop := by
  obtain ⟨hi, rfl⟩ := List.getElem?_eq_some_iff.mp ht
  obtain ⟨hj, rfl⟩ := List.getElem?_eq_some_iff.mp hu
  rcases Nat.eq_or_lt_of_le hij with rfl | hlt
  · simp [Span.union]
  · exact Span.union_of_le (List.pairwise_iff_getElem.mp hordered i j hi hj hlt)

namespace Fault.Blames

variable {e : Fault}

theorem code (h : e.Blames us) :
    e.diagnostic.code = .unexpectedToken ∨ e.diagnostic.code = .incompleteInput ∨
      e.diagnostic.code = .unrecognizedStatement ∨ e.diagnostic.code = .trailingInput := by
  cases h with
  | unexpected => exact Or.inl rfl
  | ending => exact Or.inr (Or.inl rfl)
  | alone => exact Or.inr (Or.inl rfl)
  | unrecognized => exact Or.inr (Or.inr (Or.inl rfl))
  | trailing => exact Or.inr (Or.inr (Or.inr rfl))

theorem incomplete_of_viable (h : e.Blames us) (hviable : Viable (kinds us)) :
    e.diagnostic.code = .incompleteInput := by
  have htake (n : Nat) : Viable (kinds (us.take n)) := by
    rw [← List.take_append_drop n us, kinds_append] at hviable
    exact hviable.of_append
  cases h with
  | unexpected _ _ _ hnot => exact absurd (htake _) hnot
  | ending => rfl
  | alone => rfl
  | unrecognized _ _ _ hnot => exact absurd (htake _) hnot
  | trailing _ _ _ hnot => exact absurd (htake _) hnot

theorem of_incomplete (h : e.Blames us) (hcode : e.diagnostic.code = .incompleteInput) :
    Viable (kinds us) ∨ us ≠ [] ∧ AtBoundary (kinds us.dropLast) := by
  cases h with
  | ending _ _ hviable => exact Or.inl hviable
  | alone _ _ hne hlast => exact Or.inr ⟨hne, hlast⟩
  | _ => cases hcode

variable (hordered : us.Pairwise fun t u => t.span.stop ≤ u.span.start)
  (hwide : ∀ t ∈ us, t.span.start < t.span.stop)
include hordered hwide

theorem locates_unexpected (h : e.Blames us) (hcode : e.diagnostic.code = .unexpectedToken) :
    (∃ t ∈ us, e.diagnostic.primary.span = t.span) ∧
      ∀ i t, us[i]? = some t → e.diagnostic.primary.span = t.span →
        Viable (kinds (us.take i)) ∧ ¬Viable (kinds (us.take (i + 1))) := by
  cases h with
  | @unexpected j u due hu hviable hnot =>
    refine ⟨⟨u, List.mem_of_getElem? hu, rfl⟩, fun i t ht hspan => ?_⟩
    have hspan : u.span = t.span := hspan
    obtain rfl := index_eq_of_start hordered hwide hu ht (by rw [hspan])
    exact ⟨hviable, hnot⟩
  | _ => cases hcode

theorem locates_unrecognized (h : e.Blames us)
    (hcode : e.diagnostic.code = .unrecognizedStatement) :
    (∃ i t u, us[i]? = some t ∧ us[i + 1]? = some u ∧
        e.diagnostic.primary.span = t.span.union u.span) ∧
      ∀ i t u, us[i]? = some t → us[i + 1]? = some u →
        e.diagnostic.primary.span = t.span.union u.span →
        AtBoundary (kinds (us.take i)) ∧ ¬Viable (kinds (us.take (i + 2))) := by
  cases h with
  | @unrecognized j v w hv hw hlast hnot =>
    refine ⟨⟨j, v, w, hv, hw, rfl⟩, fun i t u ht hu hspan => ?_⟩
    have hspan : v.span.union w.span = t.span.union u.span := hspan
    have hstart : v.span.start = t.span.start := by
      rw [← (bounds_union hordered hv hw (Nat.le_succ j)).1, hspan,
        (bounds_union hordered ht hu (Nat.le_succ i)).1]
    obtain rfl := index_eq_of_start hordered hwide hv ht hstart
    exact ⟨hlast, hnot⟩
  | _ => cases hcode

omit hwide in
theorem locates_trailing (h : e.Blames us) (hcode : e.diagnostic.code = .trailingInput) :
    ∃ i t last, us[i]? = some t ∧ us.getLast? = some last ∧ kinds (us.take i) ∈ familyTree ∧
      e.diagnostic.primary.span.start = t.span.start ∧
      e.diagnostic.primary.span.stop = last.span.stop := by
  cases h with
  | @trailing i t last ht hlast hmem hnot =>
    have hi : i ≤ us.length - 1 := Nat.le_sub_one_of_lt (List.getElem?_eq_some_iff.mp ht).1
    obtain ⟨hstart, hstop⟩ := bounds_union hordered ht (List.getLast?_eq_getElem? ▸ hlast) hi
    exact ⟨i, t, last, ht, hlast, hmem, hstart, hstop⟩
  | _ => cases hcode

end Fault.Blames

/-- A source whose tokens, but for comments, are no sentence is not read to its end, whatever is
done with its statements. The diagnostic tells up to where the tokens are the beginning of a
sentence: it points at the first token with which there is no sentence, at two tokens that open no
statement, at what stands behind a sentence, or at the end if a sentence may begin in this way. -/
theorem fault_locates_end_of_viability {source : String} {ts : List (Located Token)}
    (h : tokens source = .ok ts)
    (hnot : kinds (ts.filter (·.value.kind ≠ .comment)) ∉ familyTree) :
    ∃ e : Fault,
      (∀ {σ : Type} (f : Located Statement → σ → σ) (s : σ),
        (Block.read (fun x s => .ok (f x s)) s (.ofTokens ts source.utf8ByteSize)).2 = .error e) ∧
      e.diagnostic.Locates (ts.filter (·.value.kind ≠ .comment)) := by
  have hcovers := covers_of_tokens h
  have hsub : ts.filter (·.value.kind ≠ .comment) ⊆ ts := List.filter_subset_self _
  have hordered := hcovers.ordered.filter (·.value.kind ≠ .comment)
  have hwide := fun t ht => hcovers.nonempty t (hsub ht)
  have hlexeme := fun t ht => hcovers.isLexeme t (hsub ht)
  cases hparse : (Block.parse (.ofTokens ts source.utf8ByteSize)).2 with
  | ok _ => exact absurd ((Block.parse_eq_ok_iff hlexeme).mp hparse) hnot
  | error e =>
    have hblames : e.Blames (ts.filter (·.value.kind ≠ .comment)) :=
      Block.blames_of_parse hlexeme hparse
    refine ⟨e, fun f s => by rw [Block.read_eq_foldl, hparse], hblames.code, ?_, ?_, ?_, ?_, ?_⟩
    · exact hblames.locates_unexpected hordered hwide
    · exact hblames.locates_unrecognized hordered hwide
    · exact hblames.locates_trailing hordered
    · exact hblames.incomplete_of_viable
    · exact hblames.of_incomplete

def unsigned : String := "family_tree\x7bA(1/1/1900-);// né\nB C;\x7d"

theorem fault_of_unsigned :
    ∃ ts, tokens unsigned = .ok ts ∧
      kinds (ts.filter (·.value.kind ≠ .comment)) ∉ familyTree ∧
      ∃ e : Fault,
        (Block.read (fun _ u => .ok u) () (.ofTokens ts unsigned.utf8ByteSize)).2 = .error e ∧
        e.diagnostic.code = .unrecognizedStatement ∧ e.diagnostic.primary.span.text = "32..35" ∧
        e.diagnostic.Locates (ts.filter (·.value.kind ≠ .comment)) := by
  have hok : (tokens unsigned).isOk = true := by decide +kernel
  have hall : ((tokens unsigned).map fun ts =>
      (Block.parse (.ofTokens ts unsigned.utf8ByteSize)).2) =
        .ok (.error (.unrecognizedStatement ⟨32, 35, by decide⟩)) := by
    decide +kernel
  obtain ⟨ts, h⟩ := exists_tokens hok
  rw [h] at hall
  have hparse : (Block.parse (.ofTokens ts unsigned.utf8ByteSize)).2 =
      .error (.unrecognizedStatement ⟨32, 35, by decide⟩) := Except.ok.inj hall
  have hnot : kinds (ts.filter (·.value.kind ≠ .comment)) ∉ familyTree := by
    intro hmem
    have hok := (Block.parse_eq_ok_iff (c := .ofTokens ts unsigned.utf8ByteSize) fun t ht =>
      (covers_of_tokens h).isLexeme t (List.mem_of_mem_filter ht)).mpr hmem
    exact absurd (hparse.symm.trans hok) (by decide)
  obtain ⟨e, hread, hlocates⟩ := fault_locates_end_of_viability h hnot
  obtain rfl := Except.error.inj ((hread (fun x ss => ss ++ [x]) []).symm.trans hparse)
  exact ⟨ts, h, hnot, _, hread (fun _ u => u) (), rfl, by decide +kernel, hlocates⟩

end Pedigree.Source

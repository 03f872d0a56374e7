import Pedigree.Proofs.Lexemes

/-! Sources cut into blanks and lexemes. Main statement: a source can be read token by token exactly
if it can be cut at all, the tokens are the lexemes of the cut, and their spans leave out nothing
but blanks. -/

namespace Pedigree.Source

theorem utf8ByteSize_ofList (cs : List Char) : (String.ofList cs).utf8ByteSize = byteLength cs := by
  induction cs with
  | nil => rfl
  | cons c cs ih =>
    have hcons : String.ofList (c :: cs) = String.singleton c ++ String.ofList cs := by
      rw [String.singleton_eq_ofList, ← String.ofList_append, List.singleton_append]
    rw [hcons, String.utf8ByteSize_append, String.utf8ByteSize_singleton, ih, byteLength]

theorem byteLength_append (cs cs' : List Char) :
    byteLength (cs ++ cs') = byteLength cs + byteLength cs' := by
  rw [← utf8ByteSize_ofList, String.ofList_append, String.utf8ByteSize_append,
    utf8ByteSize_ofList, utf8ByteSize_ofList]

theorem byteLength_toList (text : String) : byteLength text.toList = text.utf8ByteSize := by
  rw [← utf8ByteSize_ofList, String.ofList_toList]

theorem byteLength_pos {cs : List Char} (h : cs ≠ []) : 0 < byteLength cs := by
  cases cs with
  | nil => exact absurd rfl h
  | cons c cs => exact Nat.add_pos_left c.utf8Size_pos _

structure Span.LiesIn (s : Span) (source : String) : Prop where
  stop_le : s.stop ≤ source.utf8ByteSize
  start_isValid : (⟨s.start⟩ : String.Pos.Raw).IsValid source
  stop_isValid : (⟨s.stop⟩ : String.Pos.Raw).IsValid source

structure Span.Selects (s : Span) (source text : String) : Prop extends s.LiesIn source where
  bytes : source.toByteArray.extract s.start s.stop = text.toByteArray

theorem Span.selects_of_append {s : Span} {source text : String} (before after : List Char)
    (hsource : source.toList = before ++ (text.toList ++ after))
    (hstart : s.start = byteLength before) (hstop : s.stop = s.start + byteLength text.toList) :
    s.Selects source text := by
  have hs : source = String.ofList before ++ (text ++ String.ofList after) := by
    rw [← String.ofList_toList (s := source), hsource, String.ofList_append, String.ofList_append,
      String.ofList_toList]
  have hs' : source = (String.ofList before ++ text) ++ String.ofList after := by
    rw [hs, String.append_assoc]
  have hstart' : s.start = (String.ofList before).utf8ByteSize := by
    rw [hstart, utf8ByteSize_ofList]
  have hstop' : s.stop = s.start + text.utf8ByteSize := by
    rw [hstop, byteLength_toList]
  have hend : s.stop = (String.ofList before ++ text).utf8ByteSize := by
    rw [String.utf8ByteSize_append, ← hstart', hstop']
  refine ⟨⟨?_, ?_, ?_⟩, ?_⟩
  · rw [hend, hs']
    simp only [String.utf8ByteSize_append]
    exact Nat.le_add_right _ _
  · exact String.Pos.Raw.isValid_iff_exists_append.mpr ⟨_, _, hs, by rw [hstart']; rfl⟩
  · exact String.Pos.Raw.isValid_iff_exists_append.mpr ⟨_, _, hs', by rw [hend]; rfl⟩
  · have hmiddle : source.toByteArray.extract (s.start + 0) (s.start + text.utf8ByteSize) =
        (text.toByteArray ++ (String.ofList after).toByteArray).extract 0 text.utf8ByteSize := by
      rw [hs, String.toByteArray_append, String.toByteArray_append]
      exact ByteArray.extract_append_size_add' hstart'
    have hfront : (text.toByteArray ++ (String.ofList after).toByteArray).extract 0
        text.utf8ByteSize = text.toByteArray := ByteArray.extract_append_eq_left rfl
    rw [hstop']
    exact hmiddle.trans hfront

inductive Piece where
  | blank (c : Char)
  | lexeme (t : Token)

/-- A text cut into blanks and lexemes, none of which is carried on by the text behind it. -/
inductive Cut : List Char → List Piece → Prop
  | nil : Cut [] []
  | blank {c : Char} {cs : List Char} {ps : List Piece} : isBlank c = true → Cut cs ps →
      Cut (c :: cs) (.blank c :: ps)
  | lexeme {t : Token} {cs : List Char} {ps : List Piece} : t.IsLexeme → t.EndsBefore cs →
      Cut cs ps → Cut (t.chars ++ cs) (.lexeme t :: ps)

def placed (start : Nat) : List Piece → List (Located Token)
  | [] => []
  | .blank c :: ps => placed (start + c.utf8Size) ps
  | .lexeme t :: ps =>
    let stop := start + byteLength t.chars
    ⟨t, start, stop, Nat.le_add_right ..⟩ :: placed stop ps

theorem placed_nil (start : Nat) : placed start [] = [] := rfl

theorem placed_blank (start : Nat) (c : Char) (ps : List Piece) :
    placed start (.blank c :: ps) = placed (start + c.utf8Size) ps := rfl

theorem placed_lexeme (start : Nat) (t : Token) (ps : List Piece) :
    placed start (.lexeme t :: ps) =
      ⟨t, start, start + byteLength t.chars, Nat.le_add_right ..⟩ ::
        placed (start + byteLength t.chars) ps := rfl

theorem parted_of_isAlphanum {c : Char} (h : c.isAlphanum = true) :
    isBlank c = false ∧ c ≠ '>' ∧ c ≠ '_' := by
  refine ⟨?_, ?_, ?_⟩
  · rw [← Bool.not_eq_true]
    intro hblank
    simp only [isBlank, Bool.or_eq_true, decide_eq_true_eq] at hblank
    rcases hblank with ((rfl | rfl) | rfl) | rfl <;> exact absurd h (by decide)
  · rintro rfl
    exact absurd h (by decide)
  · rintro rfl
    exact absurd h (by decide)

theorem Token.IsLexeme.exists_cons {t : Token} (h : t.IsLexeme) :
    ∃ c cs, t.chars = c :: cs ∧ isBlank c = false ∧ c ≠ '>' ∧ c ≠ '_' := by
  cases t with
  | date text =>
    obtain ⟨c, cs, hchars, hc⟩ := Date.Written.exists_cons h
    exact ⟨c, cs, hchars, parted_of_isAlphanum (by simp [Char.isAlphanum, hc])⟩
  | name text =>
    obtain ⟨hne, hall⟩ := h
    obtain ⟨c, cs, hchars⟩ := List.exists_cons_of_ne_nil (show text.toList ≠ [] by simpa using hne)
    have hc : c.isAlpha = true := hall c (hchars ▸ List.mem_cons_self)
    exact ⟨c, cs, hchars, parted_of_isAlphanum (by simp [Char.isAlphanum, hc])⟩
  | _ => simp [chars, text, kind, Kind.text, isBlank]

theorem Cut.parted {cs : List Char} {ps : List Piece} (h : Cut cs ps) : Parted cs := by
  cases h with
  | nil => intro c hc; cases hc
  | blank hblank _ =>
    rintro c ⟨⟩
    refine ⟨?_, ?_⟩ <;> (rintro rfl; revert hblank; decide)
  | lexeme hlexeme _ _ =>
    obtain ⟨c, cs, hchars, -, hparted⟩ := hlexeme.exists_cons
    rw [hchars]
    rintro d ⟨⟩
    exact hparted

theorem scan_blank {c : Char} (h : isBlank c = true) (start : Nat) (cs : List Char) :
    scan start (c :: cs) = scan (start + c.utf8Size) cs := by
  rw [scan, if_pos h]

theorem scan_lexeme {c : Char} {cs rest : List Char} {t : Token} (hblank : isBlank c = false)
    (h : lexeme? (c :: cs) = some (t, rest)) (start : Nat) :
    scan start (c :: cs) =
      (scan (start + byteLength t.chars) rest).map
        (⟨t, start, start + byteLength t.chars, Nat.le_add_right ..⟩ :: ·) := by
  rw [scan, if_neg (by simp [hblank])]
  split
  · rename_i heq
    cases h.symm.trans heq
    show (scan (start + byteLength t.chars) rest >>= _) = _
    cases scan (start + byteLength t.chars) rest <;> rfl
  · rename_i heq
    cases h.symm.trans heq

theorem scan_append {t : Token} {rest : List Char}
    (h : lexeme? (t.chars ++ rest) = some (t, rest)) (start : Nat) :
    scan start (t.chars ++ rest) =
      (scan (start + byteLength t.chars) rest).map
        (⟨t, start, start + byteLength t.chars, Nat.le_add_right ..⟩ :: ·) := by
  obtain ⟨c, cs, hchars, hblank, -⟩ := (isLexeme_of_lexeme? h).1.exists_cons
  rw [hchars, List.cons_append] at h ⊢
  rw [scan_lexeme hblank h, ← hchars]

theorem scan_of_cut {cs : List Char} {ps : List Piece} (h : Cut cs ps) (start : Nat) :
    scan start cs = .ok (placed start ps) := by
  induction h generalizing start with
  | nil => rw [scan, placed_nil]
  | blank hblank _ ih => rw [scan_blank hblank, ih, placed_blank]
  | lexeme hlexeme hends hcut ih =>
    have halone := hcut.parted.standsAlone hlexeme hends
    rw [scan_append (lexeme?_append_eq_some hlexeme hends halone), ih]
    rfl

theorem exists_cut_of_scan {start : Nat} {cs : List Char} {ts : List (Located Token)}
    (h : scan start cs = .ok ts) : ∃ ps, Cut cs ps ∧ placed start ps = ts := by
  fun_induction scan start cs generalizing ts with
  | case1 => exact ⟨[], .nil, Except.ok.inj h⟩
  | case2 start c cs hblank ih =>
    obtain ⟨ps, hcut, hplaced⟩ := ih h
    exact ⟨.blank c :: ps, .blank hblank hcut, hplaced⟩
  | case3 start c cs _ t rest hfirst stop =>
    rename_i ih
    obtain ⟨happend, hlexeme, hends, -⟩ := lexeme?_eq_some_iff.mp hfirst
    cases hrest : scan stop rest with
    | error e =>
      rw [hrest] at h
      cases h
    | ok ts' =>
      rw [hrest] at h
      obtain ⟨ps, hcut, hplaced⟩ := ih hrest
      refine ⟨.lexeme t :: ps, happend.symm ▸ .lexeme hlexeme hends hcut, ?_⟩
      rw [placed_lexeme, hplaced]
      exact Except.ok.inj h
  | case4 => cases h

theorem scan_eq_ok_iff {start : Nat} {cs : List Char} {ts : List (Located Token)} :
    scan start cs = .ok ts ↔ ∃ ps, Cut cs ps ∧ placed start ps = ts := by
  constructor
  · exact exists_cut_of_scan
  · rintro ⟨ps, hcut, rfl⟩
    exact scan_of_cut hcut start

theorem Span.union_of_le {s s' : Span} (h : s.stop ≤ s'.start) :
    (s.union s').start = s.start ∧ (s.union s').stop = s'.stop := by
  have hs := s.start_le_stop
  have hs' := s'.start_le_stop
  simp only [Span.union]
  omega

/-- Lexemes that cover a source from a byte on: each has the text of its span, the spans follow one
another, and every byte from `start` on that is in none of them is a blank. -/
structure Covers (source : String) (start : Nat) (ts : List (Located Token)) : Prop where
  isLexeme : ∀ t ∈ ts, t.value.IsLexeme
  start_le : ∀ t ∈ ts, start ≤ t.span.start
  nonempty : ∀ t ∈ ts, t.span.start < t.span.stop
  selects : ∀ t ∈ ts, t.span.Selects source t.value.text
  ordered : ts.Pairwise fun t u => t.span.stop ≤ u.span.start
  blank : ∀ i, start ≤ i → i < source.utf8ByteSize →
    (∀ t ∈ ts, ¬(t.span.start ≤ i ∧ i < t.span.stop)) →
    ∃ c, isBlank c = true ∧ (⟨i, i + 1, Nat.le_add_right ..⟩ : Span).Selects source (.singleton c)

theorem utf8Size_of_isBlank {c : Char} (h : isBlank c = true) : c.utf8Size = 1 := by
  simp only [isBlank, Bool.or_eq_true, decide_eq_true_eq] at h
  rcases h with ((rfl | rfl) | rfl) | rfl <;> rfl

theorem Covers.behind_blank {source : String} {start : Nat} {c : Char} {ts : List (Located Token)}
    (hblank : isBlank c = true)
    (hselects : (⟨start, start + 1, Nat.le_add_right ..⟩ : Span).Selects source (.singleton c))
    (h : Covers source (start + 1) ts) : Covers source start ts := by
  refine ⟨h.isLexeme, ?_, h.nonempty, h.selects, h.ordered, ?_⟩
  · intro t ht
    exact Nat.le_of_succ_le (h.start_le t ht)
  · intro i hstart hi hout
    by_cases hfirst : i = start
    · subst hfirst
      exact ⟨c, hblank, hselects⟩
    · exact h.blank i (by omega) hi hout

theorem Covers.behind_lexeme {source : String} {t : Token} {start stop : Nat} {hle : start ≤ stop}
    {ts : List (Located Token)} (hlexeme : t.IsLexeme) (hpos : start < stop)
    (hselects : (⟨start, stop, hle⟩ : Span).Selects source t.text) (h : Covers source stop ts) :
    Covers source start (⟨t, start, stop, hle⟩ :: ts) := by
  refine ⟨List.forall_mem_cons.mpr ⟨hlexeme, h.isLexeme⟩, ?_,
    List.forall_mem_cons.mpr ⟨hpos, h.nonempty⟩, List.forall_mem_cons.mpr ⟨hselects, h.selects⟩,
    List.pairwise_cons.mpr ⟨h.start_le, h.ordered⟩, ?_⟩
  · refine List.forall_mem_cons.mpr ⟨Nat.le_refl start, fun u hu => ?_⟩
    exact Nat.le_trans hle (h.start_le u hu)
  · intro i hstart hi hout
    obtain ⟨hfirst, hrest⟩ := List.forall_mem_cons.mp hout
    have hpast : stop ≤ i := Nat.le_of_not_lt fun hlt => hfirst ⟨hstart, hlt⟩
    exact h.blank i hpast hi hrest

theorem Cut.covers {source : String} {cs : List Char} {ps : List Piece} (h : Cut cs ps)
    (before : List Char) (hsource : source.toList = before ++ cs) :
    Covers source (byteLength before) (placed (byteLength before) ps) := by
  induction h generalizing before with
  | nil =>
    have hsize : source.utf8ByteSize = byteLength before := by
      rw [← byteLength_toList, hsource, List.append_nil]
    rw [placed_nil]
    refine ⟨by simp, by simp, by simp, by simp, .nil, ?_⟩
    intro i hstart hi
    omega
  | @blank c cs ps hblank _ ih =>
    have hsize : c.utf8Size = 1 := utf8Size_of_isBlank hblank
    have hrest := ih (before ++ [c]) (by simpa using hsource)
    rw [byteLength_append, byteLength, byteLength, hsize, Nat.add_zero] at hrest
    rw [placed_blank, hsize]
    refine hrest.behind_blank hblank (Span.selects_of_append before cs ?_ rfl ?_)
    · simpa using hsource
    · simp [byteLength, hsize]
  | @lexeme t cs ps hlexeme _ _ ih =>
    have hpos : 0 < byteLength t.chars := by
      obtain ⟨c, cs', hchars, -⟩ := hlexeme.exists_cons
      exact byteLength_pos (by simp [hchars])
    have hrest := ih (before ++ t.chars) (by simpa using hsource)
    rw [byteLength_append] at hrest
    rw [placed_lexeme]
    exact Covers.behind_lexeme hlexeme (Nat.lt_add_of_pos_right hpos)
      (Span.selects_of_append before cs hsource rfl rfl) hrest

theorem exists_tokens {source : String} (h : (tokens source).isOk = true) :
    ∃ ts, tokens source = .ok ts := by
  cases hts : tokens source with
  | ok ts => exact ⟨ts, rfl⟩
  | error e =>
    rw [hts] at h
    cases h

theorem covers_of_tokens {source : String} {ts : List (Located Token)}
    (h : tokens source = .ok ts) : Covers source 0 ts := by
  obtain ⟨ps, hcut, rfl⟩ := exists_cut_of_scan h
  exact hcut.covers [] rfl

/-- A source is read exactly if it can be cut, and then the tokens are the lexemes of any cut; they
cover it all but for blanks. -/
theorem tokens_eq_ok_iff_cut (source : String) (ts : List (Located Token)) :
    (tokens source = .ok ts ↔ ∃ ps, Cut source.toList ps ∧ placed 0 ps = ts) ∧
      (tokens source = .ok ts → Covers source 0 ts) :=
  ⟨scan_eq_ok_iff, covers_of_tokens⟩

def crowded : String := "family_treeZo// né à\r\n1/1/190012/12/1950->-"

theorem cut_of_crowded :
    ∃ ts, tokens crowded = .ok ts ∧ (∃ ps, Cut crowded.toList ps ∧ placed 0 ps = ts) ∧
      Covers crowded 0 ts := by
  have hok : (tokens crowded).isOk = true := by decide +kernel
  obtain ⟨ts, h⟩ := exists_tokens hok
  obtain ⟨hcut, hcovers⟩ := tokens_eq_ok_iff_cut crowded ts
  exact ⟨ts, h, hcut.mp h, hcovers h⟩

example : (tokens crowded).toOption.map (·.map fun t => (t.value.kind, t.span.start, t.span.stop)) =
    some [(.familyTree, 0, 11), (.name, 11, 13), (.comment, 13, 23), (.date, 24, 32),
      (.date, 32, 42), (.familialLink, 42, 44), (.range, 44, 45)] := by
  decide +kernel

end Pedigree.Source

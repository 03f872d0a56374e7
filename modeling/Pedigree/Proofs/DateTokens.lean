import Pedigree.Proofs.Dates
import Pedigree.Proofs.Strays
import Pedigree.Proofs.Viability
import Pedigree.Source.Draft

/-! Dates among the tokens of a source. The rule that cuts a date from a source and the reading of
a date know nothing of each other. Main statement: they accept the same texts, so that no token in
the place of a date is ever found to be none. -/

namespace Pedigree.Source

theorem tokens_of_written {s : String} (h : Date.Written s.toList) :
    ∃ t, tokens s = .ok [t] ∧ t.value = .date s ∧ t.span.start = 0 ∧
      t.span.stop = s.utf8ByteSize := by
  have hcut : Cut ((Token.date s).chars ++ []) [.lexeme (.date s)] := .lexeme h trivial .nil
  rw [List.append_nil] at hcut
  refine ⟨_, scan_of_cut hcut 0, rfl, rfl, ?_⟩
  exact (Nat.zero_add _).trans (byteLength_toList s)

theorem Span.Selects.eq_of_whole {s : Span} {source text : String} (h : s.Selects source text)
    (hstart : s.start = 0) (hstop : s.stop = source.utf8ByteSize) : text = source := by
  have hall : source.toByteArray.extract 0 source.utf8ByteSize = source.toByteArray :=
    ByteArray.extract_zero_size
  have hbytes := h.bytes
  rw [hstart, hstop, hall] at hbytes
  exact (String.toByteArray_inj.mp hbytes).symm

theorem written_of_tokens {s : String} {t : Located Token} (h : tokens s = .ok [t])
    (hkind : t.value.kind = .date) (hstart : t.span.start = 0)
    (hstop : t.span.stop = s.utf8ByteSize) : Date.Written s.toList := by
  have hcovers := covers_of_tokens h
  have htext : t.value.text = s :=
    (hcovers.selects t List.mem_cons_self).eq_of_whole hstart hstop
  have hlexeme : t.value.IsLexeme := hcovers.isLexeme t List.mem_cons_self
  obtain ⟨value, span⟩ := t
  cases value with
  | date text =>
    obtain rfl : text = s := htext
    exact hlexeme
  | _ => cases hkind

theorem Statement.date_of_expect {c c' : Cursor} {t : Located Token}
    (hlexeme : ∀ t ∈ c.ahead, t.value.IsLexeme) (h : c.expect .date = .ok (t, c')) :
    ∃ d, Date.parse t.value.text = .ok d ∧ date c = .ok (⟨d, t.span⟩, c') := by
  obtain ⟨hahead, hkind, -⟩ := Cursor.expect_eq_ok.mp h
  have ht : t ∈ c.ahead := hahead ▸ List.mem_cons_self
  obtain ⟨d, hd⟩ := (hlexeme t ht).parse_isOk hkind
  refine ⟨d, hd, ?_⟩
  unfold date
  rw [h]
  dsimp only [bind, Except.bind]
  rw [hd]
  rfl

namespace Block

variable {σ : Type} {apply : Located Statement → σ → Except Fault σ}

theorem exists_apply_of_applyAll_error {s s' : σ} {xs : List (Located Statement)} {e : Fault}
    (h : applyAll apply s xs = (s', .error e)) : ∃ x ∈ xs, apply x s' = .error e := by
  induction xs generalizing s with
  | nil => cases h
  | cons x xs ih =>
    unfold applyAll at h
    cases hx : apply x s with
    | ok s₁ =>
      rw [hx] at h
      obtain ⟨y, hy, he⟩ := ih h
      exact ⟨y, List.mem_cons_of_mem x hy, he⟩
    | error e' =>
      rw [hx] at h
      cases h
      exact ⟨x, List.mem_cons_self, hx⟩

theorem blames_or_apply_of_read {c : Cursor} (hlexeme : ∀ t ∈ c.ahead, t.value.IsLexeme) {s : σ}
    {e : Fault} (h : (read apply s c).2 = .error e) :
    e.Blames c.ahead ∨ ∃ x s', apply x s' = .error e := by
  rw [read_eq_settle_parse] at h
  rcases hall : applyAll apply s (parse c).1 with ⟨s', e' | ⟨⟩⟩
  · rw [hall] at h
    cases h
    obtain ⟨x, -, hx⟩ := exists_apply_of_applyAll_error hall
    exact Or.inr ⟨x, s', hx⟩
  · rw [hall] at h
    exact Or.inl (blames_of_parse hlexeme h)

theorem exists_apply_of_malformedDate {source : String} {ts : List (Located Token)}
    (h : tokens source = .ok ts) {s : σ} {m : Located Date.Malformed}
    (hread : (read apply s (.ofTokens ts source.utf8ByteSize)).2 = .error (.malformedDate m)) :
    ∃ x s', apply x s' = .error (.malformedDate m) := by
  have hlexeme (t) (ht : t ∈ (Cursor.ofTokens ts source.utf8ByteSize).ahead) :
      t.value.IsLexeme :=
    (covers_of_tokens h).isLexeme t (List.mem_of_mem_filter ht)
  rcases blames_or_apply_of_read hlexeme hread with hblames | hx
  · cases hblames
  · exact hx

end Block

namespace Draft

variable {ω : Type} {d : Draft ω} {m : Located Date.Malformed}

theorem resolve_bind_ne {α : Type} {name : Located String} {k : PersonId → Except Fault α}
    (hk : ∀ p, k p ≠ .error (.malformedDate m)) :
    (d.resolve name >>= k) ≠ .error (.malformedDate m) := by
  unfold resolve
  cases d.tree.find? name.value with
  | none => nofun
  | some p => exact hk p

theorem apply_ne_malformedDate (observe : Notice → ω → ω) (s : Located Statement) :
    d.apply observe s ≠ .error (.malformedDate m) := by
  obtain ⟨statement, span⟩ := s
  cases statement with
  | declaration l =>
    unfold apply declare
    dsimp only
    split
    · nofun
    · nofun
  | maritalLink l =>
    refine resolve_bind_ne fun p => resolve_bind_ne fun q => ?_
    dsimp only
    split
    · nofun
    · nofun
  | familialLink l =>
    refine resolve_bind_ne fun p => resolve_bind_ne fun q => ?_
    split
    · nofun
    · nofun

end Draft

theorem readWith_ne_malformedDate {ω : Type} (observe : Notice → ω → ω) (o : ω) (source : String)
    (m : Located Date.Malformed) : (readWith observe o source).2 ≠ .error (.malformedDate m) := by
  intro hread
  unfold readWith at hread
  cases htokens : tokens source with
  | error e =>
    obtain ⟨_, c, _, -, rfl, -⟩ := exists_stray_of_scan htokens
    rw [htokens] at hread
    cases hread
  | ok ts =>
    rw [htokens] at hread
    dsimp only at hread
    split at hread
    · cases hread
    · rename_i d e hblock
      cases hread
      obtain ⟨x, d', hx⟩ := Block.exists_apply_of_malformedDate htokens (congrArg Prod.snd hblock)
      exact Draft.apply_ne_malformedDate observe x hx

/-- The reading of dates takes a text exactly if the text is cut into one token, a date, that is all
of it. So whatever tokens of a source are ahead, a reader that takes a date from them gets one, and
no block is ended by a malformed date, unless what is done with its statements says so; no family
tree is. -/
theorem date_read_iff_one_token :
    (∀ s : String, (∃ d, Date.parse s = .ok d) ↔
      ∃ t, tokens s = .ok [t] ∧ t.value.kind = .date ∧ t.span.start = 0 ∧
        t.span.stop = s.utf8ByteSize) ∧
    (∀ source ts, tokens source = .ok ts →
      (∀ (c c' : Cursor) (t : Located Token), c.ahead ⊆ ts → c.expect .date = .ok (t, c') →
        ∃ d, Date.parse t.value.text = .ok d ∧ Statement.date c = .ok (⟨d, t.span⟩, c')) ∧
      ∀ {σ : Type} (apply : Located Statement → σ → Except Fault σ) (s : σ) (m),
        (Block.read apply s (.ofTokens ts source.utf8ByteSize)).2 = .error (.malformedDate m) →
          ∃ x s', apply x s' = .error (.malformedDate m)) ∧
    ∀ {ω : Type} (observe : Notice → ω → ω) (o : ω) (source : String) (m),
      (readWith observe o source).2 ≠ .error (.malformedDate m) := by
  refine ⟨fun s => ⟨fun h => ?_, fun h => ?_⟩, fun source ts h => ⟨?_, ?_⟩,
    readWith_ne_malformedDate⟩
  · obtain ⟨t, htokens, hvalue, hspan⟩ := tokens_of_written (Date.parse_isOk_iff_written.mp h)
    exact ⟨t, htokens, congrArg Token.kind hvalue, hspan⟩
  · obtain ⟨t, htokens, hkind, hstart, hstop⟩ := h
    exact Date.parse_isOk_iff_written.mpr (written_of_tokens htokens hkind hstart hstop)
  · intro c c' t hsub hexpect
    exact Statement.date_of_expect (fun u hu => (covers_of_tokens h).isLexeme u (hsub hu)) hexpect
  · intro σ apply s m hread
    exact Block.exists_apply_of_malformedDate h hread

def twoDates : String := "1/12/190031/2/1950"

theorem date_read_of_twoDates :
    ∃ t u, tokens twoDates = .ok [t, u] ∧ (¬∃ d, Date.parse twoDates = .ok d) ∧
      Statement.date ⟨[t, u], 18⟩ = .ok (⟨⟨1900, 12, 1⟩, t.span⟩, ⟨[u], 18⟩) := by
  have h : tokens twoDates = .ok [⟨.date "1/12/1900", 0, 9, by decide⟩,
      ⟨.date "31/2/1950", 9, 18, by decide⟩] := by
    decide +kernel
  obtain ⟨hwhole, hdates, -⟩ := date_read_iff_one_token
  refine ⟨_, _, h, ?_, ?_⟩
  · rw [hwhole, h]
    rintro ⟨t, ht, -⟩
    cases ht
  · obtain ⟨d, hd, hdate⟩ := (hdates _ _ h).1 ⟨_, 18⟩ ⟨_, 18⟩ _ (List.Subset.refl _) rfl
    have hparse : Date.parse "1/12/1900" = .ok ⟨1900, 12, 1⟩ := by decide +kernel
    obtain rfl := Except.ok.inj (hd.symm.trans hparse)
    exact hdate

end Pedigree.Source

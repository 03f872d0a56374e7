import Pedigree.Proofs.Words

/-! Where the faults of a text stand. Main statement: a block that cannot be read to its end is
blamed on tokens that are in it, or on its end if there are none left. -/

namespace Pedigree.Source

inductive Fault.StandsIn (c : Cursor) : Fault → Prop
  | tokens {e : Fault} {t u : Located Token} : t ∈ c.ahead → u ∈ c.ahead →
      e.diagnostic.primary.span = t.span.union u.span → e.diagnostic.context = none →
      (e.diagnostic.code = .unexpectedToken ∨ e.diagnostic.code = .unrecognizedStatement ∨
        e.diagnostic.code = .trailingInput) →
      Fault.StandsIn c e
  | ending (due : Option Token.Kind) : Fault.StandsIn c (.incomplete due c.stop)

structure Cursor.Within (c' c : Cursor) : Prop where
  ahead : c'.ahead ⊆ c.ahead
  stop : c'.stop = c.stop

variable {α β : Type} {c c' c'' : Cursor} {e : Fault}

namespace Cursor.Within

theorem refl (c : Cursor) : c.Within c := ⟨List.Subset.refl _, rfl⟩

theorem trans (h : c''.Within c') (h' : c'.Within c) : c''.Within c :=
  ⟨List.Subset.trans h.ahead h'.ahead, h.stop.trans h'.stop⟩

end Cursor.Within

theorem Span.union_self (s : Span) : s.union s = s := by
  simp [Span.union]

namespace Fault.StandsIn

theorem mono (h : e.StandsIn c') (hc : c'.Within c) : e.StandsIn c := by
  cases h with
  | tokens ht hu hspan hcontext hcode =>
    exact .tokens (hc.ahead ht) (hc.ahead hu) hspan hcontext hcode
  | ending due =>
    rw [hc.stop]
    exact .ending due

theorem token {t : Located Token} (ht : t ∈ c.ahead) (hspan : e.diagnostic.primary.span = t.span)
    (hcontext : e.diagnostic.context = none) (hcode : e.diagnostic.code = .unexpectedToken) :
    e.StandsIn c :=
  .tokens ht ht (hspan.trans t.span.union_self.symm) hcontext (.inl hcode)

end Fault.StandsIn

structure Traced (c : Cursor) (rest : α → Cursor) (x : Except Fault α) : Prop where
  standsIn : ∀ {e}, x = .error e → e.StandsIn c
  within : ∀ {a}, x = .ok a → (rest a).Within c

namespace Traced

variable {x : Except Fault α} {k : α → Except Fault β} {rest : α → Cursor} {rest' : β → Cursor}

theorem pure {a : α} (h : (rest a).Within c) : Traced c rest (.ok a) where
  standsIn := nofun
  within := by
    rintro _ ⟨⟩
    exact h

theorem error (h : e.StandsIn c) : Traced c rest (.error e) where
  standsIn := by
    rintro _ ⟨⟩
    exact h
  within := nofun

theorem bind (hx : Traced c rest x) (hk : ∀ a, x = .ok a → Traced (rest a) rest' (k a)) :
    Traced c rest' (x >>= k) := by
  cases x with
  | error e => exact error (hx.standsIn rfl)
  | ok a =>
    have hc := hx.within rfl
    have ha := hk a rfl
    exact ⟨fun h => (ha.standsIn h).mono hc, fun h => (ha.within h).trans hc⟩

end Traced

namespace Cursor

theorem peek_traced (n : Nat) (c : Cursor) : Traced c (fun _ => c) (c.peek n) := by
  rw [peek]
  cases c.ahead[n]? with
  | some t => exact .pure (.refl c)
  | none => exact .error (.ending none)

theorem mem_of_peek {n : Nat} {t : Located Token} (h : c.peek n = .ok t) : t ∈ c.ahead := by
  rw [peek] at h
  cases hget : c.ahead[n]? with
  | some u =>
    rw [hget] at h
    cases h
    exact List.mem_of_getElem? hget
  | none =>
    rw [hget] at h
    cases h

theorem expect_traced (kind : Token.Kind) (c : Cursor) : Traced c Prod.snd (c.expect kind) := by
  obtain ⟨ahead, stop⟩ := c
  cases ahead with
  | nil => exact .error (.ending (some kind))
  | cons t ts =>
    simp only [expect]
    split
    · exact .pure ⟨List.subset_cons_self t ts, rfl⟩
    · exact .error (.token List.mem_cons_self rfl rfl rfl)

end Cursor

namespace Statement

theorem name_traced (c : Cursor) : Traced c Prod.snd (name c) :=
  (c.expect_traced .name).bind fun _ _ => .pure (.refl _)

theorem date_traced (c : Cursor) : Traced c Prod.snd (date c) := by
  -- A malformed date is blamed on the token that has been taken, so the cursor stays before it.
  have hexpect := c.expect_traced .date
  have hstay : Traced c (fun _ => c) (c.expect .date) := ⟨hexpect.standsIn, fun _ => .refl c⟩
  refine hstay.bind ?_
  rintro ⟨token, c'⟩ h
  dsimp only
  cases Date.parse token.value.text with
  | ok d => exact .pure (hexpect.within h)
  | error m =>
    have htoken : token ∈ c.ahead := by
      rw [(Cursor.expect_eq_ok.mp h).1]
      exact List.mem_cons_self
    exact .error (.token htoken rfl rfl rfl)

theorem deathDate_traced (c : Cursor) : Traced c Prod.snd (deathDate c) := by
  refine (c.peek_traced 0).bind ?_
  intro next _
  show Traced c Prod.snd (if _ then _ else _)
  split
  · exact (date_traced c).bind fun _ _ => .pure (.refl _)
  · exact .pure (.refl c)

theorem weddingDate_traced (c : Cursor) : Traced c Prod.snd (weddingDate c) := by
  refine (c.peek_traced 0).bind ?_
  intro next _
  show Traced c Prod.snd (if _ then _ else _)
  split
  · refine (c.expect_traced .leftParen).bind fun ⟨_, c₁⟩ _ => ?_
    refine (date_traced c₁).bind fun ⟨_, c₂⟩ _ => ?_
    exact (c₂.expect_traced .rightParen).bind fun _ _ => .pure (.refl _)
  · exact .pure (.refl c)

theorem readDeclaration_traced (c : Cursor) : Traced c Prod.snd (readDeclaration c) := by
  refine (name_traced c).bind fun ⟨_, c₁⟩ _ => ?_
  refine (c₁.expect_traced .leftParen).bind fun ⟨_, c₂⟩ _ => ?_
  refine (date_traced c₂).bind fun ⟨_, c₃⟩ _ => ?_
  refine (c₃.expect_traced .range).bind fun ⟨_, c₄⟩ _ => ?_
  refine (deathDate_traced c₄).bind fun ⟨_, c₅⟩ _ => ?_
  exact (c₅.expect_traced .rightParen).bind fun _ _ => .pure (.refl _)

theorem readMaritalLink_traced (c : Cursor) : Traced c Prod.snd (readMaritalLink c) := by
  refine (name_traced c).bind fun ⟨_, c₁⟩ _ => ?_
  refine (c₁.expect_traced .maritalLink).bind fun ⟨_, c₂⟩ _ => ?_
  refine (name_traced c₂).bind fun ⟨_, c₃⟩ _ => ?_
  exact (weddingDate_traced c₃).bind fun _ _ => .pure (.refl _)

theorem readFamilialLink_traced (c : Cursor) : Traced c Prod.snd (readFamilialLink c) := by
  refine (name_traced c).bind fun ⟨_, c₁⟩ _ => ?_
  refine (c₁.expect_traced .familialLink).bind fun ⟨_, c₂⟩ _ => ?_
  exact (name_traced c₂).bind fun _ _ => .pure (.refl _)

theorem body_traced (kind : Kind) (c : Cursor) : Traced c Prod.snd (body kind c) := by
  cases kind with
  | declaration => exact (readDeclaration_traced c).bind fun _ _ => .pure (.refl _)
  | maritalLink => exact (readMaritalLink_traced c).bind fun _ _ => .pure (.refl _)
  | familialLink => exact (readFamilialLink_traced c).bind fun _ _ => .pure (.refl _)

theorem read_traced (c : Cursor) : Traced c Prod.snd (read c) := by
  refine (c.peek_traced 0).bind fun first hfirst => ?_
  refine (c.peek_traced 1).bind fun second hsecond => ?_
  cases Kind.ahead? c with
  | none =>
    exact .error (.tokens (Cursor.mem_of_peek hfirst) (Cursor.mem_of_peek hsecond) rfl rfl
      (.inr (.inl rfl)))
  | some kind =>
    refine (body_traced kind c).bind fun ⟨_, c₁⟩ _ => ?_
    exact (c₁.expect_traced .terminator).bind fun _ _ => .pure (.refl _)

end Statement

namespace Block

theorem opening_traced (c : Cursor) : Traced c id (opening c) := by
  refine (c.expect_traced .familyTree).bind fun ⟨_, c₁⟩ _ => ?_
  exact (c₁.expect_traced .leftBrace).bind fun _ _ => .pure (.refl _)

theorem closing_traced (c : Cursor) : Traced c (fun _ => c) (closing c) := by
  have hexpect := c.expect_traced .rightBrace
  have hstay : Traced c (fun _ => c) (c.expect .rightBrace) := ⟨hexpect.standsIn, fun _ => .refl c⟩
  refine hstay.bind ?_
  rintro ⟨_, ahead, stop⟩ h
  cases ahead with
  | nil => exact .pure (.refl c)
  | cons first rest =>
    have hwithin : Cursor.Within ⟨first :: rest, stop⟩ c := hexpect.within h
    exact .error (.tokens (hwithin.ahead List.mem_cons_self)
      (hwithin.ahead (List.getLast_mem (List.cons_ne_nil first rest))) rfl rfl (.inr (.inr rfl)))

theorem Lists.traced {ss : List (Located Statement)} {r : Except Fault Cursor}
    (h : Lists c ss r) : Traced c id r := by
  induction h with
  | @exhausted c e hnext => exact .error ((c.peek_traced 0).standsIn hnext)
  | closed _ _ => exact .pure (.refl _)
  | @malformed c next e _ _ hread => exact .error ((Statement.read_traced c).standsIn hread)
  | @cons c c' next s ss r _ _ hread _ ih =>
    have hwithin : c'.Within c := (Statement.read_traced c).within hread
    exact ⟨fun h => (ih.standsIn h).mono hwithin, fun h => (ih.within h).trans hwithin⟩

theorem standsIn_of_parse (h : (parse c).2 = .error e) : e.StandsIn c := by
  cases hopen : opening c with
  | error e' =>
    rw [parse_of_opening_error hopen] at h
    cases h
    exact (opening_traced c).standsIn hopen
  | ok c₁ =>
    obtain ⟨ss, r, hlists⟩ := exists_lists c₁
    rw [parse_of_lists hopen hlists] at h
    have hwithin : c₁.Within c := (opening_traced c).within hopen
    cases r with
    | error e' =>
      cases h
      exact (hlists.traced.standsIn rfl).mono hwithin
    | ok c₂ =>
      have hend : c₂.Within c := (hlists.traced.within rfl).trans hwithin
      exact ((closing_traced c₂).standsIn h).mono hend

end Block

end Pedigree.Source

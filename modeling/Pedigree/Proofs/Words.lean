import Pedigree.Proofs.Blocks

/-! Statements written back as words: names and dates with their places, and marks without. Main
statement: a statement is read from the front of the tokens exactly if the words of these tokens are
those of the statement. -/

namespace Pedigree.Source

inductive Word where
  | mark (kind : Token.Kind)
  | name (n : Located String)
  | date (d : Located Date)
deriving DecidableEq

namespace Word

def kind : Word → Token.Kind
  | mark kind => kind
  | name _ => .name
  | date _ => .date

def ofToken? (t : Located Token) : Option Word :=
  match t.value with
  | .name text => some (name ⟨text, t.span⟩)
  | .date text => (Date.parse text).toOption.map fun d => date ⟨d, t.span⟩
  | token => some (mark token.kind)

theorem kind_of_ofToken? {t : Located Token} {w : Word} (h : ofToken? t = some w) :
    t.value.kind = w.kind := by
  obtain ⟨token, span⟩ := t
  cases token with
  | date text =>
    simp only [ofToken?, Option.map_eq_some_iff] at h
    obtain ⟨d, -, rfl⟩ := h
    rfl
  | _ =>
    simp only [ofToken?, Option.some.injEq] at h
    subst h
    rfl

theorem ofToken?_of_name {t : Located Token} (h : t.value.kind = .name) :
    ofToken? t = some (name (t.map Token.text)) := by
  obtain ⟨token, span⟩ := t
  cases token <;> first | rfl | cases h

theorem ofToken?_of_date {t : Located Token} {d : Date} (h : t.value.kind = .date)
    (hd : Date.parse t.value.text = .ok d) : ofToken? t = some (date ⟨d, t.span⟩) := by
  obtain ⟨token, span⟩ := t
  cases token with
  | date text =>
    have hparse : Date.parse text = .ok d := hd
    simp only [ofToken?, hparse]
    rfl
  | _ => cases h

theorem ofToken?_of_mark {t : Located Token} {k : Token.Kind} (h : t.value.kind = k)
    (hname : k ≠ .name) (hdate : k ≠ .date) : ofToken? t = some (mark k) := by
  obtain ⟨token, span⟩ := t
  subst h
  cases token <;> first | rfl | exact absurd rfl hname | exact absurd rfl hdate

end Word

/-- The tokens between two cursors, as words. -/
inductive Reads : Cursor → List Word → Cursor → Prop
  | nil {c : Cursor} : Reads c [] c
  | cons {t : Located Token} {ahead : List (Located Token)} {stop : Nat} {w : Word}
      {ws : List Word} {c : Cursor} : Word.ofToken? t = some w → Reads ⟨ahead, stop⟩ ws c →
      Reads ⟨t :: ahead, stop⟩ (w :: ws) c

variable {c c' c'' : Cursor} {w : Word} {ws ws' : List Word}

namespace Reads

theorem append (h : Reads c ws c') (h' : Reads c' ws' c'') : Reads c (ws ++ ws') c'' := by
  induction h with
  | nil => exact h'
  | cons hw _ ih => exact .cons hw (ih h')

theorem singleton {t : Located Token} (hw : Word.ofToken? t = some w)
    (hahead : c.ahead = t :: c'.ahead) (hstop : c'.stop = c.stop) : Reads c [w] c' := by
  obtain ⟨ahead, stop⟩ := c
  obtain ⟨ahead', stop'⟩ := c'
  subst hahead hstop
  exact .cons hw .nil

theorem split (h : Reads c (ws ++ ws') c'') : ∃ c', Reads c ws c' ∧ Reads c' ws' c'' := by
  induction ws generalizing c with
  | nil => exact ⟨c, .nil, h⟩
  | cons w ws ih =>
    cases h with
    | cons hw h =>
      obtain ⟨c', hfront, hrest⟩ := ih h
      exact ⟨c', .cons hw hfront, hrest⟩

theorem iff_exists_front :
    Reads c ws c' ↔ c'.stop = c.stop ∧
      ∃ front, c.ahead = front ++ c'.ahead ∧ front.map Word.ofToken? = ws.map some := by
  constructor
  · intro h
    induction h with
    | nil => exact ⟨rfl, [], rfl, rfl⟩
    | @cons t ahead stop w ws c hw _ ih =>
      obtain ⟨hstop, front, hahead, hfront⟩ := ih
      exact ⟨hstop, t :: front, congrArg (t :: ·) hahead, by simp [hw, hfront]⟩
  · rintro ⟨hstop, front, hahead, hfront⟩
    induction front generalizing c ws with
    | nil =>
      cases ws with
      | nil =>
        obtain ⟨ahead, stop⟩ := c
        obtain ⟨ahead', stop'⟩ := c'
        obtain rfl : stop' = stop := hstop
        obtain rfl : ahead = ahead' := hahead
        exact .nil
      | cons w ws => cases hfront
    | cons t front ih =>
      cases ws with
      | nil => cases hfront
      | cons w ws =>
        obtain ⟨ahead, stop⟩ := c
        obtain ⟨hw, hws⟩ := List.cons.inj hfront
        subst hahead
        exact .cons hw (ih hstop rfl hws)

end Reads

namespace Statement

def weddingWords : Option (Located Date) → List Word
  | some d => [.mark .leftParen, .date d, .mark .rightParen]
  | none => []

def words : Statement → List Word
  | declaration d =>
    .name d.name :: .mark .leftParen :: .date d.birth :: .mark .range ::
      ((d.death.map Word.date).toList ++ [.mark .rightParen, .mark .terminator])
  | maritalLink l =>
    .name l.left :: .mark .maritalLink :: .name l.right ::
      (weddingWords l.wedding ++ [.mark .terminator])
  | familialLink l =>
    [.name l.parent, .mark .familialLink, .name l.child, .mark .terminator]

theorem reads_of_expect {k : Token.Kind} {t : Located Token} (h : c.expect k = .ok (t, c'))
    (hname : k ≠ .name) (hdate : k ≠ .date) : Reads c [.mark k] c' := by
  obtain ⟨hahead, rfl, hstop⟩ := Cursor.expect_eq_ok.mp h
  exact .singleton (Word.ofToken?_of_mark rfl hname hdate) hahead hstop

theorem reads_of_name {n : Located String} (h : name c = .ok (n, c')) : Reads c [.name n] c' := by
  simp only [name, bind_eq_ok, pure_eq_ok, Prod.exists, Prod.mk.injEq] at h
  obtain ⟨t, _, h, rfl, rfl⟩ := h
  obtain ⟨hahead, hkind, hstop⟩ := Cursor.expect_eq_ok.mp h
  exact .singleton (Word.ofToken?_of_name hkind) hahead hstop

theorem reads_of_date {d : Located Date} (h : date c = .ok (d, c')) : Reads c [.date d] c' := by
  simp only [date, bind_eq_ok, Prod.exists] at h
  obtain ⟨t, c₁, h₁, h⟩ := h
  obtain ⟨hahead, hkind, hstop⟩ := Cursor.expect_eq_ok.mp h₁
  split at h
  · rename_i d' hd
    simp only [pure_eq_ok, Prod.mk.injEq] at h
    obtain ⟨rfl, rfl⟩ := h
    exact .singleton (Word.ofToken?_of_date hkind hd) hahead hstop
  · cases h

theorem reads_of_deathDate {d : Option (Located Date)} (h : deathDate c = .ok (d, c')) :
    Reads c (d.map Word.date).toList c' := by
  simp only [deathDate, bind_eq_ok] at h
  obtain ⟨_, -, h⟩ := h
  split at h
  · simp only [bind_eq_ok, pure_eq_ok, Prod.exists, Prod.mk.injEq] at h
    obtain ⟨_, _, h, rfl, rfl⟩ := h
    exact reads_of_date h
  · simp only [pure_eq_ok, Prod.mk.injEq] at h
    obtain ⟨rfl, rfl⟩ := h
    exact .nil

theorem reads_of_weddingDate {d : Option (Located Date)} (h : weddingDate c = .ok (d, c')) :
    Reads c (weddingWords d) c' := by
  simp only [weddingDate, bind_eq_ok] at h
  obtain ⟨_, -, h⟩ := h
  split at h
  · simp only [bind_eq_ok, pure_eq_ok, Prod.exists, Prod.mk.injEq] at h
    obtain ⟨_, _, hopen, _, _, hd, _, _, hclose, rfl, rfl⟩ := h
    exact (reads_of_expect hopen (by decide) (by decide)).append
      ((reads_of_date hd).append (reads_of_expect hclose (by decide) (by decide)))
  · simp only [pure_eq_ok, Prod.mk.injEq] at h
    obtain ⟨rfl, rfl⟩ := h
    exact .nil

theorem reads_of_readDeclaration {d : Declaration} (h : readDeclaration c = .ok (d, c'))
    (hend : Reads c' [.mark .terminator] c'') : Reads c (declaration d).words c'' := by
  simp only [readDeclaration, bind_eq_ok, pure_eq_ok, Prod.exists, Prod.mk.injEq] at h
  obtain ⟨_, _, hname, _, _, hopen, _, _, hbirth, _, _, hrange, _, _, hdeath, _, _, hclose, rfl,
    rfl⟩ := h
  have hfront := (reads_of_name hname).append <|
    (reads_of_expect hopen (by decide) (by decide)).append <|
    (reads_of_date hbirth).append (reads_of_expect hrange (by decide) (by decide))
  have hback := (reads_of_expect hclose (by decide) (by decide)).append hend
  exact hfront.append ((reads_of_deathDate hdeath).append hback)

theorem reads_of_readMaritalLink {l : MaritalLink} (h : readMaritalLink c = .ok (l, c'))
    (hend : Reads c' [.mark .terminator] c'') : Reads c (maritalLink l).words c'' := by
  simp only [readMaritalLink, bind_eq_ok, pure_eq_ok, Prod.exists, Prod.mk.injEq] at h
  obtain ⟨_, _, hleft, _, _, hsign, _, _, hright, _, _, hwedding, rfl, rfl⟩ := h
  have hfront := (reads_of_name hleft).append <|
    (reads_of_expect hsign (by decide) (by decide)).append (reads_of_name hright)
  exact hfront.append ((reads_of_weddingDate hwedding).append hend)

theorem reads_of_readFamilialLink {l : FamilialLink} (h : readFamilialLink c = .ok (l, c'))
    (hend : Reads c' [.mark .terminator] c'') : Reads c (familialLink l).words c'' := by
  simp only [readFamilialLink, bind_eq_ok, pure_eq_ok, Prod.exists, Prod.mk.injEq] at h
  obtain ⟨_, _, hparent, _, _, hsign, _, _, hchild, rfl, rfl⟩ := h
  have hfront := (reads_of_name hparent).append <|
    (reads_of_expect hsign (by decide) (by decide)).append (reads_of_name hchild)
  exact hfront.append hend

theorem reads_of_body {kind : Kind} {s : Statement} (h : body kind c = .ok (s, c'))
    (hend : Reads c' [.mark .terminator] c'') : Reads c s.words c'' := by
  cases kind with
  | declaration =>
    simp only [body, bind_eq_ok, pure_eq_ok, Prod.exists, Prod.mk.injEq] at h
    obtain ⟨d, _, h, rfl, rfl⟩ := h
    exact reads_of_readDeclaration h hend
  | maritalLink =>
    simp only [body, bind_eq_ok, pure_eq_ok, Prod.exists, Prod.mk.injEq] at h
    obtain ⟨l, _, h, rfl, rfl⟩ := h
    exact reads_of_readMaritalLink h hend
  | familialLink =>
    simp only [body, bind_eq_ok, pure_eq_ok, Prod.exists, Prod.mk.injEq] at h
    obtain ⟨l, _, h, rfl, rfl⟩ := h
    exact reads_of_readFamilialLink h hend

theorem reads_of_read {s : Located Statement} (h : read c = .ok (s, c')) :
    Reads c s.value.words c' := by
  simp only [read, bind_eq_ok] at h
  obtain ⟨first, -, second, -, h⟩ := h
  split at h
  · cases h
  · simp only [bind_eq_ok, pure_eq_ok, Prod.exists, Prod.mk.injEq] at h
    obtain ⟨_, _, hbody, _, _, hterminator, rfl, rfl⟩ := h
    exact reads_of_body hbody (reads_of_expect hterminator (by decide) (by decide))

theorem peek_of_reads (h : Reads c (w :: ws) c') :
    ∃ t, c.peek 0 = .ok t ∧ t.value.kind = w.kind := by
  cases h with
  | cons hw _ => exact ⟨_, rfl, Word.kind_of_ofToken? hw⟩

theorem expect_of_reads (h : Reads c (w :: ws) c') :
    ∃ t c₁, c.expect w.kind = .ok (t, c₁) ∧ Word.ofToken? t = some w ∧ Reads c₁ ws c' := by
  cases h with
  | @cons t ahead stop _ _ _ hw h =>
    have hkind := Word.kind_of_ofToken? hw
    exact ⟨t, ⟨ahead, stop⟩, Cursor.expect_eq_ok.mpr ⟨rfl, hkind, rfl⟩, hw, h⟩

theorem name_of_reads {n : Located String} (h : Reads c (.name n :: ws) c') :
    ∃ c₁, name c = .ok (n, c₁) ∧ Reads c₁ ws c' := by
  obtain ⟨t, c₁, hexpect, hw, hrest⟩ := expect_of_reads h
  have hn : t.map Token.text = n := by
    rw [Word.ofToken?_of_name (Word.kind_of_ofToken? hw)] at hw
    exact Word.name.inj (Option.some.inj hw)
  refine ⟨c₁, ?_, hrest⟩
  simp only [name, bind_eq_ok, pure_eq_ok, Prod.exists]
  exact ⟨t, c₁, hexpect, by rw [hn]⟩

theorem date_of_reads {d : Located Date} (h : Reads c (.date d :: ws) c') :
    ∃ c₁, date c = .ok (d, c₁) ∧ Reads c₁ ws c' := by
  obtain ⟨⟨token, span⟩, c₁, hexpect, hw, hrest⟩ := expect_of_reads h
  refine ⟨c₁, ?_, hrest⟩
  cases token with
  | date text =>
    simp only [Word.ofToken?, Option.map_eq_some_iff, Word.date.injEq] at hw
    obtain ⟨d', hparse, rfl⟩ := hw
    simp only [date, bind_eq_ok, Prod.exists]
    refine ⟨_, c₁, hexpect, ?_⟩
    cases hd : Date.parse text with
    | ok d =>
      rw [hd] at hparse
      cases hparse
      simp only [Token.text, hd]
      rfl
    | error e =>
      rw [hd] at hparse
      cases hparse
  | _ => cases hw

theorem deathDate_of_reads {d : Option (Located Date)}
    (h : Reads c ((d.map Word.date).toList ++ .mark .rightParen :: ws) c') :
    ∃ c₁, deathDate c = .ok (d, c₁) ∧ Reads c₁ (.mark .rightParen :: ws) c' := by
  cases d with
  | none =>
    obtain ⟨next, hpeek, hkind⟩ := peek_of_reads h
    have hnot : next.value.kind ≠ .date := by simp [hkind, Word.kind]
    exact ⟨c, by simp [deathDate, hpeek, hnot, bind, Except.bind, pure, Except.pure], h⟩
  | some d =>
    obtain ⟨next, hpeek, hkind⟩ := peek_of_reads h
    obtain ⟨c₁, hdate, hrest⟩ := date_of_reads h
    have hdue : next.value.kind = .date := hkind
    refine ⟨c₁, ?_, hrest⟩
    simp [deathDate, hpeek, hdue, hdate, bind, Except.bind, pure, Except.pure]

theorem weddingDate_of_reads {d : Option (Located Date)}
    (h : Reads c (weddingWords d ++ .mark .terminator :: ws) c') :
    ∃ c₁, weddingDate c = .ok (d, c₁) ∧ Reads c₁ (.mark .terminator :: ws) c' := by
  cases d with
  | none =>
    obtain ⟨next, hpeek, hkind⟩ := peek_of_reads h
    have hnot : next.value.kind ≠ .leftParen := by simp [hkind, Word.kind]
    exact ⟨c, by simp [weddingDate, hpeek, hnot, bind, Except.bind, pure, Except.pure], h⟩
  | some d =>
    obtain ⟨next, hpeek, hkind⟩ := peek_of_reads h
    obtain ⟨_, c₁, hopen, -, h⟩ := expect_of_reads h
    obtain ⟨c₂, hdate, h⟩ := date_of_reads h
    obtain ⟨_, c₃, hclose, -, h⟩ := expect_of_reads h
    have hleft : next.value.kind = .leftParen := hkind
    simp only [Word.kind] at hopen hclose
    refine ⟨c₃, ?_, h⟩
    simp [weddingDate, hpeek, hleft, hopen, hdate, hclose, bind, Except.bind, pure, Except.pure]

def Kind.sign : Kind → Token.Kind
  | declaration => .leftParen
  | maritalLink => .maritalLink
  | familialLink => .familialLink

theorem exists_words (s : Statement) :
    ∃ ws, s.words = .name s.subject :: .mark s.kind.sign :: ws := by
  cases s <;> exact ⟨_, rfl⟩

theorem ahead?_of_reads {n : Located String} {kind : Kind}
    (h : Reads c (.name n :: .mark kind.sign :: ws) c') :
    ∃ t u, c.peek 0 = .ok t ∧ c.peek 1 = .ok u ∧ Kind.ahead? c = some kind := by
  cases h with
  | @cons t _ _ _ _ _ hn h =>
    cases h with
    | @cons u _ _ _ _ _ hsign _ =>
      have ht : t.value.kind = .name := Word.kind_of_ofToken? hn
      have hu : u.value.kind = kind.sign := Word.kind_of_ofToken? hsign
      refine ⟨t, u, rfl, rfl, ?_⟩
      cases kind <;> simp [Kind.ahead?, Cursor.lookahead, ht, hu, Kind.sign]

theorem body_of_reads {s : Statement} (h : Reads c s.words c') :
    ∃ c₁, body s.kind c = .ok (s, c₁) ∧ Reads c₁ [.mark .terminator] c' := by
  cases s with
  | declaration d =>
    obtain ⟨c₁, h₁, h⟩ := name_of_reads h
    obtain ⟨_, c₂, h₂, -, h⟩ := expect_of_reads h
    obtain ⟨c₃, h₃, h⟩ := date_of_reads h
    obtain ⟨_, c₄, h₄, -, h⟩ := expect_of_reads h
    obtain ⟨c₅, h₅, h⟩ := deathDate_of_reads h
    obtain ⟨_, c₆, h₆, -, h⟩ := expect_of_reads h
    simp only [Word.kind] at h₂ h₄ h₆
    refine ⟨c₆, ?_, h⟩
    simp [kind, body, readDeclaration, h₁, h₂, h₃, h₄, h₅, h₆, bind, Except.bind, pure, Except.pure]
  | maritalLink l =>
    obtain ⟨c₁, h₁, h⟩ := name_of_reads h
    obtain ⟨_, c₂, h₂, -, h⟩ := expect_of_reads h
    obtain ⟨c₃, h₃, h⟩ := name_of_reads h
    obtain ⟨c₄, h₄, h⟩ := weddingDate_of_reads h
    simp only [Word.kind] at h₂
    refine ⟨c₄, ?_, h⟩
    simp [kind, body, readMaritalLink, h₁, h₂, h₃, h₄, bind, Except.bind, pure, Except.pure]
  | familialLink l =>
    obtain ⟨c₁, h₁, h⟩ := name_of_reads h
    obtain ⟨_, c₂, h₂, -, h⟩ := expect_of_reads h
    obtain ⟨c₃, h₃, h⟩ := name_of_reads h
    simp only [Word.kind] at h₂
    refine ⟨c₃, ?_, h⟩
    simp [kind, body, readFamilialLink, h₁, h₂, h₃, bind, Except.bind, pure, Except.pure]

theorem read_of_reads {s : Statement} (h : Reads c s.words c') :
    ∃ span, read c = .ok (⟨s, span⟩, c') := by
  obtain ⟨c₁, hbody, hend⟩ := body_of_reads h
  obtain ⟨terminator, c₂, hterminator, -, hnil⟩ := expect_of_reads hend
  obtain ⟨ws, hwords⟩ := exists_words s
  rw [hwords] at h
  obtain ⟨t, u, hfirst, hsecond, hkind⟩ := ahead?_of_reads h
  cases hnil
  refine ⟨t.span.union terminator.span, ?_⟩
  simp only [Word.kind] at hterminator
  simp [read, hfirst, hsecond, hkind, hbody, hterminator, bind, Except.bind, pure, Except.pure]

theorem read_eq_ok_iff {s : Statement} :
    (∃ span, read c = .ok (⟨s, span⟩, c')) ↔ Reads c s.words c' := by
  constructor
  · rintro ⟨span, h⟩
    exact reads_of_read h
  · exact read_of_reads

end Statement

namespace Block

variable {c c' : Cursor} {ss : List (Located Statement)} {r : Except Fault Cursor}

theorem Lists.exists_reads (h : Lists c ss r) :
    ∃ c', Reads c (ss.flatMap (·.value.words)) c' ∧ Lists c' [] r := by
  induction h with
  | exhausted hnext => exact ⟨_, .nil, .exhausted hnext⟩
  | closed hnext hbrace => exact ⟨_, .nil, .closed hnext hbrace⟩
  | malformed hnext hbrace hread => exact ⟨_, .nil, .malformed hnext hbrace hread⟩
  | cons _ _ hread _ ih =>
    obtain ⟨c', hrest, hend⟩ := ih
    exact ⟨c', (Statement.reads_of_read hread).append hrest, hend⟩

theorem lists_of_reads {ss : List Statement} (h : Reads c (ss.flatMap Statement.words) c')
    (hend : Lists c' [] r) : ∃ ss', ss'.map Located.value = ss ∧ Lists c ss' r := by
  induction ss generalizing c with
  | nil =>
    cases h
    exact ⟨[], rfl, hend⟩
  | cons s ss ih =>
    obtain ⟨c₁, hs, hss⟩ := h.split
    obtain ⟨span, hread⟩ := Statement.read_of_reads hs
    obtain ⟨ss', rfl, hlists⟩ := ih hss
    obtain ⟨ws, hwords⟩ := Statement.exists_words s
    rw [hwords] at hs
    obtain ⟨next, hpeek, hkind⟩ := Statement.peek_of_reads hs
    have hbrace : next.value.kind ≠ .rightBrace := by simp [hkind, Word.kind]
    exact ⟨⟨s, span⟩ :: ss', rfl, .cons hpeek hbrace hread hlists⟩

theorem parse_of_lists {c₁ : Cursor} (hopen : opening c = .ok c₁) (h : Lists c₁ ss r) :
    parse c = (ss, r.bind closing) := by
  unfold parse read
  rw [hopen]
  simp only [statements_eq_of_lists h, applyAll_collect, List.nil_append, settle]
  cases r <;> rfl

theorem opening_eq_ok_iff :
    opening c = .ok c' ↔ Reads c [.mark .familyTree, .mark .leftBrace] c' := by
  constructor
  · intro h
    simp only [opening, Statement.bind_eq_ok, Statement.pure_eq_ok, Prod.exists] at h
    obtain ⟨_, c₁, hkeyword, _, _, hbrace, rfl⟩ := h
    exact (Statement.reads_of_expect hkeyword (by decide) (by decide)).append
      (Statement.reads_of_expect hbrace (by decide) (by decide))
  · intro h
    obtain ⟨_, c₁, hkeyword, -, h⟩ := Statement.expect_of_reads h
    obtain ⟨_, c₂, hbrace, -, h⟩ := Statement.expect_of_reads h
    cases h
    simp only [Word.kind] at hkeyword hbrace
    simp [opening, hkeyword, hbrace, bind, Except.bind, pure, Except.pure]

theorem closing_eq_ok_iff : closing c = .ok () ↔ Reads c [.mark .rightBrace] ⟨[], c.stop⟩ := by
  constructor
  · intro h
    simp only [closing, Statement.bind_eq_ok, Prod.exists] at h
    obtain ⟨t, ⟨ahead, stop⟩, hbrace, h⟩ := h
    have hreads := Statement.reads_of_expect hbrace (by decide) (by decide)
    obtain ⟨-, -, hstop⟩ := Cursor.expect_eq_ok.mp hbrace
    cases ahead with
    | nil =>
      obtain rfl : stop = c.stop := hstop
      exact hreads
    | cons first rest => cases h
  · intro h
    obtain ⟨_, c₁, hbrace, -, h⟩ := Statement.expect_of_reads h
    cases h
    simp only [Word.kind] at hbrace
    simp [closing, hbrace, bind, Except.bind, pure, Except.pure]

def words (ss : List Statement) : List Word :=
  .mark .familyTree :: .mark .leftBrace :: (ss.flatMap Statement.words ++ [.mark .rightBrace])

theorem parse_of_opening_error {e : Fault} (h : opening c = .error e) :
    parse c = ([], .error e) := by
  rw [parse, read, h]

theorem exists_reads_of_parse (c : Cursor) :
    ∃ ws c', Reads c (ws ++ (parse c).1.flatMap (·.value.words)) c' := by
  cases hopen : opening c with
  | error e => exact ⟨[], c, by rw [parse_of_opening_error hopen]; exact .nil⟩
  | ok c₁ =>
    obtain ⟨ss, r, hlists⟩ := exists_lists c₁
    obtain ⟨c', hreads, -⟩ := hlists.exists_reads
    rw [parse_of_lists hopen hlists]
    exact ⟨_, c', (opening_eq_ok_iff.mp hopen).append hreads⟩

theorem reads_of_parse (h : (parse c).2 = .ok ()) :
    Reads c (words ((parse c).1.map Located.value)) ⟨[], c.stop⟩ := by
  cases hopen : opening c with
  | error e =>
    rw [parse_of_opening_error hopen] at h
    cases h
  | ok c₁ =>
    obtain ⟨ss, r, hlists⟩ := exists_lists c₁
    rw [parse_of_lists hopen hlists] at h ⊢
    cases r with
    | error e => cases h
    | ok c₂ =>
      obtain ⟨c', hreads, hend⟩ := hlists.exists_reads
      cases hend with
      | closed _ _ =>
        have hfront := (opening_eq_ok_iff.mp hopen).append hreads
        have hstop : c₂.stop = c.stop := (Reads.iff_exists_front.mp hfront).1
        have hall := hfront.append (closing_eq_ok_iff.mp h)
        rw [hstop] at hall
        simpa [words, List.flatMap_map] using hall

theorem parse_of_reads {ss : List Statement} (h : Reads c (words ss) ⟨[], c.stop⟩) :
    (parse c).2 = .ok () ∧ (parse c).1.map Located.value = ss := by
  have hwords : Reads c ([.mark .familyTree, .mark .leftBrace] ++
      (ss.flatMap Statement.words ++ [.mark .rightBrace])) ⟨[], c.stop⟩ := h
  obtain ⟨c₁, hopen, h⟩ := hwords.split
  obtain ⟨c₂, hss, hbrace⟩ := h.split
  obtain ⟨next, hpeek, hkind⟩ := Statement.peek_of_reads hbrace
  obtain ⟨ss', rfl, hlists⟩ := lists_of_reads hss (.closed hpeek hkind)
  have hstop : c₂.stop = c.stop :=
    (Reads.iff_exists_front.mp (hopen.append hss)).1
  rw [← hstop] at hbrace
  rw [parse_of_lists (opening_eq_ok_iff.mpr hopen) hlists]
  exact ⟨closing_eq_ok_iff.mpr hbrace, rfl⟩

end Block

end Pedigree.Source

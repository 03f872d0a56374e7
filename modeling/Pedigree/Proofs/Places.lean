import Pedigree.Proofs.Drafts
import Pedigree.Proofs.Faults
import Pedigree.Proofs.Strays

/-! Where diagnostics point. Main statement: whenever a source cannot be read, every span of the
diagnostic lies between characters of the source, and its bytes are what the diagnostic is about:
the stray character, the name that is unknown or declared twice, the link that is refused. -/

namespace Pedigree.Source

open scoped List

namespace Span

variable {source text : String} {s s' : Span}

theorem LiesIn.union (h : s.LiesIn source) (h' : s'.LiesIn source) :
    (s.union s').LiesIn source := by
  refine ⟨Nat.max_le.mpr ⟨h.stop_le, h'.stop_le⟩, ?_, ?_⟩
  · rcases Nat.le_total s.start s'.start with hle | hle
    · simpa [Span.union, Nat.min_eq_left hle] using h.start_isValid
    · simpa [Span.union, Nat.min_eq_right hle] using h'.start_isValid
  · rcases Nat.le_total s.stop s'.stop with hle | hle
    · simpa [Span.union, Nat.max_eq_right hle] using h'.stop_isValid
    · simpa [Span.union, Nat.max_eq_left hle] using h.stop_isValid

theorem liesIn_emptyAt_end (source : String) :
    (Span.emptyAt source.utf8ByteSize).LiesIn source := by
  have hend : (⟨source.utf8ByteSize⟩ : String.Pos.Raw).IsValid source :=
    String.Pos.Raw.isValid_of_eq_rawEndPos rfl
  exact ⟨Nat.le_refl _, hend, hend⟩

theorem start_union_lt (h : s.start < s.stop) : (s.union s').start < (s.union s').stop := by
  simp only [Span.union]
  omega

end Span

structure Located.Written (source : String) (n : Located String) : Prop where
  selects : n.span.Selects source n.value
  nonempty : n.span.start < n.span.stop

theorem stray_of_tokens {source : String} {e : Fault} (h : tokens source = .error e) :
    ∃ c, e = .strayCharacter c ∧ (c.map String.singleton).Written source := by
  obtain ⟨before, c, after, hsource, rfl, hstart, hstop, -⟩ := exists_stray_of_scan h
  rw [Nat.zero_add] at hstart
  refine ⟨c, rfl, Span.selects_character hsource hstart hstop, ?_⟩
  have hpos := c.value.utf8Size_pos
  show c.span.start < c.span.stop
  omega

theorem written_of_ofToken? {source : String} {ts : List (Located Token)} (h : Covers source 0 ts)
    {t : Located Token} (ht : t ∈ ts) {n : Located String} (hn : Word.ofToken? t = some (.name n)) :
    n.Written source ∧ n.span = t.span := by
  have hselects := h.selects t ht
  have hnonempty := h.nonempty t ht
  have hkind := Word.kind_of_ofToken? hn
  rw [Word.ofToken?_of_name hkind] at hn
  obtain rfl := Word.name.inj (Option.some.inj hn)
  exact ⟨⟨hselects, hnonempty⟩, rfl⟩

def statementsOf (source : String) : List (Located Statement) :=
  match tokens source with
  | .ok ts => (Block.parse (.ofTokens ts source.utf8ByteSize)).1
  | .error _ => []

theorem exists_tokens_of_sublist {source : String} {ts : List (Located Token)}
    (h : tokens source = .ok ts) {ws : List Word}
    (hws : ws <+ (statementsOf source).flatMap (·.value.words)) :
    ∃ us, us <+ ts ∧ us.map Word.ofToken? = ws.map some := by
  obtain ⟨front, c', hreads⟩ := Block.exists_reads_of_parse (.ofTokens ts source.utf8ByteSize)
  obtain ⟨-, us, hahead, hus⟩ := Reads.iff_exists_front.mp hreads
  rw [statementsOf, h] at hws
  have hall : ws.map some <+ us.map Word.ofToken? := by
    rw [hus]
    exact (hws.trans (List.sublist_append_right front _)).map some
  obtain ⟨vs, hvs, hmap⟩ := List.sublist_map_iff.mp hall
  have hfront : us <+ ts.filter (·.value.kind ≠ .comment) := by
    have hprefix : us <+ us ++ c'.ahead := List.sublist_append_left _ _
    rwa [← hahead] at hprefix
  exact ⟨vs, hvs.trans (hfront.trans List.filter_sublist), hmap.symm⟩

theorem written_of_mem {source : String} {ts : List (Located Token)} (h : tokens source = .ok ts)
    {n : Located String} (hn : [.name n] <+ (statementsOf source).flatMap (·.value.words)) :
    n.Written source := by
  obtain ⟨us, hsub, hus⟩ := exists_tokens_of_sublist h hn
  obtain ⟨t, _, rfl, ht, -⟩ := List.map_eq_cons_iff.mp hus
  exact (written_of_ofToken? (covers_of_tokens h) (hsub.subset List.mem_cons_self) ht).1

theorem ordered_of_sublist {source : String} {ts : List (Located Token)}
    (h : tokens source = .ok ts) {a b : Located String} (ws : List Word)
    (hab : .name a :: (ws ++ [.name b]) <+ (statementsOf source).flatMap (·.value.words)) :
    a.span.stop ≤ b.span.start ∧ (ws ≠ [] → a.span.stop < b.span.start) := by
  have hcovers := covers_of_tokens h
  obtain ⟨us, hsub, hus⟩ := exists_tokens_of_sublist h hab
  obtain ⟨t, vs, rfl, ht, hvs⟩ := List.map_eq_cons_iff.mp hus
  rw [List.map_append] at hvs
  obtain ⟨ms, last, rfl, hms, hlast⟩ := List.map_eq_append_iff.mp hvs
  obtain ⟨u, _, rfl, hu, hnil⟩ := List.map_eq_cons_iff.mp hlast
  have hmem : ∀ x ∈ t :: (ms ++ u :: _), x ∈ ts := hsub.subset
  have hpairs := hcovers.ordered.sublist hsub
  obtain ⟨hfirst, hpairs⟩ := List.pairwise_cons.mp hpairs
  obtain ⟨-, -, hbefore⟩ := List.pairwise_append.mp hpairs
  have ha : a.span = t.span := (written_of_ofToken? hcovers (hmem t (by simp)) ht).2
  have hb : b.span = u.span := (written_of_ofToken? hcovers (hmem u (by simp)) hu).2
  rw [ha, hb]
  refine ⟨hfirst u (by simp), ?_⟩
  intro hne
  obtain ⟨m, hm⟩ : ∃ m, m ∈ ms := by
    apply List.exists_mem_of_ne_nil
    rintro rfl
    exact hne (List.map_eq_nil_iff.mp hms.symm)
  have hstart : t.span.stop ≤ m.span.start := hfirst m (by simp [hm])
  have hwide : m.span.start < m.span.stop := hcovers.nonempty m (hmem m (by simp [hm]))
  have hstop : m.span.stop ≤ u.span.start := hbefore m hm u List.mem_cons_self
  omega

def Statement.ends? : Statement → Option (Located String × Located String)
  | declaration _ => none
  | maritalLink l => some (l.left, l.right)
  | familialLink l => some (l.parent, l.child)

namespace Statement

theorem declaration_or_link (s : Statement) :
    (∃ l, s = declaration l) ∨ ∃ a b, s.ends? = some (a, b) := by
  cases s with
  | declaration l => exact Or.inl ⟨l, rfl⟩
  | maritalLink l => exact Or.inr ⟨_, _, rfl⟩
  | familialLink l => exact Or.inr ⟨_, _, rfl⟩

theorem ends_sublist_words {s : Statement} {a b : Located String} (h : s.ends? = some (a, b)) :
    ∃ w, [.name a, w, .name b] <+ s.words ∧ s.place = a.span.union b.span := by
  cases s with
  | declaration l => cases h
  | maritalLink l =>
    cases h
    exact ⟨.mark .maritalLink, by simp [words], rfl⟩
  | familialLink l =>
    cases h
    exact ⟨.mark .familialLink, by simp [words], rfl⟩

theorem name_sublist_words {s : Statement} {l : Declaration} (h : s.declaration? = some l) :
    [.name l.name, .mark .leftParen] <+ s.words := by
  cases s with
  | declaration l' =>
    cases h
    simp [words]
  | maritalLink l' => cases h
  | familialLink l' => cases h

variable {t : FamilyTree}

theorem lookUp_then_eq_error {a b : Located String} {x : Obstacle}
    {f : PersonId → PersonId → Except Refusal FamilyTree}
    (h : (do
      let p ← lookUp t a
      let q ← lookUp t b
      (f p q).mapError .refused) = .error x) :
    (∃ n, (n = a ∨ n = b) ∧ t.find? n.value = none ∧ x = .undeclared n) ∨
      ∃ p q r, f p q = .error r ∧ x = .refused r := by
  cases hp : t.find? a.value with
  | none =>
    have ha : lookUp t a = .error (.undeclared a) := by simp [lookUp, hp]
    rw [ha] at h
    cases h
    exact Or.inl ⟨a, Or.inl rfl, hp, rfl⟩
  | some p =>
    have ha : lookUp t a = .ok p := lookUp_eq_ok.mpr hp
    rw [ha] at h
    cases hq : t.find? b.value with
    | none =>
      have hb : lookUp t b = .error (.undeclared b) := by simp [lookUp, hq]
      rw [hb] at h
      cases h
      exact Or.inl ⟨b, Or.inr rfl, hq, rfl⟩
    | some q =>
      have hb : lookUp t b = .ok q := lookUp_eq_ok.mpr hq
      rw [hb] at h
      have hf : (f p q).mapError .refused = .error x := h
      cases hr : f p q with
      | ok t' =>
        rw [hr] at hf
        cases hf
      | error r =>
        rw [hr] at hf
        cases hf
        exact Or.inr ⟨p, q, r, hr, rfl⟩

theorem enter_link_eq_error {s : Statement} {a b : Located String} (hs : s.ends? = some (a, b))
    {x : Obstacle} (h : s.enter t = .error x) :
    (∃ n, (n = a ∨ n = b) ∧ t.find? n.value = none ∧ x = .undeclared n) ∨
      ∃ r, x = .refused r ∧
        (Fault.refusalCode r = .selfLink ∨ Fault.refusalCode r = .tooManyParents) := by
  cases s with
  | declaration l => cases hs
  | maritalLink l =>
    cases hs
    refine (lookUp_then_eq_error (f := fun p q => t.linkSpouses p q (l.wedding.map Located.value))
      h).imp_right ?_
    rintro ⟨p, q, r, hr, rfl⟩
    obtain ⟨-, rfl⟩ := FamilyTree.linkSpouses_eq_error.mp hr
    exact ⟨_, rfl, Or.inl rfl⟩
  | familialLink l =>
    cases hs
    refine (lookUp_then_eq_error (f := t.linkChild) h).imp_right ?_
    rintro ⟨p, q, r, hr, rfl⟩
    rcases FamilyTree.linkChild_eq_error.mp hr with ⟨-, rfl⟩ | ⟨-, -, rfl⟩
    · exact ⟨_, rfl, Or.inl rfl⟩
    · exact ⟨_, rfl, Or.inr rfl⟩

theorem enter_declaration_eq_error {l : Declaration} {x : Obstacle}
    (h : enter t (declaration l) = .error x) :
    x = .refused (.alreadyDeclared l.name.value) ∧ (t.find? l.name.value).isSome := by
  rw [enter] at h
  cases hd : t.declare l.name.value l.birth.value (l.death.map Located.value) with
  | ok r =>
    rw [hd] at h
    cases h
  | error r =>
    obtain ⟨hsome, rfl⟩ := FamilyTree.declare_eq_error.mp hd
    rw [hd] at h
    cases h
    exact ⟨rfl, hsome⟩

end Statement

def BreaksAt (source : String) (before : List (Located Statement)) (s : Located Statement)
    (x : Obstacle) : Prop :=
  ∃ after t, statementsOf source = before ++ s :: after ∧ enterAll before = .ok t ∧
    s.value.enter t = .error x

def Diagnostic.Points (source : String) (d : Diagnostic) : Prop :=
  match d.code with
  | .strayCharacter =>
    ∃ c, d.message = s!"unexpected character `{Text.escape c}`" ∧
      d.primary.span.Selects source (.singleton c)
  | .unexpectedToken | .unrecognizedStatement | .trailingInput =>
    ∃ ts, tokens source = .ok ts ∧
      ∃ t ∈ ts, ∃ u ∈ ts, d.primary.span = t.span.union u.span
  | .incompleteInput => d.primary.span = .emptyAt source.utf8ByteSize
  | .undeclaredPerson =>
    ∃ before s name, BreaksAt source before s (.undeclared name) ∧
      declarationOf? before name.value = none ∧
      d.message = s!"person `{name.value}` is not declared" ∧
      d.primary.span.Selects source name.value
  | .duplicateDeclaration =>
    ∃ before s l first context,
      BreaksAt source before s (.refused (.alreadyDeclared l.name.value)) ∧
      s.value = .declaration l ∧ declarationOf? before l.name.value = some first ∧
      d.context = some context ∧ d.primary.span = l.name.span ∧
      context.span = first.name.span ∧ d.primary.span.Selects source l.name.value ∧
      context.span.Selects source l.name.value ∧ context.span.stop < d.primary.span.start
  | .selfLink | .tooManyParents =>
    ∃ before s refusal a b, BreaksAt source before s (.refused refusal) ∧
      Fault.refusalCode refusal = d.code ∧ s.value.ends? = some (a, b) ∧
      a.Written source ∧ b.Written source ∧
      d.primary.span.start = a.span.start ∧ d.primary.span.stop = b.span.stop

/-- A diagnostic whose spans can be cut out of the source and are what it says. Only the end of the
source is pointed at by an empty span. -/
structure Diagnostic.PointsInto (source : String) (d : Diagnostic) : Prop where
  primary : d.primary.span.LiesIn source
  context : ∀ label, d.context = some label → label.span.LiesIn source
  nonempty : d.code ≠ .incompleteInput → d.primary.span.start < d.primary.span.stop
  points : d.Points source

variable {source : String} {e : Fault}

theorem pointsInto_of_stray (h : tokens source = .error e) : e.diagnostic.PointsInto source := by
  obtain ⟨c, rfl, hc⟩ := stray_of_tokens h
  exact ⟨hc.selects.toLiesIn, nofun, fun _ => hc.nonempty, c.value, rfl, hc.selects⟩

theorem pointsInto_of_standsIn {ts : List (Located Token)} (h : tokens source = .ok ts)
    (he : e.StandsIn (.ofTokens ts source.utf8ByteSize)) : e.diagnostic.PointsInto source := by
  have hcovers := covers_of_tokens h
  cases he with
  | @tokens e t u ht hu hspan hcontext hcode =>
    have ht' : t ∈ ts := List.mem_of_mem_filter ht
    have hu' : u ∈ ts := List.mem_of_mem_filter hu
    refine ⟨?_, ?_, ?_, ?_⟩
    · rw [hspan]
      exact (hcovers.selects t ht').toLiesIn.union (hcovers.selects u hu').toLiesIn
    · rw [hcontext]
      nofun
    · intro _
      rw [hspan]
      exact Span.start_union_lt (hcovers.nonempty t ht')
    · have hpoints : ∃ ts, tokens source = .ok ts ∧
          ∃ t ∈ ts, ∃ u ∈ ts, e.diagnostic.primary.span = t.span.union u.span :=
        ⟨ts, h, t, ht', u, hu', hspan⟩
      rcases hcode with hcode | hcode | hcode <;>
        simpa only [Diagnostic.Points, hcode] using hpoints
  | ending due =>
    exact ⟨Span.liesIn_emptyAt_end source, nofun, fun h => absurd rfl h, rfl⟩

theorem words_sublist_of_mem {s : Located Statement} {ss : List (Located Statement)} (h : s ∈ ss) :
    s.value.words <+ ss.flatMap (·.value.words) := by
  obtain ⟨xs, ys, rfl⟩ := List.append_of_mem h
  rw [List.flatMap_append, List.flatMap_cons]
  exact (List.sublist_append_left _ _).trans (List.sublist_append_right _ _)

variable {before : List (Located Statement)} {s : Located Statement} {x : Obstacle}

theorem BreaksAt.words_sublist (h : BreaksAt source before s x) :
    s.value.words <+ (statementsOf source).flatMap (·.value.words) := by
  obtain ⟨after, -, hss, -, -⟩ := h
  exact words_sublist_of_mem (hss ▸ List.mem_append_right before List.mem_cons_self)

theorem pointsInto_of_undeclared {ts : List (Located Token)} (h : tokens source = .ok ts)
    {name : Located String} (hb : BreaksAt source before s (.undeclared name))
    (hname : [.name name] <+ s.value.words) (hnone : declarationOf? before name.value = none) :
    (faultAfter before s.value (.undeclared name)).diagnostic.PointsInto source := by
  have hwritten := written_of_mem h (hname.trans hb.words_sublist)
  exact ⟨hwritten.selects.toLiesIn, nofun, fun _ => hwritten.nonempty,
    before, s, name, hb, hnone, rfl, hwritten.selects⟩

theorem pointsInto_of_link {ts : List (Located Token)} (h : tokens source = .ok ts)
    {r : Refusal} (hb : BreaksAt source before s (.refused r)) {a b : Located String}
    (hs : s.value.ends? = some (a, b))
    (hr : Fault.refusalCode r = .selfLink ∨ Fault.refusalCode r = .tooManyParents) :
    (faultAfter before s.value (.refused r)).diagnostic.PointsInto source := by
  obtain ⟨w, hwords, hplace⟩ := Statement.ends_sublist_words hs
  have hall := hwords.trans hb.words_sublist
  have ha : a.Written source := written_of_mem h (.trans (by simp) hall)
  have hb' : b.Written source := written_of_mem h (.trans (by simp) hall)
  obtain ⟨hstart, hstop⟩ := Span.union_of_le (ordered_of_sublist h [w] hall).1
  have hliesIn := ha.selects.toLiesIn.union hb'.selects.toLiesIn
  have hnonempty : (a.span.union b.span).start < (a.span.union b.span).stop :=
    Span.start_union_lt ha.nonempty
  rw [faultAfter, hplace]
  cases r with
  | alreadyDeclared name => rcases hr with hr | hr <;> cases hr
  | selfLink _ | tooManyParents _ =>
    refine ⟨hliesIn, ?_, fun _ => hnonempty, before, s, _, a, b, hb, rfl, hs, ha, hb', hstart,
      hstop⟩
    rintro _ ⟨⟩

theorem pointsInto_of_duplicate {ts : List (Located Token)} (h : tokens source = .ok ts)
    {l : Declaration} (hb : BreaksAt source before s (.refused (.alreadyDeclared l.name.value)))
    (hs : s.value = .declaration l) {first : Declaration}
    (hfirst : declarationOf? before l.name.value = some first) :
    (faultAfter before s.value (.refused (.alreadyDeclared l.name.value))).diagnostic.PointsInto
      source := by
  obtain ⟨after, -, hss, -, -⟩ := id hb
  have hname : first.name.value = l.name.value := by
    simpa using List.find?_some hfirst
  have hmem : first ∈ declarations before := List.mem_of_find?_eq_some hfirst
  obtain ⟨s₀, hs₀, hdeclaration⟩ := List.mem_filterMap.mp hmem
  have hl : [.name l.name] <+ s.value.words := by
    rw [hs]
    simp [Statement.words]
  -- The first declaration stands among the statements before, and its parenthesis is in between.
  have hall : .name first.name :: ([.mark .leftParen] ++ [.name l.name]) <+
      (statementsOf source).flatMap (·.value.words) := by
    have hfront : [Word.name first.name, .mark .leftParen] <+ before.flatMap (·.value.words) :=
      (Statement.name_sublist_words hdeclaration).trans (words_sublist_of_mem hs₀)
    have hback : [Word.name l.name] <+ (s :: after).flatMap (·.value.words) :=
      hl.trans (words_sublist_of_mem List.mem_cons_self)
    rw [hss, List.flatMap_append]
    exact hfront.append hback
  have hwritten : l.name.Written source := written_of_mem h (hl.trans hb.words_sublist)
  have hwritten' : first.name.Written source := written_of_mem h (.trans (by simp) hall)
  have hbefore : first.name.span.stop < l.name.span.start :=
    (ordered_of_sublist h _ hall).2 (by simp)
  have hfault : faultAfter before s.value (.refused (.alreadyDeclared l.name.value)) =
      .refused (.alreadyDeclared l.name.value) l.name.span (some first.name.span) := by
    rw [faultAfter, hs]
    simp [Statement.place, Statement.declaration?, hfirst]
  rw [hfault]
  have hselects : first.name.span.Selects source l.name.value := hname ▸ hwritten'.selects
  refine ⟨hwritten.selects.toLiesIn, ?_, fun _ => hwritten.nonempty, ?_⟩
  · rintro _ ⟨⟩
    exact hselects.toLiesIn
  · exact ⟨before, s, l, first, _, hb, hs, hfirst, rfl, rfl, rfl, hwritten.selects, hselects,
      hbefore⟩

theorem pointsInto_of_breaksAt {ts : List (Located Token)} (h : tokens source = .ok ts)
    (hb : BreaksAt source before s x) :
    (faultAfter before s.value x).diagnostic.PointsInto source := by
  obtain ⟨after, t, -, ht, hx⟩ := id hb
  have hfounded := Founded.of_enterAll ht
  rcases s.value.declaration_or_link with ⟨l, hs⟩ | ⟨a, b, hs⟩
  · rw [hs] at hx
    obtain ⟨rfl, hsome⟩ := Statement.enter_declaration_eq_error hx
    rw [← hfounded.isSome_declarationOf?] at hsome
    obtain ⟨first, hfirst⟩ := Option.isSome_iff_exists.mp hsome
    exact pointsInto_of_duplicate h hb hs hfirst
  · rcases Statement.enter_link_eq_error hs hx with ⟨n, hn, hnone, rfl⟩ | ⟨r, rfl, hr⟩
    · obtain ⟨w, hwords, -⟩ := Statement.ends_sublist_words hs
      have hname : [.name n] <+ s.value.words := by
        refine .trans ?_ hwords
        rcases hn with rfl | rfl <;> simp
      have hundeclared : declarationOf? before n.value = none := by
        rw [← Option.not_isSome_iff_eq_none, hfounded.isSome_declarationOf?, hnone]
        simp
      exact pointsInto_of_undeclared h hb hname hundeclared
    · exact pointsInto_of_link h hb hs hr

/-- Diagnostics point at the right bytes: whatever makes a source fail, every span of its diagnostic
lies between characters and is what the diagnostic is about. -/
theorem readWith_error_pointsInto {ω : Type} (observe : Notice → ω → ω) (o : ω)
    (h : (readWith observe o source).2 = .error e) : e.diagnostic.PointsInto source := by
  cases htokens : tokens source with
  | error e' =>
    rw [readWith, htokens] at h
    cases h
    exact pointsInto_of_stray htokens
  | ok ts =>
    rcases hparse : Block.parse (.ofTokens ts source.utf8ByteSize) with ⟨ss, ending⟩
    have hstatements : statementsOf source = ss := by
      rw [statementsOf, htokens]
      exact congrArg Prod.fst hparse
    rw [readWith_eq_settle observe o htokens hparse] at h
    rcases enterAll_eq_ok_or ss with ⟨t, ht⟩ | ⟨before, s, after, t, x, rfl, ht, hx⟩
    · rw [((Draft.holds_start o).applyAll_of_ok observe ht).1] at h
      cases ending with
      | ok u => cases h
      | error e' =>
        cases h
        exact pointsInto_of_standsIn htokens (Block.standsIn_of_parse (by rw [hparse]))
    · rw [(Draft.holds_start o).applyAll_of_error observe ht hx] at h
      cases h
      exact pointsInto_of_breaksAt htokens ⟨after, t, hstatements, ht, hx⟩

def repeated : String := "family_tree\x7b// né\nA(1/1/1900-);A(2/2/1901-);\x7d"

theorem pointsInto_of_repeated :
    ∃ e, (readWith List.cons [] repeated).2 = .error e ∧
      e = .refused (.alreadyDeclared "A") ⟨32, 33, by decide⟩ (some ⟨19, 20, by decide⟩) ∧
      e.diagnostic.PointsInto repeated := by
  have h : (readWith List.cons [] repeated).2 =
      .error (.refused (.alreadyDeclared "A") ⟨32, 33, by decide⟩ (some ⟨19, 20, by decide⟩)) := by
    decide +kernel
  exact ⟨_, h, rfl, readWith_error_pointsInto List.cons [] h⟩

end Pedigree.Source

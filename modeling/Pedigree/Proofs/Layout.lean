import Pedigree.Proofs.Cuts
import Pedigree.Proofs.Words
import Pedigree.Source.Draft

/-! Sources that differ in their layout only. Main statement: whatever is read from two sources
whose tokens are the same but for comments and places, the trees and the notices are equal, and the
diagnostics are worded alike. All places are taken away at once, and every reader is shown to do
without them what it does with them. -/

namespace Pedigree.Source

def Located.bare {α : Type} (x : Located α) : Located α := ⟨x.value, .emptyAt 0⟩

def Cursor.bare (c : Cursor) : Cursor := ⟨c.ahead.map Located.bare, 0⟩

def Declaration.bare (d : Declaration) : Declaration where
  name := d.name.bare
  birth := d.birth.bare
  death := d.death.map Located.bare

def MaritalLink.bare (l : MaritalLink) : MaritalLink where
  left := l.left.bare
  right := l.right.bare
  wedding := l.wedding.map Located.bare

def FamilialLink.bare (l : FamilialLink) : FamilialLink where
  parent := l.parent.bare
  child := l.child.bare

namespace Statement

def bare : Statement → Statement
  | declaration d => declaration d.bare
  | maritalLink l => maritalLink l.bare
  | familialLink l => familialLink l.bare

def bareAt (s : Located Statement) : Located Statement := (s.map bare).bare

end Statement

namespace Fault

def bare : Fault → Fault
  | strayCharacter c => strayCharacter c.bare
  | unexpectedToken due found => unexpectedToken due found.bare
  | malformedDate date => malformedDate date.bare
  | incomplete due _ => incomplete due 0
  | unrecognizedStatement _ => unrecognizedStatement (.emptyAt 0)
  | trailing first _ => trailing first (.emptyAt 0)
  | undeclared name => undeclared name.bare
  | refused refusal _ declared => refused refusal (.emptyAt 0) (declared.map fun _ => .emptyAt 0)

end Fault

structure Wording where
  code : Code
  message : String
  label : String
  context : Option String
  help : Option String
deriving DecidableEq, Repr

def Diagnostic.wording (d : Diagnostic) : Wording where
  code := d.code
  message := d.message
  label := d.primary.message
  context := d.context.map Label.message
  help := d.help

theorem Fault.wording_bare (e : Fault) : e.bare.diagnostic.wording = e.diagnostic.wording := by
  cases e with
  | incomplete due stop => cases due <;> rfl
  | refused refusal span declared => cases refusal <;> cases declared <;> rfl
  | _ => rfl

variable {α β γ δ : Type}

def bareResult (f : α → β) : Except Fault α → Except Fault β
  | .ok a => .ok (f a)
  | .error e => .error e.bare

theorem bind_bareResult {f : α → β} {g : γ → δ} {x : Except Fault α} {y : Except Fault β}
    {k : α → Except Fault γ} {l : β → Except Fault δ} (hx : y = bareResult f x)
    (hk : ∀ a, l (f a) = bareResult g (k a)) : y >>= l = bareResult g (x >>= k) := by
  subst hx
  cases x with
  | ok a => exact hk a
  | error e => rfl

def IgnoresPlaces (f : α → α) (r : Cursor → Except Fault (α × Cursor)) : Prop :=
  ∀ c, r c.bare = bareResult (Prod.map f Cursor.bare) (r c)

namespace Cursor

theorem peek_bare (n : Nat) (c : Cursor) : c.bare.peek n = bareResult Located.bare (c.peek n) := by
  have hget : c.bare.ahead[n]? = c.ahead[n]?.map Located.bare := List.getElem?_map
  rw [peek, peek, hget]
  cases c.ahead[n]? <;> rfl

theorem peek_bare_of_ok {n : Nat} {c : Cursor} {t : Located Token} (h : c.peek n = .ok t) :
    c.bare.peek n = .ok t.bare := by
  rw [peek_bare, h]
  rfl

theorem expect_ignoresPlaces (kind : Token.Kind) : IgnoresPlaces Located.bare (·.expect kind) := by
  rintro ⟨ahead, stop⟩
  cases ahead with
  | nil => rfl
  | cons t ts =>
    show (if t.value.kind = kind then _ else _) =
      bareResult _ (if t.value.kind = kind then _ else _)
    split <;> rfl

end Cursor

namespace Statement

theorem name_ignoresPlaces : IgnoresPlaces Located.bare name := fun c =>
  bind_bareResult (Cursor.expect_ignoresPlaces .name c) fun _ => rfl

theorem date_ignoresPlaces : IgnoresPlaces Located.bare date := by
  intro c
  refine bind_bareResult (Cursor.expect_ignoresPlaces .date c) ?_
  rintro ⟨token, c⟩
  have hvalue : token.bare.value = token.value := rfl
  simp only [Prod.map, hvalue]
  cases Date.parse token.value.text <;> rfl

theorem deathDate_ignoresPlaces : IgnoresPlaces (Option.map Located.bare) deathDate := by
  intro c
  refine bind_bareResult (Cursor.peek_bare 0 c) ?_
  intro next
  show (if next.value.kind = .date then _ else _) =
    bareResult _ (if next.value.kind = .date then _ else _)
  split
  · exact bind_bareResult (date_ignoresPlaces c) fun _ => rfl
  · rfl

theorem weddingDate_ignoresPlaces : IgnoresPlaces (Option.map Located.bare) weddingDate := by
  intro c
  refine bind_bareResult (Cursor.peek_bare 0 c) ?_
  intro next
  show (if next.value.kind = .leftParen then _ else _) =
    bareResult _ (if next.value.kind = .leftParen then _ else _)
  split
  · refine bind_bareResult (Cursor.expect_ignoresPlaces .leftParen c) ?_
    rintro ⟨-, c⟩
    refine bind_bareResult (date_ignoresPlaces c) ?_
    rintro ⟨d, c⟩
    exact bind_bareResult (Cursor.expect_ignoresPlaces .rightParen c) fun _ => rfl
  · rfl

theorem readDeclaration_ignoresPlaces : IgnoresPlaces Declaration.bare readDeclaration := by
  intro c
  refine bind_bareResult (name_ignoresPlaces c) ?_
  rintro ⟨name, c⟩
  refine bind_bareResult (Cursor.expect_ignoresPlaces .leftParen c) ?_
  rintro ⟨-, c⟩
  refine bind_bareResult (date_ignoresPlaces c) ?_
  rintro ⟨birth, c⟩
  refine bind_bareResult (Cursor.expect_ignoresPlaces .range c) ?_
  rintro ⟨-, c⟩
  refine bind_bareResult (deathDate_ignoresPlaces c) ?_
  rintro ⟨death, c⟩
  exact bind_bareResult (Cursor.expect_ignoresPlaces .rightParen c) fun _ => rfl

theorem readMaritalLink_ignoresPlaces : IgnoresPlaces MaritalLink.bare readMaritalLink := by
  intro c
  refine bind_bareResult (name_ignoresPlaces c) ?_
  rintro ⟨left, c⟩
  refine bind_bareResult (Cursor.expect_ignoresPlaces .maritalLink c) ?_
  rintro ⟨-, c⟩
  refine bind_bareResult (name_ignoresPlaces c) ?_
  rintro ⟨right, c⟩
  exact bind_bareResult (weddingDate_ignoresPlaces c) fun _ => rfl

theorem readFamilialLink_ignoresPlaces : IgnoresPlaces FamilialLink.bare readFamilialLink := by
  intro c
  refine bind_bareResult (name_ignoresPlaces c) ?_
  rintro ⟨parent, c⟩
  refine bind_bareResult (Cursor.expect_ignoresPlaces .familialLink c) ?_
  rintro ⟨-, c⟩
  exact bind_bareResult (name_ignoresPlaces c) fun _ => rfl

theorem body_ignoresPlaces (kind : Kind) : IgnoresPlaces bare (body kind) := by
  intro c
  cases kind with
  | declaration => exact bind_bareResult (readDeclaration_ignoresPlaces c) fun _ => rfl
  | maritalLink => exact bind_bareResult (readMaritalLink_ignoresPlaces c) fun _ => rfl
  | familialLink => exact bind_bareResult (readFamilialLink_ignoresPlaces c) fun _ => rfl

theorem Kind.ahead?_bare (c : Cursor) : Kind.ahead? c.bare = Kind.ahead? c := by
  have hget : ∀ n, c.bare.lookahead n = (c.lookahead n).map Located.bare :=
    fun n => List.getElem?_map
  unfold Kind.ahead?
  rw [hget, hget]
  cases c.lookahead 0 with
  | none => rfl
  | some first => cases c.lookahead 1 <;> rfl

theorem read_ignoresPlaces : IgnoresPlaces bareAt read := by
  intro c
  refine bind_bareResult (Cursor.peek_bare 0 c) ?_
  intro first
  refine bind_bareResult (Cursor.peek_bare 1 c) ?_
  intro second
  rw [Kind.ahead?_bare]
  cases Kind.ahead? c with
  | none => rfl
  | some kind =>
    refine bind_bareResult (body_ignoresPlaces kind c) ?_
    rintro ⟨s, c⟩
    exact bind_bareResult (Cursor.expect_ignoresPlaces .terminator c) fun _ => rfl

end Statement

namespace Block

theorem opening_bare (c : Cursor) : opening c.bare = bareResult Cursor.bare (opening c) := by
  refine bind_bareResult (Cursor.expect_ignoresPlaces .familyTree c) ?_
  rintro ⟨-, c⟩
  exact bind_bareResult (Cursor.expect_ignoresPlaces .leftBrace c) fun _ => rfl

theorem closing_bare (c : Cursor) : closing c.bare = bareResult id (closing c) := by
  refine bind_bareResult (Cursor.expect_ignoresPlaces .rightBrace c) ?_
  rintro ⟨-, ahead, stop⟩
  cases ahead with
  | nil => rfl
  | cons first rest =>
    have hlast : (((first :: rest).map Located.bare).getLast (List.cons_ne_nil _ _)).span =
        .emptyAt 0 := by
      rw [List.getLast_map]
      rfl
    exact congrArg
      (fun s => Except.error (Fault.trailing first.value (.union (.emptyAt 0) s))) hlast

theorem Lists.bare {c : Cursor} {ss : List (Located Statement)} {r : Except Fault Cursor}
    (h : Lists c ss r) : Lists c.bare (ss.map Statement.bareAt) (bareResult Cursor.bare r) := by
  induction h with
  | @exhausted c e hnext => exact .exhausted (by rw [Cursor.peek_bare, hnext]; rfl)
  | @closed c next hnext hbrace =>
    exact .closed (Cursor.peek_bare_of_ok hnext) hbrace
  | @malformed c next e hnext hbrace hread =>
    refine .malformed (Cursor.peek_bare_of_ok hnext) hbrace ?_
    rw [Statement.read_ignoresPlaces, hread]
    rfl
  | @cons c c' next s ss r hnext hbrace hread _ ih =>
    refine .cons (Cursor.peek_bare_of_ok hnext) hbrace ?_ ih
    rw [Statement.read_ignoresPlaces, hread]
    rfl

theorem parse_bare (c : Cursor) :
    parse c.bare = ((parse c).1.map Statement.bareAt, bareResult id (parse c).2) := by
  have hbare := opening_bare c
  cases hopen : opening c with
  | error e =>
    rw [hopen] at hbare
    rw [parse_of_opening_error hopen, parse_of_opening_error hbare]
    rfl
  | ok c₁ =>
    rw [hopen] at hbare
    obtain ⟨ss, r, hlists⟩ := exists_lists c₁
    rw [parse_of_lists hopen hlists, parse_of_lists hbare hlists.bare]
    cases r with
    | error e => rfl
    | ok c₂ => exact congrArg _ (closing_bare c₂)

end Block

namespace Draft

variable {ω : Type} (observe : Notice → ω → ω)

def bare (d : Draft ω) : Draft ω := { d with declaredAt := d.declaredAt.map fun _ => .emptyAt 0 }

theorem resolve_bare (d : Draft ω) (name : Located String) :
    d.bare.resolve name.bare = bareResult id (d.resolve name) := by
  have hname : name.bare.value = name.value := rfl
  have htree : d.bare.tree = d.tree := rfl
  unfold resolve
  rw [hname, htree]
  cases d.tree.find? name.value <;> rfl

theorem value_map_bare (x : Option (Located Date)) :
    (x.map Located.bare).map Located.value = x.map Located.value := by
  cases x <;> rfl

theorem declare_bare (d : Draft ω) (s : Declaration) :
    d.bare.declare observe s.bare = bareResult bare (d.declare observe s) := by
  have hfirst : ((d.tree.find? s.name.value).bind fun p =>
        (d.declaredAt.map fun _ => Span.emptyAt 0)[p]?) =
      ((d.tree.find? s.name.value).bind fun p => d.declaredAt[p]?).map fun _ => .emptyAt 0 := by
    cases d.tree.find? s.name.value with
    | none => rfl
    | some p => exact List.getElem?_map
  unfold declare
  simp only [bare, Declaration.bare, Located.bare, value_map_bare, hfirst]
  cases d.tree.declare s.name.value s.birth.value (s.death.map Located.value) with
  | error refusal => rfl
  | ok r =>
    obtain ⟨id, tree⟩ := r
    simp [bareResult, bare]

theorem marry_bare (d : Draft ω) (s : MaritalLink) :
    d.bare.marry observe s.bare = bareResult bare (d.marry observe s) := by
  refine bind_bareResult (resolve_bare d s.left) ?_
  intro left
  refine bind_bareResult (resolve_bare d s.right) ?_
  intro right
  simp only [bare, MaritalLink.bare, id, value_map_bare]
  cases d.tree.linkSpouses left right (s.wedding.map Located.value) <;> rfl

theorem addChild_bare (d : Draft ω) (s : FamilialLink) :
    d.bare.addChild observe s.bare = bareResult bare (d.addChild observe s) := by
  refine bind_bareResult (resolve_bare d s.parent) ?_
  intro parent
  refine bind_bareResult (resolve_bare d s.child) ?_
  intro child
  simp only [bare, id]
  cases d.tree.linkChild parent child <;> rfl

theorem apply_bare (d : Draft ω) (s : Located Statement) :
    d.bare.apply observe (Statement.bareAt s) = bareResult bare (d.apply observe s) := by
  obtain ⟨statement, span⟩ := s
  cases statement with
  | declaration s => exact declare_bare observe d s
  | maritalLink s => exact marry_bare observe d s
  | familialLink s => exact addChild_bare observe d s

theorem applyAll_bare (d : Draft ω) (ss : List (Located Statement)) :
    Block.applyAll (apply observe) d.bare (ss.map Statement.bareAt) =
      Prod.map bare (bareResult id) (Block.applyAll (apply observe) d ss) := by
  induction ss generalizing d with
  | nil => rfl
  | cons s ss ih =>
    have hstep := apply_bare observe d s
    rw [List.map_cons, Block.applyAll, Block.applyAll, hstep]
    cases d.apply observe s with
    | ok d' => exact ih d'
    | error e => rfl

theorem read_bare (d : Draft ω) (c : Cursor) :
    Block.read (apply observe) d.bare c.bare =
      Prod.map bare (bareResult id) (Block.read (apply observe) d c) := by
  rw [Block.read_eq_settle_parse, Block.read_eq_settle_parse, Block.parse_bare, applyAll_bare]
  rcases Block.applyAll (apply observe) d (Block.parse c).1 with ⟨d', r⟩
  cases r <;> rfl

end Draft

theorem Token.eq_of_text {t u : Token} (hkind : t.kind = u.kind) (htext : t.text = u.text) :
    t = u := by
  cases t <;> cases u <;> simp_all [Token.kind, Token.text]

/-- The tokens of a source that are no comments, without their places. -/
def significant (ts : List (Located Token)) : List (Token.Kind × String) :=
  (ts.filter (·.value.kind ≠ .comment)).map fun t => (t.value.kind, t.value.text)

theorem bare_ofTokens {ts ts' : List (Located Token)} (h : significant ts = significant ts')
    (stop stop' : Nat) : (Cursor.ofTokens ts stop).bare = (Cursor.ofTokens ts' stop').bare := by
  have hbare : ∀ ls ls' : List (Located Token),
      ls.map (fun t => (t.value.kind, t.value.text)) =
        ls'.map (fun t => (t.value.kind, t.value.text)) →
      ls.map Located.bare = ls'.map Located.bare := by
    intro ls
    induction ls with
    | nil =>
      intro ls' hnil
      rw [List.map_eq_nil_iff.mp hnil.symm]
    | cons t ls ih =>
      intro ls' hcons
      obtain ⟨u, us, rfl, hu, hus⟩ := List.map_eq_cons_iff.mp hcons.symm
      obtain ⟨hkind, htext⟩ := Prod.mk.inj hu
      rw [List.map_cons, List.map_cons, ih us hus.symm, Located.bare, Located.bare,
        Token.eq_of_text hkind htext]
  exact congrArg (Cursor.mk · 0) (hbare _ _ h)

/-- Layout and comments carry no meaning. Sources with the same tokens otherwise tell the observer
the same, and they make the same tree or are refused in the same words. -/
theorem readWith_of_significant {ω : Type} (observe : Notice → ω → ω) (o : ω)
    {source source' : String} {ts ts' : List (Located Token)} (h : tokens source = .ok ts)
    (h' : tokens source' = .ok ts') (hsame : significant ts = significant ts') :
    (readWith observe o source).1 = (readWith observe o source').1 ∧
      ((∃ t, (readWith observe o source).2 = .ok t ∧ (readWith observe o source').2 = .ok t) ∨
        ∃ e e', (readWith observe o source).2 = .error e ∧
          (readWith observe o source').2 = .error e' ∧
          e.diagnostic.wording = e'.diagnostic.wording) := by
  -- Both runs leave the same behind once the places are taken away.
  have hbare : Prod.map Draft.bare (bareResult id) (Block.read (Draft.apply observe)
        { observer := o } (.ofTokens ts source.utf8ByteSize)) =
      Prod.map Draft.bare (bareResult id) (Block.read (Draft.apply observe)
        { observer := o } (.ofTokens ts' source'.utf8ByteSize)) := by
    rw [← Draft.read_bare, ← Draft.read_bare, bare_ofTokens hsame _ source'.utf8ByteSize]
  rw [readWith, readWith, h, h']
  simp only
  generalize Block.read (Draft.apply observe) { observer := o }
    (.ofTokens ts source.utf8ByteSize) = run at hbare ⊢
  generalize Block.read (Draft.apply observe) { observer := o }
    (.ofTokens ts' source'.utf8ByteSize) = run' at hbare ⊢
  obtain ⟨d, r⟩ := run
  obtain ⟨d', r'⟩ := run'
  obtain ⟨hdraft, hresult⟩ := Prod.mk.inj hbare
  have hobserver : d.observer = d'.observer := congrArg (fun d => d.observer) hdraft
  have htree : d.tree = d'.tree := congrArg (fun d => d.tree) hdraft
  cases r with
  | ok u =>
    cases r' with
    | ok u' => exact ⟨hobserver, Or.inl ⟨d.tree, rfl, by rw [htree]⟩⟩
    | error e' => cases hresult
  | error e =>
    cases r' with
    | ok u' => cases hresult
    | error e' =>
      have hfault : e.bare = e'.bare := Except.error.inj hresult
      refine ⟨hobserver, Or.inr ⟨e, e', rfl, rfl, ?_⟩⟩
      rw [← e.wording_bare, hfault, e'.wording_bare]

def dense : String := "family_tree\x7bA(1/1/1900-);A(2/2/1901-);\x7d"

def airy : String := "family_tree \x7b // né\n\tA ( 1/1/1900 - ) ;\r\n A(2/2/1901-); // again\n\x7d"

theorem agreement_of_dense_and_airy :
    ∃ ts ts', tokens dense = .ok ts ∧ tokens airy = .ok ts' ∧ significant ts = significant ts' ∧
      (readWith List.cons [] dense).1 = (readWith List.cons [] airy).1 ∧
      ((∃ t, (readWith List.cons [] dense).2 = .ok t ∧ (readWith List.cons [] airy).2 = .ok t) ∨
        ∃ e e', (readWith List.cons [] dense).2 = .error e ∧
          (readWith List.cons [] airy).2 = .error e' ∧
          e.diagnostic.wording = e'.diagnostic.wording) := by
  have hok : (tokens dense).isOk = true ∧ (tokens airy).isOk = true := by decide +kernel
  have hsignificant : (tokens dense).map significant = (tokens airy).map significant := by
    decide +kernel
  obtain ⟨ts, h⟩ := exists_tokens hok.1
  obtain ⟨ts', h'⟩ := exists_tokens hok.2
  rw [h, h'] at hsignificant
  have hsame : significant ts = significant ts' := Except.ok.inj hsignificant
  exact ⟨ts, ts', h, h', hsame, readWith_of_significant List.cons [] h h' hsame⟩

example :
    (readWith List.cons [] dense).2 =
      .error (.refused (.alreadyDeclared "A") ⟨25, 26, by decide⟩ (some ⟨12, 13, by decide⟩)) ∧
    (readWith List.cons [] airy).2 =
      .error (.refused (.alreadyDeclared "A") ⟨43, 44, by decide⟩ (some ⟨22, 23, by decide⟩)) := by
  decide +kernel

end Pedigree.Source

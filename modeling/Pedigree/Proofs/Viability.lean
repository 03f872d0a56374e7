import Pedigree.Proofs.Grammar

/-! Token lists that can still become a sentence. While a text is read, the tokens that have been
taken leave a language due, in which the sentence has to go on; every reader takes its part off the
front of it. Main statement: a text that is no sentence is blamed on the first token with which it
cannot become one any more, or on its end if it still could. -/

namespace Pedigree.Source

def kinds (ts : List (Located Token)) : List Token.Kind := ts.map (·.value.kind)

theorem kinds_append (ts us : List (Located Token)) : kinds (ts ++ us) = kinds ts ++ kinds us :=
  List.map_append

theorem kinds_concat (ts : List (Located Token)) (t : Located Token) :
    kinds (ts ++ [t]) = kinds ts ++ [t.value.kind] :=
  kinds_append ts [t]

namespace Grammar

open Token (Kind)

variable {k : Kind} {l l' : List Kind} {L : Language Kind}

/-- A sentence may begin in this way. -/
def Viable (l : List Kind) : Prop := ∃ w, l ++ w ∈ familyTree

structure AtBoundary (l : List Kind) : Prop where
  viable : Viable l
  ends : l.getLast? = some .leftBrace ∨ l.getLast? = some .terminator

theorem Viable.of_append (h : Viable (l ++ l')) : Viable l := by
  obtain ⟨w, hw⟩ := h
  exact ⟨l' ++ w, by rwa [← List.append_assoc]⟩

def inside : Language Kind := KStar.kstar statement * one .rightBrace

theorem familyTree_eq : familyTree = one .familyTree * (one .leftBrace * inside) := by
  rw [familyTree, inside, mul_assoc, mul_assoc]

theorem inside_eq : inside = one .rightBrace * 1 + statement * inside := by
  have hstar := Language.one_add_self_mul_kstar_eq_kstar statement
  calc inside = (1 + statement * KStar.kstar statement) * one .rightBrace := by rw [hstar, inside]
    _ = one .rightBrace * 1 + statement * inside := by
      rw [add_mul, one_mul, mul_one, mul_assoc, inside]

def behind (L : Language Kind) : Statement.Kind → Language Kind
  | .declaration =>
    one .date * (one .range * (optional (one .date) * (one .rightParen * (one .terminator * L))))
  | .maritalLink =>
    one .name * (optional (one .leftParen * one .date * one .rightParen) * (one .terminator * L))
  | .familialLink => one .name * (one .terminator * L)

theorem statement_mul (L : Language Kind) :
    statement * L =
      one .name * (one .leftParen * behind L .declaration) +
      one .name * (one .maritalLink * behind L .maritalLink) +
      one .name * (one .familialLink * behind L .familialLink) := by
  simp only [statement, declaration, maritalLink, familialLink, behind, mul_assoc, add_mul]

theorem mem_statement_mul :
    l ∈ statement * L ↔ ∃ kind, ∃ w ∈ behind L kind, l = .name :: kind.sign :: w := by
  simp only [statement_mul, Language.mem_add, mem_one_mul]
  constructor
  · rintro ((⟨_, ⟨w, hw, rfl⟩, rfl⟩ | ⟨_, ⟨w, hw, rfl⟩, rfl⟩) | ⟨_, ⟨w, hw, rfl⟩, rfl⟩)
    · exact ⟨.declaration, w, hw, rfl⟩
    · exact ⟨.maritalLink, w, hw, rfl⟩
    · exact ⟨.familialLink, w, hw, rfl⟩
  · rintro ⟨kind, w, hw, rfl⟩
    cases kind with
    | declaration => exact Or.inl (Or.inl ⟨_, ⟨w, hw, rfl⟩, rfl⟩)
    | maritalLink => exact Or.inl (Or.inr ⟨_, ⟨w, hw, rfl⟩, rfl⟩)
    | familialLink => exact Or.inr ⟨_, ⟨w, hw, rfl⟩, rfl⟩

theorem nonempty_of_mul {M : Language Kind} (h : ∃ w, w ∈ L * M) : ∃ w, w ∈ M := by
  obtain ⟨_, _, _, w, hw, -⟩ := h
  exact ⟨w, hw⟩

theorem one_mul_nonempty (k : Kind) (h : ∃ w, w ∈ L) : ∃ w, w ∈ one k * L := by
  obtain ⟨w, hw⟩ := h
  exact ⟨k :: w, mem_one_mul.mpr ⟨w, hw, rfl⟩⟩

theorem eq_of_cons_mem_one_mul {k' : Kind} (h : k' :: l ∈ one k * L) : k' = k := by
  obtain ⟨_, -, heq⟩ := mem_one_mul.mp h
  exact (List.cons.inj heq).1

theorem behind_nonempty (h : ∃ w, w ∈ L) (kind : Statement.Kind) : ∃ w, w ∈ behind L kind := by
  obtain ⟨w, hw⟩ := h
  cases kind with
  | declaration =>
    refine ⟨.date :: .range :: .rightParen :: .terminator :: w, ?_⟩
    simp [behind, optional_mul, Language.mem_add, mem_one_mul, hw]
  | maritalLink =>
    refine ⟨.name :: .terminator :: w, ?_⟩
    simp [behind, optional_mul, Language.mem_add, mem_one_mul, hw]
  | familialLink =>
    refine ⟨.name :: .terminator :: w, ?_⟩
    simp [behind, mem_one_mul, hw]

theorem kind_of_cons_mem_statement_mul (h : k :: l ∈ statement * L) : k = .name := by
  obtain ⟨_, _, -, heq⟩ := mem_statement_mul.mp h
  exact (List.cons.inj heq).1

theorem end_nonempty : ∃ w, w ∈ one .rightBrace * 1 := ⟨_, mem_one_mul.mpr ⟨[], rfl, rfl⟩⟩

theorem inside_nonempty : ∃ w, w ∈ inside := by
  obtain ⟨w, hw⟩ := end_nonempty
  rw [inside_eq]
  exact ⟨w, Or.inl hw⟩

theorem statement_mul_nonempty (h : ∃ w, w ∈ L) : ∃ w, w ∈ statement * L := by
  obtain ⟨w, hw⟩ := behind_nonempty h .familialLink
  exact ⟨_, mem_statement_mul.mpr ⟨.familialLink, w, hw, rfl⟩⟩

theorem familyTree_nonempty : ∃ w, w ∈ familyTree := by
  rw [familyTree_eq]
  exact one_mul_nonempty _ (one_mul_nonempty _ inside_nonempty)

end Grammar

namespace Statement.Kind

theorem sign_injective : Function.Injective sign := by
  intro kind kind' h
  cases kind <;> cases kind' <;> first | rfl | cases h

theorem ahead?_eq_some_iff {t u : Located Token} {ahead : List (Located Token)} {stop : Nat}
    {kind : Kind} :
    Kind.ahead? ⟨t :: u :: ahead, stop⟩ = some kind ↔
      t.value.kind = .name ∧ u.value.kind = kind.sign := by
  simp only [Kind.ahead?, Cursor.lookahead, List.getElem?_cons_zero, List.getElem?_cons_succ,
    Option.bind_eq_bind, Option.bind_some]
  cases kind <;> split <;> simp_all [sign]

end Statement.Kind

open Grammar

/-- A fault that tells how far the tokens of a text are the beginning of a sentence. -/
inductive Fault.Blames (us : List (Located Token)) : Fault → Prop
  | unexpected {i : Nat} {t : Located Token} (due : Token.Kind) : us[i]? = some t →
      Viable (kinds (us.take i)) → ¬Viable (kinds (us.take (i + 1))) →
      Fault.Blames us (.unexpectedToken due t)
  | ending (due : Option Token.Kind) (stop : Nat) : Viable (kinds us) →
      Fault.Blames us (.incomplete due stop)
  | alone (due : Option Token.Kind) (stop : Nat) : us ≠ [] → AtBoundary (kinds us.dropLast) →
      Fault.Blames us (.incomplete due stop)
  | unrecognized {i : Nat} {t u : Located Token} : us[i]? = some t → us[i + 1]? = some u →
      AtBoundary (kinds (us.take i)) → ¬Viable (kinds (us.take (i + 2))) →
      Fault.Blames us (.unrecognizedStatement (t.span.union u.span))
  | trailing {i : Nat} {t last : Located Token} : us[i]? = some t → us.getLast? = some last →
      kinds (us.take i) ∈ familyTree → ¬Viable (kinds (us.take (i + 1))) →
      Fault.Blames us (.trailing t.value (t.span.union last.span))

/-- The tokens of a text that have been read, and a language in which a sentence that begins with
them goes on. It need not hold those that go on with another token than the next one, so that an
optional part can be passed over when it is not there. -/
structure Due (us done : List (Located Token)) (L : Language Token.Kind) (c : Cursor) : Prop where
  split : us = done ++ c.ahead
  nonempty : ∃ w, w ∈ L
  complete : ∀ w ∈ L, kinds done ++ w ∈ familyTree
  forced : ∀ t ∈ c.ahead.head?, ∀ w, kinds done ++ t.value.kind :: w ∈ familyTree →
    t.value.kind :: w ∈ L

/-- A result that has a property, or a fault that blames the tokens of a text. -/
structure Judged {α : Type} (us : List (Located Token)) (Q : α → Prop) (x : Except Fault α) :
    Prop where
  blames : ∀ {e}, x = .error e → e.Blames us
  holds : ∀ {a}, x = .ok a → Q a

variable {α β : Type} {us done : List (Located Token)} {L M : Language Token.Kind} {c c' : Cursor}
  {k : Token.Kind} {t u : Located Token}

namespace Due

theorem viable (h : Due us done L c) : Viable (kinds done) := by
  obtain ⟨w, hw⟩ := h.nonempty
  exact ⟨w, h.complete w hw⟩

theorem mem_of_viable (h : Due us done L c) {ahead : List (Located Token)}
    (hahead : c.ahead = t :: ahead) (hviable : Viable (kinds (done ++ [t]))) :
    ∃ w, t.value.kind :: w ∈ L := by
  obtain ⟨w, hw⟩ := hviable
  rw [kinds_concat, List.append_assoc, List.singleton_append] at hw
  exact ⟨w, h.forced t (by rw [hahead]; rfl) w hw⟩

/-- An alternative that the next token rules out is not due. -/
theorem drop (h : Due us done (L + M) c) {ahead : List (Located Token)}
    (hahead : c.ahead = t :: ahead) (hM : ∀ w, t.value.kind :: w ∉ M) (hL : ∃ w, w ∈ L) :
    Due us done L c where
  split := h.split
  nonempty := hL
  complete w hw := h.complete w (Or.inl hw)
  forced u hu w hw := by
    obtain rfl : t = u := by
      rw [hahead] at hu
      exact Option.some.inj hu
    exact (h.forced t (by rw [hahead]; rfl) w hw).resolve_right (hM w)

theorem take (h : Due us done (one k * L) c) (hahead : c.ahead = t :: c'.ahead)
    (hk : t.value.kind = k) : Due us (done ++ [t]) L c' where
  split := by rw [h.split, hahead, List.append_assoc, List.singleton_append]
  nonempty := nonempty_of_mul h.nonempty
  complete w hw := by
    have hcons : k :: w ∈ one k * L := mem_one_mul.mpr ⟨w, hw, rfl⟩
    rw [kinds_concat, List.append_assoc, List.singleton_append, hk]
    exact h.complete _ hcons
  forced u hu w hw := by
    rw [kinds_concat, List.append_assoc, List.singleton_append] at hw
    have hcons := h.forced t (by rw [hahead]; rfl) _ hw
    obtain ⟨w', hw', heq⟩ := mem_one_mul.mp hcons
    obtain ⟨-, rfl⟩ := List.cons.inj heq
    exact hw'

/-- The first two tokens of a statement tell what is due behind them. -/
theorem dispatch (h : Due us done (statement * L) c) {kind : Statement.Kind}
    {ahead : List (Located Token)} (hahead : c.ahead = t :: u :: ahead)
    (ht : t.value.kind = .name) (hu : u.value.kind = kind.sign) :
    Due us (done ++ [t, u]) (behind L kind) ⟨ahead, c.stop⟩ := by
  have hkinds : kinds (done ++ [t, u]) = kinds done ++ [.name, kind.sign] := by
    rw [kinds_append, ← ht, ← hu]
    rfl
  refine ⟨?_, behind_nonempty (nonempty_of_mul h.nonempty) kind, ?_, ?_⟩
  · rw [h.split, hahead, List.append_assoc]
    rfl
  · intro w hw
    rw [hkinds, List.append_assoc]
    exact h.complete _ (mem_statement_mul.mpr ⟨kind, w, hw, rfl⟩)
  · intro v _ w hw
    rw [hkinds, List.append_assoc, ← ht] at hw
    obtain ⟨kind', w', hw', heq⟩ := mem_statement_mul.mp (h.forced t (by rw [hahead]; rfl) _ hw)
    obtain ⟨-, heq⟩ := List.cons.inj heq
    obtain ⟨hsign, rfl⟩ := List.cons.inj heq
    rwa [Statement.Kind.sign_injective hsign]

theorem take_length (h : Due us done L c) : us.take done.length = done := by
  rw [h.split, List.take_left]

theorem take_length_add (h : Due us done L c) (n : Nat) :
    us.take (done.length + n) = done ++ c.ahead.take n := by
  rw [h.split, List.take_length_add_append]

theorem getElem?_length_add (h : Due us done L c) (i : Nat) :
    us[done.length + i]? = c.ahead[i]? := by
  rw [h.split, List.getElem?_append_right (Nat.le_add_right _ _), Nat.add_sub_cancel_left]

theorem blames_unexpected (h : Due us done (one k * L) c) {ahead : List (Located Token)}
    (hahead : c.ahead = t :: ahead) (hk : t.value.kind ≠ k) :
    (Fault.unexpectedToken k t).Blames us := by
  have htake : us.take (done.length + 1) = done ++ [t] :=
    (h.take_length_add 1).trans (by rw [hahead]; rfl)
  refine .unexpected k ?_ (h.take_length.symm ▸ h.viable) fun hviable => ?_
  · exact (h.getElem?_length_add 0).trans (by rw [hahead]; rfl)
  · rw [htake] at hviable
    obtain ⟨w, hw⟩ := h.mem_of_viable hahead hviable
    exact hk (eq_of_cons_mem_one_mul hw)

theorem blames_ending (h : Due us done L c) (hahead : c.ahead = []) (due : Option Token.Kind)
    (stop : Nat) : (Fault.incomplete due stop).Blames us := by
  have hus : us = done := by rw [h.split, hahead, List.append_nil]
  exact .ending due stop (hus ▸ h.viable)

end Due

namespace Judged

variable {Q R : α → Prop} {S : β → Prop} {x : Except Fault α} {f : α → Except Fault β} {e : Fault}

theorem ok {a : α} (h : Q a) : Judged us Q (.ok a) where
  blames := by rintro _ ⟨⟩
  holds := by
    rintro _ ⟨⟩
    exact h

theorem error (h : e.Blames us) : Judged us Q (.error e : Except Fault α) where
  blames := by
    rintro _ ⟨⟩
    exact h
  holds := by rintro _ ⟨⟩

theorem bind (hx : Judged us Q x) (hf : ∀ a, Q a → Judged us S (f a)) : Judged us S (x >>= f) := by
  cases x with
  | error e => exact error (hx.blames rfl)
  | ok a => exact hf a (hx.holds rfl)

theorem bind_of_eq {a : α} (hx : x = .ok a) (hf : Judged us S (f a)) : Judged us S (x >>= f) := by
  rw [hx]
  exact hf

theorem imp (hx : Judged us Q x) (h : ∀ a, Q a → R a) : Judged us R x where
  blames := hx.blames
  holds ha := h _ (hx.holds ha)

end Judged

def Awaits (us : List (Located Token)) (L : Language Token.Kind) (c : Cursor) : Prop :=
  ∃ done, Due us done L c

theorem Cursor.peek_judged (h : Awaits us L c) :
    Judged us (fun t => ∃ ahead, c.ahead = t :: ahead) (c.peek 0) := by
  obtain ⟨done, h⟩ := h
  obtain ⟨ahead, stop⟩ := c
  cases ahead with
  | nil => exact .error (h.blames_ending rfl none stop)
  | cons t ahead => exact .ok ⟨ahead, rfl⟩

theorem Cursor.expect_judged (h : Due us done (one k * L) c) :
    Judged us (fun x => x.1.value.kind = k ∧ Due us (done ++ [x.1]) L x.2) (c.expect k) := by
  obtain ⟨ahead, stop⟩ := c
  cases ahead with
  | nil => exact .error (h.blames_ending rfl (some k) stop)
  | cons t ahead =>
    by_cases hk : t.value.kind = k
    · have hexpect : Cursor.expect k ⟨t :: ahead, stop⟩ = .ok (t, ⟨ahead, stop⟩) :=
        Cursor.expect_eq_ok.mpr ⟨rfl, hk, rfl⟩
      rw [hexpect]
      exact .ok ⟨hk, h.take rfl hk⟩
    · have hexpect : Cursor.expect k ⟨t :: ahead, stop⟩ = .error (.unexpectedToken k t) :=
        if_neg hk
      rw [hexpect]
      exact .error (h.blames_unexpected rfl hk)

theorem Cursor.expect_awaits (h : Awaits us (one k * L) c) :
    Judged us (fun x => Awaits us L x.2) (c.expect k) := by
  obtain ⟨done, h⟩ := h
  exact (expect_judged h).imp fun x hx => ⟨_, hx.2⟩

namespace Statement

theorem name_awaits (h : Awaits us (one .name * L) c) :
    Judged us (fun x => Awaits us L x.2) (name c) :=
  (Cursor.expect_awaits h).bind fun _ hx => .ok hx

section

variable (hlexeme : ∀ t ∈ us, t.value.IsLexeme)
include hlexeme

theorem date_awaits (h : Awaits us (one .date * L) c) :
    Judged us (fun x => Awaits us L x.2) (date c) := by
  obtain ⟨done, h⟩ := h
  refine (Cursor.expect_judged h).bind ?_
  rintro ⟨t, c'⟩ ⟨hkind, hdue⟩
  have ht : t ∈ us := by simp [hdue.split]
  obtain ⟨d, hd⟩ := (hlexeme t ht).parse_isOk hkind
  dsimp only
  rw [hd]
  exact .ok ⟨_, hdue⟩

theorem deathDate_awaits (h : Awaits us (optional (one .date) * (one .rightParen * L)) c) :
    Judged us (fun x => Awaits us (one .rightParen * L) x.2) (deathDate c) := by
  refine (Cursor.peek_judged h).bind ?_
  rintro t ⟨ahead, hahead⟩
  obtain ⟨done, h⟩ := h
  have hne := nonempty_of_mul h.nonempty
  rw [optional_mul] at h
  show Judged us _ (if _ then _ else _)
  split
  · rename_i hdate
    rw [add_comm] at h
    have hdue := h.drop hahead
      (fun w hw => absurd (hdate.symm.trans (eq_of_cons_mem_one_mul hw)) (by decide))
      (one_mul_nonempty .date hne)
    exact (date_awaits hlexeme ⟨done, hdue⟩).bind fun _ hx => .ok hx
  · rename_i hdate
    exact .ok ⟨done, h.drop hahead (fun w hw => hdate (eq_of_cons_mem_one_mul hw)) hne⟩

theorem weddingDate_awaits
    (h : Awaits us (optional (one .leftParen * one .date * one .rightParen) *
      (one .terminator * L)) c) :
    Judged us (fun x => Awaits us (one .terminator * L) x.2) (weddingDate c) := by
  refine (Cursor.peek_judged h).bind ?_
  rintro t ⟨ahead, hahead⟩
  obtain ⟨done, h⟩ := h
  have hne := nonempty_of_mul h.nonempty
  rw [optional_mul, mul_assoc, mul_assoc] at h
  show Judged us _ (if _ then _ else _)
  split
  · rename_i hparen
    rw [add_comm] at h
    have hdue := h.drop hahead
      (fun w hw => absurd (hparen.symm.trans (eq_of_cons_mem_one_mul hw)) (by decide))
      (one_mul_nonempty _ (one_mul_nonempty _ (one_mul_nonempty _ hne)))
    refine (Cursor.expect_awaits ⟨done, hdue⟩).bind fun ⟨_, c₁⟩ h₁ => ?_
    refine (date_awaits hlexeme h₁).bind fun ⟨_, c₂⟩ h₂ => ?_
    exact (Cursor.expect_awaits h₂).bind fun _ hx => .ok hx
  · rename_i hparen
    exact .ok ⟨done, h.drop hahead (fun w hw => hparen (eq_of_cons_mem_one_mul hw)) hne⟩

theorem readDeclaration_awaits {n : Located String} {c₁ c₂ : Cursor}
    (hname : name c = .ok (n, c₁)) (hsign : c₁.expect .leftParen = .ok (u, c₂))
    (h : Awaits us (behind L .declaration) c₂) :
    Judged us (fun x => Awaits us (one .terminator * L) x.2) (readDeclaration c) := by
  refine .bind_of_eq hname (.bind_of_eq hsign ?_)
  refine (date_awaits hlexeme h).bind fun ⟨_, c₃⟩ h₃ => ?_
  refine (Cursor.expect_awaits h₃).bind fun ⟨_, c₄⟩ h₄ => ?_
  refine (deathDate_awaits hlexeme h₄).bind fun ⟨_, c₅⟩ h₅ => ?_
  exact (Cursor.expect_awaits h₅).bind fun _ hx => .ok hx

theorem readMaritalLink_awaits {n : Located String} {c₁ c₂ : Cursor}
    (hname : name c = .ok (n, c₁)) (hsign : c₁.expect .maritalLink = .ok (u, c₂))
    (h : Awaits us (behind L .maritalLink) c₂) :
    Judged us (fun x => Awaits us (one .terminator * L) x.2) (readMaritalLink c) := by
  refine .bind_of_eq hname (.bind_of_eq hsign ?_)
  refine (name_awaits h).bind fun ⟨_, c₃⟩ h₃ => ?_
  exact (weddingDate_awaits hlexeme h₃).bind fun _ hx => .ok hx

omit hlexeme in
theorem readFamilialLink_awaits {n : Located String} {c₁ c₂ : Cursor}
    (hname : name c = .ok (n, c₁)) (hsign : c₁.expect .familialLink = .ok (u, c₂))
    (h : Awaits us (behind L .familialLink) c₂) :
    Judged us (fun x => Awaits us (one .terminator * L) x.2) (readFamilialLink c) := by
  refine .bind_of_eq hname (.bind_of_eq hsign ?_)
  exact (name_awaits h).bind fun _ hx => .ok hx

theorem body_awaits {ahead : List (Located Token)} {kind : Kind}
    (h : Due us done (statement * L) c) (hahead : c.ahead = t :: u :: ahead)
    (ht : t.value.kind = .name) (hu : u.value.kind = kind.sign) :
    Judged us (fun x => Awaits us (one .terminator * L) x.2) (body kind c) := by
  have hfirst : c.expect .name = .ok (t, ⟨u :: ahead, c.stop⟩) :=
    Cursor.expect_eq_ok.mpr ⟨hahead, ht, rfl⟩
  have hname : name c = .ok (t.map Token.text, ⟨u :: ahead, c.stop⟩) := by
    rw [name, hfirst]
    rfl
  have hsign : Cursor.expect kind.sign ⟨u :: ahead, c.stop⟩ = .ok (u, ⟨ahead, c.stop⟩) :=
    Cursor.expect_eq_ok.mpr ⟨rfl, hu, rfl⟩
  have hdue : Awaits us (behind L kind) ⟨ahead, c.stop⟩ := ⟨_, h.dispatch hahead ht hu⟩
  cases kind with
  | declaration =>
    exact (readDeclaration_awaits hlexeme hname hsign hdue).bind fun _ hx => .ok hx
  | maritalLink =>
    exact (readMaritalLink_awaits hlexeme hname hsign hdue).bind fun _ hx => .ok hx
  | familialLink =>
    exact (readFamilialLink_awaits hname hsign hdue).bind fun _ hx => .ok hx

theorem read_judged {next : Located Token} {ahead : List (Located Token)}
    (h : Due us done inside c) (hlast : AtBoundary (kinds done)) (hahead : c.ahead = next :: ahead)
    (hbrace : next.value.kind ≠ .rightBrace) :
    Judged us (fun x => ∃ done, Due us done inside x.2 ∧ AtBoundary (kinds done)) (read c) := by
  have hstatement : Due us done (statement * inside) c := by
    rw [inside_eq, add_comm] at h
    exact h.drop hahead (fun w hw => hbrace (eq_of_cons_mem_one_mul hw))
      (statement_mul_nonempty inside_nonempty)
  obtain ⟨ahead', stop⟩ := c
  obtain rfl : ahead' = next :: ahead := hahead
  cases ahead with
  | nil =>
    have hus : us = done ++ [next] := h.split
    refine .error (.alone none stop ?_ ?_)
    · rw [hus]
      exact List.concat_ne_nil _ _
    · rwa [hus, List.dropLast_concat]
  | cons second rest =>
    have hfirst : Cursor.peek 0 ⟨next :: second :: rest, stop⟩ = .ok next := rfl
    have hsecond : Cursor.peek 1 ⟨next :: second :: rest, stop⟩ = .ok second := rfl
    refine .bind_of_eq hfirst (.bind_of_eq hsecond ?_)
    dsimp only
    cases hkind : Kind.ahead? ⟨next :: second :: rest, stop⟩ with
    | none =>
      have htake : us.take (done.length + 2) = done ++ [next, second] := h.take_length_add 2
      refine .error (.unrecognized (h.getElem?_length_add 0) (h.getElem?_length_add 1)
        (h.take_length.symm ▸ hlast) fun hviable => ?_)
      -- A sentence that went on with both tokens would go on with a statement they open.
      obtain ⟨w, hw⟩ := hviable
      rw [htake, kinds_append, List.append_assoc] at hw
      obtain ⟨kind, _, -, heq⟩ := mem_statement_mul.mp (hstatement.forced next rfl _ hw)
      obtain ⟨hfirst, heq⟩ := List.cons.inj heq
      have hsome : Kind.ahead? ⟨next :: second :: rest, stop⟩ = some kind :=
        Kind.ahead?_eq_some_iff.mpr ⟨hfirst, (List.cons.inj heq).1⟩
      exact Option.some_ne_none kind (hsome.symm.trans hkind)
    | some kind =>
      obtain ⟨hfirst, hsecond⟩ := Kind.ahead?_eq_some_iff.mp hkind
      refine (body_awaits hlexeme hstatement rfl hfirst hsecond).bind fun ⟨_, c₁⟩ h₁ => ?_
      obtain ⟨done', h₁⟩ := h₁
      refine (Cursor.expect_judged h₁).bind fun ⟨t, c₂⟩ h₂ => ?_
      obtain ⟨hkind, h₂⟩ := h₂
      refine .ok ⟨_, h₂, h₂.viable, Or.inr ?_⟩
      simp [kinds_concat, hkind]

end

end Statement

namespace Block

variable {ss : List (Located Statement)} {r : Except Fault Cursor}

theorem Lists.judged (hlexeme : ∀ t ∈ us, t.value.IsLexeme) (h : Lists c ss r)
    (hdue : Due us done inside c) (hlast : AtBoundary (kinds done)) :
    Judged us (Awaits us (one .rightBrace * 1)) r := by
  induction h generalizing done with
  | exhausted hnext => exact .error ((Cursor.peek_judged ⟨done, hdue⟩).blames hnext)
  | closed hnext hbrace =>
    obtain ⟨_, hahead⟩ := (Cursor.peek_judged ⟨done, hdue⟩).holds hnext
    rw [inside_eq] at hdue
    exact .ok ⟨done, hdue.drop hahead (fun w hw => absurd
      (hbrace.symm.trans (kind_of_cons_mem_statement_mul hw)) (by decide)) end_nonempty⟩
  | malformed hnext hbrace hread =>
    obtain ⟨_, hahead⟩ := (Cursor.peek_judged ⟨done, hdue⟩).holds hnext
    exact .error ((Statement.read_judged hlexeme hdue hlast hahead hbrace).blames hread)
  | cons hnext hbrace hread _ ih =>
    obtain ⟨_, hahead⟩ := (Cursor.peek_judged ⟨done, hdue⟩).holds hnext
    obtain ⟨_, hdue', hlast'⟩ :=
      (Statement.read_judged hlexeme hdue hlast hahead hbrace).holds hread
    exact ih hdue' hlast'

theorem opening_judged (h : Due us done familyTree c) :
    Judged us (fun c' => ∃ done, Due us done inside c' ∧ AtBoundary (kinds done)) (opening c) := by
  rw [familyTree_eq] at h
  refine (Cursor.expect_awaits ⟨_, h⟩).bind fun ⟨_, c₁⟩ h₁ => ?_
  obtain ⟨done', h₁⟩ := h₁
  refine (Cursor.expect_judged h₁).bind fun ⟨t, c₂⟩ h₂ => ?_
  obtain ⟨hkind, h₂⟩ := h₂
  refine .ok ⟨_, h₂, h₂.viable, Or.inl ?_⟩
  simp [kinds_concat, hkind]

theorem closing_judged (h : Awaits us (one .rightBrace * 1) c) :
    Judged us (fun _ => True) (closing c) := by
  obtain ⟨done, h⟩ := h
  refine (Cursor.expect_judged h).bind ?_
  rintro ⟨t, ahead, stop⟩ ⟨-, h⟩
  cases ahead with
  | nil => exact .ok trivial
  | cons first rest =>
    have htake : us.take ((done ++ [t]).length + 1) = done ++ [t] ++ [first] :=
      h.take_length_add 1
    -- Nothing is due behind the closing brace, so what was read up to it is a sentence.
    refine .error (.trailing (h.getElem?_length_add 0) ?_ ?_ fun hviable => ?_)
    · rw [h.split, List.getLast?_append_of_ne_nil _ (List.cons_ne_nil first rest)]
      exact List.getLast?_eq_some_getLast _
    · have hmem := h.complete [] rfl
      rwa [List.append_nil, ← h.take_length] at hmem
    · rw [htake] at hviable
      obtain ⟨w, hw⟩ := h.mem_of_viable rfl hviable
      cases hw

theorem blames_of_parse (hlexeme : ∀ t ∈ c.ahead, t.value.IsLexeme) {e : Fault}
    (h : (parse c).2 = .error e) : e.Blames c.ahead := by
  have hstart : Due c.ahead [] familyTree c :=
    ⟨rfl, familyTree_nonempty, fun _ hw => hw, fun _ _ _ hw => hw⟩
  have hopening := opening_judged hstart
  cases hopen : opening c with
  | error e' =>
    rw [parse_of_opening_error hopen] at h
    cases h
    exact hopening.blames hopen
  | ok c₁ =>
    obtain ⟨done, hdue, hlast⟩ := hopening.holds hopen
    obtain ⟨ss, r, hlists⟩ := exists_lists c₁
    have hbody := hlists.judged hlexeme hdue hlast
    rw [parse_of_lists hopen hlists] at h
    exact (hbody.bind fun _ => closing_judged).blames h

end Block

end Pedigree.Source

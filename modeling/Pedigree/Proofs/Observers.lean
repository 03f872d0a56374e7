import Pedigree.Proofs.Places

/-! What observers hear of a source. Main statements: every observer is told the same notices in the
same order, which are those of statements at the front of the source; the names in them are names of
the language. -/

namespace Pedigree.Source

/-- What a source makes known, in order, whatever the end of its reading. -/
def heard (source : String) : List Notice := (readWith (fun n ns => ns ++ [n]) [] source).1

theorem hear_append (ms ns : List Notice) : hear (fun n ns => ns ++ [n]) ms ns = ms ++ ns := by
  unfold hear
  induction ns generalizing ms with
  | nil => exact (List.append_nil ms).symm
  | cons n ns ih => rw [List.foldl_cons, ih, List.append_assoc, List.singleton_append]

theorem statementsOf_of_parse {source : String} {ts : List (Located Token)}
    (h : tokens source = .ok ts) {ss : List (Located Statement)} {ending : Except Fault Unit}
    (hparse : Block.parse (.ofTokens ts source.utf8ByteSize) = (ss, ending)) :
    statementsOf source = ss := by
  unfold statementsOf
  rw [h]
  exact congrArg Prod.fst hparse

/-- What comes of a source, whoever listens: the statements that are heard of stand at its front,
and a tree that is read is that of all its statements. -/
theorem exists_outcome (source : String) :
    ∃ front result, front <+: statementsOf source ∧
      (∀ t, result = .ok t → enterAll (statementsOf source) = .ok t) ∧
      ∀ {ω : Type} (observe : Notice → ω → ω) (o : ω),
        readWith observe o source = (hear observe o (notices front), result) := by
  cases htokens : tokens source with
  | error e =>
    refine ⟨[], .error e, List.nil_prefix, nofun, ?_⟩
    intro ω observe o
    unfold readWith
    rw [htokens]
    rfl
  | ok ts =>
    rcases hparse : Block.parse (.ofTokens ts source.utf8ByteSize) with ⟨ss, ending⟩
    rw [statementsOf_of_parse htokens hparse]
    rcases enterAll_eq_ok_or ss with ⟨t, ht⟩ | ⟨before, s, after, t, x, rfl, ht, hx⟩
    · refine ⟨ss, ending.map fun _ => t, List.prefix_refl ss, ?_, ?_⟩
      · intro t' hresult
        cases ending with
        | error e => cases hresult
        | ok u =>
          obtain rfl : t = t' := Except.ok.inj hresult
          exact ht
      · intro ω observe o
        rw [readWith_eq_settle observe o htokens hparse,
          ((Draft.holds_start o).applyAll_of_ok observe ht).1]
        rfl
    · refine ⟨before, .error (faultAfter before s.value x), List.prefix_append before _, nofun, ?_⟩
      intro ω observe o
      rw [readWith_eq_settle observe o htokens hparse,
        (Draft.holds_start o).applyAll_of_error observe ht hx]
      rfl

theorem exists_front_heard (source : String) :
    ∃ front, front <+: statementsOf source ∧ heard source = notices front := by
  obtain ⟨front, result, hfront, -, hread⟩ := exists_outcome source
  refine ⟨front, hfront, ?_⟩
  unfold heard
  rw [hread, hear_append, List.nil_append]

theorem observer_readWith {ω : Type} (observe : Notice → ω → ω) (o : ω) (source : String) :
    (readWith observe o source).1 = hear observe o (heard source) := by
  obtain ⟨front, result, -, -, hread⟩ := exists_outcome source
  unfold heard
  rw [hread, hread, hear_append, List.nil_append]

theorem result_readWith {ω : Type} (observe : Notice → ω → ω) (o : ω) (source : String) :
    (readWith observe o source).2 = read source := by
  obtain ⟨front, result, -, -, hread⟩ := exists_outcome source
  unfold read
  rw [hread, hread]

theorem enterAll_of_read {source : String} {t : FamilyTree} (h : read source = .ok t) :
    enterAll (statementsOf source) = .ok t := by
  obtain ⟨front, result, -, htree, hread⟩ := exists_outcome source
  unfold read at h
  rw [hread] at h
  exact htree t h

def Notice.names : Notice → List String
  | .declaration name _ _ _ => [name]
  | .maritalLink left _ right _ _ => [left, right]
  | .familialLink parent _ child _ => [parent, child]

theorem exists_name_of_mem_names {earlier : List (Located Statement)} {s : Statement}
    {name : String} (h : name ∈ (noticeAfter earlier s).names) :
    ∃ n : Located String, n.value = name ∧ .name n ∈ s.words := by
  cases s with
  | declaration d =>
    have hname : name = d.name.value := List.mem_singleton.mp h
    exact ⟨d.name, hname.symm, by simp [Statement.words]⟩
  | maritalLink l =>
    have hname : name = l.left.value ∨ name = l.right.value := by
      simpa [noticeAfter, Notice.names] using h
    rcases hname with rfl | rfl
    · exact ⟨l.left, rfl, by simp [Statement.words]⟩
    · exact ⟨l.right, rfl, by simp [Statement.words]⟩
  | familialLink l =>
    have hname : name = l.parent.value ∨ name = l.child.value := by
      simpa [noticeAfter, Notice.names] using h
    rcases hname with rfl | rfl
    · exact ⟨l.parent, rfl, by simp [Statement.words]⟩
    · exact ⟨l.child, rfl, by simp [Statement.words]⟩

theorem exists_statement_of_mem_noticesAfter {earlier ss : List (Located Statement)} {n : Notice}
    (h : n ∈ noticesAfter earlier ss) : ∃ before, ∃ s ∈ ss, n = noticeAfter before s.value := by
  induction ss generalizing earlier with
  | nil => exact absurd h List.not_mem_nil
  | cons s ss ih =>
    unfold noticesAfter at h
    rcases List.mem_cons.mp h with hhead | htail
    · exact ⟨earlier, s, List.mem_cons_self, hhead⟩
    · obtain ⟨before, s', hs', hn⟩ := ih htail
      exact ⟨before, s', List.mem_cons_of_mem s hs', hn⟩

theorem isLexeme_of_mem_words {source : String} {n : Located String}
    (h : .name n ∈ (statementsOf source).flatMap (·.value.words)) :
    (Token.name n.value).IsLexeme := by
  cases htokens : tokens source with
  | error e =>
    unfold statementsOf at h
    rw [htokens] at h
    exact absurd h List.not_mem_nil
  | ok ts =>
    obtain ⟨us, hsub, hus⟩ := exists_tokens_of_sublist htokens (List.singleton_sublist.mpr h)
    obtain ⟨u, _, rfl, hu, -⟩ := List.map_eq_cons_iff.mp hus
    have hlexeme : u.value.IsLexeme :=
      (covers_of_tokens htokens).isLexeme u (hsub.subset List.mem_cons_self)
    obtain ⟨token, span⟩ := u
    cases token with
    | name text =>
      obtain rfl := Word.name.inj (Option.some.inj hu)
      exact hlexeme
    | _ => cases Word.kind_of_ofToken? hu

theorem isLexeme_of_mem_heard {source : String} {n : Notice} (h : n ∈ heard source)
    {name : String} (hname : name ∈ n.names) : (Token.name name).IsLexeme := by
  obtain ⟨front, hfront, hheard⟩ := exists_front_heard source
  rw [hheard] at h
  obtain ⟨before, s, hs, rfl⟩ := exists_statement_of_mem_noticesAfter h
  obtain ⟨m, rfl, hword⟩ := exists_name_of_mem_names hname
  have hall : .name m ∈ (statementsOf source).flatMap (·.value.words) :=
    List.mem_flatMap.mpr ⟨s, hfront.subset hs, hword⟩
  exact isLexeme_of_mem_words hall

end Pedigree.Source

import Mathlib.Computability.Language
import Pedigree.Proofs.Cuts
import Pedigree.Proofs.Dates
import Pedigree.Proofs.Words

/-! The grammar of family trees, over the kinds of their tokens. Main statement: a source is read to
its end exactly if it is a sentence, and its statements written back are the tokens between the
braces. -/

namespace Pedigree.Source

namespace Grammar

open Token (Kind)

def one (k : Kind) : Language Kind := {[k]}

def optional (l : Language Kind) : Language Kind := 1 + l

/-- `NAME '(' DATE '-' DATE? ')' ';'` -/
def declaration : Language Kind :=
  one .name * one .leftParen * one .date * one .range * optional (one .date) * one .rightParen *
    one .terminator

/-- `NAME '<=>' NAME ('(' DATE ')')? ';'` -/
def maritalLink : Language Kind :=
  one .name * one .maritalLink * one .name *
    optional (one .leftParen * one .date * one .rightParen) * one .terminator

/-- `NAME '->' NAME ';'` -/
def familialLink : Language Kind :=
  one .name * one .familialLink * one .name * one .terminator

def statement : Language Kind := declaration + maritalLink + familialLink

/-- `'family_tree' '{' statement* '}'` -/
def familyTree : Language Kind :=
  one .familyTree * one .leftBrace * KStar.kstar statement * one .rightBrace

theorem mem_one {k : Kind} {l : List Kind} : l ∈ one k ↔ l = [k] := Iff.rfl

theorem mem_one_mul {k : Kind} {l : List Kind} {L : Language Kind} :
    l ∈ one k * L ↔ ∃ l' ∈ L, l = k :: l' := by
  rw [Language.mem_mul]
  constructor
  · rintro ⟨_, rfl, l', hl', rfl⟩
    exact ⟨l', hl', rfl⟩
  · rintro ⟨l', hl', rfl⟩
    exact ⟨[k], rfl, l', hl', rfl⟩

theorem optional_mul (L M : Language Kind) : optional L * M = M + L * M := by
  rw [optional, add_mul, one_mul]

theorem mem_statement {l : List Kind} :
    l ∈ statement ↔
      l = [.name, .leftParen, .date, .range, .rightParen, .terminator] ∨
      l = [.name, .leftParen, .date, .range, .date, .rightParen, .terminator] ∨
      l = [.name, .maritalLink, .name, .terminator] ∨
      l = [.name, .maritalLink, .name, .leftParen, .date, .rightParen, .terminator] ∨
      l = [.name, .familialLink, .name, .terminator] := by
  simp only [statement, declaration, maritalLink, familialLink, mul_assoc, optional_mul, add_mul,
    Language.mem_add, mem_one_mul, mem_one, or_and_right, exists_or, exists_eq_left, or_assoc]

theorem mem_familyTree {l : List Kind} :
    l ∈ familyTree ↔ ∃ ls : List (List Kind), (∀ l' ∈ ls, l' ∈ statement) ∧
      l = .familyTree :: .leftBrace :: (ls.flatten ++ [.rightBrace]) := by
  simp only [familyTree, mul_assoc, mem_one_mul]
  constructor
  · rintro ⟨_, ⟨_, ⟨_, hls, _, rfl, rfl⟩, rfl⟩, rfl⟩
    obtain ⟨ls, rfl, hmem⟩ := Language.mem_kstar.mp hls
    exact ⟨ls, hmem, rfl⟩
  · rintro ⟨ls, hls, rfl⟩
    exact ⟨_, ⟨_, ⟨_, Language.mem_kstar.mpr ⟨ls, rfl, hls⟩, _, rfl, rfl⟩, rfl⟩, rfl⟩

end Grammar

namespace Statement

theorem map_kind_words_mem (s : Statement) : s.words.map Word.kind ∈ Grammar.statement := by
  rw [Grammar.mem_statement]
  cases s with
  | declaration d =>
    obtain ⟨name, birth, death⟩ := d
    cases death <;> simp [words, Word.kind]
  | maritalLink l =>
    obtain ⟨left, right, wedding⟩ := l
    cases wedding <;> simp [words, weddingWords, Word.kind]
  | familialLink l => simp [words, Word.kind]

end Statement

theorem Token.IsLexeme.parse_isOk {t : Token} (h : t.IsLexeme) (hkind : t.kind = .date) :
    ∃ d, Date.parse t.text = .ok d := by
  cases t with
  | date text => exact Date.parse_isOk_iff_written.mpr h
  | _ => cases hkind

theorem exists_words_of_mem {ts : List (Located Token)} (hlexeme : ∀ t ∈ ts, t.value.IsLexeme)
    (h : ts.map (·.value.kind) ∈ Grammar.statement) :
    ∃ s : Statement, ts.map Word.ofToken? = s.words.map some := by
  have hdate : ∀ t ∈ ts, t.value.kind = .date → ∃ d, Word.ofToken? t = some (.date d) := by
    intro t ht hkind
    obtain ⟨d, hd⟩ := (hlexeme t ht).parse_isOk hkind
    exact ⟨_, Word.ofToken?_of_date hkind hd⟩
  simp only [Grammar.mem_statement, List.map_eq_cons_iff, List.map_eq_nil_iff] at h
  rcases h with h | h | h | h | h
  · obtain ⟨t₁, _, rfl, h₁, t₂, _, rfl, h₂, t₃, _, rfl, h₃, t₄, _, rfl, h₄, t₅, _, rfl, h₅,
      t₆, _, rfl, h₆, rfl⟩ := h
    obtain ⟨d, hd⟩ := hdate t₃ (by simp) h₃
    refine ⟨.declaration ⟨t₁.map Token.text, d, none⟩, ?_⟩
    simp [Statement.words, Word.ofToken?_of_name h₁, Word.ofToken?_of_mark h₂, hd,
      Word.ofToken?_of_mark h₄, Word.ofToken?_of_mark h₅, Word.ofToken?_of_mark h₆]
  · obtain ⟨t₁, _, rfl, h₁, t₂, _, rfl, h₂, t₃, _, rfl, h₃, t₄, _, rfl, h₄, t₅, _, rfl, h₅,
      t₆, _, rfl, h₆, t₇, _, rfl, h₇, rfl⟩ := h
    obtain ⟨d, hd⟩ := hdate t₃ (by simp) h₃
    obtain ⟨d', hd'⟩ := hdate t₅ (by simp) h₅
    refine ⟨.declaration ⟨t₁.map Token.text, d, some d'⟩, ?_⟩
    simp [Statement.words, Word.ofToken?_of_name h₁, Word.ofToken?_of_mark h₂, hd,
      Word.ofToken?_of_mark h₄, hd', Word.ofToken?_of_mark h₆, Word.ofToken?_of_mark h₇]
  · obtain ⟨t₁, _, rfl, h₁, t₂, _, rfl, h₂, t₃, _, rfl, h₃, t₄, _, rfl, h₄, rfl⟩ := h
    refine ⟨.maritalLink ⟨t₁.map Token.text, t₃.map Token.text, none⟩, ?_⟩
    simp [Statement.words, Statement.weddingWords, Word.ofToken?_of_name h₁,
      Word.ofToken?_of_mark h₂, Word.ofToken?_of_name h₃, Word.ofToken?_of_mark h₄]
  · obtain ⟨t₁, _, rfl, h₁, t₂, _, rfl, h₂, t₃, _, rfl, h₃, t₄, _, rfl, h₄, t₅, _, rfl, h₅,
      t₆, _, rfl, h₆, t₇, _, rfl, h₇, rfl⟩ := h
    obtain ⟨d, hd⟩ := hdate t₅ (by simp) h₅
    refine ⟨.maritalLink ⟨t₁.map Token.text, t₃.map Token.text, some d⟩, ?_⟩
    simp [Statement.words, Statement.weddingWords, Word.ofToken?_of_name h₁,
      Word.ofToken?_of_mark h₂, Word.ofToken?_of_name h₃, Word.ofToken?_of_mark h₄, hd,
      Word.ofToken?_of_mark h₆, Word.ofToken?_of_mark h₇]
  · obtain ⟨t₁, _, rfl, h₁, t₂, _, rfl, h₂, t₃, _, rfl, h₃, t₄, _, rfl, h₄, rfl⟩ := h
    refine ⟨.familialLink ⟨t₁.map Token.text, t₃.map Token.text⟩, ?_⟩
    simp [Statement.words, Word.ofToken?_of_name h₁, Word.ofToken?_of_mark h₂,
      Word.ofToken?_of_name h₃, Word.ofToken?_of_mark h₄]

theorem exists_words_of_flatten {ls : List (List Token.Kind)}
    (hls : ∀ l ∈ ls, l ∈ Grammar.statement) {ts : List (Located Token)}
    (hlexeme : ∀ t ∈ ts, t.value.IsLexeme) (h : ts.map (·.value.kind) = ls.flatten) :
    ∃ ss : List Statement, ts.map Word.ofToken? = (ss.flatMap Statement.words).map some := by
  induction ls generalizing ts with
  | nil =>
    have hnil : ts = [] := List.map_eq_nil_iff.mp h
    exact ⟨[], by rw [hnil]; rfl⟩
  | cons l ls ih =>
    obtain ⟨front, back, rfl, hfront, hback⟩ := List.map_eq_append_iff.mp h
    have hmem : front.map (·.value.kind) ∈ Grammar.statement := hfront ▸ hls l List.mem_cons_self
    obtain ⟨s, hs⟩ := exists_words_of_mem (fun t ht => hlexeme t (List.mem_append_left _ ht)) hmem
    obtain ⟨ss, hss⟩ := ih (fun l' hl' => hls l' (List.mem_cons_of_mem _ hl'))
      (fun t ht => hlexeme t (List.mem_append_right _ ht)) hback
    exact ⟨s :: ss, by rw [List.map_append, hs, hss, List.flatMap_cons, List.map_append]⟩

theorem words_mem_familyTree (ss : List Statement) :
    (Block.words ss).map Word.kind ∈ Grammar.familyTree := by
  refine Grammar.mem_familyTree.mpr ⟨ss.map fun s => s.words.map Word.kind, ?_, ?_⟩
  · intro l hl
    obtain ⟨s, -, rfl⟩ := List.mem_map.mp hl
    exact s.map_kind_words_mem
  · simp [Block.words, Word.kind, List.flatMap, List.map_flatten, Function.comp_def]

theorem exists_words_of_mem_familyTree {ts : List (Located Token)}
    (hlexeme : ∀ t ∈ ts, t.value.IsLexeme) (h : ts.map (·.value.kind) ∈ Grammar.familyTree) :
    ∃ ss, ts.map Word.ofToken? = (Block.words ss).map some := by
  obtain ⟨ls, hls, hkinds⟩ := Grammar.mem_familyTree.mp h
  obtain ⟨keyword, ts, rfl, hkeyword, hts⟩ := List.map_eq_cons_iff.mp hkinds
  obtain ⟨left, ts, rfl, hleft, hts⟩ := List.map_eq_cons_iff.mp hts
  obtain ⟨inner, last, rfl, hinner, hlast⟩ := List.map_eq_append_iff.mp hts
  obtain ⟨right, rest, rfl, hright, hrest⟩ := List.map_eq_cons_iff.mp hlast
  obtain rfl := List.map_eq_nil_iff.mp hrest
  obtain ⟨ss, hss⟩ := exists_words_of_flatten hls (fun t ht => hlexeme t (by simp [ht])) hinner
  refine ⟨ss, ?_⟩
  simp [Block.words, Word.ofToken?_of_mark hkeyword,
    Word.ofToken?_of_mark hleft,
    Word.ofToken?_of_mark hright, hss]

theorem map_kind_of_map_ofToken? {ts : List (Located Token)} {ws : List Word}
    (h : ts.map Word.ofToken? = ws.map some) : ts.map (·.value.kind) = ws.map Word.kind := by
  induction ts generalizing ws with
  | nil =>
    have hnil : ws = [] := List.map_eq_nil_iff.mp h.symm
    rw [hnil]
    rfl
  | cons t ts ih =>
    cases ws with
    | nil => cases h
    | cons w ws =>
      obtain ⟨hw, hws⟩ := List.cons.inj h
      rw [List.map_cons, List.map_cons, Word.kind_of_ofToken? hw, ih hws]

theorem Block.read_eq_foldl {σ : Type} (f : Located Statement → σ → σ) (s : σ) (c : Cursor) :
    Block.read (fun x s => .ok (f x s)) s c =
      ((Block.parse c).1.foldl (fun s x => f x s) s, (Block.parse c).2) := by
  have hall : ∀ ss (s : σ), Block.applyAll (fun x s => .ok (f x s)) s ss =
      (ss.foldl (fun s x => f x s) s, .ok ()) := by
    intro ss
    induction ss with
    | nil => exact fun s => rfl
    | cons x xs ih => exact fun s => ih (f x s)
  rw [Block.read_eq_settle_parse, hall]
  rfl

theorem Block.parse_eq_ok_iff {c : Cursor} (hlexeme : ∀ t ∈ c.ahead, t.value.IsLexeme) :
    (Block.parse c).2 = .ok () ↔ c.ahead.map (·.value.kind) ∈ Grammar.familyTree := by
  constructor
  · intro h
    obtain ⟨-, front, hahead, hfront⟩ := Reads.iff_exists_front.mp (Block.reads_of_parse h)
    rw [hahead, List.append_nil, map_kind_of_map_ofToken? hfront]
    exact words_mem_familyTree _
  · intro h
    obtain ⟨ss, hss⟩ := exists_words_of_mem_familyTree hlexeme h
    have hreads : Reads c (Block.words ss) ⟨[], c.stop⟩ :=
      Reads.iff_exists_front.mpr ⟨rfl, c.ahead, (List.append_nil _).symm, hss⟩
    exact (Block.parse_of_reads hreads).1

theorem Block.exists_inner_of_parse {c : Cursor} (h : (Block.parse c).2 = .ok ()) :
    ∃ keyword left inner right, c.ahead = keyword :: left :: (inner ++ [right]) ∧
      keyword.value.kind = .familyTree ∧ left.value.kind = .leftBrace ∧
      right.value.kind = .rightBrace ∧
      inner.map Word.ofToken? = ((Block.parse c).1.flatMap (·.value.words)).map some := by
  obtain ⟨-, front, hahead, hfront⟩ := Reads.iff_exists_front.mp (Block.reads_of_parse h)
  rw [List.append_nil] at hahead
  rw [← hahead, Block.words, List.map_cons, List.map_cons, List.map_append] at hfront
  obtain ⟨keyword, ts, hts, hkeyword, hfront⟩ := List.map_eq_cons_iff.mp hfront
  obtain ⟨left, ts, rfl, hleft, hfront⟩ := List.map_eq_cons_iff.mp hfront
  obtain ⟨inner, last, rfl, hinner, hlast⟩ := List.map_eq_append_iff.mp hfront
  obtain ⟨right, rest, rfl, hright, hrest⟩ := List.map_eq_cons_iff.mp hlast
  obtain rfl := List.map_eq_nil_iff.mp hrest
  refine ⟨keyword, left, inner, right, hts, ?_, ?_, ?_, ?_⟩
  · exact Word.kind_of_ofToken? hkeyword
  · exact Word.kind_of_ofToken? hleft
  · exact Word.kind_of_ofToken? hright
  · rw [hinner, List.flatMap_map]

/-- A source is read to its end exactly if its tokens, but for comments, make a sentence. What is
done with the statements makes no difference, as long as none is refused; and the statements of a
sentence are the tokens between its braces, names and dates with what they are written as. -/
theorem read_eq_ok_iff_mem_familyTree {source : String} {ts : List (Located Token)}
    (h : tokens source = .ok ts) :
    ∃ (ss : List (Located Statement)) (r : Except Fault Unit),
      (∀ {σ : Type} (f : Located Statement → σ → σ) (s : σ),
        Block.read (fun x s => .ok (f x s)) s (.ofTokens ts source.utf8ByteSize) =
          (ss.foldl (fun s x => f x s) s, r)) ∧
      (r = .ok () ↔
        (ts.filter (·.value.kind ≠ .comment)).map (·.value.kind) ∈ Grammar.familyTree) ∧
      (r = .ok () → ∃ keyword left inner right,
        ts.filter (·.value.kind ≠ .comment) = keyword :: left :: (inner ++ [right]) ∧
        keyword.value.kind = .familyTree ∧ left.value.kind = .leftBrace ∧
        right.value.kind = .rightBrace ∧
        inner.map Word.ofToken? = (ss.flatMap (·.value.words)).map some) := by
  have hlexeme : ∀ t ∈ ts.filter (·.value.kind ≠ .comment), t.value.IsLexeme :=
    fun t ht => (covers_of_tokens h).isLexeme t (List.mem_of_mem_filter ht)
  refine ⟨_, _, fun f s => Block.read_eq_foldl f s _, ?_, Block.exists_inner_of_parse⟩
  exact Block.parse_eq_ok_iff (c := .ofTokens ts source.utf8ByteSize) hlexeme

def complete : String :=
  "family_tree\x7bA(1/1/1900-);B(2/2/1901-3/3/1950);// né\nA<=>B;A<=>B(4/4/1920);A->B;\x7d"

theorem sentence_of_complete :
    ∃ ts, tokens complete = .ok ts ∧
      (ts.filter (·.value.kind ≠ .comment)).map (·.value.kind) ∈ Grammar.familyTree ∧
      ∃ (ss : List (Located Statement)) (keyword left : Located Token)
        (inner : List (Located Token)) (right : Located Token),
        ts.filter (·.value.kind ≠ .comment) = keyword :: left :: (inner ++ [right]) ∧
        inner.map Word.ofToken? = (ss.flatMap (·.value.words)).map some := by
  have hok : (tokens complete).isOk = true := by decide +kernel
  have hread : ((tokens complete).map fun ts =>
      (Block.read (fun _ u => .ok u) () (.ofTokens ts complete.utf8ByteSize)).2) =
        .ok (.ok ()) := by
    decide +kernel
  obtain ⟨ts, h⟩ := exists_tokens hok
  rw [h] at hread
  obtain ⟨ss, r, hrun, hiff, hinner⟩ := read_eq_ok_iff_mem_familyTree h
  have hr : r = (Block.read (fun _ u => .ok u) () (.ofTokens ts complete.utf8ByteSize)).2 :=
    (congrArg Prod.snd (hrun (fun _ u => u) ())).symm
  obtain rfl : r = .ok () := hr.trans (Except.ok.inj hread)
  obtain ⟨keyword, left, inner, right, hts, -, -, -, hwords⟩ := hinner rfl
  exact ⟨ts, h, hiff.mp rfl, ss, keyword, left, inner, right, hts, hwords⟩

end Pedigree.Source

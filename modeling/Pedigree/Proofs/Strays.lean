import Mathlib.Order.Bounds.Basic
import Pedigree.Proofs.Cuts

/-! Characters that no lexeme takes. Main statement: the reading of a source that cannot be read
ends at a character of it, the source up to this character can be read, and no longer part of it
from its beginning can. -/

namespace Pedigree.Source

open scoped List

theorem mem_head?_of_isPrefix {cs cs' : List Char} (h : cs' <+: cs) {c : Char}
    (hc : c ∈ cs'.head?) : c ∈ cs.head? := by
  obtain ⟨rest, rfl⟩ := h
  cases cs' with
  | nil => cases hc
  | cons d ds => exact hc

theorem lexeme?_append_of_isPrefix {t : Token} {rest rest' : List Char}
    (h : lexeme? (t.chars ++ rest) = some (t, rest)) (hrest : rest' <+: rest) :
    lexeme? (t.chars ++ rest') = some (t, rest') := by
  obtain ⟨-, hlexeme, hends, halone⟩ := lexeme?_eq_some_iff.mp h
  refine lexeme?_append_eq_some hlexeme ?_ ?_
  · cases t with
    | name text => exact fun c hc => hends c (mem_head?_of_isPrefix hrest hc)
    | comment text => exact fun c hc => hends c (mem_head?_of_isPrefix hrest hc)
    | _ => trivial
  · cases t with
    | range => exact fun c hc => halone c (mem_head?_of_isPrefix hrest hc)
    | name text =>
      intro hkeyword
      exact halone (hkeyword.trans ((List.prefix_append_right_inj text.toList).mpr hrest))
    | _ => trivial

theorem exists_lexeme?_of_isAlpha {c : Char} (hc : c.isAlpha = true) (cs : List Char) :
    ∃ t rest, lexeme? (c :: cs) = some (t, rest) := by
  by_cases hkeyword : Token.familyTree.chars <+: c :: cs
  · obtain ⟨rest, hrest⟩ := hkeyword
    rw [← hrest]
    exact ⟨_, rest, lexeme?_append_eq_some (t := .familyTree) trivial trivial trivial⟩
  · have hsplit : (c :: cs).takeWhile Char.isAlpha = (c :: cs).takeWhile Char.isAlpha ∧
        (c :: cs).dropWhile Char.isAlpha = (c :: cs).dropWhile Char.isAlpha := ⟨rfl, rfl⟩
    obtain ⟨happend, hall, hends⟩ := takeWhile_dropWhile_eq_iff.mp hsplit
    have hname : (c :: cs).takeWhile Char.isAlpha ≠ [] := by
      rw [List.takeWhile_cons_of_pos hc]
      exact List.cons_ne_nil _ _
    generalize (c :: cs).takeWhile Char.isAlpha = text at *
    generalize (c :: cs).dropWhile Char.isAlpha = rest at *
    rw [happend] at hkeyword ⊢
    refine ⟨.name (.ofList text), rest, lexeme?_eq_some_iff.mpr ⟨?_, ⟨?_, ?_⟩, hends, ?_⟩⟩
    · simp [Token.chars, Token.text]
    · simpa using hname
    · simpa using hall
    · simpa [Token.StandsAlone] using hkeyword

theorem exists_lexeme?_append {t : Token} (h : t.IsLexeme) (cs : List Char) :
    ∃ u rest, lexeme? (t.chars ++ cs) = some (u, rest) := by
  cases t with
  | name text =>
    obtain ⟨hne, hall⟩ := h
    obtain ⟨c, cs', htext⟩ := List.exists_cons_of_ne_nil (show text.toList ≠ [] by simpa using hne)
    have hc : c.isAlpha = true := hall c (htext ▸ List.mem_cons_self)
    have hchars : (Token.name text).chars = c :: cs' := htext
    rw [hchars]
    exact exists_lexeme?_of_isAlpha hc _
  | comment text =>
    have hchars : (Token.comment text).chars = '/' :: '/' :: text.toList := by
      simp [Token.chars, Token.text]
    rw [hchars]
    exact ⟨_, _, rfl⟩
  | range =>
    cases cs with
    | nil => exact ⟨_, _, rfl⟩
    | cons c cs =>
      by_cases hc : c = '>'
      · subst hc
        exact ⟨_, _, rfl⟩
      · exact ⟨.range, c :: cs, lexeme?_append_eq_some trivial trivial (by rintro d ⟨⟩; exact hc)⟩
  | _ => exact ⟨_, cs, lexeme?_append_eq_some h trivial trivial⟩

theorem lexeme?_eq_none_of_isPrefix {cs cs' : List Char} (h : lexeme? cs = none)
    (hcs : cs' <+: cs) : lexeme? cs' = none := by
  rw [Option.eq_none_iff_forall_ne_some]
  rintro ⟨t, rest⟩ ht
  obtain ⟨rfl, hlexeme, -⟩ := lexeme?_eq_some_iff.mp ht
  obtain ⟨more, rfl⟩ := hcs
  obtain ⟨u, rest', hu⟩ := exists_lexeme?_append hlexeme (rest ++ more)
  rw [List.append_assoc, hu] at h
  cases h

/-- A text that cannot be read has a character in it up to which it can be read. A shorter text that
holds this character still ends there. -/
theorem exists_stray_of_scan {start : Nat} {cs : List Char} {e : Fault}
    (h : scan start cs = .error e) :
    ∃ before c after, cs = before ++ c.value :: after ∧ e = .strayCharacter c ∧
      c.span.start = start + byteLength before ∧
      c.span.stop = c.span.start + c.value.utf8Size ∧
      (∃ ts, scan start before = .ok ts) ∧
      ∀ after', after' <+: after → scan start (before ++ c.value :: after') = .error e := by
  fun_induction scan start cs with
  | case1 => cases h
  | case2 start b cs hblank ih =>
    obtain ⟨before, c, after, rfl, he, hstart, hstop, ⟨ts, hts⟩, hmore⟩ := ih h
    refine ⟨b :: before, c, after, rfl, he, ?_, hstop, ?_, ?_⟩
    · rw [hstart, byteLength, Nat.add_assoc]
    · exact ⟨ts, (scan_blank hblank _ _).trans hts⟩
    · exact fun after' hafter => (scan_blank hblank _ _).trans (hmore after' hafter)
  | case3 start b cs _ t rest hfirst stop =>
    rename_i ih
    have hchars : b :: cs = t.chars ++ rest := (lexeme?_append hfirst).1.symm
    rw [hchars] at hfirst
    have hrest : scan stop rest = .error e := by
      cases hscan : scan stop rest with
      | ok ts =>
        rw [hscan] at h
        cases h
      | error e' =>
        rw [hscan] at h
        cases h
        rfl
    obtain ⟨before, c, after, rfl, he, hstart, hstop, ⟨ts, hts⟩, hmore⟩ := ih hrest
    -- The lexeme in front is the same in front of every part of what follows it.
    have hscan {part : List Char} (hpart : part <+: before ++ c.value :: after) :=
      scan_append (lexeme?_append_of_isPrefix hfirst hpart) start
    refine ⟨t.chars ++ before, c, after, by rw [hchars, List.append_assoc], he, ?_, hstop, ?_, ?_⟩
    · rw [hstart, byteLength_append, Nat.add_assoc]
    · rw [hscan (List.prefix_append _ _), hts]
      exact ⟨_, rfl⟩
    · intro after' hafter
      have hpart : before ++ c.value :: after' <+: before ++ c.value :: after :=
        (List.prefix_append_right_inj _).mpr (List.cons_prefix_cons.mpr ⟨rfl, hafter⟩)
      rw [List.append_assoc, hscan hpart, hmore after' hafter]
      rfl
  | case4 start c cs hblank hnone =>
    cases h
    refine ⟨[], _, cs, rfl, rfl, rfl, rfl, ⟨[], scan.eq_1 start⟩, ?_⟩
    intro after' hafter
    have hnone' := lexeme?_eq_none_of_isPrefix hnone (List.cons_prefix_cons.mpr ⟨rfl, hafter⟩)
    rw [List.nil_append, scan, if_neg hblank]
    split
    · rename_i hsome
      cases hnone'.symm.trans hsome
    · rfl

theorem isPrefix_of_scan_eq_ok {start : Nat} {before after front : List Char} {c : Char} {e : Fault}
    {ts : List (Located Token)}
    (hmore : ∀ after', after' <+: after → scan start (before ++ c :: after') = .error e)
    (hpart : front <+: before ++ c :: after) (hfront : scan start front = .ok ts) :
    front <+: before := by
  rcases List.prefix_or_prefix_of_prefix hpart (List.prefix_append before _) with
    hshort | ⟨more, rfl⟩
  · exact hshort
  cases more with
  | nil => exact ⟨[], by rw [List.append_nil, List.append_nil]⟩
  | cons d after' =>
    rw [List.prefix_append_right_inj, List.cons_prefix_cons] at hpart
    obtain ⟨rfl, hafter⟩ := hpart
    cases (hmore after' hafter).symm.trans hfront

theorem Span.selects_character {source : String} {before after : List Char} {c : Located Char}
    (hsource : source.toList = before ++ c.value :: after)
    (hstart : c.span.start = byteLength before)
    (hstop : c.span.stop = c.span.start + c.value.utf8Size) :
    c.span.Selects source (.singleton c.value) :=
  Span.selects_of_append before after (by simpa using hsource) hstart
    (by simpa [byteLength] using hstop)

/-- The reading of a source fails at the longest part of it, from its beginning, that can be read:
the fault is the character that stands behind that part, and the diagnostic points at no more and
no less than this character. -/
theorem stray_at_longest_readable_front {source : String} {e : Fault}
    (h : tokens source = .error e) :
    ∃ c, e = .strayCharacter c ∧ e.diagnostic.code = .strayCharacter ∧
      e.diagnostic.primary.span = c.span ∧
      IsGreatest {n | ∃ front rest, source = front ++ rest ∧ (∃ ts, tokens front = .ok ts) ∧
        front.utf8ByteSize = n} c.span.start ∧
      c.span.start < source.utf8ByteSize ∧
      (⟨c.span.start⟩ : String.Pos.Raw).IsValid source ∧
      c.span.Selects source (.singleton c.value) ∧
      c.span.stop = c.span.start + c.value.utf8Size := by
  obtain ⟨before, c, after, hsource, rfl, hstart, hstop, ⟨ts, hts⟩, hmore⟩ := exists_stray_of_scan h
  rw [Nat.zero_add] at hstart
  have hselects := Span.selects_character hsource hstart hstop
  refine ⟨c, rfl, rfl, rfl, ⟨?_, ?_⟩, ?_, hselects.start_isValid, hselects, hstop⟩
  · refine ⟨.ofList before, .ofList (c.value :: after), ?_, ⟨ts, ?_⟩, ?_⟩
    · rw [← String.ofList_append, ← hsource, String.ofList_toList]
    · rwa [tokens, String.toList_ofList]
    · rw [utf8ByteSize_ofList, hstart]
  · rintro n ⟨front, rest, hfront, ⟨ts', hts'⟩, rfl⟩
    have hpart : front.toList <+: source.toList := by
      rw [hfront, String.toList_append]
      exact List.prefix_append _ _
    obtain ⟨more, rfl⟩ := isPrefix_of_scan_eq_ok hmore (hsource ▸ hpart) hts'
    rw [hstart, byteLength_append, byteLength_toList]
    exact Nat.le_add_right _ _
  · have hle := hselects.stop_le
    have hpos := c.value.utf8Size_pos
    omega

def accented : String := "// né\r\nfamily_treeZoé->"

theorem stray_of_accented :
    ∃ c : Located Char, c.value = 'é' ∧ c.span.text = "21..23" ∧
      tokens accented = .error (.strayCharacter c) ∧
      IsGreatest {n | ∃ front rest, accented = front ++ rest ∧ (∃ ts, tokens front = .ok ts) ∧
        front.utf8ByteSize = n} c.span.start := by
  have h : tokens accented = .error (.strayCharacter ⟨'é', 21, 23, by decide⟩) := by decide +kernel
  obtain ⟨c, hc, -, -, hgreatest, -⟩ := stray_at_longest_readable_front h
  obtain rfl := Fault.strayCharacter.inj hc
  exact ⟨_, rfl, by decide +kernel, h, hgreatest⟩

end Pedigree.Source

import Mathlib.Data.List.Basic
import Mathlib.Data.Set.Function
import Pedigree.Proofs.Graphs

/-! Quoted texts among other text. A quote that a text brings with it never ends the quotation, and
lines are parted where they were joined. Main statement: whatever texts are quoted, the quotation
ends at its own second quote, and a reader who takes a backslash together with the character behind
it gets the texts back. -/

namespace Pedigree.Dot

/-- Taken with the character behind it, no backslash stands at the end, and no quote stands bare. -/
inductive Sealed : List Char → Prop
  | nil : Sealed []
  | pair (c : Char) {cs : List Char} : Sealed cs → Sealed ('\\' :: c :: cs)
  | plain {c : Char} {cs : List Char} : c ≠ '\\' → c ≠ '"' → Sealed cs → Sealed (c :: cs)

def close? : List Char → Option (List Char × List Char)
  | [] => none
  | ['\\'] => none
  | '\\' :: c :: cs => (close? cs).map fun x => ('\\' :: c :: x.1, x.2)
  | c :: cs => if c = '"' then some ([], cs) else (close? cs).map fun x => (c :: x.1, x.2)

def unescapeLines : List Char → Option (List (List Char))
  | [] => some [[]]
  | ['\\'] => none
  | '\\' :: c :: cs =>
    if c = 'n' then (unescapeLines cs).map ([] :: ·)
    else if c = '\\' ∨ c = '"' then (unescapeLines cs).map (.modifyHead (c :: ·))
    else none
  | c :: cs => if c = '"' then none else (unescapeLines cs).map (.modifyHead (c :: ·))

def replaceChar (c : Char) (text cs : List Char) : List Char :=
  cs.flatMap fun d => if d = c then text else [d]

theorem close?_cons {c : Char} (hslash : c ≠ '\\') (hquote : c ≠ '"') (cs : List Char) :
    close? (c :: cs) = (close? cs).map fun x => (c :: x.1, x.2) := by
  rw [close?, if_neg hquote]
  · rintro rfl
    exact absurd rfl hslash
  · rintro d ds rfl
    exact absurd rfl hslash

namespace Sealed

theorem append {cs ds : List Char} (hcs : Sealed cs) (hds : Sealed ds) : Sealed (cs ++ ds) := by
  induction hcs with
  | nil => exact hds
  | pair c _ ih => exact .pair c ih
  | plain hslash hquote _ ih => exact .plain hslash hquote ih

theorem escape (cs : List Char) : Sealed (escape cs) := by
  induction cs with
  | nil => exact .nil
  | cons c cs ih =>
    unfold Dot.escape
    split
    · exact .pair c ih
    · rename_i hc
      obtain ⟨hslash, hquote⟩ := not_or.mp hc
      exact .plain hslash hquote ih

theorem joinLines (lines : List String) : Sealed (joinLines lines) := by
  fun_induction Dot.joinLines lines with
  | case1 => exact .nil
  | case2 line => exact .escape line.toList
  | case3 line lines _ ih => exact (Sealed.escape line.toList).append (.pair 'n' ih)

theorem close?_append {body : List Char} (h : Sealed body) (rest : List Char) :
    close? (body ++ '"' :: rest) = some (body, rest) := by
  induction h with
  | nil => rfl
  | pair c _ ih =>
    rw [List.cons_append, List.cons_append, close?, ih]
    rfl
  | plain hslash hquote _ ih =>
    rw [List.cons_append, close?_cons hslash hquote, ih]
    rfl

end Sealed

theorem replaceChar_append (c : Char) (text cs ds : List Char) :
    replaceChar c text (cs ++ ds) = replaceChar c text cs ++ replaceChar c text ds :=
  List.flatMap_append

theorem escape_eq_replaceChar (cs : List Char) :
    escape cs = replaceChar '"' ['\\', '"'] (replaceChar '\\' ['\\', '\\'] cs) := by
  induction cs with
  | nil => rfl
  | cons c cs ih =>
    have hcons : replaceChar '\\' ['\\', '\\'] (c :: cs) =
        (if c = '\\' then ['\\', '\\'] else [c]) ++ replaceChar '\\' ['\\', '\\'] cs :=
      List.flatMap_cons
    rw [hcons, replaceChar_append, ← ih]
    by_cases hslash : c = '\\'
    · subst hslash
      rfl
    by_cases hquote : c = '"'
    · subst hquote
      rfl
    · simp [escape, replaceChar, hslash, hquote]

theorem joinLines_eq_intercalate (lines : List String) :
    joinLines lines = ['\\', 'n'].intercalate (lines.map fun line => escape line.toList) := by
  fun_induction joinLines lines with
  | case1 => rfl
  | case2 line => exact List.intercalate_singleton.symm
  | case3 line lines hne ih =>
    obtain ⟨line', lines', rfl⟩ := List.exists_cons_of_ne_nil hne
    rw [ih, List.map_cons, List.map_cons, List.map_cons, List.intercalate_cons_cons,
      List.append_assoc]
    rfl

theorem unescapeLines_cons {c : Char} (hslash : c ≠ '\\') (hquote : c ≠ '"') (cs : List Char) :
    unescapeLines (c :: cs) = (unescapeLines cs).map (.modifyHead (c :: ·)) := by
  rw [unescapeLines, if_neg hquote]
  · rintro rfl
    exact absurd rfl hslash
  · rintro d ds rfl
    exact absurd rfl hslash

theorem unescapeLines_escape_append {rest line : List Char} {lines : List (List Char)}
    (h : unescapeLines rest = some (line :: lines)) (cs : List Char) :
    unescapeLines (escape cs ++ rest) = some ((cs ++ line) :: lines) := by
  induction cs with
  | nil => exact h
  | cons c cs ih =>
    by_cases hc : c = '\\' ∨ c = '"'
    · have hn : c ≠ 'n' := by
        rintro rfl
        exact absurd hc (by decide)
      rw [escape, if_pos hc, List.cons_append, List.cons_append, unescapeLines, if_neg hn,
        if_pos hc, ih]
      rfl
    · obtain ⟨hslash, hquote⟩ := not_or.mp hc
      rw [escape, if_neg hc, List.cons_append, unescapeLines_cons hslash hquote, ih]
      rfl

theorem unescapeLines_joinLines {lines : List String} (h : lines ≠ []) :
    unescapeLines (joinLines lines) = some (lines.map String.toList) := by
  fun_induction joinLines lines with
  | case1 => exact absurd rfl h
  | case2 line =>
    have hnil : unescapeLines [] = some [[]] := rfl
    have hline := unescapeLines_escape_append hnil line.toList
    rwa [List.append_nil, List.append_nil] at hline
  | case3 line lines hne ih =>
    have hlines : unescapeLines ('\\' :: 'n' :: joinLines lines) =
        some ([] :: lines.map String.toList) := by
      rw [unescapeLines, if_pos rfl, ih hne]
      rfl
    rw [unescapeLines_escape_append hlines, List.append_nil]
    rfl

/-- A text is a body between two quotes, of which the second ends the quotation. -/
structure Encloses (text : String) (body : List Char) : Prop where
  toList_eq : text.toList = '"' :: (body ++ ['"'])
  isSealed : Sealed body
  close?_eq : ∀ rest, close? (body ++ '"' :: rest) = some (body, rest)

theorem Sealed.encloses {body : List Char} (h : Sealed body) :
    Encloses (String.ofList ('"' :: (body ++ ['"']))) body where
  toList_eq := String.toList_ofList
  isSealed := h
  close?_eq := h.close?_append

theorem multiline_injOn : Set.InjOn multiline {lines | lines ≠ []} := by
  intro lines hne lines' hne' h
  have hchars : '"' :: (joinLines lines ++ ['"']) = '"' :: (joinLines lines' ++ ['"']) :=
    String.ofList_injective h
  have hbody : joinLines lines = joinLines lines' :=
    List.append_cancel_right (List.cons.inj hchars).2
  have hread : some (lines.map String.toList) = some (lines'.map String.toList) := by
    rw [← unescapeLines_joinLines hne, ← unescapeLines_joinLines hne', hbody]
  have hchar : Function.Injective String.toList := fun _ _ => String.toList_injective
  exact List.map_injective_iff.mpr hchar (Option.some.inj hread)

/-- A quoted text is its text with all backslashes and then all quotes escaped, between two quotes
that hold it together: no quote inside stands bare, no backslash is left over at the end, and the
text can be read back. So can the lines of a quoted text of several lines, if there are any. -/
theorem quotations_read_back :
    (∀ s : String, ∃ body, Encloses (quoted s) body ∧
      body = replaceChar '"' ['\\', '"'] (replaceChar '\\' ['\\', '\\'] s.toList) ∧
      unescape body = some s.toList) ∧
    (∀ lines : List String, lines ≠ [] → ∃ body, Encloses (multiline lines) body ∧
      body = ['\\', 'n'].intercalate (lines.map fun line => escape line.toList) ∧
      unescapeLines body = some (lines.map String.toList)) ∧
    Function.Injective quoted ∧ Set.InjOn multiline {lines | lines ≠ []} := by
  refine ⟨fun s => ?_, fun lines hne => ?_, quoted_injective, multiline_injOn⟩
  · exact ⟨escape s.toList, (Sealed.escape _).encloses, escape_eq_replaceChar _, unescape_escape _⟩
  · exact ⟨joinLines lines, (Sealed.joinLines lines).encloses, joinLines_eq_intercalate lines,
      unescapeLines_joinLines hne⟩

def awkward : List String := ["\\\"", "n\\", "n", ""]

theorem awkward_reads_back :
    awkward ≠ [] ∧ ∃ body, Encloses (multiline awkward) body ∧
      unescapeLines body = some [['\\', '"'], ['n', '\\'], ['n'], []] := by
  have hne : awkward ≠ [] := by decide
  obtain ⟨body, hbody, -, hread⟩ := quotations_read_back.2.1 awkward hne
  exact ⟨hne, body, hbody, hread⟩

example : multiline awkward = "\"\\\\\\\"\\nn\\\\\\nn\\n\"" := by decide

end Pedigree.Dot

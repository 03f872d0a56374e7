import Pedigree.Source.Fault

/-! Cutting a source into tokens. At each place the first rule that applies makes a token, and
blanks between tokens are passed over; spans count bytes. Main statement: a lexeme and what is
left behind it are the characters it was read from. -/

namespace Pedigree.Source

def isBlank (c : Char) : Bool := c = ' ' || c = '\t' || c = '\n' || c = '\r'

def byteLength : List Char → Nat
  | [] => 0
  | c :: cs => c.utf8Size + byteLength cs

def takeDigits : Nat → List Char → List Char × List Char
  | n + 1, c :: cs =>
    if c.isDigit then (c :: (takeDigits n cs).1, (takeDigits n cs).2) else ([], c :: cs)
  | _, cs => ([], cs)

def dateLexeme? (cs : List Char) : Option (List Char × List Char) :=
  match takeDigits 2 cs with
  | (day, '/' :: cs) =>
    match takeDigits 2 cs with
    | (month, '/' :: cs) =>
      let year := takeDigits 4 cs
      if day ≠ [] ∧ month ≠ [] ∧ year.1.length = 4 then
        some (day ++ '/' :: (month ++ '/' :: year.1), year.2)
      else none
    | _ => none
  | _ => none

def nameLexeme? (cs : List Char) : Option (List Char × List Char) :=
  if (cs.takeWhile Char.isAlpha).isEmpty then none
  else some (cs.takeWhile Char.isAlpha, cs.dropWhile Char.isAlpha)

def lexeme? : List Char → Option (Token × List Char)
  | '/' :: '/' :: cs =>
    some (.comment (String.ofList (cs.takeWhile (· != '\n'))), cs.dropWhile (· != '\n'))
  | 'f' :: 'a' :: 'm' :: 'i' :: 'l' :: 'y' :: '_' :: 't' :: 'r' :: 'e' :: 'e' :: cs =>
    some (.familyTree, cs)
  | '<' :: '=' :: '>' :: cs => some (.maritalLink, cs)
  | '-' :: '>' :: cs => some (.familialLink, cs)
  | '(' :: cs => some (.leftParen, cs)
  | ')' :: cs => some (.rightParen, cs)
  | '\x7b' :: cs => some (.leftBrace, cs)
  | '\x7d' :: cs => some (.rightBrace, cs)
  | ';' :: cs => some (.terminator, cs)
  | '-' :: cs => some (.range, cs)
  | cs =>
    match dateLexeme? cs with
    | some (text, rest) => some (.date (String.ofList text), rest)
    | none => (nameLexeme? cs).map fun (text, rest) => (.name (String.ofList text), rest)

theorem takeDigits_append (n : Nat) (cs : List Char) :
    (takeDigits n cs).1 ++ (takeDigits n cs).2 = cs := by
  fun_induction takeDigits n cs <;> simp_all

theorem dateLexeme?_append {cs text rest : List Char} (h : dateLexeme? cs = some (text, rest)) :
    text ++ rest = cs ∧ text ≠ [] := by
  unfold dateLexeme? at h
  split at h
  · rename_i day cs₁ h₁
    split at h
    · rename_i month cs₂ h₂
      have e₁ := takeDigits_append 2 cs
      have e₂ := takeDigits_append 2 cs₁
      have e₃ := takeDigits_append 4 cs₂
      rw [h₁] at e₁
      rw [h₂] at e₂
      simp only [Option.ite_none_right_eq_some, Option.some.injEq, Prod.mk.injEq] at h
      obtain ⟨-, rfl, rfl⟩ := h
      simp_all
    · simp at h
  · simp at h

theorem nameLexeme?_append {cs text rest : List Char} (h : nameLexeme? cs = some (text, rest)) :
    text ++ rest = cs ∧ text ≠ [] := by
  unfold nameLexeme? at h
  split at h
  · simp at h
  · rename_i hne
    simp only [Option.some.injEq, Prod.mk.injEq] at h
    obtain ⟨rfl, rfl⟩ := h
    exact ⟨List.takeWhile_append_dropWhile, by simpa using hne⟩

theorem lexeme?_append {cs rest : List Char} {token : Token}
    (h : lexeme? cs = some (token, rest)) : token.chars ++ rest = cs ∧ token.chars ≠ [] := by
  unfold lexeme? at h
  split at h
  case h_11 =>
    split at h
    · rename_i hd
      simp only [Option.some.injEq, Prod.mk.injEq] at h
      obtain ⟨rfl, rfl⟩ := h
      simpa [Token.chars, Token.text] using dateLexeme?_append hd
    · simp only [Option.map_eq_some_iff, Prod.mk.injEq, Prod.exists] at h
      obtain ⟨_, _, hn, rfl, rfl⟩ := h
      simpa [Token.chars, Token.text] using nameLexeme?_append hn
  all_goals
    simp only [Option.some.injEq, Prod.mk.injEq] at h
    obtain ⟨rfl, rfl⟩ := h
    simp [Token.chars, Token.text, Token.kind, Token.Kind.text]

def scan (start : Nat) (cs : List Char) : Except Fault (List (Located Token)) :=
  match cs with
  | [] => .ok []
  | c :: cs =>
    if isBlank c then scan (start + c.utf8Size) cs
    else
      match _h : lexeme? (c :: cs) with
      | some (token, rest) => do
        let stop := start + byteLength token.chars
        let tokens ← scan stop rest
        return ⟨token, start, stop, Nat.le_add_right ..⟩ :: tokens
      | none => .error (.strayCharacter ⟨c, start, start + c.utf8Size, Nat.le_add_right ..⟩)
termination_by cs.length
decreasing_by
  · simp
  · obtain ⟨e, ne⟩ := lexeme?_append _h
    have := List.length_pos_iff.mpr ne
    simp only [← e, List.length_append]
    omega

def tokens (source : String) : Except Fault (List (Located Token)) := scan 0 source.toList

end Pedigree.Source

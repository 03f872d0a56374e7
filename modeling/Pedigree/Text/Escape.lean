import Pedigree.Text.Unprintable

/-! A character as it is shown in a message: quotes, backslashes, line breaks and characters that
leave no mark of their own are escaped. -/

namespace Pedigree.Text

def escape (c : Char) : String :=
  match c with
  | '\x00' => "\\0"
  | '\t' => "\\t"
  | '\r' => "\\r"
  | '\n' => "\\n"
  | '\'' => "\\'"
  | '"' => "\\\""
  | '\\' => "\\\\"
  | c =>
    if isUnprintable c then
      "\\u\x7b" ++ String.ofList (Nat.toDigits 16 c.toNat) ++ "\x7d"
    else String.singleton c

end Pedigree.Text

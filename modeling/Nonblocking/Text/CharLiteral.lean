import Nonblocking.Text.Printable

/-! # Quoted characters

The quote, the backslash and four controls have short escapes; any other character that cannot be
shown is written by its code point in lower-case hexadecimal. -/
namespace Nonblocking.Text

def codePointEscape (c : Char) : String :=
  "\\u\x7b" ++ String.ofList (Nat.toDigits 16 c.toNat) ++ "\x7d"

def charBody (c : Char) : String :=
  match c with
  | '\x00' => "\\0"
  | '\t' => "\\t"
  | '\n' => "\\n"
  | '\r' => "\\r"
  | '\'' => "\\'"
  | '\\' => "\\\\"
  | c => if isPrintable c then c.toString else codePointEscape c

def charLiteral (c : Char) : String := "'" ++ charBody c ++ "'"

end Nonblocking.Text

import Shellwright.Text.Printable

/-!
# Quoted text

Text as it stands in a dump: between double quotes, with the characters escaped that would end it
or could not be seen.
-/

namespace Shellwright.Text

/-- A character inside double quotes. -/
def escape (c : Char) : String :=
  match c with
  | '"' => "\\\""
  | '\\' => "\\\\"
  | '\n' => "\\n"
  | '\r' => "\\r"
  | '\t' => "\\t"
  | c =>
    if c.toNat = 0 then "\\0"
    else if isPrintable c then String.singleton c
    else "\\u\x7b" ++ String.ofList (Nat.toDigits 16 c.toNat) ++ "\x7d"

/-- A text between double quotes. -/
def quoted (text : String) : String :=
  "\"" ++ String.join (text.toList.map escape) ++ "\""

end Shellwright.Text

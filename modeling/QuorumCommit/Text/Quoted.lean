import QuorumCommit.Text.Hex
import QuorumCommit.Text.Unprintable

/-!
Quoted text: a string between double quotes in which quotes, backslashes, line ends and all
characters that do not show are escaped.
-/
namespace QuorumCommit.Text.Quoted

/-- The code point of a character in hexadecimal, without leading zeros. -/
def codePoint (c : Char) : String := "\\u\x7b" ++ Hex.shortest c.toNat ++ "\x7d"

def escape (c : Char) : String :=
  match c with
  | '"' => "\\\""
  | '\\' => "\\\\"
  | '\n' => "\\n"
  | '\r' => "\\r"
  | '\t' => "\\t"
  | '\x00' => "\\0"
  | _ => if isHidden c then codePoint c else c.toString

def encode (s : String) : String :=
  "\"" ++ String.join (s.toList.map escape) ++ "\""

end QuorumCommit.Text.Quoted

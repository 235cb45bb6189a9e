import QuorumCommit.Json.Basic
import QuorumCommit.Text.Hex

/-!
JSON text on one line, without blanks between its tokens.
-/
namespace QuorumCommit.Json

def escapeChar (c : Char) : List Char :=
  if c = '"' then ['\\', '"']
  else if c = '\\' then ['\\', '\\']
  else if c.toNat < 0x20 then
    ['\\', 'u', '0', '0', Text.Hex.digit (c.toNat / 16), Text.Hex.digit c.toNat]
  else [c]

def quote (s : String) : String :=
  "\"" ++ String.ofList (s.toList.flatMap escapeChar) ++ "\""

mutual

def render : Json → String
  | null => "null"
  | bool b => if b then "true" else "false"
  | int n => toString n
  | real text => text
  | str s => quote s
  | arr items => "[" ++ renderItems items ++ "]"
  | obj members => "\x7b" ++ renderMembers members ++ "\x7d"

def renderItems : List Json → String
  | [] => ""
  | [j] => render j
  | j :: rest => render j ++ "," ++ renderItems rest

def renderMembers : List (String × Json) → String
  | [] => ""
  | [(n, j)] => quote n ++ ":" ++ render j
  | (n, j) :: rest => quote n ++ ":" ++ render j ++ "," ++ renderMembers rest

end

end QuorumCommit.Json

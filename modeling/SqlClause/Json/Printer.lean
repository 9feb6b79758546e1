import SqlClause.Json.Number
import SqlClause.Text.Hex

/-! # Writing JSON documents -/

namespace SqlClause.Json

open Text

private def escape (c : Char) : List Char :=
  match c with
  | '"' => ['\\', '"']
  | '\\' => ['\\', '\\']
  | '\x08' => ['\\', 'b']
  | '\x0c' => ['\\', 'f']
  | '\n' => ['\\', 'n']
  | '\r' => ['\\', 'r']
  | '\t' => ['\\', 't']
  | c => if c < ' ' then ['\\', 'u', '0', '0'] ++ hexByte (.ofNat c.toNat) else [c]

def stringText (s : String) : List Char := '"' :: (s.toList.flatMap escape ++ ['"'])

private def commas (parts : List (List Char)) : List Char := [','].intercalate parts

mutual

/-- Compact text: no blanks, and no escapes but the necessary ones. -/
def chars : Json → List Char
  | .null => ['n', 'u', 'l', 'l']
  | .bool true => ['t', 'r', 'u', 'e']
  | .bool false => ['f', 'a', 'l', 's', 'e']
  | .int n => (toString n).toList
  | .real x => realText x
  | .text s => stringText s
  | .array items => '[' :: (commas (itemChars items) ++ [']'])
  | .object fields => '\x7b' :: (commas (fieldChars fields) ++ ['\x7d'])

def itemChars : List Json → List (List Char)
  | [] => []
  | item :: rest => chars item :: itemChars rest

def fieldChars : List (String × Json) → List (List Char)
  | [] => []
  | (name, value) :: rest => (stringText name ++ ':' :: chars value) :: fieldChars rest

end

end SqlClause.Json

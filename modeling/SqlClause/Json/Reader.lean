import SqlClause.Json.Number
import SqlClause.Text.Hex

/-! # Reading JSON documents -/

namespace SqlClause.Json

open Text

private def skipBlanks (cs : List Char) : List Char :=
  cs.dropWhile fun c => c = ' ' ∨ c = '\n' ∨ c = '\r' ∨ c = '\t'

private def shortEscape? : Char → Option Char
  | '"' => some '"'
  | '\\' => some '\\'
  | '/' => some '/'
  | 'b' => some '\x08'
  | 'f' => some '\x0c'
  | 'n' => some '\n'
  | 'r' => some '\r'
  | 't' => some '\t'
  | _ => none

private def unit? (cs : List Char) : Option (Nat × List Char) :=
  if 4 ≤ cs.length then (hexNumber? (cs.take 4)).map (·, cs.drop 4) else none

/-- The character behind `\u`, from one unit or from two surrogates. -/
private def escaped? (cs : List Char) : Option (Char × List Char) := do
  let (high, rest) ← unit? cs
  if high < 0xd800 ∨ 0xdfff < high then return (.ofNat high, rest)
  guard (high < 0xdc00 ∧ rest.take 2 = ['\\', 'u'])
  let (low, rest) ← unit? (rest.drop 2)
  guard (0xdc00 ≤ low ∧ low ≤ 0xdfff)
  return (.ofNat (0x10000 + (high - 0xd800) * 0x400 + (low - 0xdc00)), rest)

/-- The characters up to the closing quote, which is dropped. -/
private def chars? : Nat → List Char → List Char → Option (List Char × List Char)
  | 0, _, _ => none
  | _ + 1, _, [] => none
  | _ + 1, done, '"' :: rest => some (done.reverse, rest)
  | fuel + 1, done, '\\' :: 'u' :: rest => do
    let (c, rest) ← escaped? rest
    chars? fuel (c :: done) rest
  | fuel + 1, done, '\\' :: c :: rest => do chars? fuel ((← shortEscape? c) :: done) rest
  | fuel + 1, done, c :: rest => if c < ' ' then none else chars? fuel (c :: done) rest

private def string? (cs : List Char) : Option (String × List Char) :=
  (chars? (cs.length + 1) [] cs).map fun (body, rest) => (String.ofList body, rest)

private def constant? (word : List Char) (value : Json) (cs : List Char) :
    Option (Json × List Char) :=
  if cs.take word.length = word then some (value, cs.drop word.length) else none

mutual

private def value? : Nat → List Char → Option (Json × List Char)
  | 0, _ => none
  | fuel + 1, cs =>
    match skipBlanks cs with
    | 'n' :: rest => constant? ['u', 'l', 'l'] .null rest
    | 't' :: rest => constant? ['r', 'u', 'e'] (.bool true) rest
    | 'f' :: rest => constant? ['a', 'l', 's', 'e'] (.bool false) rest
    | '"' :: rest => (string? rest).map fun (s, rest) => (.text s, rest)
    | '[' :: rest =>
      match skipBlanks rest with
      | ']' :: rest => some (.array [], rest)
      | rest => items? fuel [] rest
    | '\x7b' :: rest =>
      match skipBlanks rest with
      | '\x7d' :: rest => some (.object [], rest)
      | rest => fields? fuel [] rest
    | rest => number? rest

private def items? : Nat → List Json → List Char → Option (Json × List Char)
  | 0, _, _ => none
  | fuel + 1, done, cs => do
    let (item, rest) ← value? fuel cs
    match skipBlanks rest with
    | ',' :: rest => items? fuel (item :: done) rest
    | ']' :: rest => some (.array (item :: done).reverse, rest)
    | _ => none

private def fields? : Nat → List (String × Json) → List Char → Option (Json × List Char)
  | 0, _, _ => none
  | fuel + 1, done, cs => do
    let '"' :: rest := skipBlanks cs | none
    let (name, rest) ← string? rest
    let ':' :: rest := skipBlanks rest | none
    let (value, rest) ← value? fuel rest
    match skipBlanks rest with
    | ',' :: rest => fields? fuel (insertField name value done) rest
    | '\x7d' :: rest => some (.object (insertField name value done), rest)
    | _ => none

end

/-- One document with nothing but blanks around it. -/
def read? (cs : List Char) : Option Json := do
  let (document, rest) ← value? (cs.length + 1) cs
  guard (skipBlanks rest).isEmpty
  return document

end SqlClause.Json

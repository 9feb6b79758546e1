/-! # Texts that stand for one operand

An atomic text keeps its meaning next to any operator: a bracketed group, a call, a literal, a
quoted reference or a star. -/

namespace SqlClause.Atom

/-- Whether the last character closes a bracket with `depth` more around it, and all other brackets
pair up before. -/
def closesAtEnd : Nat → List Char → Bool
  | _, [] => false
  | depth, '(' :: cs => closesAtEnd (depth + 1) cs
  | 0, ')' :: cs => cs.isEmpty
  | depth + 1, ')' :: cs => closesAtEnd depth cs
  | depth, _ :: cs => closesAtEnd depth cs

/-- One bracketed group and nothing else. -/
def isGroup : List Char → Bool
  | '(' :: cs => closesAtEnd 0 cs
  | _ => false

def keywords : List String :=
  ["NULL", "TRUE", "FALSE", "CURRENT_TIMESTAMP", "CURRENT_DATE", "CURRENT_TIME", "CURRENT_USER",
    "NOW"]

def isKeyword (cs : List Char) : Bool := keywords.contains (String.ofList (cs.map Char.toUpper))

/-- An optional minus, then digits, digits with places, or places alone. -/
def isNumeral (cs : List Char) : Bool :=
  let body := if cs.head? = some '-' then cs.tail else cs
  match body.dropWhile Char.isDigit with
  | [] => !body.isEmpty
  | '.' :: places => !places.isEmpty && places.all Char.isDigit
  | _ => false

def isString : List Char → Bool
  | '\'' :: cs => cs.getLast? = some '\''
  | _ => false

def isWordCharacter (c : Char) : Bool := c = '_' || c = '$' || c.isAlphanum

/-- The rest after a word in quotes. -/
def afterQuotedWord? (quote : Char) : List Char → Option (List Char)
  | [] => none
  | c :: cs =>
    let word := cs.takeWhile (· ≠ quote)
    match cs.dropWhile (· ≠ quote) with
    | [] => none
    | _ :: rest =>
      if c = quote ∧ word ≠ [] ∧ word.all isWordCharacter then some rest else none

/-- One quoted word, or two with a point between them. -/
def isReference (quote : Char) (cs : List Char) : Bool :=
  match afterQuotedWord? quote cs with
  | none => false
  | some [] => true
  | some ('.' :: rest) => afterQuotedWord? quote rest = some []
  | some _ => false

/-- A name in capital letters and underscores, directly followed by one bracketed group. -/
def isCall (cs : List Char) : Bool :=
  let isLetter (c : Char) : Bool := c.isUpper || c = '_'
  !(cs.takeWhile isLetter).isEmpty && isGroup (cs.dropWhile isLetter)

def isStar (cs : List Char) : Bool := cs = ['*'] || ['.', '*'].isSuffixOf cs

/-- Whether a text that binds `params` values is atomic where identifiers stand in `quote`. -/
def isAtomic (quote : Char) (params : Nat) (cs : List Char) : Bool :=
  cs.isEmpty || isReference quote cs || isCall cs || (cs = ['?'] && params = 1) || isGroup cs ||
    isKeyword cs || isNumeral cs || isString cs || isStar cs

example : isCall "COUNT(())".toList ∧ ¬isCall "COUNT(a) + MAX(b)".toList := by decide +kernel

example : isGroup "(a)".toList ∧ ¬isGroup "(a)(b)".toList := by decide +kernel

end SqlClause.Atom

/-! # Errors -/

namespace SqlClause

/-- Why a name is not a column. -/
inductive PathFault where
  | empty
  | nul
  | tooManySegments
  | emptySegment
  | badStart (c : Char)
  | badCharacter (c : Char)
  deriving DecidableEq

def PathFault.message (path : String) : PathFault → String
  | .empty => "identifier cannot be empty"
  | .nul => "identifier cannot contain NUL character"
  | .tooManySegments => "too many segments in '" ++ path ++ "'"
  | .emptySegment => "empty segment in '" ++ path ++ "'"
  | .badStart c => "invalid start character '" ++ c.toString ++ "' in '" ++ path ++ "'"
  | .badCharacter c => "invalid character '" ++ c.toString ++ "' in '" ++ path ++ "'"

inductive Error where
  | unknownOperator (spelling : String)
  | emptyRange
  | notAColumn (sql : String)
  | invalidIdentifier (path : String) (fault : PathFault)
  | placeholderMismatch (placeholders params : Nat)
  deriving DecidableEq

def Error.message : Error → String
  | .unknownOperator spelling => "Unknown comparison operator: " ++ spelling
  | .emptyRange => "Range requires at least one of \x60from\x60 / \x60to\x60"
  | .notAColumn sql => "Expression is not a plain column: " ++ sql
  | .invalidIdentifier path fault => "Invalid identifier: " ++ fault.message path
  | .placeholderMismatch placeholders params =>
    "Statement has " ++ toString placeholders ++ " placeholders but only " ++ toString params ++
      " params"

end SqlClause

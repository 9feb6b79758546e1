import SqlClause.Calendar.Reader
import SqlClause.Column.Path
import SqlClause.Expr.Render
import SqlClause.Field.Arithmetic
import SqlClause.Field.Case
import SqlClause.Field.Condition
import SqlClause.Field.Function
import SqlClause.Json.Printer
import SqlClause.Json.Reader
import SqlClause.Proofs.AtomicTexts
import SqlClause.Proofs.CalculationGrammar
import SqlClause.Proofs.CalculationPhrases
import SqlClause.Proofs.CalculationText
import SqlClause.Proofs.ClauseGrammar
import SqlClause.Proofs.ColumnText
import SqlClause.Proofs.ConditionReading
import SqlClause.Proofs.FragmentSplicing
import SqlClause.Proofs.LexemeLevels
import SqlClause.Proofs.Lexemes
import SqlClause.Proofs.LooseParts
import SqlClause.Proofs.NegationComplement
import SqlClause.Proofs.ParameterOrder
import SqlClause.Proofs.PlaceholderAlignment
import SqlClause.Proofs.PredicateForms
import SqlClause.Proofs.PredicateText
import SqlClause.Proofs.SqlTokens
import SqlClause.Proofs.TreeText
import SqlClause.Proofs.ValueIndependence
import SqlClause.Proofs.VoidExpressions
import SqlClause.Proofs.WritingInduction
import SqlClause.Proofs.WritingLocality
import SqlClause.Value.Tagged
import SqlClause.Value.Wire
import SqlClause.Proofs.BuiltFragments
import SqlClause.Proofs.SplicingLaws
import SqlClause.Proofs.AbsentParts
import SqlClause.Proofs.Recoding
import SqlClause.Proofs.DialectAgreement
import SqlClause.Proofs.TemplateWalk
import SqlClause.Proofs.BracketPairs
import SqlClause.Proofs.DelimitedOperands
import SqlClause.Proofs.QuestionMarks
import SqlClause.Proofs.ExplainedText
import SqlClause.Proofs.MembershipSpellings
import SqlClause.Proofs.BoundIntervals
import SqlClause.Proofs.ColumnReading
import SqlClause.Proofs.ColumnPaths
import SqlClause.Proofs.MuteParts
import SqlClause.Proofs.SentIntegers
import SqlClause.Proofs.GroupsAndCalls
import SqlClause.Proofs.AbridgedText

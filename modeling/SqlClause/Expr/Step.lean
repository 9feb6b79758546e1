import SqlClause.Expr.Basic
import SqlClause.Fragment.Atom

/-! # Steps of writing an expression

Every expression but a group is written by a list of steps that depends on its own shape only. -/

namespace SqlClause

/-- How an argument is written. -/
inductive Mode where
  /-- In its place, a list in brackets of its own. -/
  | plain
  /-- Within brackets that are already there. -/
  | flat
  /-- As an operand, in brackets unless it is atomic. -/
  | operand
  /-- Not at all; only its values are bound. -/
  | surplus
  deriving DecidableEq

inductive Step where
  | text (cs : List Char)
  | name (name : String)
  | column (c : Column)
  | arg (mode : Mode) (a : Arg)

def Step.say (s : String) : Step := .text s.toList

def Step.operand (e : Expr) : Step := .arg .operand (.expr e)

namespace Expr

open Step (say operand)

/-- The text of a template with its question marks replaced while there are arguments. `opened` says
whether the last character before was an opening bracket; replaced marks do not count. Arguments
that are left over are bound. -/
def templateSteps (flat opened : Bool) : List Char → List Arg → List Step
  | [], args => args.map (.arg .surplus)
  | c :: cs, a :: args =>
    if c = '?' then
      .arg (if flat || opened then .flat else .operand) a :: templateSteps flat opened cs args
    else .text [c] :: templateSteps flat (c = '(') cs (a :: args)
  | cs, [] => [.text cs]

def commaSteps : List Arg → List Step
  | [] => []
  | [a] => [.arg .operand a]
  | a :: args => .arg .operand a :: say "," :: commaSteps args

/-- Membership in no value at all is false. Membership in one value is equality. -/
def membershipSteps (left : Expr) (values : List Arg) (negated : Bool) : List Step :=
  operand left ::
    match values with
    | [] | [.list []] => [say (if negated then " IS NOT NULL" else " IN (NULL)")]
    | [.list vs] => [say (if negated then " NOT IN " else " IN "), .arg .plain (.list vs)]
    | [a] => [say (if negated then " <> " else " = "), .arg .operand a]
    | args => say (if negated then " NOT IN (" else " IN (") :: (commaSteps args ++ [say ")"])

/-- Equality with null and with a list have spellings of their own. -/
def comparisonSteps (left : Expr) : Operator → Arg → List Step
  | .isIn, right => membershipSteps left [right] false
  | .notIn, right => membershipSteps left [right] true
  | .eq, .list [] => [operand left, say " IN (NULL)"]
  | .ne, .list [] => [operand left, say " IS NOT NULL"]
  | .eq, .list vs => [operand left, say " IN ", .arg .plain (.list vs)]
  | .ne, .list vs => [operand left, say " NOT IN ", .arg .plain (.list vs)]
  | .eq, .value .null => [operand left, say " IS NULL"]
  | .ne, .value .null => [operand left, say " IS NOT NULL"]
  | op, right => [operand left, say (" " ++ op.spelling ++ " "), .arg .operand right]

def branchSteps : List (Arg × Arg) → List Step
  | [] => []
  | (condition, result) :: branches =>
    say " WHEN " :: .arg .operand condition :: say " THEN " :: .arg .operand result ::
      branchSteps branches

def optionalSteps (lead : String) : Option Arg → List Step
  | some a => [say lead, .arg .operand a]
  | none => []

def steps : Expr → List Step
  | .empty => []
  | .column c => [.column c]
  | .template sql args flat => templateSteps flat false sql.toList (effective args)
  | .comparison op left right => comparisonSteps left op right
  | .membership left values negated => membershipSteps left values negated
  | .between left low high negated =>
    [operand left, say (if negated then " NOT BETWEEN " else " BETWEEN "), .arg .operand low,
      say " AND ", .arg .operand high]
  | .caseWhen subject branches otherwise =>
    say "CASE" :: (optionalSteps " " subject ++ branchSteps branches ++
      optionalSteps " ELSE " otherwise ++ [say " END"])
  | .aliased e name => [operand e, say " AS ", .name name]
  | .and _ | .or _ | .not _ => []

def occursIn (needle : List Char) : List Char → Bool
  | [] => needle.isEmpty
  | c :: cs => needle.isPrefixOf (c :: cs) || occursIn needle cs

/-- Whether the text joins conditions outside of one pair of brackets around all of it. -/
def isLoose : Expr → Bool
  | .template sql _ _ =>
    let upper := sql.toList.map Char.toUpper
    !Atom.isGroup sql.toList && (occursIn " AND ".toList upper || occursIn " OR ".toList upper)
  | _ => false

end Expr

end SqlClause

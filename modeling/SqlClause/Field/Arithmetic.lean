import SqlClause.Field.Basic

/-! # Arithmetic on fields -/

namespace SqlClause

/-- Types with SQL arithmetic. -/
class Numeric (α : Type) extends Bindable α

instance : Numeric Int32 where
instance : Numeric Int64 where
instance : Numeric UInt32 where
instance : Numeric UInt64 where
instance : Numeric Single where
instance : Numeric Double where
instance : Numeric Decimal where

inductive Arithmetic where
  | add
  | sub
  | mul
  | div
  | mod
  | floorDiv
  deriving DecidableEq

def Arithmetic.template : Arithmetic → String
  | .add => "? + ?"
  | .sub => "? - ?"
  | .mul => "? * ?"
  | .div => "? / ?"
  | .mod => "? MOD ?"
  | .floorDiv => "? DIV ?"

namespace Field

variable {α : Type} [Numeric α]

def calculate (x : Field α) (op : Arithmetic) (v : α) : Field α :=
  x.apply op.template [.value (toValue v)]

def calculateField (x : Field α) (op : Arithmetic) (y : Field α) : Field α :=
  x.apply op.template [y.arg]

def neg (x : Field α) : Field α := x.apply "-?" []

def abs (x : Field α) : Field α := x.apply "ABS(?)" []

def sum (x : Field α) : Field α := x.apply "SUM(?)" []

def average (x : Field α) : Field Double := x.apply "AVG(?)" []

def max (x : Field α) : Field α := x.apply "MAX(?)" []

def min (x : Field α) : Field α := x.apply "MIN(?)" []

def round (x : Field α) (places : Int32) : Field α :=
  x.apply "ROUND(?, ?)" [.value (toValue places)]

def floor (x : Field α) : Field α := x.apply "FLOOR(?)" []

def ceil (x : Field α) : Field α := x.apply "CEIL(?)" []

end Field

end SqlClause

import SqlClause.Number.Double

/-! # JSON documents -/

namespace SqlClause

/-- A JSON document. The fields of an object stand in the order of their names. -/
inductive Json where
  | null
  | bool (b : Bool)
  | int (n : Int)
  | real (x : Double)
  | text (s : String)
  | array (items : List Json)
  | object (fields : List (String × Json))

namespace Json

/-- The fields with one more, in place of an earlier one of the same name. -/
def insertField (name : String) (value : Json) : List (String × Json) → List (String × Json)
  | [] => [(name, value)]
  | (k, v) :: rest =>
    if name < k then (name, value) :: (k, v) :: rest
    else if name = k then (name, value) :: rest
    else (k, v) :: insertField name value rest

/-- The object with these fields, the last of each name. -/
def ofFields (fields : List (String × Json)) : Json :=
  .object (fields.foldl (fun sorted (k, v) => insertField k v sorted) [])

def field? (name : String) : Json → Option Json
  | .object fields => (fields.find? (·.1 = name)).map (·.2)
  | _ => none

end Json

end SqlClause

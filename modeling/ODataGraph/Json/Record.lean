import ODataGraph.Json.Reader

/-!
Records of named fields in JSON texts. A record is written as an object, or as an array of its
fields in their order.
-/

namespace ODataGraph.Json

/-- The fields of an object literal among `names`, each at most once; what else is there must be
well-formed, and `strict` forbids it. -/
def Literal.namedFields? (names : List String) (strict : Bool) :
    List (List StringUnit × Literal) → Option (List (String × Literal))
  | [] => some []
  | (units, value) :: members => do
    let name ← StringUnit.text? units
    let rest ← namedFields? names strict members
    if names.contains name then
      if (rest.lookup name).isSome then none else some ((name, value) :: rest)
    else if strict then none
    else some rest

/-- The fields of a record, by name. An array gives the first ones. -/
def Literal.record? (names : List String) (strict : Bool) :
    Literal → Option (List (String × Literal))
  | .object members => namedFields? names strict members
  | .array items => if items.length ≤ names.length then some (names.zip items) else none
  | _ => none

/-- The items of a collection: a record whose one field `value` is an array. -/
def collection? (text : String) : Option (List Json) := do
  let fields ← (← Literal.ofText? text).record? ["value"] false
  (← (← fields.lookup "value").valueAt? (maxDepth - 1)).array?

/-- The fields of a record that was read as a value already. -/
def record? (names : List String) : Json → Option (List (String × Json))
  | .object members => some members
  | .array items => if items.length ≤ names.length then some (names.zip items) else none
  | _ => none

def optionalString? : Option Json → Option (Option String)
  | none => some none
  | some .null => some none
  | some (.string s) => some (some s)
  | _ => none

end ODataGraph.Json

import ODataGraph.Execution.Error
import ODataGraph.Registry.Basic
import ODataGraph.Text.Blank
import ODataGraph.Text.Cut

/-! Objects that services return, and the types that they are of. -/

namespace ODataGraph

/-- A JSON object typed against the registry of its service. -/
structure Entity where
  /-- The key of the object with its fields. -/
  typeKey : String
  typeName : String
  baseUrl : String
  /-- Its place in the entity set of its type, if that and its id are known. -/
  canonicalUrl : Option String
  /-- Where it came from, if it came alone. -/
  originUrl : Option String
  data : Json.Members

namespace Entity

/-- The URL that everything below the entity is requested under. -/
def resourceUrl (e : Entity) : Option String := e.canonicalUrl.or e.originUrl

def typeMember : String := "@odata.type"

def discriminatorKey (odataType : String) : String :=
  Text.afterLast '.' (String.ofList (odataType.toList.dropWhile (· == '#')))

def idText : Json → Option String
  | .string s => some s
  | .number n => some (String.ofList n.text)
  | _ => none

/-- The type of an object: the one it names, if that is registered, else the declared one. An enum
cannot be named. -/
def typeOf (r : Registry) (declared : String) (data : Json.Members) : Except FieldError String :=
  match (data.get? typeMember).bind Json.string? with
  | none => .ok declared
  | some odataType =>
    let key := discriminatorKey odataType
    match r.get? key with
    | some (.enum t) => .error (.notAnObject odataType t.name)
    | some _ => .ok key
    | none => .ok declared

def canonicalUrlOf (r : Registry) (typeName : String) (data : Json.Members) : Option String := do
  let set ← r.entitySets.get? typeName
  let id ← (data.get? "id").bind idText
  return Text.trimEndSlashes r.service.baseUrl ++ "/" ++ set ++ "/" ++ id

/-- Types an object that stands where `declared` is expected. -/
def materialize (r : Registry) (declared : String) (data : Json.Members)
    (originUrl : Option String) : Except FieldError Entity := do
  let key ← typeOf r declared data
  match r.get? key, r.concreteObject? key with
  | some type, some (typeKey, object) =>
    return {
      typeKey, typeName := object.name, baseUrl := r.service.baseUrl
      canonicalUrl := canonicalUrlOf r type.name data
      originUrl, data }
  | _, _ => .error (.unresolvable (r.nameOf key))

end Entity

/-- A time of day without fractions of seconds, but with seconds. -/
def timeOfDay (time : String) : String :=
  let time := Text.beforeFirst '.' time
  if time.toList.count ':' = 1 then time ++ ":00" else time

namespace Scalar

def coerce (s : Scalar) (value : Json) : Json :=
  match s, value with
  | .timeOnly, .string time => .string (timeOfDay time)
  | .void, _ => .null
  | _, value => value

end Scalar

end ODataGraph

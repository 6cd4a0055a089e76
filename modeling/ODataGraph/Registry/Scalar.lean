/-! The scalar types that primitive values are exposed as. -/

namespace ODataGraph

inductive Scalar where
  | string
  | int
  | float
  | boolean
  | dateTime
  | dateTimeOffset
  | seconds
  /-- A time of day, written `HH:mm:ss`. -/
  | timeOnly
  | date
  /-- Always null. -/
  | void
  deriving DecidableEq, Inhabited

namespace Scalar

/-- The scalar of a primitive type, by its qualified name. Primitive types without one cannot be
represented. -/
def ofPrimitive? : String → Option Scalar
  | "Edm.String" | "Edm.Guid" | "Edm.Stream" | "Edm.Binary" | "Edm.Byte" => some .string
  | "Edm.DateTime" => some .dateTime
  | "Edm.DateTimeOffset" => some .dateTimeOffset
  | "Edm.Boolean" => some .boolean
  | "Edm.Int16" | "Edm.Int32" | "Edm.Int64" => some .int
  | "Edm.Double" | "Edm.Single" | "Edm.Decimal" => some .float
  | "Edm.Duration" => some .seconds
  | "Edm.TimeOfDay" => some .timeOnly
  | "Edm.Date" => some .date
  | _ => none

def name : Scalar → String
  | .string => "String"
  | .int => "Int"
  | .float => "Float"
  | .boolean => "Boolean"
  | .dateTime => "DateTime"
  | .dateTimeOffset => "DateTimeOffset"
  | .seconds => "Seconds"
  | .timeOnly => "TimeOnly"
  | .date => "Date"
  | .void => "void"

/-- Whether every GraphQL schema has the scalar without a definition. -/
def isBuiltin : Scalar → Bool
  | .string | .int | .float | .boolean => true
  | _ => false

def description : Scalar → Option String
  | .dateTime => "The `DateTime` scalar type represents a date and time."
  | .dateTimeOffset =>
    "The `DateTimeOffset` scalar type represents a date, time and offset from UTC."
  | .seconds => "The `Seconds` scalar type represents a period of time."
  | .timeOnly => "The `TimeOnly` scalar type represents a time without a date to be formatted " ++
    "in accordance with the [ISO-8601](https://en.wikipedia.org/wiki/ISO_8601) standard."
  | .date => "The `Date` scalar type represents a date without a time."
  | .void => "Returns nothing"
  | _ => none

def all : List Scalar :=
  [.string, .int, .float, .boolean, .dateTime, .dateTimeOffset, .seconds, .timeOnly, .date, .void]

def defined : List Scalar := all.filter fun s => !s.isBuiltin

def ofName? (name : String) : Option Scalar := all.find? (·.name == name)

end Scalar

end ODataGraph

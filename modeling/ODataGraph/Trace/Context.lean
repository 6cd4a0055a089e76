import ODataGraph.Http.Exchange

/-!
The place of a request in a distributed trace, and the headers that carry it to a service, as the
W3C recommendation on trace contexts lays them down.
-/

namespace ODataGraph

namespace Trace

/-- A trace and a span in it. Numbers that are zero name nothing. -/
structure Context where
  traceId : BitVec 128
  spanId : BitVec 64
  flags : BitVec 8
  state : List (String × String) := []
  deriving DecidableEq

namespace Context

def isValid (c : Context) : Bool := c.traceId ≠ 0 && c.spanId ≠ 0

/-- All digits of a word, in base sixteen. -/
def hex (w : BitVec (4 * n)) : String :=
  let digits := Nat.toDigits 16 w.toNat
  String.ofList (List.replicate (n - digits.length) '0' ++ digits)

/-- Of the flags only the lowest, that the trace is sampled, is passed on. -/
def traceParent (c : Context) : String :=
  "00-" ++ @hex 32 c.traceId ++ "-" ++ @hex 16 c.spanId ++ "-" ++ @hex 2 (c.flags &&& 1)

def traceState (c : Context) : String :=
  String.intercalate "," (c.state.map fun (key, value) => key ++ "=" ++ value)

/-- The headers of a valid context. One that cannot be sent is left out. -/
def headers (c : Context) : List (String × String) :=
  if c.isValid then
    [("traceparent", c.traceParent), ("tracestate", c.traceState)].filter fun h =>
      Http.isHeaderValue h.2
  else []

def isKeyChar (c : Char) : Bool :=
  c.isLower || c.isDigit || c = '_' || c = '-' || c = '*' || c = '/'

def startsKey (part : List Char) : Bool := part.head?.any fun c => c.isLower || c.isDigit

/-- Whether a vendor may use a key: a name, or a tenant and a system of at most fourteen characters
with an `@` between them. -/
def isKey (key : String) : Bool :=
  key.utf8ByteSize ≤ 256 &&
    match Text.cut '@' key.toList with
    | [name] => name.all isKeyChar && (name.isEmpty || startsKey name)
    | [tenant, system] =>
      tenant.all isKeyChar && system.all isKeyChar && startsKey tenant &&
        system.length < 14 && (system.isEmpty || startsKey system)
    | _ => false

def isValue (value : String) : Bool :=
  value.utf8ByteSize ≤ 256 && !value.toList.contains ',' && !value.toList.contains '='

/-- What vendors add, or nothing if any of it is malformed. -/
def stateOf (entries : List (String × String)) : List (String × String) :=
  if entries.all fun (key, value) => isKey key && isValue value then entries else []

end Context

end Trace

end ODataGraph

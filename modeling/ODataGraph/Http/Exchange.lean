import ODataGraph.Http.Status
import ODataGraph.Text.Blank
import ODataGraph.Text.Cut

/-! GET requests, and what comes of them. -/

namespace ODataGraph.Http

structure Request where
  url : String
  headers : List (String × String) := []
  deriving DecidableEq

structure Response where
  status : Status
  contentType : Option String := none
  body : List UInt8

/-- A request that got no complete answer. -/
inductive Fault where
  | connection
  | body
  deriving DecidableEq, Inhabited

def Fault.message : Fault → String
  | .connection => "the connection failed"
  | .body => "the response broke off"

abbrev Client := Request → Except Fault Response

/-- Whether a content type, its parameters aside, is one of JSON. -/
def isJson (contentType : String) : Bool :=
  "json".toList.isSuffixOf (Text.trimBlanks (Text.beforeFirst ';' contentType)).toList

/-- Whether a text can be the value of a header: it has no control character but tabs. -/
def isHeaderValue (s : String) : Bool :=
  s.toList.all fun c => c = '\t' || (0x20 ≤ c.toNat && c.toNat != 0x7F)

end ODataGraph.Http

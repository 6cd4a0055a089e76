import ODataGraph.Execution.Payload

/-! What a host is asked while a request is executed. -/

namespace ODataGraph

/-- What an outgoing request is for: the field that is resolved, or the function that the host
called. -/
structure RequestContext where
  service : Service
  fieldName : String
  deriving DecidableEq

/-- A field with a value of composite type, before it is resolved. -/
structure ParseContext where
  service : Service
  fieldName : String
  typeName : String
  deriving DecidableEq

structure Hooks where
  /-- Changes an outgoing request, or drops it so that its field becomes null. -/
  preRequest :
    Option (RequestContext → Http.Request → Except HookError (Option Http.Request)) := none
  preParse : Option (ParseContext → Except HookError Unit) := none

end ODataGraph

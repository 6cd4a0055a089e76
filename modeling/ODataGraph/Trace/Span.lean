import ODataGraph.Registry.Error

/-!
Spans: pieces of work that are recorded with their attributes, their events and their outcome. The
errors of internal work stay hidden in spans that users look at.
-/

namespace ODataGraph.Trace

abbrev Attributes := List (String × String)

structure SpanEvent where
  name : String
  attributes : Attributes := []
  deriving DecidableEq

inductive SpanStatus where
  | unset
  | error (description : String)
  deriving DecidableEq

structure Span where
  name : String
  parent : Option String
  attributes : Attributes := []
  events : List SpanEvent := []
  status : SpanStatus := .unset
  deriving DecidableEq

structure Failure where
  message : String
  details : String
  visibility : Visibility
  deriving DecidableEq

/-- How many attributes and how many events a span keeps: of attributes the first ones, of events
the last ones. -/
def capacity : Nat := 128

namespace Span

def addAttribute (s : Span) (key value : String) : Span :=
  if s.attributes.length < capacity then { s with attributes := s.attributes ++ [(key, value)] }
  else s

def addEvent (s : Span) (name : String) (attributes : Attributes := []) : Span :=
  let events := s.events ++ [⟨name, attributes⟩]
  { s with events := events.drop (events.length - capacity) }

/-- The key under which something only operators should see is recorded. -/
def internalKey (key : String) : String := "internal." ++ key

def visibilityText : Visibility → String
  | .user => "user"
  | .internal => "internal"

def statusText (visibility : Visibility) (f : Failure) : String :=
  if visibility = .user ∧ f.visibility = .internal then "Internal error" else f.message

def finish (s : Span) (displayName : String) (visibility : Visibility) (failure : Option Failure) :
    Span :=
  let s := (s.addAttribute "display.name" displayName).addAttribute (internalKey "visibility")
    (visibilityText visibility)
  match failure with
  | none => s
  | some f =>
    { s with status := .error (statusText visibility f) }.addEvent "error"
      [(internalKey "error_description", f.message), (internalKey "error_details", f.details)]

end Span

structure Recording where
  /-- Spans around the work at hand, innermost first. -/
  active : List Span := []
  ended : List Span := []

abbrev Traced := StateM Recording

namespace Traced

def modifyActive (f : Span → Span) : Traced Unit :=
  modify fun r => { r with active := match r.active with
    | s :: rest => f s :: rest
    | [] => [] }

def setAttribute (visibility : Visibility) (key value : String) : Traced Unit :=
  modifyActive fun s => s.addAttribute
    (match visibility with
      | .user => key
      | .internal => Span.internalKey key) value

def addEvent (name : String) : Traced Unit := modifyActive fun s => s.addEvent name

/-- Does work in a span of its own; `failure?` says whether its result is one. -/
def inSpan (name displayName : String) (visibility : Visibility) (failure? : α → Option Failure)
    (work : Traced α) : Traced α := do
  modify fun r =>
    { r with active := { name, parent := r.active.head?.map (·.name) } :: r.active }
  let result ← work
  modify fun r => match r.active with
    | s :: rest =>
      { active := rest, ended := r.ended ++ [s.finish displayName visibility (failure? result)] }
    | [] => r
  return result

end Traced

end ODataGraph.Trace

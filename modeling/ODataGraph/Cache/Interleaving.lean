import ODataGraph.Cache.Registry

/-!
A cache that several callers use at once. Each takes its steps between those of the others, and a
step is one access to the keys or to a cell, one request for metadata, or one build. Whoever finds
its cell empty while nobody fills it becomes the one to fill it; all others wait until it is filled
or given up.
-/

namespace ODataGraph

/-- Something that was made to fill the cell of a key. -/
structure Made (α : Type u) where
  key : String
  cell : Nat
  value : α

/-- Cells, with a record of what was made for them, of the cells that were filled, and of the keys
that were removed. -/
structure RecordedSlots (α : Type u) where
  slots : Slots α := {}
  made : List (Made α) := []
  filled : List Nat := []
  removed : List String := []

namespace RecordedSlots

variable {α : Type u}

/-- What was made for the cells of a key. -/
def madeFor (x : RecordedSlots α) (key : String) : List (Made α) :=
  x.made.filter fun m => m.key = key

def cellOf (x : RecordedSlots α) (key : String) : Nat := (x.slots.take key).1

def take (x : RecordedSlots α) (key : String) : RecordedSlots α :=
  { x with slots := (x.slots.take key).2 }

def make (x : RecordedSlots α) (key : String) (cell : Nat) (a : α) : RecordedSlots α :=
  { x with made := x.made ++ [⟨key, cell, a⟩] }

def fill (x : RecordedSlots α) (cell : Nat) (a : α) : RecordedSlots α :=
  { x with slots := x.slots.fill cell a, filled := x.filled ++ [cell] }

def remove (x : RecordedSlots α) (key : String) : RecordedSlots α :=
  { x with slots := x.slots.remove key, removed := x.removed ++ [key] }

end RecordedSlots

namespace Interleaving

/-- A call of `RegistryCache.getOrBuild`. -/
structure Call where
  service : Service
  augmentation : Option Augmentation := none

def Call.baseUrl (c : Call) : String := c.service.baseUrl

/-- How far a call has come. From `started` to `failed` it is the one to fill its cell of a
registry, and in `fetching` and `fetched` the one to fill its cell of a document. -/
inductive Stage where
  | begun
  | waiting (cell : Nat)
  | started (cell : Nat)
  | awaiting (cell document : Nat)
  | fetching (cell document : Nat)
  | fetched (cell document : Nat) (d : Csdl.Document)
  | building (cell document : Nat) (d : Csdl.Document)
  | built (cell : Nat) (r : Registry)
  | failed (cell : Nat) (error : SchemaError)
  | returned (cell : Nat) (result : Except SchemaError Registry)

/-- The cell of a registry that a call is to fill. -/
def Stage.fills? : Stage → Option Nat
  | .started cell | .awaiting cell _ | .fetching cell _ | .fetched cell _ _ | .building cell _ _
  | .built cell _ | .failed cell _ => some cell
  | _ => none

/-- The cell of a document that a call is to fill. -/
def Stage.fetches? : Stage → Option Nat
  | .fetching _ document | .fetched _ document _ => some document
  | _ => none

/-- Registries are removed before documents. -/
inductive RemovalStage where
  | begun
  | halfway
  | returned

inductive Caller where
  | build (call : Call) (stage : Stage)
  /-- Looks once. What is found is `some none` if there is no registry. -/
  | get (baseUrl : String) (found : Option (Option (Nat × Registry)))
  | invalidate (baseUrl : String) (stage : RemovalStage)

namespace Caller

def baseUrl : Caller → String
  | build call _ => call.baseUrl
  | get baseUrl _ | invalidate baseUrl _ => baseUrl

def isNew : Caller → Bool
  | build _ .begun | get _ none | invalidate _ .begun => true
  | _ => false

def hasReturned : Caller → Bool
  | build _ (.returned ..) | get _ (some _) | invalidate _ .returned => true
  | _ => false

def fills? : Caller → Option Nat
  | build _ stage => stage.fills?
  | _ => none

def fetches? : Caller → Option Nat
  | build _ stage => stage.fetches?
  | _ => none

/-- The registry that a caller has got, with its cell. -/
def registry? : Caller → Option (Nat × Registry)
  | build _ (.returned cell (.ok r)) => some (cell, r)
  | get _ (some found) => found
  | _ => none

end Caller

structure State where
  documents : RecordedSlots Csdl.Document := {}
  registries : RecordedSlots Registry := {}
  callers : List Caller := []

namespace State

def cache (s : State) : RegistryCache := ⟨s.documents.slots, s.registries.slots⟩

/-- The registry of a key, with its cell. -/
def find? (s : State) (key : String) : Option (Nat × Registry) := do
  let cell ← s.registries.slots.current.get? key
  return (cell, ← s.registries.slots.content? cell)

/-- A caller comes to its next stage. -/
def move (s : State) (i : Nat) (c : Caller) : State := { s with callers := s.callers.set i c }

end State

/-- A step of a caller, for the service at a base URL. -/
inductive Step : String → State → State → Prop
  | call {s : State} (c : Caller) (h : c.isNew) :
      Step c.baseUrl s { s with callers := s.callers ++ [c] }
  | take {s : State} {i : Nat} {call : Call} (h : s.callers[i]? = some (.build call .begun)) :
      Step call.baseUrl s ({ s with registries := s.registries.take call.baseUrl }.move i
        (.build call (.waiting (s.registries.cellOf call.baseUrl))))
  | find {s : State} {i : Nat} {call : Call} {cell : Nat} {r : Registry}
      (h : s.callers[i]? = some (.build call (.waiting cell)))
      (hr : s.registries.slots.content? cell = some r) :
      Step call.baseUrl s (s.move i (.build call (.returned cell (.ok r))))
  | start {s : State} {i : Nat} {call : Call} {cell : Nat}
      (h : s.callers[i]? = some (.build call (.waiting cell)))
      (hempty : s.registries.slots.content? cell = none)
      (hfree : ∀ c ∈ s.callers, c.fills? ≠ some cell) :
      Step call.baseUrl s (s.move i (.build call (.started cell)))
  | takeDocument {s : State} {i : Nat} {call : Call} {cell : Nat}
      (h : s.callers[i]? = some (.build call (.started cell))) :
      Step call.baseUrl s ({ s with documents := s.documents.take call.baseUrl }.move i
        (.build call (.awaiting cell (s.documents.cellOf call.baseUrl))))
  | findDocument {s : State} {i : Nat} {call : Call} {cell document : Nat} {d : Csdl.Document}
      (h : s.callers[i]? = some (.build call (.awaiting cell document)))
      (hd : s.documents.slots.content? document = some d) :
      Step call.baseUrl s (s.move i (.build call (.building cell document d)))
  | startFetch {s : State} {i : Nat} {call : Call} {cell document : Nat}
      (h : s.callers[i]? = some (.build call (.awaiting cell document)))
      (hempty : s.documents.slots.content? document = none)
      (hfree : ∀ c ∈ s.callers, c.fetches? ≠ some document) :
      Step call.baseUrl s (s.move i (.build call (.fetching cell document)))
  | fetch {s : State} {i : Nat} {call : Call} {cell document : Nat} {d : Csdl.Document}
      (h : s.callers[i]? = some (.build call (.fetching cell document))) (client : Http.Client)
      (hd : Csdl.Document.fetch client call.baseUrl = .ok d) :
      Step call.baseUrl s ({ s with documents := s.documents.make call.baseUrl document d }.move i
        (.build call (.fetched cell document d)))
  | failFetch {s : State} {i : Nat} {call : Call} {cell document : Nat} {error : SchemaError}
      (h : s.callers[i]? = some (.build call (.fetching cell document))) (client : Http.Client)
      (he : Csdl.Document.fetch client call.baseUrl = .error error) :
      Step call.baseUrl s (s.move i (.build call (.failed cell error)))
  | fillDocument {s : State} {i : Nat} {call : Call} {cell document : Nat} {d : Csdl.Document}
      (h : s.callers[i]? = some (.build call (.fetched cell document d))) :
      Step call.baseUrl s ({ s with documents := s.documents.fill document d }.move i
        (.build call (.building cell document d)))
  | build {s : State} {i : Nat} {call : Call} {cell document : Nat} {d : Csdl.Document}
      {r : Registry} (h : s.callers[i]? = some (.build call (.building cell document d)))
      (hr : Registry.build call.service d call.augmentation = .ok r) :
      Step call.baseUrl s ({ s with registries := s.registries.make call.baseUrl cell r }.move i
        (.build call (.built cell r)))
  | failBuild {s : State} {i : Nat} {call : Call} {cell document : Nat} {d : Csdl.Document}
      {error : SchemaError} (h : s.callers[i]? = some (.build call (.building cell document d)))
      (he : Registry.build call.service d call.augmentation = .error error) :
      Step call.baseUrl s (s.move i (.build call (.failed cell error)))
  | fill {s : State} {i : Nat} {call : Call} {cell : Nat} {r : Registry}
      (h : s.callers[i]? = some (.build call (.built cell r))) :
      Step call.baseUrl s ({ s with registries := s.registries.fill cell r }.move i
        (.build call (.returned cell (.ok r))))
  | giveUp {s : State} {i : Nat} {call : Call} {cell : Nat} {error : SchemaError}
      (h : s.callers[i]? = some (.build call (.failed cell error))) :
      Step call.baseUrl s (s.move i (.build call (.returned cell (.error error))))
  | get {s : State} {i : Nat} {baseUrl : String} (h : s.callers[i]? = some (.get baseUrl none)) :
      Step baseUrl s (s.move i (.get baseUrl (some (s.find? baseUrl))))
  | removeRegistry {s : State} {i : Nat} {baseUrl : String}
      (h : s.callers[i]? = some (.invalidate baseUrl .begun)) :
      Step baseUrl s ({ s with registries := s.registries.remove baseUrl }.move i
        (.invalidate baseUrl .halfway))
  | removeDocument {s : State} {i : Nat} {baseUrl : String}
      (h : s.callers[i]? = some (.invalidate baseUrl .halfway)) :
      Step baseUrl s ({ s with documents := s.documents.remove baseUrl }.move i
        (.invalidate baseUrl .returned))

/-- States that callers bring an empty cache to. -/
inductive Reachable : State → Prop
  | start : Reachable {}
  | step {key : String} {s s' : State} (hs : Reachable s) (h : Step key s s') : Reachable s'

end Interleaving

end ODataGraph

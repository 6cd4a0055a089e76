import ODataGraph.Registry.Descriptor
import ODataGraph.Registry.Error

/-!
Which types extend which. A type that others extend becomes a union of the objects that its values
can be; its own object, named after it with an ending, is one of them. Fields are handed down from
a base to the types that extend it.
-/

namespace ODataGraph

/-- The pairs of a type and its base, each base complete by the time its own subtypes come: a name
stands as a type in an earlier pair than as a base. -/
structure Hierarchy where
  edges : List (String × String)
  deriving DecidableEq

namespace Hierarchy

/-- The base of every type that extends a declared one. A name that is declared more than once has
the last of its bases. -/
def bases (types : List Csdl.StructuredType) : OrderedMap String String :=
  let declared := types.map (·.name)
  .ofList (types.filterMap fun t => (t.baseName.filter declared.contains).map (t.name, ·))

/-- Those pairs whose base waits for no other pair. -/
def ready (pending : OrderedMap String String) : List (String × String) :=
  pending.entries.filter fun e => !pending.contains e.2

/-- Takes the ready pairs in rounds. When none is ready, the pending names are those that lead into
a cycle. A round leaves fewer pairs, so that there are no more of them than pairs. -/
def order : Nat → OrderedMap String String → Except (List String) (List (String × String))
  | 0, pending => if pending.isEmpty then .ok [] else .error pending.keys
  | rounds + 1, pending =>
    if pending.isEmpty then .ok []
    else
      let now := ready pending
      if now.isEmpty then .error pending.keys
      else do
        let later ← order rounds (pending.filter fun name _ => !(now.map Prod.fst).contains name)
        return now ++ later

def sorted (names : List String) : List String := names.mergeSort (fun a b => decide (a ≤ b))

def ofTypes (types : List Csdl.StructuredType) : Except SchemaError Hierarchy :=
  let pending := bases types
  match order pending.size pending with
  | .ok edges => .ok ⟨edges⟩
  | .error names => .error (.inheritanceCycle (sorted names))

/-- The bases in the order of their first pair. -/
def baseNames (h : Hierarchy) : List String := (h.edges.map Prod.snd).eraseDups

def children (h : Hierarchy) (base : String) : List String :=
  (h.edges.filter (·.2 == base)).map Prod.fst

def isBase (h : Hierarchy) (name : String) : Bool := h.edges.any (·.2 == name)

def objectKey (h : Hierarchy) (name : String) : String :=
  if h.isBase name then baseKey name else name

/-- Adds to `members` the object keys of the types in a queue and of all types below them, level by
level. A type is in the queue at most once, so that there are no more steps than pairs. -/
def membersBelow (h : Hierarchy) : Nat → List String → List String → List String
  | 0, members, _ => members
  | _, members, [] => members
  | steps + 1, members, name :: queue =>
    if members.contains (h.objectKey name) then h.membersBelow steps members queue
    else h.membersBelow steps (members ++ [h.objectKey name]) (queue ++ h.children name)

/-- The objects that values of a base can be: those below it, then its own. -/
def unionMembers (h : Hierarchy) (base : String) : List String :=
  let below := h.membersBelow h.edges.length [] (h.children base)
  if below.contains (baseKey base) then below else below ++ [baseKey base]

/-- Puts the union in the place of a base. The base's object goes to its base key. -/
def addUnion (h : Hierarchy) (service : Service) (ts : Types) (base : String) : Types :=
  match ts.get? base with
  | some (.object o) =>
    let union := .union { name := service.typeName base, members := h.unionMembers base }
    (ts.insert base union).insert (baseKey base) (.object { o with name := o.name ++ baseEnding })
  | _ => ts

def addUnions (h : Hierarchy) (service : Service) (ts : Types) : Types :=
  h.baseNames.foldl (h.addUnion service) ts

def inheritFrom (ts : Types) (edge : String × String) : Types :=
  match ts.object? edge.2 with
  | some base => ts.modifyObject edge.1 fun o =>
    base.fields.entries.foldl (fun o (name, f) => o.addNewField name f) o
  | none => ts

def inheritFields (h : Hierarchy) (ts : Types) : Types := h.edges.foldl inheritFrom ts

end Hierarchy

end ODataGraph

import ODataGraph.Proofs.Execution.ResponseShape
import ODataGraph.Proofs.Registry.Variant

/-!
The concrete types of objects. An object is of one of the types that values of the type it names can
be; only if it names none that is registered, or one below the type that is declared for it, is that
a possible type of the declared one.
-/

namespace ODataGraph

open Csdl (Extends)
open Relation (TransGen)

namespace Registry

mutual

/-- The objects in a value are typed where a type is declared, and show the names of their own. -/
inductive Typed (r : Registry) : String → List Selection → Json → Prop
  | null (declared : String) (fields : List Selection) : Typed r declared fields .null
  | array {declared : String} {fields : List Selection} {items : List Json}
      (h : ∀ item ∈ items, Typed r declared fields item) : Typed r declared fields (.array items)
  | object {declared : String} {fields : List Selection} {members : Json.Members}
      {data : Json.Members} {origin : Option String} {e : Entity} {o : ObjectType}
      (he : Entity.materialize r declared data origin = .ok e)
      (ho : r.object? e.typeKey = some o) (h : Named r e.typeKey o fields members) :
      Typed r declared fields (.object members)

/-- Of the selections with one response key that apply to an object the last one counts: it gives
the name of the object's type, or objects that are typed in turn. -/
inductive Named (r : Registry) : String → ObjectType → List Selection → Json.Members → Prop
  | intro {typeKey : String} {o : ObjectType} {fields : List Selection} {members : Json.Members}
      (typename : ∀ name s,
        last? (·.responseKey) name (fields.filter (·.appliesTo typeKey)) = some s →
        s.name = typenameField → members.get? name = some (.string o.name))
      (below : ∀ name s v f key,
        last? (·.responseKey) name (fields.filter (·.appliesTo typeKey)) = some s →
        members.get? name = some v → s.name ≠ typenameField →
        o.fields.get? s.name = some f → f.type.key? = some key → r.isComposite key = true →
        Typed r key s.fields v) :
      Named r typeKey o fields members

end

end Registry

namespace Execution

variable {x : Execution} {path : Path} {s : Selection} {fields : List Selection} {v : Json}
variable {declared : String} {data : Json.Members} {origin : Option String} {e : Entity}

end Execution

namespace Kennel

def kind : Selection := { responseKey := "kind", name := typenameField }

/-- The host's puppy is asked for its type. -/
def execution : Execution := engine.execution { registry }

end Kennel

end ODataGraph

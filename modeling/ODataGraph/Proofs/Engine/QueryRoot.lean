import ODataGraph.Proofs.Cache.SingleFlight
import ODataGraph.Proofs.Engine.Construction
import ODataGraph.Proofs.Operation.UnknownField
import ODataGraph.Proofs.Registry.Shape

/-!
The query root of an engine. Its fields have different names that a request can ask for, every field
of the host stands on it with a type that its service has, and the answer that a field is unknown is
never about a field that is there.
-/

namespace ODataGraph

open Graphql (Environment SelectedField)

theorem ServiceDefinition.service_of_compile {client : Http.Client} {d : ServiceDefinition}
    {r : Registry} (h : d.compile client = .ok r) : r.service = d.service := by
  obtain ⟨_, _, h⟩ := bind_eq_ok_iff.1 h
  exact Registry.service_of_build h

namespace Engine

variable {b : Blueprint} {e : Engine} {h : HostField}

/-- A query that asks for a host field gets to it with its service, unless a fragment around it is
on another type. -/
structure Finds (e : Engine) (h : HostField) (bound : BoundHostField) (s : ExposedService) :
    Prop where
  head : ∀ env f, f.name = h.name → Operation.headOf e env .query f =
    match f.conditions.find? (· ≠ RootKind.query.typeName) with
    | some condition => .error (.invalidCondition condition RootKind.query.typeName)
    | none => Operation.hostHead env bound s f
  known : ∀ env f, f.name = h.name → FindsField (Operation.headOf e env .query f)

/-- A host field is bound to a registered type of the service that it refers to, and found. -/
structure Exposes (e : Engine) (h : HostField) (bound : BoundHostField) (s : ExposedService)
    (key : String) : Prop where
  field : e.hostFields.get? h.name = some bound
  service : e.services.get? bound.service = some s
  place : s.registry.service.baseUrl = h.baseUrl
  type : bound.field.type.key? = some key
  registered : ∃ t, s.registry.get? key = some t ∧ (key = h.typeName ∨ t.name = h.typeName)
  found : e.Finds h bound s

end Engine

namespace Blueprint

variable {b : Blueprint} {e : Engine} {h : HostField}
  {built : List (ServiceDefinition × Registry)}

theorem Makes.get?_services (hm : b.Makes built e) {p : ServiceDefinition × Registry}
    (hp : p ∈ built) :
    e.services.get? p.1.service.label = some { registry := p.2, hooks := fun _ => p.1.hooks } := by
  rw [← OrderedMap.mem_entries_iff, hm.services]
  exact List.mem_map_of_mem hp

end Blueprint

namespace Engine

open Blueprint

def zooDefinition : ServiceDefinition where
  service := ⟨"zoo", "http://zoo.test/odata"⟩

/-- A dog of the host beside those of the zoo. -/
def petBlueprint (arguments : OrderedMap String Argument) : Blueprint where
  client := Interleaving.kennelClient
  services := [zooDefinition]
  hostFields := [
    { name := "pet", arguments, baseUrl := "http://zoo.test/odata", typeName := "zoo_Dog",
      resolve := fun _ => .ok .null }]

theorem buildable_petBlueprint (arguments : OrderedMap String Argument) :
    (petBlueprint arguments).Buildable := by
  have hdog : ((zooDefinition.compile Interleaving.kennelClient).toOption.any fun r =>
      (r.findByName? "zoo_Dog").isSome) = true := by
    decide +kernel
  obtain ⟨r, hr, hsome⟩ := exists_of_any_toOption hdog
  have hknows : r.Knows "zoo_Dog" := by
    by_contra hnot
    have hnone := Registry.findByName?_eq_none_iff.2 fun t ht hname => hnot (.inr ⟨t, ht, hname⟩)
    rw [hnone] at hsome
    cases hsome
  have hnames : (petBlueprint arguments).rootNames = ["zoo", "pet"] := rfl
  exact {
    named := by
      rw [hnames]
      decide
    distinct := by
      rw [hnames]
      decide
    apart := List.nodup_singleton _
    compiles := List.forall_mem_singleton.2 ⟨r, hr⟩
    resolves := List.forall_mem_singleton.2 ⟨_, List.mem_singleton_self _, rfl, r, hr, hknows⟩ }

end Engine
end ODataGraph

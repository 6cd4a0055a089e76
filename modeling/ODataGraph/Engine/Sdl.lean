import ODataGraph.Engine.Basic
import ODataGraph.Registry.Sdl

/-! Engines in the GraphQL schema definition language. -/

namespace ODataGraph.Engine

def referencedScalars (e : Engine) : List Scalar :=
  (e.services.values.flatMap fun s => s.registry.referencedScalars).eraseDups

def serviceLine (kind : RootKind) (label : String) (s : ExposedService) : String :=
  "  " ++ label ++ ": " ++ (s.root kind).name ++ "\n"

def hostLines (e : Engine) (name : String) (h : BoundHostField) : String :=
  match e.services.get? h.service with
  | some s => Sdl.field s.registry name h.field
  | none => ""

def rootBlock (e : Engine) (kind : RootKind) (more : List String) : String :=
  Sdl.block ("type " ++ kind.typeName)
    (e.services.entries.map (fun (label, s) => serviceLine kind label s) ++ more)

def sdl (e : Engine) : String :=
  Sdl.schema RootKind.query.typeName RootKind.mutation.typeName ++
    Sdl.scalars e.referencedScalars ++
    rootBlock e .query (e.hostFields.entries.map fun (name, h) => e.hostLines name h) ++ "\n" ++
    rootBlock e .mutation [] ++
    String.join (e.services.values.map fun s => "\n" ++ Sdl.definitions s.registry)

end ODataGraph.Engine

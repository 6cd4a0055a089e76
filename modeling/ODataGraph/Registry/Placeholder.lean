import ODataGraph.Registry.Descriptor
import ODataGraph.Text.Cut

/-!
Objects without declared fields. They get a placeholder, so that there is something to select. The
base variant of a union is left out instead: it is no member of any union any more, and a union
that it was the last member of becomes the object again.
-/

namespace ODataGraph.Types

def placeholder : Field := { type := .scalar .void, kind := .placeholder }

def emptyKeys (ts : Types) : List String :=
  (ts.entries.filter fun e => e.2.object?.any fun o => !o.hasDeclaredFields).map Prod.fst

def addPlaceholder (ts : Types) (key : String) : Types :=
  ts.modify key fun
    | .object o => .object { o with fields := o.fields.insert placeholderField placeholder }
    | other => other

def unionOfBaseKey? (ts : Types) (key : String) : Option UnionType := do
  match ts.get? (← Text.dropEnd? baseEnding key) with
  | some (.union u) => some u
  | _ => none

def leaveUnion (key : String) : Descriptor → Descriptor
  | .union u => .union { u with members := u.members.erase key }
  | other => other

/-- Settles one object without declared fields. -/
def settle (ts : Types) (key : String) : Types :=
  let ts := ts.addPlaceholder key
  match ts.get? key, Text.dropEnd? baseEnding key, ts.unionOfBaseKey? key with
  | some (.object o), some unionKey, some u =>
    let rest := (ts.erase key).map fun _ d => leaveUnion key d
    if u.members = [key] then rest.insert unionKey (.object { o with name := u.name }) else rest
  | _, _, _ => ts

def settleEmpty (ts : Types) : Types := ts.emptyKeys.foldl settle ts

end ODataGraph.Types

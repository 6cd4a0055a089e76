import ODataGraph.Graphql.Document

/-!
Equality of GraphQL documents is decidable, so that what a request is read as can be computed.
-/

namespace ODataGraph

deriving instance DecidableEq for OrderedMap

namespace Graphql

mutual

def Value.beq : Value → Value → Bool
  | .variable a, .variable b => a == b
  | .number a, .number b => a == b
  | .string a, .string b => a == b
  | .bool a, .bool b => a == b
  | .null, .null => true
  | .enum a, .enum b => a == b
  | .list as, .list bs => Value.beqItems as bs
  | .object as, .object bs => Value.beqMembers as bs
  | _, _ => false

def Value.beqItems : List Value → List Value → Bool
  | [], [] => true
  | a :: as, b :: bs => Value.beq a b && Value.beqItems as bs
  | _, _ => false

def Value.beqMembers : List (String × Value) → List (String × Value) → Bool
  | [], [] => true
  | (m, a) :: as, (n, b) :: bs => m == n && Value.beq a b && Value.beqMembers as bs
  | _, _ => false

end

mutual

theorem Value.beq_iff : ∀ {a b : Value}, Value.beq a b = true ↔ a = b
  | .variable _, b => by cases b <;> simp [Value.beq]
  | .number _, b => by cases b <;> simp [Value.beq]
  | .string _, b => by cases b <;> simp [Value.beq]
  | .bool _, b => by cases b <;> simp [Value.beq]
  | .null, b => by cases b <;> simp [Value.beq]
  | .enum _, b => by cases b <;> simp [Value.beq]
  | .list _, b => by cases b <;> simp [Value.beq, Value.beqItems_iff]
  | .object _, b => by cases b <;> simp [Value.beq, Value.beqMembers_iff]

theorem Value.beqItems_iff : ∀ {as bs : List Value}, Value.beqItems as bs = true ↔ as = bs
  | [], bs => by cases bs <;> simp [Value.beqItems]
  | _ :: _, bs => by cases bs <;> simp [Value.beqItems, Value.beq_iff, Value.beqItems_iff]

theorem Value.beqMembers_iff :
    ∀ {as bs : List (String × Value)}, Value.beqMembers as bs = true ↔ as = bs
  | [], bs => by cases bs <;> simp [Value.beqMembers]
  | (_, _) :: _, bs => by
    rcases bs with _ | ⟨⟨_, _⟩, _⟩ <;> simp [Value.beqMembers, Value.beq_iff, Value.beqMembers_iff]

end

instance : DecidableEq Value := fun _ _ => decidable_of_iff _ Value.beq_iff

deriving instance DecidableEq for Directive, VariableDefinition

mutual

def Selection.beq : Selection → Selection → Bool
  | .field key name arguments directives selections,
    .field key' name' arguments' directives' selections' =>
    key == key' && name == name' && arguments == arguments' && directives == directives' &&
      Selection.beqAll selections selections'
  | .inline condition directives selections, .inline condition' directives' selections' =>
    condition == condition' && directives == directives' && Selection.beqAll selections selections'
  | .spread name directives, .spread name' directives' => name == name' && directives == directives'
  | _, _ => false

def Selection.beqAll : List Selection → List Selection → Bool
  | [], [] => true
  | a :: as, b :: bs => Selection.beq a b && Selection.beqAll as bs
  | _, _ => false

end

mutual

theorem Selection.beq_iff : ∀ {a b : Selection}, Selection.beq a b = true ↔ a = b
  | .field .., b => by cases b <;> simp [Selection.beq, Selection.beqAll_iff, and_assoc]
  | .inline .., b => by cases b <;> simp [Selection.beq, Selection.beqAll_iff, and_assoc]
  | .spread .., b => by cases b <;> simp [Selection.beq]

theorem Selection.beqAll_iff : ∀ {as bs : List Selection}, Selection.beqAll as bs = true ↔ as = bs
  | [], bs => by cases bs <;> simp [Selection.beqAll]
  | _ :: _, bs => by cases bs <;> simp [Selection.beqAll, Selection.beq_iff, Selection.beqAll_iff]

end

instance : DecidableEq Selection := fun _ _ => decidable_of_iff _ Selection.beq_iff

deriving instance DecidableEq for OperationDefinition, Fragment, Operations, Document

end Graphql

end ODataGraph

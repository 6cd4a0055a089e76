import ODataGraph.Json.Basic

/-! Equality of JSON values is decidable: it is what comparing them part by part finds. -/

namespace ODataGraph.Json

mutual

theorem beq_iff : ∀ {a b : Json}, beq a b = true ↔ a = b
  | .null, b => by cases b <;> simp [beq]
  | .bool _, b => by cases b <;> simp [beq]
  | .number _, b => by cases b <;> simp [beq]
  | .string _, b => by cases b <;> simp [beq]
  | .array _, b => by cases b <;> simp [beq, beqItems_iff]
  | .object _, b => by cases b <;> simp [beq, beqMembers_iff]

theorem beqItems_iff : ∀ {as bs : List Json}, beqItems as bs = true ↔ as = bs
  | [], bs => by cases bs <;> simp [beqItems]
  | _ :: _, bs => by cases bs <;> simp [beqItems, beq_iff, beqItems_iff]

theorem beqMembers_iff : ∀ {as bs : List (String × Json)}, beqMembers as bs = true ↔ as = bs
  | [], bs => by cases bs <;> simp [beqMembers]
  | (_, _) :: _, bs => by
    rcases bs with _ | ⟨⟨_, _⟩, _⟩ <;> simp [beqMembers, beq_iff, beqMembers_iff]

end

instance : DecidableEq Json := fun _ _ => decidable_of_iff _ beq_iff

end ODataGraph.Json

import Mathlib.Data.List.Forall2

/-!
Steps that can fail, one after another. Together they have a result if each of them has one, and of
this nothing comes but from one of them. Where steps do likewise, so do they together.
-/

namespace ODataGraph

variable {α β γ ε : Type}

theorem bind_eq_ok_iff {x : Except ε α} {g : α → Except ε β} {r : β} :
    (x >>= g) = .ok r ↔ ∃ a, x = .ok a ∧ g a = .ok r := by
  cases x <;> simp [bind, Except.bind]

theorem exists_bind_ok_iff {x : Except ε α} {f : α → β} :
    (∃ b, (x >>= fun a => .ok (f a)) = .ok b) ↔ ∃ a, x = .ok a := by
  cases x <;> simp [bind, Except.bind]

theorem mapError_eq_ok_iff {ε' : Type} {x : Except ε α} {f : ε → ε'} {a : α} :
    x.mapError f = .ok a ↔ x = .ok a := by
  cases x <;> simp [Except.mapError]

/-- A step has a result if a test of its result succeeds. -/
theorem exists_of_any_toOption {x : Except ε α} {p : α → Bool} (h : x.toOption.any p = true) :
    ∃ a, x = .ok a ∧ p a = true := by
  cases x with
  | error error => cases h
  | ok a => exact ⟨a, rfl, h⟩

section Except

variable {f : α → Except ε β} {as : List α} {bs : List β}

theorem exists_of_mapM_error {error : ε} (h : as.mapM f = .error error) :
    ∃ a ∈ as, f a = .error error := by
  induction as with
  | nil => cases h
  | cons a as ih =>
    rw [List.mapM_cons] at h
    cases ha : f a with
    | error e =>
      rw [ha] at h
      cases h
      exact ⟨a, List.mem_cons_self, ha⟩
    | ok b =>
      cases has : as.mapM f with
      | error e =>
        rw [ha, has] at h
        cases h
        obtain ⟨a', ha', hf⟩ := ih has
        exact ⟨a', List.mem_cons_of_mem _ ha', hf⟩
      | ok bs =>
        rw [ha, has] at h
        cases h

theorem mapM_eq_ok_iff : as.mapM f = .ok bs ↔ List.Forall₂ (fun a b => f a = .ok b) as bs := by
  induction as generalizing bs with
  | nil =>
    rw [List.forall₂_nil_left_iff]
    exact ⟨fun h => by cases h; rfl, fun h => by rw [h]; rfl⟩
  | cons a as ih =>
    rw [List.mapM_cons, List.forall₂_cons_left_iff]
    constructor
    · intro h
      obtain ⟨b, hb, h⟩ := bind_eq_ok_iff.1 h
      obtain ⟨bs, hbs, h⟩ := bind_eq_ok_iff.1 h
      cases h
      exact ⟨b, bs, hb, ih.1 hbs, rfl⟩
    · rintro ⟨b, bs, hb, hbs, rfl⟩
      exact bind_eq_ok_iff.2 ⟨b, hb, bind_eq_ok_iff.2 ⟨bs, ih.2 hbs, rfl⟩⟩

theorem exists_getElem?_of_mapM_ok (h : as.mapM f = .ok bs) {i : Nat} {b : β}
    (hb : bs[i]? = some b) : ∃ a, as[i]? = some a ∧ f a = .ok b := by
  induction as generalizing bs i with
  | nil =>
    cases h
    cases hb
  | cons a as ih =>
    rw [List.mapM_cons] at h
    obtain ⟨c, ha, h⟩ := bind_eq_ok_iff.1 h
    obtain ⟨cs, has, h⟩ := bind_eq_ok_iff.1 h
    cases h
    cases i with
    | zero =>
      cases hb
      exact ⟨a, rfl, ha⟩
    | succ i => exact ih has hb

theorem exists_mapM_eq_ok_iff : (∃ bs, as.mapM f = .ok bs) ↔ ∀ a ∈ as, ∃ b, f a = .ok b := by
  induction as with
  | nil => exact ⟨fun _ => nofun, fun _ => ⟨[], rfl⟩⟩
  | cons a as ih =>
    rw [List.mapM_cons, List.forall_mem_cons, ← ih]
    constructor
    · rintro ⟨_, h⟩
      obtain ⟨b, hb, h⟩ := bind_eq_ok_iff.1 h
      obtain ⟨bs, hbs, _⟩ := bind_eq_ok_iff.1 h
      exact ⟨⟨b, hb⟩, bs, hbs⟩
    · rintro ⟨⟨b, hb⟩, bs, hbs⟩
      exact ⟨b :: bs, bind_eq_ok_iff.2 ⟨b, hb, bind_eq_ok_iff.2 ⟨bs, hbs, rfl⟩⟩⟩

theorem forM_eq_ok_iff {f : α → Except ε PUnit} : as.forM f = .ok () ↔ ∀ a ∈ as, f a = .ok () := by
  induction as with
  | nil => exact ⟨fun _ => nofun, fun _ => rfl⟩
  | cons a as ih =>
    rw [List.forM_eq_forM, List.forM_cons, List.forall_mem_cons, ← ih]
    constructor
    · intro h
      obtain ⟨_, ha, has⟩ := bind_eq_ok_iff.1 h
      exact ⟨ha, has⟩
    · rintro ⟨ha, has⟩
      exact bind_eq_ok_iff.2 ⟨(), ha, has⟩

end Except

/-- Two steps that give results related to each other, or the same error. -/
inductive Likewise (R : α → β → Prop) : Except ε α → Except ε β → Prop
  | ok {a b} (h : R a b) : Likewise R (.ok a) (.ok b)
  | error (error : ε) : Likewise R (.error error) (.error error)

namespace Likewise

variable {δ : Type} {R : α → β → Prop} {S : γ → δ → Prop}

theorem refl {R : α → α → Prop} (h : ∀ a, R a a) (x : Except ε α) : Likewise R x x := by
  cases x with
  | error error => exact .error error
  | ok a => exact .ok (h a)

theorem imp {R' : α → β → Prop} (h : ∀ a b, R a b → R' a b) {x : Except ε α} {y : Except ε β}
    (hxy : Likewise R x y) : Likewise R' x y := by
  cases hxy with
  | ok hab => exact .ok (h _ _ hab)
  | error error => exact .error error

theorem bind {x : Except ε α} {y : Except ε β} {f : α → Except ε γ} {g : β → Except ε δ}
    (h : Likewise R x y) (hfg : ∀ a b, R a b → Likewise S (f a) (g b)) :
    Likewise S (x >>= f) (y >>= g) := by
  cases h with
  | ok h => exact hfg _ _ h
  | error error => exact .error error

end Likewise

/-- Steps that are the same one by one are so together. -/
theorem mapM_congr {m : Type → Type} [Monad m] [LawfulMonad m] {g : α → m γ} {g' : β → m γ}
    {as : List α} {as' : List β} (h : List.Forall₂ (fun a a' => g a = g' a') as as') :
    as.mapM g = as'.mapM g' := by
  induction h with
  | nil => rfl
  | cons hg _ ih => rw [List.mapM_cons, List.mapM_cons, hg, ih]

section Option

variable {f g : α → Option β} {l : List α} {l' : List β}

theorem mapM_option_congr (h : ∀ a ∈ l, f a = g a) : l.mapM f = l.mapM g :=
  mapM_congr (List.forall₂_same.2 h)

theorem mapM_option_isSome_iff : (l.mapM f).isSome ↔ ∀ a ∈ l, (f a).isSome := by
  induction l with
  | nil => simp
  | cons a rest ih =>
    rw [List.mapM_cons]
    cases ha : f a with
    | none => simp [ha]
    | some b =>
      cases hrest : rest.mapM f with
      | none => simpa [ha, hrest] using ih
      | some bs => simpa [ha, hrest] using ih

theorem exists_of_mem_mapM (h : l.mapM f = some l') {b : β} (hb : b ∈ l') :
    ∃ a ∈ l, f a = some b := by
  induction l generalizing l' with
  | nil =>
    cases h
    cases hb
  | cons a rest ih =>
    rw [List.mapM_cons] at h
    simp only [Option.bind_eq_bind, Option.bind_eq_some_iff] at h
    obtain ⟨c, hc, cs, hcs, h⟩ := h
    cases h
    rcases List.mem_cons.1 hb with rfl | hb
    · exact ⟨a, List.mem_cons_self, hc⟩
    · obtain ⟨a', ha', hb⟩ := ih hcs hb
      exact ⟨a', List.mem_cons_of_mem _ ha', hb⟩

theorem exists_mem_of_mapM (h : l.mapM f = some l') {a : α} (ha : a ∈ l) :
    ∃ b ∈ l', f a = some b := by
  induction l generalizing l' with
  | nil => cases ha
  | cons c rest ih =>
    rw [List.mapM_cons] at h
    simp only [Option.bind_eq_bind, Option.bind_eq_some_iff] at h
    obtain ⟨b, hb, bs, hbs, h⟩ := h
    cases h
    rcases List.mem_cons.1 ha with rfl | ha
    · exact ⟨b, List.mem_cons_self, hb⟩
    · obtain ⟨b', hb', hf⟩ := ih hbs ha
      exact ⟨b', List.mem_cons_of_mem _ hb', hf⟩

theorem mapM_map_eq_some {f : α → β} {g : β → Option γ} {h : α → γ}
    (hgf : ∀ a ∈ l, g (f a) = some (h a)) : (l.map f).mapM g = some (l.map h) := by
  induction l with
  | nil => rfl
  | cons a rest ih =>
    have hrest := ih fun b hb => hgf b (List.mem_cons_of_mem _ hb)
    rw [List.map_cons, List.mapM_cons, hgf a List.mem_cons_self, hrest]
    rfl

end Option

end ODataGraph

import BoundSql.Proofs.Lowering.Compile

/-! # When a compile succeeds

A step decides a proposition when it succeeds exactly if the proposition holds, wherever it
starts, and otherwise fails with an error of a given kind. -/

namespace BoundSql

variable {α β : Type} {p q : Prop} {error wider : QueryError → Prop}

/-- The outcome is a result exactly if `p` holds, and an error of the given kind otherwise. -/
def Decided (p : Prop) (error : QueryError → Prop) : Except QueryError α → Prop
  | .ok _ => p
  | .error e => ¬ p ∧ error e

namespace Decided

theorem ok (a : α) : Decided True error (.ok a) :=
  trivial

theorem of_error {e : QueryError} (hp : ¬ p) (he : error e) :
    Decided p error (.error e : Except QueryError α) :=
  ⟨hp, he⟩

theorem bind {x : Except QueryError α} {f : α → Except QueryError β} (h : Decided p error x)
    (hnext : ∀ a, x = .ok a → Decided q error (f a)) : Decided (p ∧ q) error (x >>= f) := by
  cases x with
  | error e => exact ⟨fun hpq => h.1 hpq.1, h.2⟩
  | ok a =>
      have hfa := hnext a rfl
      change Decided (p ∧ q) error (f a)
      cases hf : f a with
      | error e =>
          rw [hf] at hfa
          exact ⟨fun hpq => hfa.1 hpq.2, hfa.2⟩
      | ok b =>
          rw [hf] at hfa
          exact ⟨h, hfa⟩

/-- What is made of a result does not matter. -/
theorem bind_pure {x : Except QueryError α} (h : Decided p error x) (f : α → β) :
    Decided p error (x >>= fun a => pure (f a)) := by
  cases x with
  | error e => exact h
  | ok a => exact h

theorem map {x : Except QueryError α} (h : Decided p error x) (f : α → β) :
    Decided p error (x.map f) := by
  cases x with
  | error e => exact h
  | ok a => exact h

theorem congr {x : Except QueryError α} (h : Decided p error x) (hiff : p ↔ q) :
    Decided q error x := by
  cases x with
  | error e => exact ⟨fun hq => h.1 (hiff.mpr hq), h.2⟩
  | ok a => exact hiff.mp h

theorem mono {x : Except QueryError α} (h : Decided p error x)
    (hwider : ∀ {e}, error e → wider e) : Decided p wider x := by
  cases x with
  | error e => exact ⟨h.1, hwider h.2⟩
  | ok a => exact h

theorem exists_ok_iff {x : Except QueryError α} (h : Decided p error x) :
    (∃ a, x = .ok a) ↔ p := by
  cases x with
  | error e => simpa using h.1
  | ok a => exact ⟨fun _ => h, fun _ => ⟨a, rfl⟩⟩

theorem of_eq_error {x : Except QueryError α} (h : Decided p error x) {e : QueryError}
    (he : x = .error e) : error e := by
  subst he
  exact h.2

end Decided

namespace Compile

/-- The step decides `p` from every position of the supply. -/
def Decides (p : Prop) (error : QueryError → Prop) (step : Compile α) : Prop :=
  ∀ supply, Decided p error (step.runFrom supply).1

namespace Decides

theorem pure (a : α) : Decides True error (Pure.pure a : Compile α) :=
  fun _ => trivial

theorem throw {e : QueryError} (hp : ¬ p) (he : error e) :
    Decides p error (MonadExcept.throw e : Compile α) :=
  fun _ => ⟨hp, he⟩

theorem lift {result : Except QueryError α} (h : Decided p error result) :
    Decides p error (Compile.lift result) :=
  fun _ => h

theorem bind {x : Compile α} {f : α → Compile β} (h : Decides p error x)
    (hnext : ∀ a supply after, x.runFrom supply = (.ok a, after) → Decides q error (f a)) :
    Decides (p ∧ q) error (x >>= f) := by
  intro supply
  have hx := h supply
  rw [runFrom_bind]
  rcases hrun : x.runFrom supply with ⟨e | a, between⟩
  · rw [hrun] at hx
    exact ⟨fun hpq => hx.1 hpq.1, hx.2⟩
  · rw [hrun] at hx
    have hfa := hnext a supply between hrun between
    dsimp only
    rcases hf : (f a).runFrom between with ⟨e | b, after⟩
    · rw [hf] at hfa
      exact ⟨fun hpq => hfa.1 hpq.2, hfa.2⟩
    · rw [hf] at hfa
      exact ⟨hx, hfa⟩

theorem bind_pure {x : Compile α} (h : Decides p error x) (f : α → β) :
    Decides p error (x >>= fun a => Pure.pure (f a)) := by
  intro supply
  have hx := h supply
  rw [runFrom_bind]
  rcases hrun : x.runFrom supply with ⟨e | a, after⟩
  · rw [hrun] at hx
    exact hx
  · rw [hrun] at hx
    exact hx

theorem congr {x : Compile α} (h : Decides p error x) (hiff : p ↔ q) : Decides q error x :=
  fun supply => (h supply).congr hiff

theorem mono {x : Compile α} (h : Decides p error x) (hwider : ∀ {e}, error e → wider e) :
    Decides p wider x :=
  fun supply => (h supply).mono hwider

end Decides

end Compile

end BoundSql

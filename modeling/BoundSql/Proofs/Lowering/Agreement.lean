import BoundSql.Proofs.Lowering.Compile

/-! # Two compiles side by side

Two steps agree when from related positions of the supply they either fail with the same error or
succeed with related results, and leave the supply at related positions. -/

namespace BoundSql

/-- Both outcomes are the same error, or both are results and these are related. -/
inductive Agrees {α β : Type} (r : α → β → Prop) :
    Except QueryError α → Except QueryError β → Prop where
  | ok {a : α} {b : β} (h : r a b) : Agrees r (.ok a) (.ok b)
  | error (e : QueryError) : Agrees r (.error e) (.error e)

namespace Agrees

variable {α β γ δ : Type} {r : α → β → Prop} {t : γ → δ → Prop}

theorem refl {same : α → α → Prop} (h : ∀ a, same a a) (result : Except QueryError α) :
    Agrees same result result := by
  cases result with
  | error e => exact .error e
  | ok a => exact .ok (h a)

theorem eq (result : Except QueryError α) : Agrees Eq result result :=
  refl (fun _ => rfl) result

theorem of_error {e : QueryError} {y : Except QueryError β} (h : Agrees r (.error e) y) :
    y = .error e := by
  cases h
  rfl

theorem of_ok {a : α} {y : Except QueryError β} (h : Agrees r (.ok a) y) :
    ∃ b, y = .ok b ∧ r a b := by
  cases h with
  | ok h => exact ⟨_, rfl, h⟩

theorem mono {x : Except QueryError α} {y : Except QueryError β} {r' : α → β → Prop}
    (h : Agrees r x y) (himp : ∀ {a b}, r a b → r' a b) : Agrees r' x y := by
  cases h with
  | error e => exact .error e
  | ok h => exact .ok (himp h)

theorem bind {x : Except QueryError α} {y : Except QueryError β} {f : α → Except QueryError γ}
    {g : β → Except QueryError δ} (h : Agrees r x y)
    (hnext : ∀ {a b}, r a b → Agrees t (f a) (g b)) : Agrees t (x >>= f) (y >>= g) := by
  cases h with
  | error e => exact .error e
  | ok h => exact hnext h

end Agrees

namespace Compile

variable {α β γ δ : Type} {σ : AliasSupply → AliasSupply → Prop} {r : α → β → Prop}
  {t : γ → δ → Prop}

/-- Steps that agree, given how the positions of their supplies are related. -/
def Agree (σ : AliasSupply → AliasSupply → Prop) (r : α → β → Prop) (x : Compile α)
    (y : Compile β) : Prop :=
  ∀ n m, σ n m → σ (x.runFrom n).2 (y.runFrom m).2 ∧ Agrees r (x.runFrom n).1 (y.runFrom m).1

theorem Agree.pure {a : α} {b : β} (h : r a b) :
    Agree σ r (Pure.pure a : Compile α) (Pure.pure b) :=
  fun _ _ hstart => ⟨hstart, .ok h⟩

theorem Agree.throw (e : QueryError) : Agree σ r (MonadExcept.throw e) (MonadExcept.throw e) :=
  fun _ _ hstart => ⟨hstart, .error e⟩

theorem Agree.lift {x : Except QueryError α} {y : Except QueryError β} (h : Agrees r x y) :
    Agree σ r (Compile.lift x) (Compile.lift y) :=
  fun _ _ hstart => ⟨hstart, h⟩

/-- Sequences agree when their first steps do and their second steps do on related results. -/
theorem Agree.bind {x : Compile α} {y : Compile β} {f : α → Compile γ} {g : β → Compile δ}
    (h : Agree σ r x y) (hnext : ∀ {a b}, r a b → Agree σ t (f a) (g b)) :
    Agree σ t (x >>= f) (y >>= g) := by
  intro n m hstart
  obtain ⟨hbetween, hresult⟩ := h n m hstart
  rw [runFrom_bind, runFrom_bind]
  rcases hx : x.runFrom n with ⟨xResult, xSupply⟩
  rcases hy : y.runFrom m with ⟨yResult, ySupply⟩
  rw [hx, hy] at hbetween hresult
  cases hresult with
  | error e => exact ⟨hbetween, .error e⟩
  | ok hr => exact hnext hr _ _ hbetween

end Compile

end BoundSql

import Mathlib.Data.List.Forall2
import Mathlib.Data.Option.Defs

namespace Lox

variable {ε ζ σ τ α β γ δ : Type}

inductive ExceptRel (E : ε → ζ → Prop) (R : α → β → Prop) : Except ε α → Except ζ β → Prop where
  | ok {a b} : R a b → ExceptRel E R (.ok a) (.ok b)
  | error {e e'} : E e e' → ExceptRel E R (.error e) (.error e')

inductive ResultRel (S : σ → τ → Prop) (E : ε → ζ → Prop) (R : α → β → Prop) :
    EStateM.Result ε σ α → EStateM.Result ζ τ β → Prop where
  | ok {a b s t} : R a b → S s t → ResultRel S E R (.ok a s) (.ok b t)
  | error {e e' s t} : E e e' → S s t → ResultRel S E R (.error e s) (.error e' t)

def Parallel (S : σ → τ → Prop) (E : ε → ζ → Prop) (R : α → β → Prop) (p : EStateM ε σ α)
    (q : EStateM ζ τ β) : Prop :=
  ∀ s t, S s t → ResultRel S E R (p s) (q t)

namespace Parallel

variable {S : σ → τ → Prop} {E : ε → ζ → Prop} {R : α → β → Prop} {Q : γ → δ → Prop}
  {p : EStateM ε σ α} {q : EStateM ζ τ β}

theorem pure {a : α} {b : β} (h : R a b) :
    Parallel S E R (Pure.pure a : EStateM ε σ α) (Pure.pure b : EStateM ζ τ β) :=
  fun _ _ hs => .ok h hs

theorem throw {e : ε} {e' : ζ} (h : E e e') :
    Parallel S E R (MonadExcept.throw e : EStateM ε σ α) (MonadExcept.throw e' : EStateM ζ τ β) :=
  fun _ _ hs => .error h hs

theorem bind {k : α → EStateM ε σ γ} {l : β → EStateM ζ τ δ} (h : Parallel S E R p q)
    (hk : ∀ a b, R a b → Parallel S E Q (k a) (l b)) : Parallel S E Q (p >>= k) (q >>= l) := by
  intro s t hs
  have hp := h s t hs
  show ResultRel S E Q (EStateM.bind p k s) (EStateM.bind q l t)
  unfold EStateM.bind
  generalize p s = r at hp
  generalize q t = r' at hp
  cases hp with
  | ok hab hs' => exact hk _ _ hab _ _ hs'
  | error he hs' => exact .error he hs'

theorem get {k : σ → EStateM ε σ γ} {l : τ → EStateM ζ τ δ}
    (hk : ∀ s t, S s t → Parallel S E Q (k s) (l t)) :
    Parallel S E Q ((MonadState.get : EStateM ε σ σ) >>= k)
      ((MonadState.get : EStateM ζ τ τ) >>= l) :=
  fun s t hs => hk s t hs s t hs

theorem map {f : α → γ} {g : β → δ} (h : Parallel S E R p q)
    (hfg : ∀ a b, R a b → Q (f a) (g b)) : Parallel S E Q (f <$> p) (g <$> q) := by
  rw [← bind_pure_comp, ← bind_pure_comp]
  exact h.bind fun a b hab => .pure (hfg a b hab)

end Parallel

end Lox

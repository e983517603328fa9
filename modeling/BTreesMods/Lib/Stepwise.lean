import BTreesMods.Lib.Program
import Mathlib.Logic.Relation

/-!
# Programs made of steps

`Stepwise R x`: every run of the program `x` that returns leads from its state to the final state by steps
of the relation `R`. Programs put together from such programs are such programs, so that what every step
keeps, every run keeps (`Stepwise.keeps`).
-/

namespace BTreesMods

open Relation

variable {σ ε α β : Type} {R : σ → σ → Prop}

/-- The two runs of a sequence. -/
theorem of_bind_run {x : StateT σ (Except ε) α} {f : α → StateT σ (Except ε) β} {s s'' : σ} {b : β}
    (h : (x >>= f) s = .ok (b, s'')) : ∃ a s', x s = .ok (a, s') ∧ f a s' = .ok (b, s'') := by
  obtain ⟨a, s', ha, c, t, hc, rfl, rfl⟩ := Returns.of_bind (Q := fun c t => c = b ∧ t = s'')
    ⟨b, s'', h, rfl, rfl⟩
  exact ⟨a, s', ha, hc⟩

/-- Every run of `x` that returns is a chain of steps. -/
class Stepwise (R : σ → σ → Prop) (x : StateT σ (Except ε) α) : Prop where
  chain : ∀ {s a s'}, x s = .ok (a, s') → ReflTransGen R s s'

namespace Stepwise

variable {x y : StateT σ (Except ε) α} {f : α → StateT σ (Except ε) β}

/-- A program of one step. -/
theorem single (hx : ∀ s a s', x s = .ok (a, s') → R s s') : Stepwise R x :=
  ⟨fun h => .single (hx _ _ _ h)⟩

/-- A program that leaves the state as it is. -/
theorem const (hx : ∀ s a s', x s = .ok (a, s') → s' = s) : Stepwise R x := by
  constructor
  intro s a s' h
  rw [hx s a s' h]

instance pure (a : α) : Stepwise R (Pure.pure a : StateT σ (Except ε) α) := by
  apply const
  intro s b s' h
  cases h
  rfl

instance throw (e : ε) : Stepwise R (MonadExcept.throw e : StateT σ (Except ε) α) := by
  apply const
  intro s b s' h
  cases h

instance get : Stepwise R (MonadState.get : StateT σ (Except ε) σ) := by
  apply const
  intro s b s' h
  cases h
  rfl

instance bind [hx : Stepwise R x] [hf : ∀ a, Stepwise R (f a)] : Stepwise R (x >>= f) := by
  constructor
  intro s b s'' h
  obtain ⟨a, s', ha, hb⟩ := of_bind_run h
  exact (hx.chain ha).trans ((hf a).chain hb)

/-- Sequencing before a program that takes the value apart. -/
theorem seq [Stepwise R x] (hf : ∀ a, Stepwise R (f a)) : Stepwise R (x >>= f) :=
  bind

instance ite {c : Prop} [Decidable c] [hx : Stepwise R x] [hy : Stepwise R y] :
    Stepwise R (if c then x else y) := by
  split
  · exact hx
  · exact hy

/-- A branching whose branches are taken apart. -/
theorem branch {c : Prop} [Decidable c] (hx : Stepwise R x) (hy : Stepwise R y) :
    Stepwise R (if c then x else y) :=
  ite

/-- A property that every step keeps is kept by every run. -/
theorem keeps [hx : Stepwise R x] {I : σ → Prop} (hI : ∀ s s', R s s' → I s → I s') {s s' : σ} {a : α}
    (h : x s = .ok (a, s')) (hs : I s) : I s' := by
  have hchain : ReflTransGen R s s' := hx.chain h
  clear h
  induction hchain with
  | refl => exact hs
  | tail _ hstep ih => exact hI _ _ hstep ih

end Stepwise

end BTreesMods

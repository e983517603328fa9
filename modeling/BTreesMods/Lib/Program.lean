import Mathlib.Tactic.SplitIfs
import Mathlib.Control.Lawful

/-!
# Programs with a state and exceptions

Total correctness of programs in `StateT σ (Except ε)`: `Returns x s Q` says that `x`, run in the
state `s`, returns normally with a value and a state of which `Q` holds.
-/

namespace BTreesMods

variable {σ ε α β : Type}

/-- `x` returns from `s`, and `Q` holds of its value and of the final state. -/
def Returns (x : StateT σ (Except ε) α) (s : σ) (Q : α → σ → Prop) : Prop :=
  ∃ a s', x s = .ok (a, s') ∧ Q a s'

theorem bind_run {x : StateT σ (Except ε) α} {f : α → StateT σ (Except ε) β} {s s' : σ} {a : α}
    (hx : x s = .ok (a, s')) : (x >>= f) s = f a s' := by
  change (x s >>= fun p => f p.1 p.2) = _
  rw [hx]
  rfl

theorem bind_error {x : StateT σ (Except ε) α} {s : σ} {e : ε} (hx : x s = .error e)
    (f : α → StateT σ (Except ε) β) : (x >>= f) s = .error e := by
  change (x s >>= fun p => f p.1 p.2) = _
  rw [hx]
  rfl

namespace Returns

variable {x : StateT σ (Except ε) α} {f : α → StateT σ (Except ε) β} {s s' : σ}
  {P : α → σ → Prop} {Q : β → σ → Prop} {a : α}

theorem mono {P' : α → σ → Prop} (h : Returns x s P) (hP : ∀ a s', P a s' → P' a s') :
    Returns x s P' := by
  obtain ⟨a, s', hx, ha⟩ := h
  exact ⟨a, s', hx, hP a s' ha⟩

/-- A program that runs as another one. -/
theorem of_eq {y : StateT σ (Except ε) α} (h : Returns y s P) (hxy : x s = y s) : Returns x s P := by
  obtain ⟨a, s', hy, ha⟩ := h
  exact ⟨a, s', hxy.trans hy, ha⟩

theorem pure (h : P a s) : Returns (Pure.pure a : StateT σ (Except ε) α) s P :=
  ⟨a, s, rfl, h⟩

/-- Sequencing after a program whose run is known. -/
theorem step (hx : x s = .ok (a, s')) (hf : Returns (f a) s' Q) : Returns (x >>= f) s Q := by
  obtain ⟨b, s'', hb, hQ⟩ := hf
  exact ⟨b, s'', (bind_run hx).trans hb, hQ⟩

/-- Sequencing after a program that satisfies a postcondition. -/
theorem bind (hx : Returns x s P) (hf : ∀ a s', P a s' → Returns (f a) s' Q) :
    Returns (x >>= f) s Q := by
  obtain ⟨a, s', hx, ha⟩ := hx
  exact step hx (hf a s' ha)

/-- A last program whose value is dropped or mapped by `f`. -/
theorem bind_pure {g : α → β} (hx : Returns x s fun a s' => Q (g a) s') :
    Returns (x >>= fun a => Pure.pure (g a)) s Q :=
  hx.bind fun _ _ h => pure h

theorem get {f : σ → StateT σ (Except ε) β} (hf : Returns (f s) s Q) :
    Returns (MonadState.get >>= f) s Q :=
  step rfl hf

theorem ite {c : Prop} [Decidable c] {y : StateT σ (Except ε) α} (hx : c → Returns x s P)
    (hy : ¬c → Returns y s P) : Returns (if c then x else y) s P := by
  split_ifs with h
  · exact hx h
  · exact hy h

/-- The two runs of a sequence that returns. -/
theorem of_bind (h : Returns (x >>= f) s Q) :
    ∃ a s', x s = .ok (a, s') ∧ Returns (f a) s' Q := by
  obtain ⟨b, s'', hb, hQ⟩ := h
  cases hx : x s with
  | error e =>
    rw [bind_error hx f] at hb
    cases hb
  | ok r =>
    refine ⟨r.1, r.2, rfl, b, s'', ?_, hQ⟩
    rw [← hb, bind_run hx]

/-- A program that throws does not return. -/
theorem not_of_error {e : ε} (hx : x s = .error e) : ¬Returns x s P := by
  rintro ⟨a, s', hok, -⟩
  rw [hx] at hok
  cases hok

/-- What a returning program returned. -/
theorem of_run (h : Returns x s P) (hx : x s = .ok (a, s')) : P a s' := by
  obtain ⟨b, s'', hb, hP⟩ := h
  rw [hx] at hb
  cases hb
  exact hP

end Returns

end BTreesMods

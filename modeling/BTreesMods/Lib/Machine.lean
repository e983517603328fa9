import BTreesMods.Lib.Stepwise

/-!
# Sequences of calls

`runAll run cs` makes the calls `cs` one after another. `RunsOn step` is the same on an abstract machine,
whose calls are a relation between a state, a call, its answer and the next state. What every call keeps,
a sequence keeps (`runAll_keeps`); a simulation of the abstract machine by single calls, made where `P`
holds, is one by sequences (`runAll_simulates`).
-/

namespace BTreesMods

variable {σ ε μ γ β : Type}

/-- The calls one after another, with what each of them returns. -/
def runAll (run : γ → StateT σ (Except ε) β) : List γ → StateT σ (Except ε) (List β)
  | [] => return []
  | c :: cs => do
    let a ← run c
    let as ← runAll run cs
    return a :: as

/-- The calls one after another on an abstract machine. -/
def RunsOn (step : μ → γ → β → μ → Prop) : μ → List γ → List β → μ → Prop
  | m, [], [], m' => m' = m
  | m, c :: cs, a :: as, m' => ∃ m₁, step m c a m₁ ∧ RunsOn step m₁ cs as m'
  | _, _, _, _ => False

/-- `P` holds of every call of a sequence and of the state that it is made in. -/
def MeetsEach (run : γ → StateT σ (Except ε) β) (P : γ → σ → Prop) : σ → List γ → Prop
  | _, [] => True
  | s, c :: cs => P c s ∧ ∀ a s', run c s = .ok (a, s') → MeetsEach run P s' cs

section

variable {run : γ → StateT σ (Except ε) β} {s s' : σ} {cs : List γ}

theorem runAll_nil {as : List β} (h : runAll run [] s = .ok (as, s')) : as = [] ∧ s' = s := by
  cases h
  exact ⟨rfl, rfl⟩

/-- The first call of a sequence, and the others. -/
theorem runAll_cons {c : γ} {as : List β} (h : runAll run (c :: cs) s = .ok (as, s')) :
    ∃ a bs s₁, as = a :: bs ∧ run c s = .ok (a, s₁) ∧ runAll run cs s₁ = .ok (bs, s') := by
  obtain ⟨a, s₁, hc, hrest⟩ := of_bind_run h
  obtain ⟨bs, s₂, hcs, hpure⟩ := of_bind_run hrest
  cases hpure
  exact ⟨a, bs, s₁, rfl, hc, hcs⟩

/-- What every call keeps, and `A` of its answer. -/
theorem runAll_keeps {I : σ → Prop} {A : β → Prop}
    (hstep : ∀ c s a s', I s → run c s = .ok (a, s') → I s' ∧ A a) {as : List β} (hs : I s)
    (h : runAll run cs s = .ok (as, s')) : I s' ∧ ∀ a ∈ as, A a := by
  induction cs generalizing s as with
  | nil =>
    obtain ⟨rfl, rfl⟩ := runAll_nil h
    exact ⟨hs, fun a ha => absurd ha List.not_mem_nil⟩
  | cons c cs ih =>
    obtain ⟨a, bs, s₁, rfl, hc, hcs⟩ := runAll_cons h
    obtain ⟨hs₁, ha⟩ := hstep c s a s₁ hs hc
    obtain ⟨hs', hbs⟩ := ih hs₁ hcs
    exact ⟨hs', List.forall_mem_cons.mpr ⟨ha, hbs⟩⟩

/-- A sequence of calls that return as the abstract machine does. -/
theorem runAll_simulates {step : μ → γ → β → μ → Prop} {P : γ → σ → Prop} {I : σ → μ → Prop}
    (hstep : ∀ s m c, I s m → P c s → Returns (run c) s fun a s' => ∃ m', step m c a m' ∧ I s' m')
    {m : μ} (hs : I s m) (hP : MeetsEach run P s cs) :
    Returns (runAll run cs) s fun as s' => ∃ m', RunsOn step m cs as m' ∧ I s' m' := by
  induction cs generalizing s m with
  | nil => exact Returns.pure ⟨m, rfl, hs⟩
  | cons c cs ih =>
    obtain ⟨a, s₁, hrun, m₁, hm₁, hs₁⟩ := hstep s m c hs hP.1
    refine Returns.step hrun ((ih hs₁ (hP.2 a s₁ hrun)).bind ?_)
    rintro as s' ⟨m', hm', hs'⟩
    exact Returns.pure ⟨m', ⟨m₁, hm₁, hm'⟩, hs'⟩

/-- A sequence of calls on encoded states does what the sequence does on the states, unless that ends
with `bad`. -/
theorem runAll_encodes {τ : Type} {exec : γ → StateT τ (Except ε) β} {e : σ → τ} {bad : ε} {I : σ → Prop}
    (hI : ∀ c ∈ cs, ∀ s a s', I s → run c s = .ok (a, s') → I s')
    (hstep : ∀ c ∈ cs, ∀ s, I s → run c s = .error bad ∨
      exec c (e s) = (run c s).map fun r => (r.1, e r.2)) (hs : I s) :
    runAll run cs s = .error bad ∨ runAll exec cs (e s) = (runAll run cs s).map fun r => (r.1, e r.2) := by
  induction cs generalizing s with
  | nil => exact Or.inr rfl
  | cons c cs ih =>
    have hrest : ∀ s', I s' → runAll run cs s' = .error bad ∨
        runAll exec cs (e s') = (runAll run cs s').map fun r => (r.1, e r.2) := by
      intro s' hs'
      apply ih _ _ hs'
      · intro c' hc'
        exact hI c' (List.mem_cons_of_mem c hc')
      · intro c' hc'
        exact hstep c' (List.mem_cons_of_mem c hc')
    show (run c s >>= fun r => (runAll run cs r.2 >>= _ : Except ε _) : Except ε _) = _ ∨
      (exec c (e s) >>= fun r => (runAll exec cs r.2 >>= _ : Except ε _) : Except ε _) =
        (run c s >>= fun r => (runAll run cs r.2 >>= _ : Except ε _) : Except ε _).map _
    rcases hstep c List.mem_cons_self s hs with hbad | hexec
    · left
      rw [hbad]
      rfl
    · rw [hexec]
      cases hrun : run c s with
      | error err => exact Or.inr rfl
      | ok r =>
        have hs' : I r.2 := hI c List.mem_cons_self s r.1 r.2 hs hrun
        rcases hrest r.2 hs' with hbad | hrest
        · left
          show (runAll run cs r.2 >>= _ : Except ε _) = _
          rw [hbad]
          rfl
        · right
          show (runAll exec cs (e r.2) >>= _ : Except ε _) = (runAll run cs r.2 >>= _ : Except ε _).map _
          rw [hrest]
          cases runAll run cs r.2 <;> rfl

/-- A weaker condition on the calls. -/
theorem MeetsEach.mono {P Q : γ → σ → Prop} (h : MeetsEach run P s cs)
    (hPQ : ∀ c ∈ cs, ∀ s, P c s → Q c s) : MeetsEach run Q s cs := by
  induction cs generalizing s with
  | nil => trivial
  | cons c cs ih =>
    refine ⟨hPQ c List.mem_cons_self s h.1, fun a s' hrun => ih (h.2 a s' hrun) ?_⟩
    intro c' hc'
    exact hPQ c' (List.mem_cons_of_mem c hc')

end

/-- A condition on what a run leaves is decided by the run. -/
instance decidableOfRun {x : Except ε (β × σ)} {Q : β → σ → Prop} [∀ a s, Decidable (Q a s)] :
    Decidable (∀ a s, x = .ok (a, s) → Q a s) :=
  match x with
  | .ok (a, s) => decidable_of_iff (Q a s) ⟨fun h _ _ heq => by cases heq; exact h, fun h => h a s rfl⟩
  | .error _ => isTrue fun _ _ heq => by cases heq

/-- A condition on a sequence of calls is decided by running it. -/
instance decidableMeetsEach (run : γ → StateT σ (Except ε) β) (P : γ → σ → Prop) [∀ c s, Decidable (P c s)] :
    ∀ s cs, Decidable (MeetsEach run P s cs)
  | _, [] => isTrue trivial
  | s, c :: cs =>
    have := fun s' => decidableMeetsEach run P s' cs
    inferInstanceAs (Decidable (P c s ∧ ∀ a s', run c s = .ok (a, s') → MeetsEach run P s' cs))

end BTreesMods

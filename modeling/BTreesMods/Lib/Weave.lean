import Mathlib.Data.List.Basic

/-!
# Interleaving runs with separators

`weave cs ks` is the list `c₀ ++ k₀ :: c₁ ++ k₁ :: c₂ …` of the runs `cs` with the separators `ks`
between them. `before` and `after` are the parts of it around one run.
-/

namespace BTreesMods

variable {τ : Type}

/-- The runs `cs` with the separators `ks` between them. -/
def weave : List (List τ) → List τ → List τ
  | [], _ => []
  | c :: _, [] => c
  | c :: cs, k :: ks => c ++ k :: weave cs ks

/-- What stands before a run: runs, each with the separator behind it. -/
def before : List (List τ) → List τ → List τ
  | c :: cs, k :: ks => c ++ k :: before cs ks
  | _, _ => []

/-- What stands behind a run: separators, each with the run behind it. -/
def after : List τ → List (List τ) → List τ
  | [], _ => []
  | k :: ks, cs => k :: weave cs ks

theorem weave_cons (c : List τ) (cs : List (List τ)) (ks : List τ) :
    weave (c :: cs) ks = c ++ after ks cs := by
  cases ks with
  | nil => simp [weave, after]
  | cons k ks => rfl

@[simp] theorem weave_singleton (c : List τ) : weave [c] [] = c := rfl

/-- The part of an interleaving around one of its runs. -/
theorem weave_around {P S : List (List τ)} {K L : List τ} (c : List τ) (h : P.length = K.length) :
    weave (P ++ c :: S) (K ++ L) = before P K ++ (c ++ after L S) := by
  induction P generalizing K with
  | nil =>
    obtain rfl := List.length_eq_zero_iff.mp h.symm
    exact weave_cons c S L
  | cons p P ih =>
    cases K with
    | nil => simp at h
    | cons k K =>
      have h' : P.length = K.length := by simpa using h
      simp only [List.cons_append, weave, before, ih h', List.append_assoc]

/-- The part of an interleaving from one of its runs on. -/
theorem weave_before {P C : List (List τ)} {K L : List τ} (hC : C ≠ []) (h : P.length = K.length) :
    weave (P ++ C) (K ++ L) = before P K ++ weave C L := by
  obtain ⟨c, S, rfl⟩ := List.exists_cons_of_ne_nil hC
  rw [weave_around c h, weave_cons]

/-- The separators are in an interleaving. -/
theorem mem_weave {C : List (List τ)} {K : List τ} {x : τ} (h : C.length = K.length + 1)
    (hx : x ∈ K) : x ∈ weave C K := by
  induction C generalizing K with
  | nil => simp at h
  | cons c C ih =>
    cases K with
    | nil => cases hx
    | cons k K =>
      rw [weave, List.mem_append, List.mem_cons]
      rcases List.mem_cons.mp hx with rfl | hx
      · exact Or.inr (Or.inl rfl)
      · exact Or.inr (Or.inr (ih (by simpa using h) hx))

/-- An interleaving has nothing but its runs and separators. -/
theorem mem_or_mem_of_mem_weave {C : List (List τ)} {K : List τ} {x : τ} (hx : x ∈ weave C K) :
    (∃ c ∈ C, x ∈ c) ∨ x ∈ K := by
  induction C generalizing K with
  | nil => cases hx
  | cons c C ih =>
    cases K with
    | nil => exact Or.inl ⟨c, by simp, hx⟩
    | cons k K =>
      rw [weave, List.mem_append, List.mem_cons] at hx
      rcases hx with hx | rfl | hx
      · exact Or.inl ⟨c, by simp, hx⟩
      · exact Or.inr (by simp)
      · rcases ih hx with ⟨d, hd, hxd⟩ | hxK
        · exact Or.inl ⟨d, List.mem_cons_of_mem c hd, hxd⟩
        · exact Or.inr (List.mem_cons_of_mem k hxK)

theorem weave_replicate_nil (ks : List τ) : weave (List.replicate (ks.length + 1) []) ks = ks := by
  induction ks with
  | nil => rfl
  | cons k ks ih =>
    rw [List.length_cons, List.replicate_succ, weave, ih]
    rfl

/-- Two interleavings with a separator between them. -/
theorem weave_append {P S : List (List τ)} {K L : List τ} (m : τ) (h : P.length = K.length + 1) :
    weave (P ++ S) (K ++ m :: L) = weave P K ++ m :: weave S L := by
  induction P generalizing K with
  | nil => simp at h
  | cons p P ih =>
    cases K with
    | nil =>
      obtain rfl := List.length_eq_zero_iff.mp (by simpa using h : P.length = 0)
      rfl
    | cons k K =>
      have h' : P.length = K.length + 1 := by simpa using h
      simp only [List.cons_append, weave, ih h', List.append_assoc]

/-- `before` ends with its last separator. -/
theorem before_concat {P : List (List τ)} {K : List τ} (c : List τ) (m : τ)
    (h : P.length = K.length) : before (P ++ [c]) (K ++ [m]) = before P K ++ (c ++ [m]) := by
  induction P generalizing K with
  | nil =>
    obtain rfl := List.length_eq_zero_iff.mp h.symm
    rfl
  | cons p P ih =>
    cases K with
    | nil => simp at h
    | cons k K =>
      have h' : P.length = K.length := by simpa using h
      simp only [List.cons_append, before, ih h', List.append_assoc]

end BTreesMods

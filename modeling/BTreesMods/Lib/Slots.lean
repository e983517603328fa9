import Mathlib.Data.List.Basic
import Mathlib.Tactic.Ring
import Mathlib.Tactic.SplitIfs

/-!
# Arrays of cells

A memory area is a function from cell numbers to cells. `blit` is `memmove`, `slice` reads a run of
cells as a list, and `forUp`/`forDown` are counted loops whose body can fail. A loop that copies
cells one by one inside an area is a `blit` of the area onto itself (`forUp_copy`, `forDown_copy`).
-/

namespace BTreesMods

variable {α ε : Type}

/-! ## Block copies -/

/-- `n` cells of `src` from cell `b` on, copied over the cells of `dst` from cell `a` on. -/
def blit (dst : ℕ → α) (a : ℕ) (src : ℕ → α) (b n : ℕ) : ℕ → α :=
  fun j => if a ≤ j ∧ j < a + n then src (b + (j - a)) else dst j

/-- The `n` cells of `s` from cell `a` on. -/
def slice (s : ℕ → α) (a n : ℕ) : List α := (List.range n).map fun j => s (a + j)

@[simp] theorem slice_zero (s : ℕ → α) (a : ℕ) : slice s a 0 = [] := rfl

@[simp] theorem length_slice (s : ℕ → α) (a n : ℕ) : (slice s a n).length = n := by
  simp [slice]

theorem slice_succ (s : ℕ → α) (a n : ℕ) : slice s a (n + 1) = s a :: slice s (a + 1) n := by
  simp only [slice, List.range_succ_eq_map, List.map_cons, List.map_map, Nat.add_zero]
  congr 1
  apply List.map_congr_left
  intro j _
  simp only [Function.comp_apply]
  congr 1
  omega

theorem slice_one (s : ℕ → α) (a : ℕ) : slice s a 1 = [s a] := by
  rw [slice_succ, slice_zero]

theorem slice_add (s : ℕ → α) (a m n : ℕ) :
    slice s a (m + n) = slice s a m ++ slice s (a + m) n := by
  induction m generalizing a with
  | zero => simp
  | succ m ih =>
    rw [show m + 1 + n = (m + n) + 1 by omega, slice_succ, slice_succ, ih,
      show a + 1 + m = a + (m + 1) by omega, List.cons_append]

theorem slice_congr {s t : ℕ → α} {a b n : ℕ} (h : ∀ j < n, s (a + j) = t (b + j)) :
    slice s a n = slice t b n := by
  apply List.map_congr_left
  intro j hj
  exact h j (List.mem_range.mp hj)

/-- A slice read as `xs ++ ys` splits at the length of `xs`. -/
theorem slice_eq_append {s : ℕ → α} {a n : ℕ} {xs ys : List α} (h : slice s a n = xs ++ ys) :
    slice s a xs.length = xs ∧ slice s (a + xs.length) ys.length = ys := by
  have hn : n = xs.length + ys.length := by
    have := congrArg List.length h
    simpa using this
  subst hn
  rw [slice_add] at h
  exact List.append_inj h (by simp)

theorem slice_eq_cons {s : ℕ → α} {a n : ℕ} {x : α} {xs : List α} (h : slice s a n = x :: xs) :
    s a = x ∧ slice s (a + 1) xs.length = xs := by
  have h' : slice s a n = [x] ++ xs := h
  simpa [slice_one] using slice_eq_append h'

theorem slice_getElem (s : ℕ → α) (a n i : ℕ) (h : i < (slice s a n).length) :
    (slice s a n)[i] = s (a + i) := by
  simp [slice]

/-! ## Reading a block copy -/

theorem slice_blit_in (dst : ℕ → α) (a : ℕ) (src : ℕ → α) (b n x l : ℕ) (h1 : a ≤ x)
    (h2 : x + l ≤ a + n) : slice (blit dst a src b n) x l = slice src (b + (x - a)) l := by
  apply slice_congr
  intro j hj
  rw [blit, if_pos (by omega)]
  congr 1
  omega

theorem slice_blit_below (dst : ℕ → α) (a : ℕ) (src : ℕ → α) (b n x l : ℕ) (h : x + l ≤ a) :
    slice (blit dst a src b n) x l = slice dst x l := by
  apply slice_congr
  intro j hj
  rw [blit, if_neg (by omega)]

theorem slice_blit_above (dst : ℕ → α) (a : ℕ) (src : ℕ → α) (b n x l : ℕ) (h : a + n ≤ x) :
    slice (blit dst a src b n) x l = slice dst x l := by
  apply slice_congr
  intro j hj
  rw [blit, if_neg (by omega)]

theorem slice_update_of_lt (s : ℕ → α) (i : ℕ) (v : α) (x l : ℕ) (h : x + l ≤ i) :
    slice (Function.update s i v) x l = slice s x l := by
  apply slice_congr
  intro j hj
  rw [Function.update_of_ne (by omega)]

theorem slice_update_of_gt (s : ℕ → α) (i : ℕ) (v : α) (x l : ℕ) (h : i < x) :
    slice (Function.update s i v) x l = slice s x l := by
  apply slice_congr
  intro j hj
  rw [Function.update_of_ne (by omega)]

@[simp] theorem blit_none (dst : ℕ → α) (a : ℕ) (src : ℕ → α) (b : ℕ) :
    blit dst a src b 0 = dst := by
  funext j
  rw [blit, if_neg (by omega)]

theorem blit_one (dst : ℕ → α) (a : ℕ) (src : ℕ → α) (b : ℕ) :
    blit dst a src b 1 = Function.update dst a (src b) := by
  funext j
  unfold blit
  by_cases h : j = a
  · subst h
    rw [if_pos (by omega), Function.update_self]
    congr 1
    omega
  · rw [if_neg (by omega), Function.update_of_ne h]

/-! ## List operations on a slice -/

section Lists

variable {s : ℕ → α} {n : ℕ} {xs ys : List α} {x y : α}

/-- Moving the cells from `i` on up by one and setting cell `i` inserts into the slice. -/
theorem slice_insert (y : α) (h : slice s 0 n = xs ++ ys) :
    slice (Function.update (blit s (xs.length + 1) s xs.length (n - xs.length)) xs.length y) 0
      (n + 1) = xs ++ y :: ys := by
  have hn : n = xs.length + ys.length := by simpa using congrArg List.length h
  obtain ⟨hx, hy⟩ := slice_eq_append h
  subst hn
  rw [show xs.length + ys.length + 1 = xs.length + (1 + ys.length) by omega, slice_add, slice_add,
    slice_update_of_lt _ _ _ _ _ (by omega), slice_blit_below _ _ _ _ _ _ _ (by omega), hx,
    slice_one, Nat.zero_add, Function.update_self, slice_update_of_gt _ _ _ _ _ (by omega),
    slice_blit_in _ _ _ _ _ _ _ (by omega) (by omega), Nat.sub_self, Nat.add_zero,
    ← Nat.zero_add xs.length, hy]
  rfl

/-- Moving the cells after `i` down by one deletes cell `i` of the slice. -/
theorem slice_erase (h : slice s 0 n = xs ++ x :: ys) :
    slice (blit s xs.length s (xs.length + 1) (n - 1 - xs.length)) 0 (n - 1) = xs ++ ys := by
  have hn : n = xs.length + (ys.length + 1) := by simpa using congrArg List.length h
  obtain ⟨hx, hy⟩ := slice_eq_append h
  obtain ⟨-, hy⟩ := slice_eq_cons hy
  subst hn
  rw [show xs.length + (ys.length + 1) - 1 = xs.length + ys.length by omega, slice_add,
    slice_blit_below _ _ _ _ _ _ _ (by omega), hx,
    slice_blit_in _ _ _ _ _ _ _ (by omega) (by omega)]
  rw [Nat.zero_add] at hy
  rw [Nat.zero_add, Nat.sub_self, Nat.add_zero, hy]

/-- Setting a cell replaces an element of the slice. -/
theorem slice_set (y : α) (h : slice s 0 n = xs ++ x :: ys) :
    slice (Function.update s xs.length y) 0 n = xs ++ y :: ys := by
  have hn : n = xs.length + (1 + ys.length) := by
    have := congrArg List.length h
    simp at this
    omega
  obtain ⟨hx, hy⟩ := slice_eq_append h
  obtain ⟨-, hy⟩ := slice_eq_cons hy
  subst hn
  rw [slice_add, slice_add, slice_update_of_lt _ _ _ _ _ (by omega), hx, slice_one, Nat.zero_add,
    Function.update_self, slice_update_of_gt _ _ _ _ _ (by omega)]
  rw [Nat.zero_add] at hy
  rw [hy]
  rfl

/-- Copying cells behind a slice appends to it. -/
theorem slice_append_blit {src : ℕ → α} {b m : ℕ} (h : slice s 0 n = xs) (h' : slice src b m = ys) :
    slice (blit s n src b m) 0 (n + m) = xs ++ ys := by
  rw [slice_add, slice_blit_below _ _ _ _ _ _ _ (by omega), h,
    slice_blit_in _ _ _ _ _ _ _ (by omega) (by omega), Nat.zero_add, Nat.sub_self, Nat.add_zero, h']

/-- Setting the cell behind a slice appends an element to it. -/
theorem slice_append_one (y : α) (h : slice s 0 n = xs) :
    slice (Function.update s n y) 0 (n + 1) = xs ++ [y] := by
  rw [← blit_one s n (fun _ => y) 0]
  exact slice_append_blit h (slice_one _ _)

/-- Moving a slice up and copying cells in front of it prepends to it. -/
theorem slice_prepend_blit {src : ℕ → α} {b m : ℕ} (h : slice s 0 n = xs)
    (h' : slice src b m = ys) :
    slice (blit (blit s m s 0 n) 0 src b m) 0 (m + n) = ys ++ xs := by
  rw [slice_add, slice_blit_in _ _ _ _ _ _ _ (by omega) (by omega), Nat.sub_self, Nat.add_zero, h',
    Nat.zero_add, slice_blit_above _ _ _ _ _ _ _ (by omega),
    slice_blit_in _ _ _ _ _ _ _ (by omega) (by omega), Nat.sub_self, Nat.add_zero, h]

/-- Moving a slice up by one and setting the cell in front of it prepends an element. -/
theorem slice_prepend_one (y : α) (h : slice s 0 n = xs) :
    slice (Function.update (blit s 1 s 0 n) 0 y) 0 (n + 1) = y :: xs := by
  rw [← blit_one _ 0 (fun _ => y) 0, Nat.add_comm n 1]
  exact slice_prepend_blit h (slice_one _ _)

/-- Moving a slice up, setting the cell in front of it and copying cells in front of that. -/
theorem slice_prepend_cons {src : ℕ → α} {b m : ℕ} (y : α) (h : slice s 0 n = xs)
    (h' : slice src b m = ys) :
    slice (blit (Function.update (blit s (m + 1) s 0 n) m y) 0 src b m) 0 (m + 1 + n) =
      ys ++ y :: xs := by
  rw [Nat.add_assoc, slice_add, slice_blit_in _ _ _ _ _ _ _ (by omega) (by omega), Nat.sub_self,
    Nat.add_zero, h', Nat.zero_add, slice_blit_above _ _ _ _ _ _ _ (by omega), Nat.add_comm 1 n,
    slice_succ, Function.update_self, slice_update_of_gt _ _ _ _ _ (by omega),
    slice_blit_in _ _ _ _ _ _ _ (by omega) (by omega), Nat.sub_self, Nat.add_zero, h]

/-- Copying the cells of a slice to the front of an area. -/
theorem slice_blit_front (dst : ℕ → α) {src : ℕ → α} {b : ℕ} (h : slice src b n = xs) :
    slice (blit dst 0 src b n) 0 n = xs := by
  rw [slice_blit_in _ _ _ _ _ _ _ (by omega) (by omega), Nat.sub_self, Nat.add_zero, h]

/-- The head of a slice read as `xs ++ ys`. -/
theorem slice_take (h : slice s 0 n = xs ++ ys) : slice s 0 xs.length = xs :=
  (slice_eq_append h).1

/-- The tail of a slice read as `xs ++ ys`. -/
theorem slice_drop (h : slice s 0 n = xs ++ ys) : slice s xs.length ys.length = ys := by
  simpa using (slice_eq_append h).2

/-- The cell of a slice between `xs` and `ys`. -/
theorem slice_at (h : slice s 0 n = xs ++ x :: ys) : s xs.length = x := by
  have := (slice_eq_cons (slice_eq_append h).2).1
  simpa using this

theorem slice_shift (s : ℕ → α) (c a n : ℕ) : slice (fun j => s (c + j)) a n = slice s (c + a) n :=
  slice_congr fun j _ => by rw [Nat.add_assoc]

end Lists

/-! ## Counted loops -/

/-- `for (j = lo; j < lo + count; ++j) a = body(j, a)`. -/
def forUp (body : ℕ → α → Except ε α) : ℕ → ℕ → α → Except ε α
  | _, 0, a => .ok a
  | lo, count + 1, a => body lo a >>= forUp body (lo + 1) count

/-- `for (j = lo + count - 1; j >= lo; --j) a = body(j, a)`. -/
def forDown (body : ℕ → α → Except ε α) (lo : ℕ) : ℕ → α → Except ε α
  | 0, a => .ok a
  | count + 1, a => body (lo + count) a >>= forDown body lo count

theorem ok_bind {β : Type} (a : α) (f : α → Except ε β) : (Except.ok a >>= f) = f a := rfl

/-- First turn of a rising copy loop, then the rest of it. -/
theorem blit_succ_up (s : ℕ → α) (d lo count : ℕ) :
    blit (Function.update s lo (s (lo + d))) (lo + 1) (Function.update s lo (s (lo + d)))
      (lo + 1 + d) count = blit s lo s (lo + d) (count + 1) := by
  funext j
  unfold blit
  by_cases h1 : j = lo
  · subst h1
    rw [if_neg (by omega), if_pos (by omega), Function.update_self]
    congr 1
    omega
  · split_ifs with h2 h3 h3
    · rw [Function.update_of_ne (by omega)]
      congr 1
      omega
    · omega
    · omega
    · rw [Function.update_of_ne h1]

/-- First turn of a falling copy loop, then the rest of it. -/
theorem blit_succ_down (s : ℕ → α) (d lo count : ℕ) :
    blit (Function.update s (lo + count + d) (s (lo + count))) (lo + d)
      (Function.update s (lo + count + d) (s (lo + count))) lo count =
      blit s (lo + d) s lo (count + 1) := by
  funext j
  unfold blit
  by_cases h1 : j = lo + count + d
  · subst h1
    rw [if_neg (by omega), if_pos (by omega), Function.update_self]
    congr 1
    omega
  · split_ifs with h2 h3 h3
    · rw [Function.update_of_ne (by omega)]
    · omega
    · omega
    · rw [Function.update_of_ne h1]

section Loops

variable {γ β : Type}

/-- A rising loop whose turn `j` moves cell `j + d` to cell `j` moves the block down by `d`. -/
theorem forUp_copy (put : (ℕ → α) → β) (body : ℕ → β → Except ε β) (d lo count : ℕ)
    (s : ℕ → α)
    (hbody : ∀ j (t : ℕ → α), lo ≤ j → j < lo + count →
      body j (put t) = .ok (put (Function.update t j (t (j + d))))) :
    forUp body lo count (put s) = .ok (put (blit s lo s (lo + d) count)) := by
  induction count generalizing lo s with
  | zero => rw [forUp, blit_none]
  | succ count ih =>
    rw [forUp, hbody lo s (Nat.le_refl lo) (by omega), ok_bind,
      ih (lo + 1) _ (fun j t h1 h2 => hbody j t (by omega) (by omega)), blit_succ_up]

/-- A falling loop whose turn `j` moves cell `j` to cell `j + d` moves the block up by `d`. -/
theorem forDown_copy (put : (ℕ → α) → β) (body : ℕ → β → Except ε β) (d lo count : ℕ)
    (s : ℕ → α)
    (hbody : ∀ j (t : ℕ → α), lo ≤ j → j < lo + count →
      body j (put t) = .ok (put (Function.update t (j + d) (t j)))) :
    forDown body lo count (put s) = .ok (put (blit s (lo + d) s lo count)) := by
  induction count generalizing s with
  | zero => rw [forDown, blit_none]
  | succ count ih =>
    rw [forDown, hbody (lo + count) s (by omega) (by omega), ok_bind,
      ih _ (fun j t h1 h2 => hbody j t h1 (by omega)), blit_succ_down]

/-- `forUp_copy` for a body that moves a cell of two areas, `e` cells further on in the second. -/
theorem forUp_copy₂ (put : (ℕ → α) → (ℕ → γ) → β) (body : ℕ → β → Except ε β) (d e lo count : ℕ)
    (s : ℕ → α) (r : ℕ → γ)
    (hbody : ∀ j (t : ℕ → α) (u : ℕ → γ), lo ≤ j → j < lo + count →
      body j (put t u) = .ok (put (Function.update t j (t (j + d)))
        (Function.update u (j + e) (u (j + e + d))))) :
    forUp body lo count (put s r) =
      .ok (put (blit s lo s (lo + d) count) (blit r (lo + e) r (lo + e + d) count)) := by
  induction count generalizing lo s r with
  | zero => rw [forUp, blit_none, blit_none]
  | succ count ih =>
    rw [forUp, hbody lo s r (Nat.le_refl lo) (by omega), ok_bind,
      ih (lo + 1) _ _ (fun j t u h1 h2 => hbody j t u (by omega) (by omega)), blit_succ_up,
      show lo + 1 + e = lo + e + 1 by omega, blit_succ_up]

/-- `forDown_copy` for a body that moves the same cell of two areas. -/
theorem forDown_copy₂ (put : (ℕ → α) → (ℕ → γ) → β) (body : ℕ → β → Except ε β) (d lo count : ℕ)
    (s : ℕ → α) (r : ℕ → γ)
    (hbody : ∀ j (t : ℕ → α) (u : ℕ → γ), lo ≤ j → j < lo + count →
      body j (put t u) = .ok (put (Function.update t (j + d) (t j))
        (Function.update u (j + d) (u j)))) :
    forDown body lo count (put s r) =
      .ok (put (blit s (lo + d) s lo count) (blit r (lo + d) r lo count)) := by
  induction count generalizing s r with
  | zero => rw [forDown, blit_none, blit_none]
  | succ count ih =>
    rw [forDown, hbody (lo + count) s r (by omega) (by omega), ok_bind,
      ih _ _ (fun j t u h1 h2 => hbody j t u h1 (by omega)), blit_succ_down, blit_succ_down]

end Loops

end BTreesMods

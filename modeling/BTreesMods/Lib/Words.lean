import BTreesMods.Lib.Slots

/-!
# Words of one width

A `WordCodec` stores the words of a type in a fixed number of bytes each, and `words` puts words one
behind the other. `peek` and `poke` read and overwrite a run of cells of a list, as `memcpy` does.

* `peek_words`, `poke_words`: a run of bytes that begins and ends between words is the run of the words.
* `peek_slice`, `poke_slice`: the same for the first cells of an array, where overwriting is `blit`.
-/

namespace BTreesMods

variable {α β : Type}

/-! ## Runs of cells -/

/-- The `n` cells of `xs` from cell `i` on. -/
def peek (xs : List α) (i n : ℕ) : List α := (xs.drop i).take n

/-- The cells `ys`, copied over the cells of `xs` from cell `i` on. -/
def poke (xs : List α) (i : ℕ) (ys : List α) : List α := xs.take i ++ ys ++ xs.drop (i + ys.length)

section

variable {xs ys zs : List α} {i n : ℕ}

theorem length_peek (h : i + n ≤ xs.length) : (peek xs i n).length = n := by
  rw [peek, List.length_take, List.length_drop]
  omega

theorem length_poke (h : i + ys.length ≤ xs.length) : (poke xs i ys).length = xs.length := by
  simp only [poke, List.length_append, List.length_take, List.length_drop]
  omega

theorem peek_append_left (h : i + n ≤ xs.length) : peek (xs ++ ys) i n = peek xs i n := by
  rw [peek, List.drop_append_of_le_length (by omega), List.take_append_of_le_length]
  · rfl
  · rw [List.length_drop]
    omega

theorem peek_append_right (xs ys : List α) (i n : ℕ) :
    peek (xs ++ ys) (xs.length + i) n = peek ys i n := by
  rw [peek, List.drop_length_add_append]
  rfl

theorem poke_append_left (h : i + zs.length ≤ xs.length) :
    poke (xs ++ ys) i zs = poke xs i zs ++ ys := by
  rw [poke, List.take_append_of_le_length (by omega), List.drop_append_of_le_length h, poke,
    List.append_assoc _ _ ys]

theorem poke_append_right (xs ys : List α) (i : ℕ) (zs : List α) :
    poke (xs ++ ys) (xs.length + i) zs = xs ++ poke ys i zs := by
  rw [poke, List.take_length_add_append, Nat.add_assoc, List.drop_length_add_append, poke]
  simp only [List.append_assoc]

theorem peek_all (xs : List α) : peek xs 0 xs.length = xs := by
  rw [peek, List.drop_zero, List.take_length]

theorem poke_all (h : ys.length = xs.length) : poke xs 0 ys = ys := by
  rw [poke, List.take_zero, List.nil_append, Nat.zero_add, h, List.drop_length, List.append_nil]

end

/-! ## Words -/

/-- Words stored in `width` bytes each. -/
structure WordCodec (α β : Type) where
  width : ℕ
  encode : α → List β
  length_encode : ∀ x, (encode x).length = width

namespace WordCodec

variable (C : WordCodec α β)

/-- The bytes of the words, one behind the other. -/
def words (xs : List α) : List β := xs.flatMap C.encode

@[simp]
theorem words_nil : C.words [] = [] := rfl

@[simp]
theorem words_cons (x : α) (xs : List α) : C.words (x :: xs) = C.encode x ++ C.words xs := rfl

theorem words_append (xs ys : List α) : C.words (xs ++ ys) = C.words xs ++ C.words ys := by
  rw [words, List.flatMap_append]
  rfl

theorem words_singleton (x : α) : C.words [x] = C.encode x := by
  rw [words_cons, words_nil, List.append_nil]

@[simp]
theorem length_words (xs : List α) : (C.words xs).length = C.width * xs.length := by
  induction xs with
  | nil => rfl
  | cons x xs ih =>
    rw [words_cons, List.length_append, C.length_encode, ih, List.length_cons, Nat.mul_succ, Nat.add_comm]

theorem words_drop (xs : List α) (i : ℕ) : (C.words xs).drop (C.width * i) = C.words (xs.drop i) := by
  induction i generalizing xs with
  | zero => rfl
  | succ i ih =>
    cases xs with
    | nil => simp
    | cons x xs =>
      have hx : C.width * (i + 1) = (C.encode x).length + C.width * i := by
        rw [C.length_encode, Nat.mul_succ, Nat.add_comm]
      rw [words_cons, hx, List.drop_length_add_append, ih, List.drop_succ_cons]

theorem words_take (xs : List α) (i : ℕ) : (C.words xs).take (C.width * i) = C.words (xs.take i) := by
  induction i generalizing xs with
  | zero => rfl
  | succ i ih =>
    cases xs with
    | nil => simp
    | cons x xs =>
      have hx : C.width * (i + 1) = (C.encode x).length + C.width * i := by
        rw [C.length_encode, Nat.mul_succ, Nat.add_comm]
      rw [words_cons, hx, List.take_length_add_append, ih, List.take_succ_cons, words_cons]

/-- Reading whole words. -/
theorem peek_words (xs : List α) (i n : ℕ) :
    peek (C.words xs) (C.width * i) (C.width * n) = C.words (peek xs i n) := by
  rw [peek, words_drop, words_take]
  rfl

/-- Overwriting whole words. -/
theorem poke_words (xs : List α) (i : ℕ) (ys : List α) :
    poke (C.words xs) (C.width * i) (C.words ys) = C.words (poke xs i ys) := by
  rw [poke, words_take, length_words, ← Nat.mul_add, words_drop, poke, words_append, words_append]

end WordCodec

/-! ## Arrays -/

/-- A run of an array, moved to the beginning. -/
theorem slice_add_left (s : ℕ → α) (a n : ℕ) : slice (fun j => s (a + j)) 0 n = slice s a n := by
  apply slice_congr
  intro j _
  show s (a + (0 + j)) = s (a + j)
  rw [Nat.zero_add]

/-- Reading cells of an array. -/
theorem peek_slice (s : ℕ → α) {m i n : ℕ} (h : i + n ≤ m) : peek (slice s 0 m) i n = slice s i n := by
  apply List.ext_getElem
  · rw [length_peek] <;> simp
    exact h
  · intro j hj hj'
    simp only [peek, List.getElem_take, List.getElem_drop, slice_getElem, Nat.zero_add]

/-- Overwriting cells of an array. -/
theorem poke_slice (s t : ℕ → α) {m i b n : ℕ} (h : i + n ≤ m) :
    poke (slice s 0 m) i (slice t b n) = slice (blit s i t b n) 0 m := by
  apply List.ext_getElem
  · rw [length_poke] <;> simp
    exact h
  · intro j hj hj'
    rw [slice_getElem, Nat.zero_add, blit]
    simp only [poke, length_slice]
    have hjm : j < m := by simpa using hj'
    by_cases hlo : j < i
    · rw [if_neg (by omega), List.getElem_append_left (by simp; omega),
        List.getElem_append_left (by simp; omega), List.getElem_take, slice_getElem, Nat.zero_add]
    · by_cases hhi : j < i + n
      · rw [if_pos (by omega), List.getElem_append_left (by simp; omega),
          List.getElem_append_right (by simp; omega), slice_getElem]
        congr 2
        simp
        omega
      · rw [if_neg (by omega), List.getElem_append_right (by simp; omega), List.getElem_drop,
          slice_getElem]
        congr 1
        simp
        omega

/-- An array of one word whose bytes are all equal. -/
theorem WordCodec.words_replicate (C : WordCodec α β) {x : α} {b : β}
    (hx : C.encode x = List.replicate C.width b) (a n : ℕ) :
    C.words (slice (fun _ => x) a n) = List.replicate (C.width * n) b := by
  induction n generalizing a with
  | zero => rfl
  | succ n ih =>
    rw [slice_succ, C.words_cons, hx, ih, List.replicate_append_replicate, Nat.mul_succ, Nat.add_comm]

end BTreesMods

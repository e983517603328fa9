import Mathlib.Algebra.Order.Ring.Defs
import Mathlib.Data.List.Basic
import Mathlib.Data.Nat.Cast.Order.Basic
import Mathlib.Data.Nat.SuccPred
import Mathlib.Order.CompletePartialOrder
import Mathlib.Order.SuccPred.IntervalSucc
import Mathlib.Tactic.Ring

/-!
# Little-endian bytes and zero-padded slots

`leBytes n x` are the `n` low bytes of `x`, as a little-endian machine stores them, and `leNat` reads
them back. `slot n bs` is an area of `n` zero bytes into which the first `n` bytes of `bs` have been
copied. `slots_disjoint`: slots of one width, one behind the other, do not overlap.
-/

namespace BTreesMods

/-- The `n` low bytes of `x`, the least significant first. -/
def leBytes : ℕ → ℕ → List UInt8
  | 0, _ => []
  | n + 1, x => UInt8.ofNat x :: leBytes n (x / 256)

/-- The number with these little-endian bytes. -/
def leNat : List UInt8 → ℕ
  | [] => 0
  | b :: bs => b.toNat + 256 * leNat bs

@[simp]
theorem length_leBytes (n x : ℕ) : (leBytes n x).length = n := by
  induction n generalizing x with
  | zero => rfl
  | succ n ih => simp [leBytes, ih]

/-- Reading back `n` bytes gives the number modulo `256 ^ n`. -/
theorem leNat_leBytes (n x : ℕ) : leNat (leBytes n x) = x % 256 ^ n := by
  induction n generalizing x with
  | zero => simp [leBytes, leNat, Nat.mod_one]
  | succ n ih =>
    show (UInt8.ofNat x).toNat + 256 * leNat (leBytes n (x / 256)) = x % 256 ^ (n + 1)
    rw [ih, pow_succ, mul_comm (256 ^ n) 256, Nat.mod_mul]
    simp

theorem leBytes_eq_iff {n x y : ℕ} : leBytes n x = leBytes n y ↔ x % 256 ^ n = y % 256 ^ n := by
  constructor
  · intro h
    rw [← leNat_leBytes, h, leNat_leBytes]
  · induction n generalizing x y with
    | zero => intro _; rfl
    | succ n ih =>
      intro h
      rw [pow_succ, mul_comm (256 ^ n) 256, Nat.mod_mul, Nat.mod_mul] at h
      have hhead : x % 256 = y % 256 := by omega
      have htail : x / 256 % 256 ^ n = y / 256 % 256 ^ n := by omega
      have hbyte : UInt8.ofNat x = UInt8.ofNat y := UInt8.toNat_inj.mp (by simpa using hhead)
      rw [leBytes, leBytes, hbyte, ih htail]

theorem leNat_lt (bs : List UInt8) : leNat bs < 256 ^ bs.length := by
  induction bs with
  | nil => simp [leNat]
  | cons b bs ih =>
    have hb := b.toNat_lt
    simp only [leNat, List.length_cons, pow_succ]
    omega

/-- The bytes of the number that bytes stand for are these bytes. -/
theorem leBytes_leNat (bs : List UInt8) : leBytes bs.length (leNat bs) = bs := by
  induction bs with
  | nil => rfl
  | cons b bs ih =>
    have hb := b.toNat_lt
    have hdiv : (b.toNat + 256 * leNat bs) / 256 = leNat bs := by omega
    simp only [List.length_cons, leNat, leBytes, hdiv, ih, List.cons.injEq, and_true]
    apply UInt8.toNat_inj.mp
    simp

/-! ## Zero-padded slots -/

/-- `memset` of `n` bytes to zero and `memcpy` of at most `n` bytes of `bs`. -/
def slot (n : ℕ) (bs : List UInt8) : List UInt8 :=
  bs.take n ++ List.replicate (n - bs.length) 0

@[simp]
theorem length_slot (n : ℕ) (bs : List UInt8) : (slot n bs).length = n := by
  simp [slot]
  omega

theorem slot_getD {n i : ℕ} (hi : i < n) (bs : List UInt8) : (slot n bs).getD i 0 = bs.getD i 0 := by
  unfold slot
  by_cases h : i < bs.length
  · simp [List.getD_eq_getElem?_getD, List.getElem?_append, h, hi]
  · have hlen : ¬ i < min n bs.length := by omega
    simp [List.getD_eq_getElem?_getD, List.getElem?_append, List.getElem?_replicate, hlen,
      List.getElem?_eq_none (by omega : bs.length ≤ i)]
    split <;> rfl

/-- Two slots are equal exactly when the bytes that fit agree, missing bytes counting as zeros. -/
theorem slot_eq_iff {n : ℕ} {s t : List UInt8} :
    slot n s = slot n t ↔ ∀ i < n, s.getD i 0 = t.getD i 0 := by
  constructor
  · intro h i hi
    rw [← slot_getD hi s, h, slot_getD hi t]
  · intro h
    apply List.ext_getElem (by simp)
    intro i hs ht
    have hi : i < n := by simpa using hs
    have := h i hi
    rw [← slot_getD hi s, ← slot_getD hi t] at this
    simpa [List.getD_eq_getElem?_getD, List.getElem?_eq_getElem hs,
      List.getElem?_eq_getElem ht] using this

/-! ## Slots of one width -/

/-- The half-open ranges of the slots of width `w` from `b` on are disjoint. -/
theorem slots_disjoint {α : Type*} [Semiring α] [PartialOrder α] [IsOrderedRing α] (b : α) {w : α}
    (hw : 0 ≤ w) {i j : ℕ} (hne : i ≠ j) :
    Disjoint (Set.Ico (b + i * w) (b + i * w + w)) (Set.Ico (b + j * w) (b + j * w + w)) := by
  have hmono : Monotone fun n : ℕ => b + n * w := by
    intro m n hmn
    show b + m * w ≤ b + n * w
    gcongr
  have hsucc (n : ℕ) : b + (Order.succ n : ℕ) * w = b + n * w + w := by
    rw [Nat.succ_eq_succ, Nat.cast_succ, add_mul, one_mul, add_assoc]
  have hdisj := hmono.pairwise_disjoint_on_Ico_succ hne
  simpa only [Function.onFun, hsucc] using hdisj

end BTreesMods

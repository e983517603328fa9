import Mathlib.Data.Nat.Digits.Defs
import Mathlib.Data.List.Count

/-!
# Literals in a text

The tokens that an SQL text writes its constants as, over bytes: tokens in quotes, in which a doubled
quote stands for a quote, hexadecimal ones and decimal numbers. A token is longer than what it denotes
(`quotedToken_length`, `hexToken_length`); decimal integers are read back (`readDigits_decimalNat`).
-/

namespace BTreesMods

/-! ## Tokens in quotes -/

/-- The content of a token in the quotes `q` and what follows it, after its first quote. The token ends
at the first quote that is not doubled. -/
def quotedToken (q : UInt8) : List UInt8 → Option (List UInt8 × List UInt8)
  | [] => none
  | [c] => if c = q then some ([], []) else none
  | c :: d :: rest =>
    if c = q then
      if d = q then (quotedToken q rest).map fun r => (q :: r.1, r.2) else some ([], d :: rest)
    else (quotedToken q (d :: rest)).map fun r => (c :: r.1, r.2)

/-- The content of a token in the quotes `q` that ends with the text. -/
def wholeToken (q : UInt8) (text : List UInt8) : Option (List UInt8) :=
  match quotedToken q text with
  | some (content, []) => some content
  | _ => none

/-- The value of a hexadecimal digit. -/
def hexDigit (b : UInt8) : Option ℕ :=
  if 0x30 ≤ b ∧ b ≤ 0x39 then some (b.toNat - 0x30)
  else if 0x41 ≤ b ∧ b ≤ 0x46 then some (b.toNat - 0x37)
  else if 0x61 ≤ b ∧ b ≤ 0x66 then some (b.toNat - 0x57)
  else none

/-- The bytes of a text of pairs of hexadecimal digits that ends with a single quote. -/
def hexToken : List UInt8 → Option (List UInt8)
  | [] => none
  | [c] => if c = 0x27 then some [] else none
  | c :: d :: rest =>
    match hexDigit c, hexDigit d with
    | some a, some b => (hexToken rest).map fun bytes => UInt8.ofNat (16 * a + b) :: bytes
    | _, _ => none

section

variable {q : UInt8} {text content rest bytes : List UInt8}

theorem quotedToken_length (h : quotedToken q text = some (content, rest)) :
    text.length = content.length + content.count q + 1 + rest.length := by
  induction text using quotedToken.induct q generalizing content with
  | case1 => cases h
  | case2 =>
    rw [quotedToken, if_pos rfl] at h
    cases h
    rfl
  | case3 c hc =>
    rw [quotedToken, if_neg hc] at h
    cases h
  | case4 text ih =>
    rw [quotedToken, if_pos rfl, if_pos rfl, Option.map_eq_some_iff] at h
    obtain ⟨⟨content', rest'⟩, h', heq⟩ := h
    obtain ⟨rfl, rfl⟩ := Prod.mk.inj heq
    have hlen := ih h'
    dsimp only at hlen ⊢
    rw [List.length_cons, List.length_cons, List.length_cons, List.count_cons_self]
    omega
  | case5 d text hd =>
    rw [quotedToken, if_pos rfl, if_neg hd] at h
    cases h
    simp only [List.length_cons, List.length_nil, List.count_nil]
    omega
  | case6 c d text hc ih =>
    rw [quotedToken, if_neg hc, Option.map_eq_some_iff] at h
    obtain ⟨⟨content', rest'⟩, h', heq⟩ := h
    obtain ⟨rfl, rfl⟩ := Prod.mk.inj heq
    have hlen := ih h'
    simp only [List.length_cons] at hlen ⊢
    rw [List.count_cons_of_ne hc]
    omega

theorem wholeToken_length (h : wholeToken q text = some content) :
    text.length = content.length + content.count q + 1 := by
  unfold wholeToken at h
  split at h
  case h_1 content' heq =>
    cases h
    exact quotedToken_length heq
  case h_2 => cases h

/-- A token without quotes inside denotes the bytes between its quotes. -/
theorem wholeToken_of_not_mem (h : q ∉ content) : wholeToken q (content ++ [q]) = some content := by
  have hq : quotedToken q (content ++ [q]) = some (content, []) := by
    induction content with
    | nil => simp [quotedToken]
    | cons c content ih =>
      obtain ⟨hc, hcontent⟩ := not_or.mp (mt List.mem_cons.mpr h)
      have hread := ih hcontent
      obtain ⟨d, rest, hd⟩ := List.exists_cons_of_ne_nil (l := content ++ [q]) (by simp)
      rw [List.cons_append, hd, quotedToken, if_neg (Ne.symm hc), ← hd, hread]
      rfl
  rw [wholeToken, hq]

theorem hexToken_length (h : hexToken text = some bytes) : text.length = 2 * bytes.length + 1 := by
  induction text using hexToken.induct generalizing bytes with
  | case1 => cases h
  | case2 =>
    rw [hexToken, if_pos rfl] at h
    cases h
    rfl
  | case3 c hc =>
    rw [hexToken, if_neg hc] at h
    cases h
  | case4 c d text a b ha hb ih =>
    rw [hexToken, ha, hb] at h
    obtain ⟨bytes', h', rfl⟩ := Option.map_eq_some_iff.mp h
    have := ih h'
    simp only [List.length_cons]
    omega
  | case5 c d text hnone =>
    rw [hexToken] at h
    split at h
    case h_1 a b ha hb => exact absurd hb (hnone a b ha)
    case h_2 => cases h

end

/-! ## Decimal numbers -/

/-- The decimal digits of a number. -/
def decimalNat (n : ℕ) : List UInt8 :=
  if n = 0 then [0x30] else (Nat.digits 10 n).reverse.map fun d => UInt8.ofNat (0x30 + d)

/-- A number in decimal. -/
def decimal (i : ℤ) : List UInt8 := if i < 0 then 0x2D :: decimalNat i.natAbs else decimalNat i.natAbs

/-- The value of a decimal digit. -/
def decimalDigit (b : UInt8) : Option ℕ := if 0x30 ≤ b ∧ b ≤ 0x39 then some (b.toNat - 0x30) else none

/-- The number that is written with decimal digits. -/
def readDigits (text : List UInt8) : Option ℕ :=
  if text = [] then none else (text.mapM decimalDigit).map fun digits => Nat.ofDigits 10 digits.reverse

/-- Digits, at least one. -/
def isDigits (text : List UInt8) : Bool := text ≠ [] && text.all fun b => (decimalDigit b).isSome

/-- A text without a sign at its start. -/
def dropSign : List UInt8 → List UInt8
  | [] => []
  | c :: rest => if c = 0x2B ∨ c = 0x2D then rest else c :: rest

/-- The exponent of a number, or nothing. -/
def isExponent : List UInt8 → Bool
  | [] => true
  | c :: rest => (c = 0x45 || c = 0x65) && isDigits (dropSign rest)

/-- What follows the first digits of a number: a fraction and an exponent, or one of them, or nothing. -/
def isFraction : List UInt8 → Bool
  | [] => true
  | c :: rest =>
    if c = 0x2E then isExponent (rest.dropWhile fun b => (decimalDigit b).isSome) else isExponent (c :: rest)

/-- A decimal number without a sign. -/
def isUnsigned (text : List UInt8) : Bool :=
  text.head?.any (fun b => (decimalDigit b).isSome) &&
    isFraction (text.dropWhile fun b => (decimalDigit b).isSome)

/-- A decimal number. -/
def isNumber : List UInt8 → Bool
  | [] => false
  | c :: rest => if c = 0x2D then isUnsigned rest else isUnsigned (c :: rest)

section

variable {n d : ℕ} {i : ℤ}

theorem toNat_digit (hd : d < 10) : (UInt8.ofNat (0x30 + d)).toNat = 0x30 + d := by
  rw [UInt8.toNat_ofNat_of_lt']
  change 0x30 + d < 256
  omega

theorem decimalDigit_digit (hd : d < 10) : decimalDigit (UInt8.ofNat (0x30 + d)) = some d := by
  have htoNat := toNat_digit hd
  have hrange : 0x30 ≤ UInt8.ofNat (0x30 + d) ∧ UInt8.ofNat (0x30 + d) ≤ 0x39 := by
    constructor
    · rw [UInt8.le_iff_toNat_le, htoNat]
      exact Nat.le_add_right _ _
    · rw [UInt8.le_iff_toNat_le, htoNat]
      change 0x30 + d ≤ 57
      omega
  rw [decimalDigit, if_pos hrange, htoNat, Nat.add_sub_cancel_left]

theorem mapM_digits {digits : List ℕ} (hd : ∀ d ∈ digits, d < 10) :
    (digits.map fun d => UInt8.ofNat (0x30 + d)).mapM decimalDigit = some digits := by
  induction digits with
  | nil => rfl
  | cons d digits ih =>
    obtain ⟨hd, hdigits⟩ := List.forall_mem_cons.mp hd
    rw [List.map_cons, List.mapM_cons, decimalDigit_digit hd, ih hdigits]
    rfl

theorem readDigits_decimalNat (n : ℕ) : readDigits (decimalNat n) = some n := by
  by_cases hn : n = 0
  · subst hn
    rfl
  · have hdigits : ∀ d ∈ (Nat.digits 10 n).reverse, d < 10 := fun d hd =>
      Nat.digits_lt_base (by decide) (List.mem_reverse.mp hd)
    have hne : decimalNat n ≠ [] := by
      rw [decimalNat, if_neg hn]
      simp [Nat.digits_ne_nil_iff_ne_zero.mpr hn]
    rw [readDigits, if_neg hne, decimalNat, if_neg hn, mapM_digits hdigits, Option.map_some,
      List.reverse_reverse, Nat.ofDigits_digits]

/-- The digits of a number are not those that begin other tokens. -/
theorem decimalNat_digit (n : ℕ) : ∀ b ∈ decimalNat n, 0x30 ≤ b ∧ b ≤ 0x39 := by
  intro b hb
  have hdigit : (decimalDigit b).isSome := by
    by_cases hn : n = 0
    · subst hn
      obtain rfl : b = 0x30 := List.mem_singleton.mp hb
      rfl
    · rw [decimalNat, if_neg hn] at hb
      obtain ⟨d, hd, rfl⟩ := List.mem_map.mp hb
      rw [decimalDigit_digit (Nat.digits_lt_base (by decide) (List.mem_reverse.mp hd))]
      rfl
  unfold decimalDigit at hdigit
  split at hdigit
  · assumption
  · cases hdigit

end

end BTreesMods

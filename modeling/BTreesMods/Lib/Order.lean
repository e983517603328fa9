import Mathlib.Data.List.Basic

/-!
# Strict weak orders given by a Boolean comparison

`StrictWeak lt` for a comparison `lt : α → α → Bool`; `a` is at most `b` when `lt b a = false`.
-/

namespace BTreesMods

variable {α : Type} {lt : α → α → Bool} {a b c : α}

/-- `lt` is irreflexive and transitive, and so is "not greater". -/
structure StrictWeak (lt : α → α → Bool) : Prop where
  irrefl : ∀ a, lt a a = false
  trans : ∀ a b c, lt a b = true → lt b c = true → lt a c = true
  cotrans : ∀ a b c, lt b a = false → lt c b = false → lt c a = false

namespace StrictWeak

variable (h : StrictWeak lt)

include h

theorem asymm (hab : lt a b = true) : lt b a = false := by
  by_contra hba
  have := h.trans a b a hab (by simpa using hba)
  rw [h.irrefl] at this
  exact Bool.false_ne_true this

theorem le_trans (hab : lt b a = false) (hbc : lt c b = false) : lt c a = false :=
  h.cotrans a b c hab hbc

theorem lt_of_lt_of_le (hab : lt a b = true) (hbc : lt c b = false) : lt a c = true := by
  by_contra hac
  have := h.le_trans hbc (by simpa using hac)
  rw [hab] at this
  exact Bool.false_ne_true this.symm

theorem lt_of_le_of_lt (hab : lt b a = false) (hbc : lt b c = true) : lt a c = true := by
  by_contra hac
  have := h.le_trans (by simpa using hac) hab
  rw [hbc] at this
  exact Bool.false_ne_true this.symm

end StrictWeak

end BTreesMods

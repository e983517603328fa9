import BTreesMods.Pages.Access

/-!
# Scans over the keys of a page

Where the scans of `insertNonFull` and of `search` and `remove` stop. Both cut the keys of a page in
two runs; what a cut says about all the keys of a run follows once the keys are sorted.
-/

namespace BTreesMods

variable {κ : Type} {slots : ℕ}

/-- The keys `A ++ B` are cut where `insertNonFull` stops: it goes over `B` from its end. -/
structure UpperCut (compare : κ → κ → Bool) (k : κ) (A B : List κ) : Prop where
  lt_right : ∀ x ∈ B, compare k x = true
  not_lt_last : ∀ x ∈ A.getLast?, compare k x = false

/-- The keys `A ++ B` are cut where `search` and `remove` stop: they go over `A` from its front. -/
structure LowerCut (compare : κ → κ → Bool) (k : κ) (A B : List κ) : Prop where
  lt_left : ∀ x ∈ A, compare x k = true
  not_lt_head : ∀ x ∈ B.head?, compare x k = false

namespace Page

variable {pg : Page κ} {leaf : Bool} {cs : List ℕ} {compare : κ → κ → Bool} {k : κ}

theorem upperBound_spec {A : List κ} {n : ℕ} (h : slice pg.key 0 n = A) (hn : n ≤ pg.keysNum)
    (hs : pg.keysNum ≤ slots) :
    ∃ A' B, A = A' ++ B ∧ UpperCut compare k A' B ∧
      pg.upperBound slots compare k n = .ok A'.length := by
  induction n generalizing A with
  | zero => exact ⟨[], [], by simpa using h.symm, ⟨by simp, by simp⟩, rfl⟩
  | succ n ih =>
    obtain ⟨A', B, hA, hcut, hrun⟩ := ih rfl (by omega)
    have hkey : slice pg.key 0 (n + 1) = slice pg.key 0 n ++ [pg.key n] := by
      rw [slice_add, slice_one, Nat.zero_add]
    rw [upperBound, getKey_ok (by omega) hs, ok_bind]
    by_cases hlt : compare k (pg.key n)
    · rw [if_pos hlt]
      refine ⟨A', B ++ [pg.key n], ?_, ⟨?_, hcut.not_lt_last⟩, hrun⟩
      · rw [← h, hkey, hA, List.append_assoc]
      · intro x hx
        rcases List.mem_append.mp hx with hx | hx
        · exact hcut.lt_right x hx
        · rwa [List.mem_singleton.mp hx]
    · rw [if_neg hlt]
      refine ⟨A, [], by simp, ⟨by simp, ?_⟩, by rw [← h, length_slice]⟩
      rw [← h, hkey]
      simpa using hlt

/-- `upperBound` on a page, from its last key on. -/
theorem Holds.upperBound {ks : List κ} (compare : κ → κ → Bool) (k : κ)
    (h : pg.Holds leaf ks cs) (hs : pg.keysNum ≤ slots) :
    ∃ A B, ks = A ++ B ∧ UpperCut compare k A B ∧
      pg.upperBound slots compare k pg.keysNum = .ok A.length :=
  upperBound_spec h.keys (Nat.le_refl _) hs

theorem lowerBound_spec (A : List κ) {B : List κ} (hlt : ∀ x ∈ A, compare x k = true)
    (hB : slice pg.key A.length B.length = B) (hn : A.length + B.length = pg.keysNum)
    (hs : pg.keysNum ≤ slots) :
    ∃ A' B', A ++ B = A' ++ B' ∧ LowerCut compare k A' B' ∧
      pg.lowerBound slots compare k B.length A.length = .ok A'.length := by
  induction B generalizing A with
  | nil => exact ⟨A, [], rfl, ⟨hlt, by simp⟩, rfl⟩
  | cons b B ih =>
    obtain ⟨hb, htail⟩ := slice_eq_cons hB
    rw [List.length_cons] at hn
    rw [List.length_cons, lowerBound, getKey_ok (by omega) hs, ok_bind, hb]
    by_cases hk : compare b k
    · obtain ⟨A', B', hAB, hcut, hrun⟩ := ih (A ++ [b])
        (by
          intro x hx
          rcases List.mem_append.mp hx with hx | hx
          · exact hlt x hx
          · rwa [List.mem_singleton.mp hx])
        (by rwa [List.length_append, List.length_singleton])
        (by rw [List.length_append, List.length_singleton]; omega)
      rw [if_pos hk]
      rw [List.length_append, List.length_singleton] at hrun
      exact ⟨A', B', by rw [← hAB, List.append_assoc]; rfl, hcut, hrun⟩
    · rw [if_neg hk]
      exact ⟨A, b :: B, rfl, ⟨hlt, by simpa using hk⟩, rfl⟩

/-- `lowerBound` on a page, from its first key on. -/
theorem Holds.lowerBound {ks : List κ} (compare : κ → κ → Bool) (k : κ)
    (h : pg.Holds leaf ks cs) (hs : pg.keysNum ≤ slots) :
    ∃ A B, ks = A ++ B ∧ LowerCut compare k A B ∧
      pg.lowerBound slots compare k pg.keysNum 0 = .ok A.length := by
  have hn := h.keysNum_eq
  have hnil : ∀ x ∈ ([] : List κ), compare x k = true := by simp
  obtain ⟨A, B, hAB, hcut, hrun⟩ := lowerBound_spec [] hnil h.slice_key (by simp [hn]) hs
  exact ⟨A, B, hAB, hcut, by rw [hn]; exact hrun⟩

/-- `isKeyAt` behind `A` looks at the first key of `B`. -/
theorem Holds.isKeyAt {isEqual : κ → κ → Bool} {A B : List κ} (h : pg.Holds leaf (A ++ B) cs)
    (hs : pg.keysNum ≤ slots) :
    pg.isKeyAt slots isEqual k A.length = .ok (B.head?.any (isEqual k)) := by
  have hn := h.keysNum_eq
  unfold Page.isKeyAt
  cases B with
  | nil =>
    rw [if_neg (by rw [hn]; simp)]
    rfl
  | cons b B =>
    rw [if_pos (by rw [hn]; simp), h.getKey hs]
    rfl

end Page

end BTreesMods

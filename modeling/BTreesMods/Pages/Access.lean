import BTreesMods.Model.Remove

/-!
# Accessing the slots of a page

Every accessor of `Page` succeeds on slots below the number of keys, as long as the page has no more
keys than slots; the copy loops of the code are block copies there.
-/

namespace BTreesMods

namespace Page

variable {κ : Type} {slots : ℕ} {pg : Page κ}

/-! ## Pointers -/

theorem keyPtr_ok {num n : ℕ} (h : num + n ≤ pg.keysNum) (hn : 1 ≤ n) (hs : pg.keysNum ≤ slots) :
    pg.keyPtr slots num n = .ok () := by
  rw [keyPtr, if_pos (by omega), if_pos (by omega)]

theorem getKey_ok {num : ℕ} (h : num < pg.keysNum) (hs : pg.keysNum ≤ slots) :
    pg.getKey slots num = .ok (pg.key num) := by
  rw [getKey, keyPtr_ok h (Nat.le_refl 1) hs]
  rfl

theorem copyKey_ok {num : ℕ} {k : κ} (h : num < pg.keysNum) (hs : pg.keysNum ≤ slots) :
    pg.copyKey slots num k = .ok { pg with key := Function.update pg.key num k } := by
  rw [copyKey, keyPtr_ok h (Nat.le_refl 1) hs]
  rfl

theorem readKeys_ok {num n : ℕ} (h : num + n ≤ pg.keysNum) (hs : pg.keysNum ≤ slots) :
    pg.readKeys slots num n = .ok fun j => pg.key (num + j) := by
  unfold readKeys
  split_ifs with h0
  · rw [keyPtr_ok h (by omega) hs]
    rfl
  · rfl

theorem copyKeys_ok {num n : ℕ} {src : ℕ → κ} (h : num + n ≤ pg.keysNum) (hs : pg.keysNum ≤ slots) :
    pg.copyKeys slots num src n = .ok { pg with key := blit pg.key num src 0 n } := by
  unfold copyKeys
  split_ifs with h0
  · rw [keyPtr_ok h (by omega) hs]
    rfl
  · rfl

theorem cursorPtr_ok {cnum n : ℕ} (h : cnum + n ≤ pg.keysNum + 1) (hn : 1 ≤ n)
    (hs : pg.keysNum ≤ slots) : pg.cursorPtr slots cnum n = .ok () := by
  rw [cursorPtr, if_neg (by omega), if_pos (by omega)]

theorem getCursor_ok {cnum : ℕ} (h : cnum ≤ pg.keysNum) (hs : pg.keysNum ≤ slots) :
    pg.getCursor slots cnum = .ok (pg.cursor cnum) := by
  rw [getCursor, cursorPtr_ok (by omega) (Nat.le_refl 1) hs]
  rfl

theorem setCursor_ok {cnum cval : ℕ} (h : cnum ≤ pg.keysNum) (hs : pg.keysNum ≤ slots) :
    pg.setCursor slots cnum cval =
      .ok { pg with cursor := Function.update pg.cursor cnum cval } := by
  rw [setCursor, cursorPtr_ok (by omega) (Nat.le_refl 1) hs]
  rfl

theorem readCursors_ok {cnum n : ℕ} (h : cnum + n ≤ pg.keysNum + 1) (hn : 1 ≤ n)
    (hs : pg.keysNum ≤ slots) :
    pg.readCursors slots cnum n = .ok fun j => pg.cursor (cnum + j) := by
  rw [readCursors, cursorPtr_ok h hn hs]
  rfl

theorem copyCursors_ok {cnum n : ℕ} {src : ℕ → ℕ} (h : cnum + n ≤ pg.keysNum + 1) (hn : 1 ≤ n)
    (hs : pg.keysNum ≤ slots) :
    pg.copyCursors slots cnum src n = .ok { pg with cursor := blit pg.cursor cnum src 0 n } := by
  rw [copyCursors, cursorPtr_ok h hn hs]
  rfl

theorem moveKey_ok {dst src : ℕ} (hd : dst < pg.keysNum) (h : src < pg.keysNum)
    (hs : pg.keysNum ≤ slots) :
    pg.moveKey slots dst src =
      .ok { pg with key := Function.update pg.key dst (pg.key src) } := by
  rw [moveKey, getKey_ok h hs, ok_bind, copyKey_ok hd hs]

theorem moveCursor_ok {dst src : ℕ} (hd : dst ≤ pg.keysNum) (h : src ≤ pg.keysNum)
    (hs : pg.keysNum ≤ slots) :
    pg.moveCursor slots dst src =
      .ok { pg with cursor := Function.update pg.cursor dst (pg.cursor src) } := by
  rw [moveCursor, readCursors_ok (by omega) (Nat.le_refl 1) hs, ok_bind,
    copyCursors_ok (by omega) (Nat.le_refl 1) hs, blit_one, Nat.add_zero]

/-! ## Copy loops -/

theorem moveKeys_up {d lo count : ℕ} (h : lo + count + d ≤ pg.keysNum) (hs : pg.keysNum ≤ slots) :
    forDown (fun j pg => pg.moveKey slots (j + d) j) lo count pg =
      .ok { pg with key := blit pg.key (lo + d) pg.key lo count } := by
  refine forDown_copy (fun key => { pg with key := key }) _ d lo count pg.key fun j t h1 h2 => ?_
  refine moveKey_ok ?_ ?_ hs
  all_goals dsimp only; omega

theorem moveKeys_down {d lo count : ℕ} (h : lo + count + d ≤ pg.keysNum)
    (hs : pg.keysNum ≤ slots) :
    forUp (fun j pg => pg.moveKey slots j (j + d)) lo count pg =
      .ok { pg with key := blit pg.key lo pg.key (lo + d) count } := by
  refine forUp_copy (fun key => { pg with key := key }) _ d lo count pg.key fun j t h1 h2 => ?_
  refine moveKey_ok ?_ ?_ hs
  all_goals dsimp only; omega

theorem moveCursors_up {d lo count : ℕ} (h : lo + count + d ≤ pg.keysNum + 1)
    (hs : pg.keysNum ≤ slots) :
    forDown (fun j pg => pg.moveCursor slots (j + d) j) lo count pg =
      .ok { pg with cursor := blit pg.cursor (lo + d) pg.cursor lo count } := by
  refine forDown_copy (fun cursor => { pg with cursor := cursor }) _ d lo count pg.cursor
    fun j t h1 h2 => ?_
  refine moveCursor_ok ?_ ?_ hs
  all_goals dsimp only; omega

theorem moveCursors_down {d lo count : ℕ} (h : lo + count + d ≤ pg.keysNum + 1)
    (hs : pg.keysNum ≤ slots) :
    forUp (fun j pg => pg.moveCursor slots j (j + d)) lo count pg =
      .ok { pg with cursor := blit pg.cursor lo pg.cursor (lo + d) count } := by
  refine forUp_copy (fun cursor => { pg with cursor := cursor }) _ d lo count pg.cursor
    fun j t h1 h2 => ?_
  refine moveCursor_ok ?_ ?_ hs
  all_goals dsimp only; omega

/-- The loop of `moveOneKeyFromLeft`. -/
theorem moveBoth_up {lo count : ℕ} (h : lo + count + 1 ≤ pg.keysNum) (hs : pg.keysNum ≤ slots) :
    forDown (fun j pg => do (← pg.moveKey slots (j + 1) j).moveCursor slots (j + 1) j) lo count pg =
      .ok { pg with
        key := blit pg.key (lo + 1) pg.key lo count
        cursor := blit pg.cursor (lo + 1) pg.cursor lo count } := by
  refine forDown_copy₂ (fun key cursor => { pg with key := key, cursor := cursor }) _ 1 lo count
    pg.key pg.cursor fun j t u h1 h2 => ?_
  rw [moveKey_ok (by dsimp only; omega) (by dsimp only; omega) (by exact hs), ok_bind,
    moveCursor_ok (by dsimp only; omega) (by dsimp only; omega) (by exact hs)]

/-- The loops of `moveOneKeyFromRight` (`e = 0`) and `mergeChildren` (`e = 1`). -/
theorem moveBoth_down (pg : Page κ) (e lo count : ℕ) (h : lo + count + 1 ≤ pg.keysNum) (he : e ≤ 1)
    (hs : pg.keysNum ≤ slots) :
    forUp (fun j pg => do
        (← pg.moveKey slots j (j + 1)).moveCursor slots (j + e) (j + e + 1)) lo count pg =
      .ok { pg with
        key := blit pg.key lo pg.key (lo + 1) count
        cursor := blit pg.cursor (lo + e) pg.cursor (lo + e + 1) count } := by
  refine forUp_copy₂ (fun key cursor => { pg with key := key, cursor := cursor }) _ 1 e lo count
    pg.key pg.cursor fun j t u h1 h2 => ?_
  rw [moveKey_ok (by dsimp only; omega) (by dsimp only; omega) (by exact hs), ok_bind,
    moveCursor_ok (by dsimp only; omega) (by dsimp only; omega) (by exact hs)]

/-! ## What a page holds -/

section Holds

variable {leaf : Bool} {ks : List κ} {cs : List ℕ}

theorem Holds.keysNum_eq (h : pg.Holds leaf ks cs) : pg.keysNum = ks.length := by
  rw [← h.keys_eq, keyList, length_slice]

theorem Holds.keysNum_le {n : ℕ} (h : pg.Holds leaf ks cs) (hks : ks.length ≤ n) : pg.keysNum ≤ n := by
  rw [h.keysNum_eq]
  exact hks

theorem Holds.keys (h : pg.Holds leaf ks cs) : slice pg.key 0 pg.keysNum = ks := h.keys_eq

theorem Holds.cursors (h : pg.Holds false ks cs) : slice pg.cursor 0 (pg.keysNum + 1) = cs :=
  h.cursors_eq

theorem Holds.slice_key (h : pg.Holds leaf ks cs) : slice pg.key 0 ks.length = ks := by
  rw [← h.keysNum_eq]
  exact h.keys_eq

theorem Holds.slice_cursor (h : pg.Holds false ks cs) : slice pg.cursor 0 (ks.length + 1) = cs := by
  rw [← h.keysNum_eq]
  exact h.cursors_eq

theorem Holds.length_cursors (h : pg.Holds false ks cs) : cs.length = ks.length + 1 := by
  rw [← h.slice_cursor, length_slice]

theorem Holds.cursors_nil (h : pg.Holds true ks cs) : cs = [] := h.cursors_eq

/-- A leaf holds its keys, whatever its cursor area is. -/
theorem holds_leaf (hl : pg.isLeaf = true) (hn : pg.keysNum = ks.length)
    (hk : slice pg.key 0 ks.length = ks) : pg.Holds true ks [] :=
  ⟨hl, by rw [keyList, hn, hk], rfl⟩

theorem holds_inner (hl : pg.isLeaf = false) (hn : pg.keysNum = ks.length)
    (hk : slice pg.key 0 ks.length = ks) (hc : slice pg.cursor 0 (ks.length + 1) = cs) :
    pg.Holds false ks cs :=
  ⟨hl, by rw [keyList, hn, hk], by rw [if_neg (by simp), cursorList, hn, hc]⟩

theorem holds_leaf_of (hl : pg.isLeaf = true) (hk : slice pg.key 0 pg.keysNum = ks) :
    pg.Holds true ks [] :=
  ⟨hl, hk, rfl⟩

theorem holds_inner_of (hl : pg.isLeaf = false) (hk : slice pg.key 0 pg.keysNum = ks)
    (hc : slice pg.cursor 0 (pg.keysNum + 1) = cs) : pg.Holds false ks cs :=
  ⟨hl, hk, by rw [if_neg (by simp)]; exact hc⟩

theorem Holds.key_at {xs ys : List κ} {x : κ} (h : pg.Holds leaf (xs ++ x :: ys) cs) :
    pg.key xs.length = x :=
  slice_at h.slice_key

theorem Holds.cursor_at {xs ys : List ℕ} {x : ℕ} (h : pg.Holds false ks (xs ++ x :: ys)) :
    pg.cursor xs.length = x :=
  slice_at h.slice_cursor

theorem Holds.getKey {xs ys : List κ} {x : κ} (h : pg.Holds leaf (xs ++ x :: ys) cs)
    (hs : pg.keysNum ≤ slots) : pg.getKey slots xs.length = .ok x := by
  rw [getKey_ok (by rw [h.keysNum_eq]; simp) hs, h.key_at]

theorem Holds.getCursor {xs ys : List ℕ} {x : ℕ} (h : pg.Holds false ks (xs ++ x :: ys))
    (hs : pg.keysNum ≤ slots) : pg.getCursor slots xs.length = .ok x := by
  have hl := h.length_cursors
  rw [List.length_append, List.length_cons] at hl
  rw [getCursor_ok (by rw [h.keysNum_eq]; omega) hs, h.cursor_at]

end Holds

end Page

end BTreesMods

import BTreesMods.Pages.Bounds
import BTreesMods.Pages.Split

/-!
# The pages of an insertion

What `insertKey` and the functions that share keys with a sibling compute, as
operations on the lists of keys and cursors.
-/

namespace BTreesMods

variable {κ : Type} {slots : ℕ}

theorem subUShort_eq {a b : ℕ} (h : b ≤ a) (ha : a < 2 ^ 16) : subUShort a b = a - b := by
  unfold subUShort
  omega

namespace Page

variable {pg : Page κ} {leaf : Bool} {cs : List ℕ} {compare : κ → κ → Bool} {k : κ}

/-- The loop of `insertKey` with the keys `A` before slot `m` and `B` after it. -/
theorem makeRoom_spec (pg : Page κ) {m : ℕ} (A B : List κ) (t : ℕ → κ) (hA : slice t 0 m = A)
    (hB : slice t (m + 1) B.length = B) (hlt : ∀ x ∈ B, compare k x = true)
    (hn : m + 1 + B.length ≤ pg.keysNum) (hs : pg.keysNum ≤ slots) :
    ∃ A' B' key, A ++ B = A' ++ B' ∧ UpperCut compare k A' B' ∧
      makeRoom slots compare k m { pg with key := t } = .ok (A'.length, { pg with key := key }) ∧
      slice key 0 A'.length = A' ∧ slice key (A'.length + 1) B'.length = B' := by
  induction m generalizing A B t with
  | zero => exact ⟨[], B, t, by rw [← hA]; rfl, ⟨hlt, by simp⟩, rfl, rfl, hB⟩
  | succ m ih =>
    have hsplit : A = slice t 0 m ++ [t m] := by
      rw [← hA, slice_add, slice_one, Nat.zero_add]
    rw [makeRoom, getKey_ok (by dsimp only; omega) (by exact hs), ok_bind]
    by_cases hk : compare k (t m)
    · rw [if_pos hk, moveKey_ok (by dsimp only; omega) (by dsimp only; omega) (by exact hs), ok_bind]
      obtain ⟨A', B', key, hAB, hcut, hrun, hA', hB'⟩ := ih (slice t 0 m) (t m :: B)
        (Function.update t (m + 1) (t m)) (slice_update_of_lt _ _ _ _ _ (by omega))
        (by
          rw [List.length_cons, slice_succ, Function.update_self,
            slice_update_of_gt _ _ _ _ _ (by omega), hB])
        (by
          intro x hx
          rcases List.mem_cons.mp hx with rfl | hx
          · exact hk
          · exact hlt x hx)
        (by rw [List.length_cons]; omega)
      exact ⟨A', B', key, by rw [← hAB, hsplit, List.append_assoc]; rfl, hcut, hrun, hA', hB'⟩
    · rw [if_neg hk]
      have hlen : A.length = m + 1 := by rw [← hA, length_slice]
      refine ⟨A, B, t, rfl, ⟨hlt, ?_⟩, by rw [hlen], by rw [hlen, hA], by rw [hlen, hB]⟩
      rw [hsplit]
      simpa using hk

/-- The leaf branch of `insertNonFull` puts `k` where the loop stops. -/
theorem Holds.insertKey {ks : List κ} (compare : κ → κ → Bool) (k : κ)
    (h : pg.Holds true ks cs) (hs : pg.keysNum + 1 ≤ slots) :
    ∃ A B pg', ks = A ++ B ∧ UpperCut compare k A B ∧ pg.insertKey slots compare k = .ok pg' ∧
      pg'.Holds true (A ++ k :: B) [] := by
  have hn := h.keysNum_eq
  have hnil : ∀ x ∈ ([] : List κ), compare k x = true := by simp
  have hle : pg.keysNum + 1 + ([] : List κ).length ≤ (pg.setKeyNum (pg.keysNum + 1)).keysNum :=
    Nat.le_refl _
  obtain ⟨A, B, key, hAB, hcut, hrun, hA, hB⟩ := makeRoom_spec (pg.setKeyNum (pg.keysNum + 1)) ks []
    pg.key h.keys rfl hnil hle hs
  rw [List.append_nil] at hAB
  have hlen : pg.keysNum = A.length + B.length := by rw [hn, hAB, List.length_append]
  have hins : pg.insertKey slots compare k =
      .ok { pg.setKeyNum (pg.keysNum + 1) with key := Function.update key A.length k } := by
    unfold Page.insertKey
    dsimp only
    rw [show pg.setKeyNum (pg.keysNum + 1) = { pg.setKeyNum (pg.keysNum + 1) with key := pg.key } from
      rfl, hrun, ok_bind]
    exact copyKey_ok (by simp only [Page.setKeyNum]; omega) (by exact hs)
  refine ⟨A, B, _, hAB, hcut, hins, holds_leaf h.leaf_eq ?_ ?_⟩
  · simp only [Page.setKeyNum, List.length_append, List.length_cons]
    omega
  · dsimp only
    rw [List.length_append, List.length_cons, slice_add, slice_update_of_lt _ _ _ _ _ (by omega), hA,
      slice_succ, Nat.zero_add, Function.update_self, slice_update_of_gt _ _ _ _ _ (by omega), hB]

end Page

/-! ## Sharing keys with a sibling -/

section Share

variable {node child left right : Page κ} {leaf : Bool} {K1 K2 LK RK X Y : List κ}
  {C LC RC CX CY : List ℕ} {s y : κ} {n moved rest : ℕ}

/-- The child gives its keys `X` to its left sibling, and the key `y` behind them to the parent. -/
theorem shareLeftPages_spec
    (hnode : node.Holds false (K1 ++ s :: K2) C) (hns : node.keysNum ≤ slots)
    (hleft : left.Holds leaf LK LC) (hchild : child.Holds leaf (X ++ y :: Y) (CX ++ CY))
    (hcs : child.keysNum ≤ slots) (hCX : leaf = false → CX.length = X.length + 1)
    (hn : n = LK.length + 1 + X.length) (hnslots : n ≤ slots) (hmoved : moved = X.length + 1)
    (hrest : rest = Y.length) (hsmall : moved < 2 ^ 16) :
    ∃ node' child' left', shareLeftPages slots node child left (K1.length + 1) n moved rest =
        .ok (node', child', left') ∧
      node'.Holds false (K1 ++ y :: K2) C ∧ child'.Holds leaf Y CY ∧
      left'.Holds leaf (LK ++ s :: X) (LC ++ CX) := by
  subst hn hmoved hrest
  have hln := hleft.keysNum_eq
  have hcn := hchild.keysNum_eq
  rw [List.length_append, List.length_cons] at hcn
  obtain ⟨node', hnode', hnode''⟩ := hnode.copyKey hns y
  -- the keys of the left sibling and of the child
  have hlk : slice (blit (Function.update left.key LK.length s) (LK.length + 1)
      (fun j => child.key (0 + j)) 0 X.length) 0 (LK.length + 1 + X.length) = LK ++ s :: X := by
    have hX : slice (fun j => child.key (0 + j)) 0 X.length = X := by
      rw [slice_shift]
      exact slice_take hchild.keys
    rw [slice_append_blit (slice_append_one s hleft.slice_key) hX]
    simp
  have hck : slice (blit child.key 0 child.key (0 + (X.length + 1)) Y.length) 0 Y.length = Y := by
    refine slice_blit_front _ ?_
    have hk : slice child.key 0 child.keysNum = (X ++ [y]) ++ Y := by simp [hchild.keys]
    have := slice_drop hk
    rwa [List.length_append, List.length_singleton, ← Nat.zero_add (X.length + 1)] at this
  unfold shareLeftPages
  dsimp only
  rw [Nat.add_sub_cancel, hnode.getKey hns, ok_bind, hln,
    Page.copyKey_ok (by simp only [Page.setKeyNum]; omega) (by exact hnslots), ok_bind,
    subUShort_eq (by omega) hsmall, Nat.add_sub_cancel, Page.readKeys_ok (by omega) hcs, ok_bind,
    Page.copyKeys_ok (by simp only [Page.setKeyNum]; omega) (by exact hnslots), ok_bind,
    hchild.getKey hcs, ok_bind, hnode', ok_bind, Page.moveKeys_down (by omega) hcs]
  cases leaf with
  | true =>
    obtain ⟨rfl, rfl⟩ := List.append_eq_nil_iff.mp hchild.cursors_nil
    obtain rfl := hleft.cursors_nil
    rw [if_pos hchild.leaf_eq, pure_bind, ok_bind, if_pos hchild.leaf_eq, pure_bind]
    exact ⟨_, _, _, rfl, hnode'', Page.holds_leaf_of hchild.leaf_eq hck,
      Page.holds_leaf_of hleft.leaf_eq hlk⟩
  | false =>
    have hCX := hCX rfl
    have hcc := hchild.length_cursors
    have hlc := hleft.length_cursors
    simp only [List.length_append, List.length_cons] at hcc
    have hlcur : slice (blit left.cursor (LK.length + 1) (fun j => child.cursor (0 + j)) 0
        (X.length + 1)) 0 (LK.length + 1 + (X.length + 1)) = LC ++ CX :=
      slice_append_blit hleft.slice_cursor (by
        rw [slice_shift, ← hCX]
        exact slice_take hchild.cursors)
    have hccur : slice (blit child.cursor 0 child.cursor (0 + (X.length + 1)) (Y.length + 1)) 0
        (Y.length + 1) = CY := by
      refine slice_blit_front _ ?_
      rw [Nat.zero_add, ← hCX, show Y.length + 1 = CY.length by omega]
      exact slice_drop hchild.cursors
    rw [if_neg (by simp [hchild.leaf_eq]), Page.readCursors_ok (by omega) (by omega) hcs, ok_bind,
      Page.copyCursors_ok (by simp only [Page.setKeyNum]; omega) (by omega) (by exact hnslots),
      ok_bind, ok_bind, if_neg (by simp [hchild.leaf_eq]),
      Page.moveCursors_down (by dsimp only; omega) (by exact hcs), ok_bind]
    exact ⟨_, _, _, rfl, hnode'', Page.holds_inner_of hchild.leaf_eq hck hccur,
      Page.holds_inner_of hleft.leaf_eq hlk hlcur⟩

/-- The child gives its keys `X` to its right sibling, and the key `y` in front of them to the
parent. -/
theorem shareRightPages_spec
    (hnode : node.Holds false (K1 ++ s :: K2) C) (hns : node.keysNum ≤ slots)
    (hright : right.Holds leaf RK RC) (hchild : child.Holds leaf (Y ++ y :: X) (CY ++ CX))
    (hcs : child.keysNum ≤ slots) (hCY : leaf = false → CY.length = Y.length + 1)
    (hn : n = X.length + 1 + RK.length) (hnslots : n ≤ slots) (hmoved : moved = X.length + 1)
    (hrest : rest = Y.length) (hsmall : moved < 2 ^ 16) :
    ∃ node' child' right', shareRightPages slots node child right K1.length n moved rest =
        .ok (node', child', right') ∧
      node'.Holds false (K1 ++ y :: K2) C ∧ child'.Holds leaf Y CY ∧
      right'.Holds leaf (X ++ s :: RK) (CX ++ RC) := by
  subst hn hmoved hrest
  have hcn := hchild.keysNum_eq
  rw [List.length_append, List.length_cons] at hcn
  obtain ⟨node', hnode', hnode''⟩ := hnode.copyKey hns y
  have hchild' : (child.setKeyNum Y.length).Holds leaf Y CY := hchild.setKeyNum hCY
  -- the keys of the right sibling
  have hrk : slice (blit (Function.update (blit right.key (X.length + 1) right.key 0 RK.length)
      X.length s) 0 (fun j => child.key (Y.length + 1 + j)) 0 X.length) 0
      (X.length + 1 + RK.length) = X ++ s :: RK := by
    refine slice_prepend_cons s hright.slice_key ?_
    have hk : slice child.key 0 child.keysNum = (Y ++ [y]) ++ (X ++ []) := by simp [hchild.keys]
    have := slice_run hk
    rwa [List.length_append, List.length_singleton] at this
  unfold shareRightPages
  dsimp only
  rw [Page.moveKeys_up (by simp only [Page.setKeyNum]; omega) (by exact hnslots), ok_bind,
    show X.length + 1 + RK.length - (X.length + 1) = RK.length by omega,
    subUShort_eq (by omega) hsmall, Nat.add_sub_cancel, hnode.getKey hns,
    show X.length + 1 + RK.length + 1 - (X.length + 1) = RK.length + 1 by omega, Nat.zero_add]
  cases leaf with
  | true =>
    obtain ⟨rfl, rfl⟩ := List.append_eq_nil_iff.mp hchild.cursors_nil
    obtain rfl := hright.cursors_nil
    rw [if_pos hchild.leaf_eq, pure_bind, ok_bind,
      Page.copyKey_ok (by simp only [Page.setKeyNum]; omega) (by exact hnslots), ok_bind,
      Page.readKeys_ok (by omega) hcs, ok_bind,
      Page.copyKeys_ok (by simp only [Page.setKeyNum]; omega) (by exact hnslots), ok_bind,
      if_pos hchild.leaf_eq, pure_bind, hchild.getKey hcs, ok_bind, hnode', ok_bind]
    exact ⟨_, _, _, rfl, hnode'', hchild', Page.holds_leaf_of hright.leaf_eq hrk⟩
  | false =>
    have hCY := hCY rfl
    have hcc := hchild.length_cursors
    simp only [List.length_append, List.length_cons] at hcc
    have hrcur : slice (blit (blit right.cursor (X.length + 1) right.cursor 0 (RK.length + 1)) 0
        (fun j => child.cursor (Y.length + 1 + j)) 0 (X.length + 1)) 0
        (X.length + 1 + (RK.length + 1)) = CX ++ RC := by
      refine slice_prepend_blit hright.slice_cursor ?_
      have := slice_drop hchild.cursors
      rw [hCY, show CX.length = X.length + 1 by omega] at this
      rwa [slice_shift, Nat.add_zero]
    rw [if_neg (by simp [hchild.leaf_eq]),
      Page.moveCursors_up (by simp only [Page.setKeyNum]; omega) (by exact hnslots), ok_bind,
      ok_bind, Page.copyKey_ok (by simp only [Page.setKeyNum]; omega) (by exact hnslots), ok_bind,
      Page.readKeys_ok (by omega) hcs, ok_bind,
      Page.copyKeys_ok (by simp only [Page.setKeyNum]; omega) (by exact hnslots), ok_bind,
      if_neg (by simp [hchild.leaf_eq]), Page.readCursors_ok (by omega) (by omega) hcs, ok_bind,
      Page.copyCursors_ok (by simp only [Page.setKeyNum]; omega) (by omega) (by exact hnslots),
      ok_bind, hchild.getKey hcs, ok_bind, hnode', ok_bind, Nat.zero_add]
    exact ⟨_, _, _, rfl, hnode'', hchild', Page.holds_inner_of hright.leaf_eq hrk hrcur⟩

/-- The leaf gives its keys `X` to its left sibling. -/
theorem shareLeftLeaves_spec (hleft : left.Holds true LK LC) (hchild : child.Holds true (X ++ Y) CX)
    (hcs : child.keysNum ≤ slots) (hn : n = LK.length + X.length) (hnslots : n ≤ slots)
    (hmoved : moved = X.length) (hrest : rest = Y.length) :
    ∃ child' left', shareLeftLeaves slots child left n moved rest = .ok (child', left') ∧
      child'.Holds true Y [] ∧ left'.Holds true (LK ++ X) [] := by
  subst hn hmoved hrest
  have hln := hleft.keysNum_eq
  have hcn := hchild.keysNum_eq
  rw [List.length_append] at hcn
  have hlk : slice (blit left.key LK.length (fun j => child.key (0 + j)) 0 X.length) 0
      (LK.length + X.length) = LK ++ X :=
    slice_append_blit hleft.slice_key (by
      rw [slice_shift]
      exact slice_take hchild.keys)
  have hck : slice (blit child.key 0 child.key (0 + X.length) Y.length) 0 Y.length = Y := by
    refine slice_blit_front _ ?_
    rw [Nat.zero_add]
    exact slice_drop hchild.keys
  unfold shareLeftLeaves
  dsimp only
  rw [hln, Page.readKeys_ok (by omega) hcs, ok_bind,
    Page.copyKeys_ok (by simp only [Page.setKeyNum]; omega) (by exact hnslots), ok_bind,
    Page.moveKeys_down (by omega) hcs, ok_bind]
  exact ⟨_, _, rfl, Page.holds_leaf_of hchild.leaf_eq hck, Page.holds_leaf_of hleft.leaf_eq hlk⟩

/-- The leaf gives its keys `X` to its right sibling. -/
theorem shareRightLeaves_spec (hright : right.Holds true RK RC)
    (hchild : child.Holds true (Y ++ X) CX) (hcs : child.keysNum ≤ slots)
    (hn : n = X.length + RK.length) (hnslots : n ≤ slots) (hmoved : moved = X.length)
    (hrest : rest = Y.length) :
    ∃ child' right', shareRightLeaves slots child right n moved rest = .ok (child', right') ∧
      child'.Holds true Y [] ∧ right'.Holds true (X ++ RK) [] := by
  subst hn hmoved hrest
  have hcn := hchild.keysNum_eq
  rw [List.length_append] at hcn
  have hrk : slice (blit (blit right.key X.length right.key 0 RK.length) 0
      (fun j => child.key (Y.length + j)) 0 X.length) 0 (X.length + RK.length) = X ++ RK :=
    slice_prepend_blit hright.slice_key (by
      rw [slice_shift, Nat.add_zero]
      exact slice_drop hchild.keys)
  unfold shareRightLeaves
  dsimp only
  rw [Page.moveKeys_up (by simp only [Page.setKeyNum]; omega) (by exact hnslots), ok_bind,
    Nat.add_sub_cancel_left, Page.readKeys_ok (by omega) hcs, ok_bind,
    Page.copyKeys_ok (by simp only [Page.setKeyNum]; omega) (by exact hnslots), ok_bind,
    Nat.zero_add]
  exact ⟨_, _, rfl, Page.holds_leaf_of hchild.leaf_eq (slice_take hchild.keys),
    Page.holds_leaf_of hright.leaf_eq hrk⟩

end Share

end BTreesMods

import BTreesMods.Pages.Insert

/-!
# The pages of a removal

What the page functions of `mergeChildren`, `moveOneKeyFromLeft`, `moveOneKeyFromRight`, of the
loans of the trees with routers and of `removeByKeyNum` compute, as operations on the lists of keys
and cursors.
-/

namespace BTreesMods

variable {κ : Type} {slots : ℕ}

/-! ## One page -/

namespace Page

variable {pg : Page κ} {leaf : Bool} {cs : List ℕ}

/-- The leaf branch of `removeByKeyNum` deletes the key at `keyNum`. -/
theorem Holds.removeKey {A B : List κ} {x : κ} (h : pg.Holds true (A ++ x :: B) cs)
    (hs : pg.keysNum ≤ slots) :
    ∃ pg', pg.removeKey slots A.length = .ok pg' ∧ pg'.Holds true (A ++ B) [] := by
  have hn := h.keysNum_eq
  rw [List.length_append, List.length_cons] at hn
  unfold Page.removeKey
  dsimp only
  rw [moveKeys_down (by omega) hs, ok_bind]
  exact ⟨_, rfl, holds_leaf_of h.leaf_eq (slice_erase h.keys)⟩

/-- The parent loop of `mergeChildren` deletes the key `x` and the cursor after it; the number of
keys is lowered later. -/
theorem Holds.closeSlot {K1 K2 : List κ} {C1 C2 : List ℕ} {x : κ} {l r : ℕ}
    (h : pg.Holds false (K1 ++ x :: K2) (C1 ++ l :: r :: C2)) (hC : C1.length = K1.length)
    (hs : pg.keysNum ≤ slots) :
    ∃ pg', pg.closeSlot slots K1.length = .ok pg' ∧ pg'.isLeaf = false ∧
      pg'.keysNum = pg.keysNum ∧ slice pg'.key 0 (pg.keysNum - 1) = K1 ++ K2 ∧
      slice pg'.cursor 0 pg.keysNum = C1 ++ l :: C2 := by
  have hn := h.keysNum_eq
  rw [List.length_append, List.length_cons] at hn
  have hc : slice pg.cursor 0 (pg.keysNum + 1) = (C1 ++ [l]) ++ r :: C2 := by simpa using h.cursors
  have hcur := slice_erase hc
  rw [List.length_append, List.length_singleton, hC, Nat.add_sub_cancel,
    show pg.keysNum - (K1.length + 1) = pg.keysNum - 1 - K1.length by omega] at hcur
  unfold Page.closeSlot
  have hloop := moveBoth_down pg 1 K1.length (pg.keysNum - 1 - K1.length) (by omega)
    (Nat.le_refl 1) hs
  refine ⟨_, hloop, h.leaf_eq, rfl, slice_erase h.keys, ?_⟩
  rw [hcur]
  simp

end Page

/-! ## Merging -/

section Merge

variable {left middle right node : Page κ} {leaf : Bool} {K1 K2 LK MK RK X Y : List κ}
  {C LC MC RC CX CY C1 C2 : List ℕ} {s a b y : κ} {cl cm cr n ln rn : ℕ}

/-- The left page gets the parent's key and everything of the right page. -/
theorem mergePages_spec (hnode : node.Holds false (K1 ++ s :: K2) C) (hns : node.keysNum ≤ slots)
    (hleft : left.Holds leaf LK LC) (hright : right.Holds leaf RK RC) (hrs : right.keysNum ≤ slots)
    (hn : n = LK.length + 1 + RK.length) (hnslots : n ≤ slots) (hln : ln = LK.length)
    (hrn : rn = RK.length) :
    ∃ left', mergePages slots left right node K1.length n ln rn = .ok left' ∧
      left'.Holds leaf (LK ++ s :: RK) (LC ++ RC) := by
  subst hn hln hrn
  have hrkn := hright.keysNum_eq
  have hlk : slice (blit (Function.update left.key LK.length s) (LK.length + 1)
      (fun j => right.key (0 + j)) 0 RK.length) 0 (LK.length + 1 + RK.length) = LK ++ s :: RK := by
    have hRK : slice (fun j => right.key (0 + j)) 0 RK.length = RK := by
      rw [slice_shift]
      exact hright.slice_key
    rw [slice_append_blit (slice_append_one s hleft.slice_key) hRK]
    simp
  unfold mergePages
  dsimp only
  rw [hnode.getKey hns, ok_bind,
    Page.copyKey_ok (by simp only [Page.setKeyNum]; omega) (by exact hnslots), ok_bind,
    Page.readKeys_ok (by omega) hrs, ok_bind,
    Page.copyKeys_ok (by simp only [Page.setKeyNum]; omega) (by exact hnslots), ok_bind,
    Page.readCursors_ok (by omega) (by omega) hrs, ok_bind,
    Page.copyCursors_ok (by simp only [Page.setKeyNum]; omega) (by omega) (by exact hnslots)]
  cases leaf with
  | true =>
    obtain rfl := hleft.cursors_nil
    obtain rfl := hright.cursors_nil
    exact ⟨_, rfl, Page.holds_leaf_of hleft.leaf_eq hlk⟩
  | false =>
    have hlcur : slice (blit left.cursor (LK.length + 1) (fun j => right.cursor (0 + j)) 0
        (RK.length + 1)) 0 (LK.length + 1 + (RK.length + 1)) = LC ++ RC :=
      slice_append_blit hleft.slice_cursor (by
        rw [slice_shift]
        exact hright.slice_cursor)
    exact ⟨_, rfl, Page.holds_inner_of hleft.leaf_eq hlk hlcur⟩

/-- The left leaf gets the keys of the right leaf. -/
theorem mergeLeaves_spec (hleft : left.Holds true LK LC) (hright : right.Holds true RK RC)
    (hrs : right.keysNum ≤ slots) (hn : n = LK.length + RK.length) (hnslots : n ≤ slots)
    (hln : ln = LK.length) (hrn : rn = RK.length) :
    ∃ left', mergeLeaves slots left right n ln rn = .ok left' ∧ left'.Holds true (LK ++ RK) [] := by
  subst hn hln hrn
  have hrkn := hright.keysNum_eq
  unfold mergeLeaves
  rw [Page.readKeys_ok (by omega) hrs, ok_bind,
    Page.copyKeys_ok (by simp only [Page.setKeyNum]; omega) (by exact hnslots)]
  have hlk : slice (blit left.key LK.length (fun j => right.key (0 + j)) 0 RK.length) 0
      (LK.length + RK.length) = LK ++ RK :=
    slice_append_blit hleft.slice_key (by
      rw [slice_shift]
      exact hright.slice_key)
  exact ⟨_, rfl, Page.holds_leaf_of hleft.leaf_eq hlk⟩

variable [Inhabited κ]

/-- The buffer in which `mergeChildren` of three pages gathers their cursors. -/
def gatheredCursors (left middle right : Page κ) : ℕ → ℕ :=
  blit (blit (blit (fun _ => 0) 0 left.cursor 0 (left.keysNum + 1)) (left.keysNum + 1) middle.cursor 0
    (middle.keysNum + 1)) (left.keysNum + right.keysNum + 2) right.cursor 0 (right.keysNum + 1)

omit [Inhabited κ] in
/-- The cursors are gathered in order if the middle and the right page have as many keys. -/
theorem gatheredCursors_eq (hleft : left.Holds false LK LC) (hmiddle : middle.Holds false MK MC)
    (hright : right.Holds false RK RC) (hlen : MK.length = RK.length) :
    slice (gatheredCursors left middle right) 0 (LK.length + MK.length + RK.length + 3) =
      LC ++ (MC ++ RC) := by
  have hln := hleft.keysNum_eq
  have hmn := hmiddle.keysNum_eq
  have hrn := hright.keysNum_eq
  have h3 := slice_concat (fun _ => 0) hleft.cursors hmiddle.cursors
  rw [show left.keysNum + 1 + (middle.keysNum + 1) = left.keysNum + right.keysNum + 2 by omega] at h3
  rw [show LK.length + MK.length + RK.length + 3 =
    left.keysNum + right.keysNum + 2 + (right.keysNum + 1) by omega, gatheredCursors,
    slice_append_blit h3 hright.cursors, List.append_assoc]

omit [Inhabited κ] in
/-- If they have not, the first cursor of the right page goes to a wrong place. -/
theorem gatheredCursors_ne (hleft : left.Holds false LK LC) (hmiddle : middle.Holds false MK MC)
    (hright : right.Holds false RK RC) (hnodup : (MC ++ RC).Nodup) (hlen : MK.length ≠ RK.length) :
    slice (gatheredCursors left middle right) 0 (LK.length + MK.length + RK.length + 3) ≠
      LC ++ (MC ++ RC) := by
  intro heq
  have hln := hleft.keysNum_eq
  have hrn := hright.keysNum_eq
  have hlc := hleft.length_cursors
  have hmc := hmiddle.length_cursors
  have hrc := hright.length_cursors
  have hfirst : gatheredCursors left middle right (LK.length + RK.length + 2) = right.cursor 0 := by
    rw [gatheredCursors, blit, if_pos (by omega)]
    congr 1
    omega
  have hright0 : RC[0]? = some (right.cursor 0) := by
    rw [← hright.cursors, slice_succ]
    rfl
  -- the place of that cursor in the buffer and in the three lists
  have hat : (LC ++ (MC ++ RC))[LK.length + RK.length + 2]? = some (right.cursor 0) := by
    rw [← heq, List.getElem?_eq_getElem (by rw [length_slice]; omega), slice_getElem, Nat.zero_add,
      hfirst]
  rw [List.getElem?_append_right (by omega),
    show LK.length + RK.length + 2 - LC.length = RK.length + 1 by omega] at hat
  have hat' : (MC ++ RC)[MK.length + 1]? = some (right.cursor 0) := by
    rw [List.getElem?_append_right (by omega), show MK.length + 1 - MC.length = 0 by omega, hright0]
  have hlt := (List.getElem?_eq_some_iff.mp hat).1
  have := (List.getElem?_inj hlt hnodup).mp (hat.trans hat'.symm)
  omega

/-- Three pages become two. -/
theorem mergeThreePages_run
    (hnode : node.Holds false (K1 ++ a :: b :: K2) (C1 ++ cl :: cm :: cr :: C2))
    (hC : C1.length = K1.length) (hns : node.keysNum ≤ slots)
    (hleft : left.Holds leaf LK LC) (hls : left.keysNum ≤ slots)
    (hmiddle : middle.Holds leaf MK MC) (hms : middle.keysNum ≤ slots)
    (hright : right.Holds leaf RK RC) (hrs : right.keysNum ≤ slots)
    (hG : LK ++ a :: (MK ++ b :: RK) = X ++ y :: Y)
    (hYlen : Y.length = (LK.length + MK.length + RK.length + 2) / 2)
    (hX : X.length ≤ slots) (hY : Y.length ≤ slots) (hleaf : leaf = true → CX = [] ∧ CY = [])
    (hinner : leaf = false → CX.length = X.length + 1 ∧
      slice (gatheredCursors left middle right) 0 (LK.length + MK.length + RK.length + 3) = CX ++ CY) :
    ∃ left' middle' node', mergeThreePages slots left middle right node K1.length (K1.length + 1) =
        .ok (left', middle', node') ∧
      left'.Holds leaf X CX ∧ middle'.Holds leaf Y CY ∧
      node'.Holds false (K1 ++ y :: K2) (C1 ++ cl :: cm :: C2) := by
  have hln := hleft.keysNum_eq
  have hmn := hmiddle.keysNum_eq
  have hrn := hright.keysNum_eq
  have hnn := hnode.keysNum_eq
  simp only [List.length_append, List.length_cons] at hnn
  have hGlen := congrArg List.length hG
  simp only [List.length_append, List.length_cons] at hGlen
  -- the buffer of keys
  obtain ⟨keys, hkeysdef, hkeys⟩ : ∃ keys, keys = blit (Function.update (blit (Function.update
      (blit (fun _ => default) 0 left.key 0 left.keysNum) left.keysNum a)
      (left.keysNum + 1) middle.key 0 middle.keysNum) (left.keysNum + middle.keysNum + 1) b)
      (left.keysNum + middle.keysNum + 2) right.key 0 right.keysNum ∧
      slice keys 0 (left.keysNum + middle.keysNum + 2 + right.keysNum) = X ++ y :: Y := by
    refine ⟨_, rfl, ?_⟩
    have h1 := slice_append_blit (slice_append_one a
      (slice_blit_front (fun _ => default) hleft.keys)) hmiddle.keys
    have h2 := slice_append_one b h1
    rw [Nat.add_right_comm] at h2
    rw [slice_append_blit h2 hright.keys, ← hG]
    simp
  have hky : keys X.length = y := slice_at hkeys
  have hkeysY : slice keys 0 (left.keysNum + middle.keysNum + 2 + right.keysNum) =
      (X ++ [y]) ++ (Y ++ []) := by rw [hkeys]; simp
  have hkY := slice_run hkeysY
  rw [List.length_append, List.length_singleton] at hkY
  -- the two children and the parent
  obtain ⟨left₁, hl1, hl1l, hl1n, hl1k⟩ := (left.setKeyNum X.length).copyKeys_front rfl hX
    (slice_take hkeys)
  obtain ⟨middle₁, hm1, hm1l, hm1n, hm1k⟩ := (middle.setKeyNum Y.length).copyKeys_front rfl hY hkY
  have hnode₀ : node.Holds false ((K1 ++ [a]) ++ b :: K2) ((C1 ++ [cl]) ++ cm :: cr :: C2) := by
    simpa using hnode
  obtain ⟨node₁, hclose, hnl, hnk, hnkey, hncur⟩ := hnode₀.closeSlot (by simp [hC]) hns
  rw [List.length_append, List.length_singleton] at hclose
  have hmedian := hnode₀.getKey hns
  rw [List.length_append, List.length_singleton] at hmedian
  have hnode' : (({ node₁ with key := Function.update node₁.key K1.length y } : Page κ).setKeyNum
      (node.keysNum - 1)).Holds false (K1 ++ y :: K2) (C1 ++ cl :: cm :: C2) := by
    refine Page.holds_inner_of hnl ?_ ?_
    · have hnkey' : slice node₁.key 0 (node.keysNum - 1) = K1 ++ a :: K2 := by simp [hnkey]
      exact slice_set y hnkey'
    · simp only [Page.setKeyNum]
      rw [Nat.sub_add_cancel (by omega), hncur]
      simp
  have h2 : (left.keysNum + middle.keysNum + right.keysNum + 2) / 2 = Y.length := by
    rw [hln, hmn, hrn, hYlen]
  have h1 : left.keysNum + middle.keysNum + right.keysNum + 2 - Y.length - 1 = X.length := by omega
  unfold mergeThreePages
  dsimp only
  rw [Page.readKeys_all hls, ok_bind, hnode.getKey hns, ok_bind, Page.readKeys_all hms, ok_bind,
    hmedian, ok_bind, Page.readKeys_all hrs, ok_bind, ← hkeysdef, h2, h1, hl1, ok_bind, hm1, ok_bind]
  cases leaf with
  | true =>
    obtain ⟨rfl, rfl⟩ := hleaf rfl
    rw [if_pos hleft.leaf_eq, pure_bind, hclose, ok_bind, hky,
      Page.copyKey_ok (by omega) (by omega), ok_bind]
    dsimp only
    rw [hnk]
    exact ⟨_, _, _, rfl, Page.holds_leaf (hl1l.trans hleft.leaf_eq) hl1n hl1k,
      Page.holds_leaf (hm1l.trans hmiddle.leaf_eq) hm1n hm1k, hnode'⟩
  | false =>
    obtain ⟨hCX, hgathered⟩ := hinner rfl
    have hlen := congrArg List.length hgathered
    rw [length_slice, List.length_append] at hlen
    have hcursors : slice (gatheredCursors left middle right) 0
        (LK.length + MK.length + RK.length + 3) = CX ++ (CY ++ []) := by rw [hgathered, List.append_nil]
    have hsY := slice_run hcursors
    rw [hCX] at hsY
    have hl1s : left₁.keysNum ≤ slots := by omega
    have hm1s : middle₁.keysNum ≤ slots := by omega
    obtain ⟨left₂, hl2, hleft₂⟩ := left₁.copyCursors_front (hl1l.trans hleft.leaf_eq) hl1n hl1k
      hl1s hCX (slice_take hcursors)
    obtain ⟨middle₂, hm2, hmiddle₂⟩ := middle₁.copyCursors_front (hm1l.trans hmiddle.leaf_eq) hm1n
      hm1k hm1s (by omega) hsY
    rw [if_neg (by simp [hleft.leaf_eq]), Page.readCursors_all hls, ok_bind,
      Page.readCursors_all hms, ok_bind, Page.readCursors_all hrs, ok_bind]
    rw [gatheredCursors] at hl2 hm2
    rw [hl2, ok_bind, hm2, ok_bind, pure_bind, hclose, ok_bind, hky, Page.copyKey_ok (by omega) (by omega), ok_bind]
    dsimp only
    rw [hnk]
    exact ⟨_, _, _, rfl, hleft₂, hmiddle₂, hnode'⟩

/-- Three pages become two. The cursors of inner pages end up in order only if the middle and the
right page have the same number of keys. -/
theorem mergeThreePages_spec
    (hnode : node.Holds false (K1 ++ a :: b :: K2) (C1 ++ cl :: cm :: cr :: C2))
    (hC : C1.length = K1.length) (hns : node.keysNum ≤ slots)
    (hleft : left.Holds leaf LK LC) (hls : left.keysNum ≤ slots)
    (hmiddle : middle.Holds leaf MK MC) (hms : middle.keysNum ≤ slots)
    (hright : right.Holds leaf RK RC) (hrs : right.keysNum ≤ slots)
    (hG : LK ++ a :: (MK ++ b :: RK) = X ++ y :: Y)
    (hYlen : Y.length = (LK.length + MK.length + RK.length + 2) / 2)
    (hY : Y.length ≤ slots) (hinner : leaf = false → MK.length = RK.length)
    (hCX : leaf = false → CX.length = X.length + 1) (hGc : LC ++ (MC ++ RC) = CX ++ CY) :
    ∃ left' middle' node', mergeThreePages slots left middle right node K1.length (K1.length + 1) =
        .ok (left', middle', node') ∧
      left'.Holds leaf X CX ∧ middle'.Holds leaf Y CY ∧
      node'.Holds false (K1 ++ y :: K2) (C1 ++ cl :: cm :: C2) := by
  have hGlen := congrArg List.length hG
  simp only [List.length_append, List.length_cons] at hGlen
  refine mergeThreePages_run hnode hC hns hleft hls hmiddle hms hright hrs hG hYlen (by omega) hY
    (fun hl => ?_) fun hl => ?_
  · subst hl
    obtain rfl := hleft.cursors_nil
    obtain rfl := hmiddle.cursors_nil
    obtain rfl := hright.cursors_nil
    exact List.append_eq_nil_iff.mp hGc.symm
  · subst hl
    exact ⟨hCX rfl, (gatheredCursors_eq hleft hmiddle hright (hinner rfl)).trans hGc⟩

/-- Three leaves become two; the parent's key between both stays as it is. -/
theorem mergeThreeLeaves_spec
    (hnode : node.Holds false (K1 ++ a :: b :: K2) (C1 ++ cl :: cm :: cr :: C2))
    (hC : C1.length = K1.length) (hns : node.keysNum ≤ slots)
    (hleft : left.Holds true LK LC) (hls : left.keysNum ≤ slots)
    (hmiddle : middle.Holds true MK MC) (hms : middle.keysNum ≤ slots)
    (hright : right.Holds true RK RC) (hrs : right.keysNum ≤ slots)
    (hG : LK ++ (MK ++ RK) = X ++ Y)
    (hYlen : Y.length = (LK.length + MK.length + RK.length) / 2) (hX : X.length ≤ slots) :
    ∃ left' middle' node', mergeThreeLeaves slots left middle right node (K1.length + 1) =
        .ok (left', middle', node') ∧
      left'.Holds true X [] ∧ middle'.Holds true Y [] ∧
      node'.Holds false (K1 ++ a :: K2) (C1 ++ cl :: cm :: C2) := by
  have hln := hleft.keysNum_eq
  have hmn := hmiddle.keysNum_eq
  have hrn := hright.keysNum_eq
  have hnn := hnode.keysNum_eq
  simp only [List.length_append, List.length_cons] at hnn
  have hGlen := congrArg List.length hG
  simp only [List.length_append] at hGlen
  have hY : Y.length ≤ slots := by omega
  obtain ⟨keys, hkeysdef, hkeys⟩ : ∃ keys, keys = blit (blit (blit (fun _ => default) 0 left.key 0
      left.keysNum) left.keysNum middle.key 0 middle.keysNum) (left.keysNum + middle.keysNum)
      right.key 0 right.keysNum ∧
      slice keys 0 (left.keysNum + middle.keysNum + right.keysNum) = X ++ (Y ++ []) := by
    refine ⟨_, rfl, ?_⟩
    rw [slice_append_blit (slice_concat (fun _ => default) hleft.keys hmiddle.keys) hright.keys,
      List.append_nil, ← hG, List.append_assoc]
  have hkY := slice_run hkeys
  obtain ⟨left₁, hl1, hl1l, hl1n, hl1k⟩ := (left.setKeyNum X.length).copyKeys_front rfl hX
    (slice_take hkeys)
  obtain ⟨middle₁, hm1, hm1l, hm1n, hm1k⟩ := (middle.setKeyNum Y.length).copyKeys_front rfl hY hkY
  have hnode₀ : node.Holds false ((K1 ++ [a]) ++ b :: K2) ((C1 ++ [cl]) ++ cm :: cr :: C2) := by
    simpa using hnode
  obtain ⟨node₁, hclose, hnl, hnk, hnkey, hncur⟩ := hnode₀.closeSlot (by simp [hC]) hns
  rw [List.length_append, List.length_singleton] at hclose
  have hnode' : (node₁.setKeyNum (node.keysNum - 1)).Holds false (K1 ++ a :: K2)
      (C1 ++ cl :: cm :: C2) := by
    refine Page.holds_inner_of hnl ?_ ?_
    · exact hnkey.trans (by simp)
    · simp only [Page.setKeyNum]
      rw [Nat.sub_add_cancel (by omega), hncur]
      simp
  have h2 : (left.keysNum + middle.keysNum + right.keysNum) / 2 = Y.length := by
    rw [hln, hmn, hrn, hYlen]
  have h1 : left.keysNum + middle.keysNum + right.keysNum - Y.length = X.length := by omega
  unfold mergeThreeLeaves
  dsimp only
  rw [Page.readKeys_all hls, ok_bind, Page.readKeys_all hms, ok_bind, Page.readKeys_all hrs, ok_bind,
    ← hkeysdef, h2, h1, hl1, ok_bind, hm1, ok_bind, hclose, ok_bind, hnk]
  exact ⟨_, _, _, rfl, Page.holds_leaf (hl1l.trans hleft.leaf_eq) hl1n hl1k,
    Page.holds_leaf (hm1l.trans hmiddle.leaf_eq) hm1n hm1k, hnode'⟩

end Merge

/-! ## Rotations and loans -/

section Rotate

variable {left right child node : Page κ} {leaf : Bool} {K1 K2 LK RK CK : List κ}
  {C LC RC CC X : List ℕ} {s x : κ} {n : ℕ}

/-- `moveOneKeyFromLeft` on page bytes. -/
theorem moveLeftPages_spec (hnode : node.Holds false (K1 ++ s :: K2) C) (hns : node.keysNum ≤ slots)
    (hleft : left.Holds leaf (LK ++ [x]) (LC ++ X)) (hls : left.keysNum ≤ slots)
    (hchild : child.Holds leaf CK CC) (hcs : child.keysNum + 1 ≤ slots)
    (hX : leaf = false → X.length = 1) :
    ∃ left' child' node', moveLeftPages slots left child node (K1.length + 1) =
        .ok (left', child', node') ∧
      left'.Holds leaf LK LC ∧ child'.Holds leaf (s :: CK) (X ++ CC) ∧
      node'.Holds false (K1 ++ x :: K2) C := by
  have hln := hleft.keysNum_eq
  rw [List.length_append, List.length_singleton] at hln
  obtain ⟨node', hnode', hnode''⟩ := hnode.copyKey hns x
  have hleft' : (left.setKeyNum LK.length).Holds leaf LK LC := by
    refine hleft.setKeyNum fun h => ?_
    subst h
    have hlen := hleft.length_cursors
    rw [List.length_append, List.length_append, List.length_singleton, hX rfl] at hlen
    omega
  have hck := slice_prepend_one s hchild.keys
  unfold moveLeftPages
  dsimp only
  rw [Nat.add_sub_cancel, Nat.add_sub_cancel, hln,
    Page.moveCursor_ok (by simp only [Page.setKeyNum]; omega) (by simp only [Page.setKeyNum]; omega)
      (by exact hcs), ok_bind,
    Page.moveBoth_up (by simp only [Page.setKeyNum]; omega) (by exact hcs), ok_bind,
    hnode.getKey hns, ok_bind, Page.copyKey_ok (by simp only [Page.setKeyNum]; omega)
      (by exact hcs), ok_bind, Nat.add_sub_cancel, hleft.getKey hls, ok_bind, hnode', ok_bind,
    Page.readCursors_ok (by omega) (Nat.le_refl 1) hls, ok_bind,
    Page.copyCursors_ok (by simp only [Page.setKeyNum]; omega) (Nat.le_refl 1) (by exact hcs),
    ok_bind]
  cases leaf with
  | true =>
    obtain ⟨rfl, rfl⟩ := List.append_eq_nil_iff.mp hleft.cursors_nil
    obtain rfl := hchild.cursors_nil
    exact ⟨_, _, _, rfl, hleft', Page.holds_leaf_of hchild.leaf_eq hck, hnode''⟩
  | false =>
    obtain ⟨c, rfl⟩ := List.length_eq_one_iff.mp (hX rfl)
    have hcur := hchild.cursors
    have hup : slice (blit (Function.update child.cursor (child.keysNum + 1)
        (child.cursor child.keysNum)) (0 + 1) (Function.update child.cursor (child.keysNum + 1)
        (child.cursor child.keysNum)) 0 child.keysNum) 1 (child.keysNum + 1) = CC := by
      rw [← hcur]
      refine slice_congr fun j hj => ?_
      unfold blit
      split_ifs with h
      · rw [Function.update_of_ne (by omega)]
        congr 1
        omega
      · rw [show 1 + j = child.keysNum + 1 by omega, Function.update_self]
        congr 1
        omega
    have hc : left.cursor (LK.length + 1) = c := by
      have hl : (LC : List ℕ).length = LK.length + 1 := by
        have := hleft.length_cursors
        simp only [List.length_append, List.length_singleton] at this
        omega
      rw [← hl]
      exact hleft.cursor_at
    refine ⟨_, _, _, rfl, hleft', Page.holds_inner_of hchild.leaf_eq hck ?_, hnode''⟩
    simp only [Page.setKeyNum]
    rw [slice_succ, blit_one, Function.update_self, slice_update_of_gt _ _ _ _ _ (by omega), hup,
      Nat.add_zero, hc]
    rfl

/-- `moveOneKeyFromRight` on page bytes. -/
theorem moveRightPages_spec (hnode : node.Holds false (K1 ++ s :: K2) C)
    (hns : node.keysNum ≤ slots) (hright : right.Holds leaf (x :: RK) (X ++ RC))
    (hrs : right.keysNum ≤ slots) (hchild : child.Holds leaf CK CC)
    (hcs : child.keysNum + 1 ≤ slots) (hX : leaf = false → X.length = 1) :
    ∃ right' child' node', moveRightPages slots right child node K1.length =
        .ok (right', child', node') ∧
      right'.Holds leaf RK RC ∧ child'.Holds leaf (CK ++ [s]) (CC ++ X) ∧
      node'.Holds false (K1 ++ x :: K2) C := by
  have hrn := hright.keysNum_eq
  rw [List.length_cons] at hrn
  obtain ⟨node', hnode', hnode''⟩ := hnode.copyKey hns x
  have hck := slice_append_one s hchild.keys
  have hright₀ : right.Holds leaf ([] ++ x :: RK) (X ++ RC) := hright
  have hx : right.getKey slots 0 = .ok x := hright₀.getKey hrs
  have hrk : slice (blit right.key 0 right.key 1 (right.keysNum - 1)) 0 (right.keysNum - 1) = RK :=
    slice_erase hright₀.keys
  have hloop : forUp
      (fun j (pg : Page κ) => do (← pg.moveKey slots j (j + 1)).moveCursor slots j (j + 1)) 0
      (right.keysNum - 1) right = .ok { right with
        key := blit right.key 0 right.key 1 (right.keysNum - 1)
        cursor := blit right.cursor 0 right.cursor 1 (right.keysNum - 1) } :=
    Page.moveBoth_down right 0 0 (right.keysNum - 1) (by omega) (Nat.zero_le 1) hrs
  unfold moveRightPages
  dsimp only
  rw [Nat.add_sub_cancel, hnode.getKey hns, ok_bind,
    Page.copyKey_ok (by simp only [Page.setKeyNum]; omega) (by exact hcs), ok_bind, hx, ok_bind,
    hnode', ok_bind, Page.readCursors_ok (by omega) (Nat.le_refl 1) hrs, ok_bind,
    Page.copyCursors_ok (by simp only [Page.setKeyNum]; omega) (Nat.le_refl 1) (by exact hcs),
    ok_bind, hloop, ok_bind, Page.moveCursor_ok (by dsimp only; omega) (by dsimp only; omega)
      (by exact hrs), ok_bind]
  cases leaf with
  | true =>
    obtain ⟨rfl, rfl⟩ := List.append_eq_nil_iff.mp hright.cursors_nil
    obtain rfl := hchild.cursors_nil
    exact ⟨_, _, _, rfl, Page.holds_leaf_of hright.leaf_eq hrk,
      Page.holds_leaf_of hchild.leaf_eq hck, hnode''⟩
  | false =>
    obtain ⟨c, rfl⟩ := List.length_eq_one_iff.mp (hX rfl)
    have hrcur : slice right.cursor 0 (right.keysNum + 1) = c :: RC := hright.cursors
    obtain ⟨hc, htail⟩ := slice_eq_cons hrcur
    have hlen := hright.length_cursors
    simp only [List.singleton_append, List.length_cons] at hlen
    have hccur : slice (blit child.cursor (child.keysNum + 1) (fun j => right.cursor (0 + j)) 0 1) 0
        (child.keysNum + 1 + 1) = CC ++ [c] :=
      slice_append_blit hchild.cursors (by rw [slice_one, Nat.zero_add, hc])
    have hdown : slice (Function.update (blit right.cursor 0 right.cursor 1 (right.keysNum - 1))
        (right.keysNum - 1) (blit right.cursor 0 right.cursor 1 (right.keysNum - 1) right.keysNum))
        0 (right.keysNum - 1 + 1) = RC := by
      rw [← htail, show RC.length = right.keysNum - 1 + 1 by omega]
      refine slice_congr fun j hj => ?_
      rcases Nat.lt_or_ge j (right.keysNum - 1) with h | h
      · rw [Function.update_of_ne (by omega), blit, if_pos (by omega)]
        congr 1
        omega
      · rw [show 0 + j = right.keysNum - 1 by omega, Function.update_self, blit, if_neg (by omega)]
        congr 1
        omega
    exact ⟨_, _, _, rfl, Page.holds_inner_of hright.leaf_eq hrk hdown,
      Page.holds_inner_of hchild.leaf_eq hck hccur, hnode''⟩

/-- The loan from the left sibling on page bytes. -/
theorem borrowLeftPages_spec (hleft : left.Holds leaf (LK ++ [x]) (LC ++ X))
    (hls : left.keysNum ≤ slots) (hchild : child.Holds leaf CK CC) (hn : n = CK.length)
    (hcs : n + 1 ≤ slots) (hX : leaf = false → X.length = 1) :
    ∃ left' child', borrowLeftPages slots left child n = .ok (left', child') ∧
      left'.Holds leaf LK LC ∧ child'.Holds leaf (x :: CK) (X ++ CC) := by
  subst hn
  have hln := hleft.keysNum_eq
  rw [List.length_append, List.length_singleton] at hln
  have hleft' : (left.setKeyNum LK.length).Holds leaf LK LC := by
    refine hleft.setKeyNum fun h => ?_
    subst h
    have hlen := hleft.length_cursors
    rw [List.length_append, List.length_append, List.length_singleton, hX rfl] at hlen
    omega
  have hck : slice (Function.update (blit child.key (0 + 1) child.key 0 CK.length) 0 x) 0
      (CK.length + 1) = x :: CK := slice_prepend_one x hchild.slice_key
  unfold borrowLeftPages
  dsimp only
  rw [Page.moveKeys_up (by simp only [Page.setKeyNum]; omega) (by exact hcs), ok_bind, hln,
    Nat.add_sub_cancel, hleft.getKey hls]
  cases leaf with
  | true =>
    obtain ⟨rfl, rfl⟩ := List.append_eq_nil_iff.mp hleft.cursors_nil
    obtain rfl := hchild.cursors_nil
    rw [if_pos hchild.leaf_eq, pure_bind, ok_bind,
      Page.copyKey_ok (by simp only [Page.setKeyNum]; omega) (by exact hcs), ok_bind,
      if_pos hchild.leaf_eq, pure_bind]
    exact ⟨_, _, rfl, hleft', Page.holds_leaf_of hchild.leaf_eq hck⟩
  | false =>
    obtain ⟨c, rfl⟩ := List.length_eq_one_iff.mp (hX rfl)
    have hc : left.cursor (LK.length + 1) = c := by
      have hl := hleft.length_cursors
      simp only [List.length_append, List.length_singleton] at hl
      rw [← show LC.length = LK.length + 1 by omega]
      exact hleft.cursor_at
    have hccur : slice (blit (blit child.cursor (0 + 1) child.cursor 0 (CK.length + 1)) 0
        (fun j => left.cursor (LK.length + 1 + j)) 0 1) 0 (1 + (CK.length + 1)) = [c] ++ CC :=
      slice_prepend_blit hchild.slice_cursor (by rw [slice_one, Nat.add_zero, hc])
    rw [Nat.add_comm 1] at hccur
    rw [if_neg (by simp [hchild.leaf_eq]),
      Page.moveCursors_up (by simp only [Page.setKeyNum]; omega) (by exact hcs), ok_bind, ok_bind,
      Page.copyKey_ok (by simp only [Page.setKeyNum]; omega) (by exact hcs), ok_bind,
      if_neg (by simp [hchild.leaf_eq]), Page.readCursors_ok (by omega) (Nat.le_refl 1) hls, ok_bind,
      Page.copyCursors_ok (by simp only [Page.setKeyNum]; omega) (Nat.le_refl 1) (by exact hcs),
      ok_bind]
    exact ⟨_, _, rfl, hleft', Page.holds_inner_of hchild.leaf_eq hck hccur⟩

/-- The loan from the right sibling on page bytes. -/
theorem borrowRightPages_spec (hnode : node.Holds false (K1 ++ s :: K2) C)
    (hns : node.keysNum ≤ slots) (hright : right.Holds leaf (x :: RK) (X ++ RC))
    (hrs : right.keysNum ≤ slots) (hchild : child.Holds leaf CK CC) (hn : n = CK.length)
    (hcs : n + 1 ≤ slots) (hX : leaf = false → X.length = 1) :
    ∃ right' child' node', borrowRightPages slots right child node K1.length n =
        .ok (right', child', node') ∧
      right'.Holds leaf RK RC ∧ child'.Holds leaf (CK ++ [x]) (CC ++ X) ∧
      node'.Holds false (K1 ++ x :: K2) C := by
  subst hn
  have hrn := hright.keysNum_eq
  rw [List.length_cons] at hrn
  obtain ⟨node', hnode', hnode''⟩ := hnode.copyKey hns x
  have hck := slice_append_one x hchild.slice_key
  have hright₀ : right.Holds leaf ([] ++ x :: RK) (X ++ RC) := hright
  have hx : right.getKey slots 0 = .ok x := hright₀.getKey hrs
  have hrk : slice (blit right.key 0 right.key (0 + 1) (right.keysNum - 1)) 0 (right.keysNum - 1) =
      RK := slice_erase hright₀.keys
  unfold borrowRightPages
  dsimp only
  rw [hx, ok_bind, Page.copyKey_ok (by simp only [Page.setKeyNum]; omega) (by exact hcs), ok_bind,
    ok_bind, hnode', ok_bind, Page.moveKeys_down (by omega) hrs]
  cases leaf with
  | true =>
    obtain ⟨rfl, rfl⟩ := List.append_eq_nil_iff.mp hright.cursors_nil
    obtain rfl := hchild.cursors_nil
    rw [if_pos hchild.leaf_eq, pure_bind, ok_bind, if_pos hchild.leaf_eq, pure_bind]
    exact ⟨_, _, _, rfl, Page.holds_leaf_of hright.leaf_eq hrk,
      Page.holds_leaf_of hchild.leaf_eq hck, hnode''⟩
  | false =>
    obtain ⟨c, rfl⟩ := List.length_eq_one_iff.mp (hX rfl)
    have hrcur₀ : slice right.cursor 0 (right.keysNum + 1) = c :: RC := hright.cursors
    obtain ⟨hc, htail⟩ := slice_eq_cons hrcur₀
    have hlen := hright.length_cursors
    simp only [List.singleton_append, List.length_cons] at hlen
    have hccur : slice (blit child.cursor (CK.length + 1) (fun j => right.cursor (0 + j)) 0 1) 0
        (CK.length + 1 + 1) = CC ++ [c] :=
      slice_append_blit hchild.slice_cursor (by rw [slice_one, Nat.zero_add, hc])
    have hrcur : slice (blit right.cursor 0 right.cursor (0 + 1) right.keysNum) 0
        (right.keysNum - 1 + 1) = RC := by
      rw [show right.keysNum - 1 + 1 = right.keysNum by omega]
      refine slice_blit_front _ ?_
      rwa [show RC.length = right.keysNum by omega] at htail
    rw [if_neg (by simp [hchild.leaf_eq]), Page.readCursors_ok (by omega) (Nat.le_refl 1) hrs,
      ok_bind, Page.copyCursors_ok (by simp only [Page.setKeyNum]; omega) (Nat.le_refl 1)
        (by exact hcs), ok_bind, ok_bind, if_neg (by simp [hchild.leaf_eq]),
      Page.moveCursors_down (by dsimp only; omega) (by exact hrs), ok_bind]
    exact ⟨_, _, _, rfl, Page.holds_inner_of hright.leaf_eq hrk hrcur,
      Page.holds_inner_of hchild.leaf_eq hck hccur, hnode''⟩

end Rotate

end BTreesMods

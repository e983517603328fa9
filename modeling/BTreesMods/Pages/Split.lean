import BTreesMods.Pages.Access

/-!
# The pages of a split

What the functions on page bytes of `splitChild` and `splitChildren` compute, as operations on the
lists of keys and cursors: a run of keys is cut, and the parent gets a key and a cursor.
-/

namespace BTreesMods

variable {κ : Type} {slots : ℕ}

namespace Page

variable {pg : Page κ} {leaf : Bool} {cs : List ℕ}

/-- Overwriting one key of a page. -/
theorem Holds.copyKey {xs ys : List κ} {x : κ} (h : pg.Holds leaf (xs ++ x :: ys) cs)
    (hs : pg.keysNum ≤ slots) (y : κ) :
    ∃ pg', pg.copyKey slots xs.length y = .ok pg' ∧ pg'.Holds leaf (xs ++ y :: ys) cs := by
  have hn := h.keysNum_eq
  refine ⟨_, copyKey_ok (by rw [hn]; simp) hs, h.leaf_eq, ?_, h.cursors_eq⟩
  exact slice_set y h.keys_eq

/-- Making room for a key between `K1` and `K2`, and a new cursor after `c`. -/
theorem Holds.openSlot {K1 K2 : List κ} {C1 C2 : List ℕ} {c : ℕ} (r : ℕ)
    (h : pg.Holds false (K1 ++ K2) (C1 ++ c :: C2)) (hC : C1.length = K1.length)
    (hs : pg.keysNum + 1 ≤ slots) :
    ∃ pg' x, pg.openSlot slots K1.length r = .ok pg' ∧
      pg'.Holds false (K1 ++ x :: K2) (C1 ++ c :: r :: C2) := by
  have hn := h.keysNum_eq
  rw [List.length_append] at hn
  have hk : slice pg.key 0 pg.keysNum = K1 ++ K2 := h.keys
  have hc : slice pg.cursor 0 (pg.keysNum + 1) = (C1 ++ [c]) ++ C2 := by simpa using h.cursors
  have hC' : (C1 ++ [c]).length = K1.length + 1 := by simp [hC]
  have hcur := slice_insert r hc
  have hkey := slice_insert (blit pg.key (K1.length + 1) pg.key K1.length
    (pg.keysNum - K1.length) K1.length) hk
  rw [Function.update_eq_self] at hkey
  rw [hC'] at hcur
  unfold Page.openSlot
  simp only [setKeyNum, Nat.add_sub_cancel]
  rw [moveCursors_up (by dsimp only; omega) (by exact hs), ok_bind,
    setCursor_ok (by dsimp only; omega) (by exact hs), ok_bind,
    moveKeys_up (by dsimp only; omega) (by exact hs)]
  refine ⟨_, _, rfl, h.leaf_eq, hkey, ?_⟩
  rw [if_neg (by simp), cursorList]
  simpa [Nat.add_sub_add_right] using hcur

/-- The new right neighbour gets the keys `B` and the cursors `CB` of a page that holds
`A ++ B` and `CA ++ CB`. -/
theorem Holds.takeRight {A B : List κ} {CA CB : List ℕ} {right : Page κ}
    (h : pg.Holds leaf (A ++ B) (CA ++ CB)) (hCA : leaf = false → CA.length = A.length)
    (hl : right.isLeaf = leaf) (hr : right.keysNum = B.length) (hs : pg.keysNum ≤ slots) :
    ∃ right', pg.takeRight slots right A.length B.length = .ok right' ∧
      right'.Holds leaf B CB := by
  have hn := h.keysNum_eq
  rw [List.length_append] at hn
  have hB : slice (blit right.key 0 (fun j => pg.key (A.length + j)) 0 B.length) 0 B.length = B :=
    slice_blit_front _ (by rw [slice_shift, Nat.add_zero]; exact slice_drop h.keys)
  unfold Page.takeRight
  rw [readKeys_ok (by omega) hs, ok_bind, copyKeys_ok (by omega) (by omega), ok_bind]
  cases leaf with
  | true =>
    have hCB : CB = [] := (List.append_eq_nil_iff.mp h.cursors_nil).2
    rw [if_pos h.leaf_eq, hCB]
    exact ⟨_, rfl, holds_leaf hl hr hB⟩
  | false =>
    have hCA := hCA rfl
    have hlen := h.length_cursors
    rw [List.length_append, List.length_append] at hlen
    have hCB : slice (blit right.cursor 0 (fun j => pg.cursor (A.length + j)) 0 (B.length + 1)) 0
        (B.length + 1) = CB := by
      refine slice_blit_front _ ?_
      rw [slice_shift, Nat.add_zero, ← hCA, show B.length + 1 = CB.length by omega]
      exact slice_drop h.cursors
    rw [if_neg (by simp [h.leaf_eq]), readCursors_ok (by omega) (by omega) hs, ok_bind,
      copyCursors_ok (by dsimp only; omega) (by omega) (by dsimp only; omega)]
    exact ⟨_, rfl, holds_inner hl hr hB hCB⟩

/-- Lowering the number of keys of a page keeps the first keys and cursors. -/
theorem Holds.setKeyNum {A B : List κ} {CA CB : List ℕ} (h : pg.Holds leaf (A ++ B) (CA ++ CB))
    (hCA : leaf = false → CA.length = A.length + 1) :
    (pg.setKeyNum A.length).Holds leaf A CA := by
  cases leaf with
  | true =>
    have hCA : CA = [] := (List.append_eq_nil_iff.mp h.cursors_nil).1
    rw [hCA]
    exact holds_leaf h.leaf_eq rfl (slice_take h.keys)
  | false =>
    refine holds_inner h.leaf_eq rfl (slice_take h.keys) ?_
    rw [← hCA rfl]
    exact slice_take h.cursors

/-- Filling a page with a run of keys of a buffer. -/
theorem copyKeys_front {xs : List κ} {src : ℕ → κ} (hn : pg.keysNum = xs.length)
    (hs : pg.keysNum ≤ slots) (h : slice src 0 xs.length = xs) :
    ∃ pg', pg.copyKeys slots 0 src xs.length = .ok pg' ∧ pg'.isLeaf = pg.isLeaf ∧
      pg'.keysNum = xs.length ∧ slice pg'.key 0 xs.length = xs :=
  ⟨_, copyKeys_ok (by omega) hs, rfl, hn, slice_blit_front _ h⟩

/-- Filling an inner page with a run of cursors of a buffer. -/
theorem copyCursors_front {ks : List κ} {src : ℕ → ℕ} (hl : pg.isLeaf = false)
    (hn : pg.keysNum = ks.length) (hk : slice pg.key 0 ks.length = ks) (hs : pg.keysNum ≤ slots)
    (hcs : cs.length = ks.length + 1) (h : slice src 0 cs.length = cs) :
    ∃ pg', pg.copyCursors slots 0 src (ks.length + 1) = .ok pg' ∧ pg'.Holds false ks cs := by
  refine ⟨_, copyCursors_ok (by omega) (by omega) hs, holds_inner hl hn hk ?_⟩
  rw [← hcs]
  exact slice_blit_front _ h

/-- Reading all the keys of a page. -/
theorem readKeys_all (hs : pg.keysNum ≤ slots) :
    pg.readKeys slots 0 pg.keysNum = .ok pg.key := by
  rw [readKeys_ok (by omega) hs]
  simp only [Nat.zero_add]

/-- Reading all the cursors of a page. -/
theorem readCursors_all (hs : pg.keysNum ≤ slots) :
    pg.readCursors slots 0 (pg.keysNum + 1) = .ok pg.cursor := by
  rw [readCursors_ok (by omega) (by omega) hs]
  simp only [Nat.zero_add]

/-- The key loop of `splitChildren`, after the new number of keys. -/
theorem Holds.shiftKeys {K1 K2 : List κ} {x : κ} (h : pg.Holds leaf (K1 ++ x :: K2) cs)
    (hs : pg.keysNum + 1 ≤ slots) :
    ∃ key, forDown (fun j node => node.moveKey slots (j + 1) j) K1.length
        (pg.keysNum + 1 - 1 - K1.length) (pg.setKeyNum (pg.keysNum + 1)) =
          .ok { pg.setKeyNum (pg.keysNum + 1) with key := key } ∧
      slice key 0 (pg.keysNum + 1) = K1 ++ x :: x :: K2 := by
  have hn := h.keysNum_eq
  simp only [List.length_append, List.length_cons] at hn
  have hkey := slice_insert x h.keys
  refine ⟨_, moveKeys_up (by simp only [Page.setKeyNum]; omega) hs, ?_⟩
  rw [Nat.add_sub_cancel]
  have hx : blit pg.key (K1.length + 1) pg.key K1.length (pg.keysNum - K1.length) K1.length = x := by
    rw [blit, if_neg (by omega)]
    exact h.key_at
  rw [← hx, Function.update_eq_self] at hkey
  rw [hx] at hkey
  exact hkey

/-- The cursor loop of `splitChildren` and its new cursor. -/
theorem Holds.shiftCursors {C1 C2 : List ℕ} {c : ℕ} {ks : List κ} (key : ℕ → κ) (r : ℕ)
    (h : pg.Holds false ks (C1 ++ c :: C2)) (hs : pg.keysNum + 1 ≤ slots) :
    ∃ cursor, (forDown (fun j node => node.moveCursor slots (j + 1) j) (C1.length + 1)
        (pg.keysNum + 1 - (C1.length + 1)) { pg.setKeyNum (pg.keysNum + 1) with key := key } >>=
          fun node => node.setCursor slots (C1.length + 1) r) =
        .ok { pg.setKeyNum (pg.keysNum + 1) with key := key, cursor := cursor } ∧
      slice cursor 0 (pg.keysNum + 1 + 1) = C1 ++ c :: r :: C2 := by
  have hc : slice pg.cursor 0 (pg.keysNum + 1) = (C1 ++ [c]) ++ C2 := by simpa using h.cursors
  have hlen := h.length_cursors
  simp only [List.length_append, List.length_cons] at hlen
  have hn := h.keysNum_eq
  have hcur := slice_insert r hc
  rw [List.length_append, List.length_singleton] at hcur
  rw [moveCursors_up (by simp only [Page.setKeyNum]; omega) hs, ok_bind,
    setCursor_ok (by simp only [Page.setKeyNum]; omega) (by exact hs)]
  exact ⟨_, rfl, by simpa [Page.setKeyNum] using hcur⟩

/-- The parent of a split of two pages into three: both loops, the keys `a` and `b` around the new
cursor. -/
theorem Holds.openBetween {K1 K2 : List κ} {C1 C2 : List ℕ} {c : ℕ} {a : κ} (b : κ) (r : ℕ)
    (h : pg.Holds false (K1 ++ a :: K2) (C1 ++ c :: C2)) (hC : C1.length = K1.length)
    (hs : pg.keysNum + 1 ≤ slots) :
    ∃ pg', (do
        let node ← forDown (fun j (node : Page κ) => node.moveKey slots (j + 1) j) K1.length
          (pg.keysNum + 1 - 1 - K1.length) (pg.setKeyNum (pg.keysNum + 1))
        let node ← node.copyKey slots (K1.length + 1) b
        let node ← forDown (fun j (node : Page κ) => node.moveCursor slots (j + 1) j) (K1.length + 1)
          (pg.keysNum + 1 - (K1.length + 1)) node
        node.setCursor slots (K1.length + 1) r) = .ok pg' ∧
      pg'.Holds false (K1 ++ a :: b :: K2) (C1 ++ c :: r :: C2) := by
  have hn := h.keysNum_eq
  simp only [List.length_append, List.length_cons] at hn
  obtain ⟨key, hshift, hkey⟩ := h.shiftKeys hs
  obtain ⟨cursor, hcur, hcursor⟩ := h.shiftCursors (Function.update key (K1.length + 1) b) r hs
  have hkey₁ : slice key 0 (pg.keysNum + 1) = (K1 ++ [a]) ++ a :: K2 := by rw [hkey]; simp
  have hkey₂ := slice_set b hkey₁
  rw [List.length_append, List.length_singleton] at hkey₂
  rw [hC] at hcur
  rw [hshift, ok_bind, copyKey_ok (by simp only [Page.setKeyNum]; omega)
    (by simp only [Page.setKeyNum]; omega), ok_bind]
  refine ⟨_, hcur, h.leaf_eq, ?_, ?_⟩
  · exact hkey₂.trans (by simp)
  · rw [if_neg (by simp)]
    exact hcursor

end Page

/-- The pages of a `splitChild`. The left child keeps `A`, the right child gets `B`; `M` is empty or
the key that goes up. -/
theorem splitPages_spec {node left right : Page κ} {leaf : Bool} {K1 K2 A M B : List κ}
    {C1 C2 CA CB : List ℕ} {c : ℕ} {median : Option ℕ} {m : κ} (r : ℕ)
    (hnode : node.Holds false (K1 ++ K2) (C1 ++ c :: C2)) (hC : C1.length = K1.length)
    (hns : node.keysNum + 1 ≤ slots)
    (hleft : left.Holds leaf (A ++ M ++ B) (CA ++ CB))
    (hCA : leaf = false → CA.length = A.length + 1 ∧ M.length = 1)
    (hls : left.keysNum ≤ slots) (hrl : right.isLeaf = leaf) (hrn : right.keysNum = B.length)
    (hm : ∀ i ∈ median, (A ++ M ++ B)[i]? = some m) :
    ∃ node' left' right' x, splitPages slots node left right r K1.length A.length
        (A ++ M).length B.length median = .ok (node', left', right') ∧
      node'.Holds false (K1 ++ x :: K2) (C1 ++ c :: r :: C2) ∧ (median.isSome → x = m) ∧
      left'.Holds leaf A CA ∧ right'.Holds leaf B CB := by
  obtain ⟨right', hright, hright'⟩ := hleft.takeRight
    (fun h => by rw [List.length_append]; have := hCA h; omega) hrl hrn hls
  obtain ⟨node', x, hopen, hnode'⟩ := hnode.openSlot r hC hns
  have hleft' : (left.setKeyNum A.length).Holds leaf A CA := by
    rw [List.append_assoc] at hleft
    exact hleft.setKeyNum fun h => (hCA h).1
  have hns' : node'.keysNum ≤ slots := by
    have h1 := hnode.keysNum_eq
    have h2 := hnode'.keysNum_eq
    simp only [List.length_append, List.length_cons] at h1 h2
    omega
  unfold splitPages
  rw [hright, ok_bind, hopen, ok_bind]
  cases median with
  | none => exact ⟨node', _, right', x, rfl, hnode', by simp, hleft', hright'⟩
  | some i =>
    have hi : i < left.keysNum := by
      rw [hleft.keysNum_eq]
      exact (List.getElem?_eq_some_iff.mp (hm i rfl)).1
    have hkey : left.key i = m := by
      have := hm i rfl
      rw [← hleft.keys_eq, Page.keyList, List.getElem?_eq_some_iff] at this
      obtain ⟨h1, h2⟩ := this
      rw [slice_getElem, Nat.zero_add] at h2
      exact h2
    obtain ⟨node'', hcopy, hnode''⟩ := hnode'.copyKey hns' m
    simp only
    rw [Page.getKey_ok hi hls, ok_bind, hkey, hcopy, ok_bind]
    exact ⟨node'', _, right', m, rfl, hnode'', fun _ => rfl, hleft', hright'⟩

/-- A key buffer filled with two runs of keys. -/
theorem slice_concat {α : Type} (d : ℕ → α) {s t : ℕ → α} {m n : ℕ} {xs ys : List α}
    (hx : slice s 0 m = xs) (hy : slice t 0 n = ys) :
    slice (blit (blit d 0 s 0 m) m t 0 n) 0 (m + n) = xs ++ ys :=
  slice_append_blit (slice_blit_front _ hx) hy

/-- A run of a buffer that starts behind `xs`. -/
theorem slice_run {α : Type} {s : ℕ → α} {n : ℕ} {xs ys zs : List α}
    (h : slice s 0 n = xs ++ (ys ++ zs)) :
    slice (fun j => s (xs.length + j)) 0 ys.length = ys := by
  rw [slice_shift, Nat.add_zero]
  exact (slice_eq_append (slice_drop h)).1

variable [Inhabited κ]

/-- The pages of `BaseBStarTree::splitChildren`: the keys of the left page, the key between both and
the keys of the right page are `X`, `a`, `Y`, `b`, `Z`. -/
theorem splitChildrenPages_spec {node left middle right : Page κ} {leaf : Bool}
    {K1 K2 LK RK X Y Z : List κ} {C1 C2 LC RC CX CY CZ : List ℕ} {cl cr : ℕ} {s a b : κ} (mid : ℕ)
    (hnode : node.Holds false (K1 ++ s :: K2) (C1 ++ cl :: cr :: C2)) (hC : C1.length = K1.length)
    (hns : node.keysNum + 1 ≤ slots)
    (hleft : left.Holds leaf LK LC) (hls : left.keysNum ≤ slots)
    (hright : right.Holds leaf RK RC) (hrs : right.keysNum ≤ slots)
    (hml : middle.isLeaf = leaf) (hmn : middle.keysNum = Y.length)
    (hG : LK ++ s :: RK = X ++ a :: (Y ++ b :: Z)) (hGc : LC ++ RC = CX ++ (CY ++ CZ))
    (hCX : leaf = false → CX.length = X.length + 1) (hCY : leaf = false → CY.length = Y.length + 1)
    (hX : X.length ≤ slots) (hY : Y.length ≤ slots) (hZ : Z.length ≤ slots) :
    ∃ node' left' middle' right', splitChildrenPages slots node left middle right mid K1.length
        X.length Y.length Z.length = .ok (node', left', middle', right') ∧
      node'.Holds false (K1 ++ a :: b :: K2) (C1 ++ cl :: mid :: cr :: C2) ∧
      left'.Holds leaf X CX ∧ middle'.Holds leaf Y CY ∧ right'.Holds leaf Z CZ := by
  have hln := hleft.keysNum_eq
  have hrn := hright.keysNum_eq
  have hGlen : LK.length + 1 + RK.length = X.length + (1 + (Y.length + (1 + Z.length))) := by
    have := congrArg List.length hG
    simp only [List.length_append, List.length_cons] at this
    omega
  -- the buffer of keys
  obtain ⟨keys, hkeysdef, hkeys⟩ : ∃ keys, keys = blit (Function.update
      (blit (fun _ => default) 0 left.key 0 left.keysNum) left.keysNum s)
      (left.keysNum + 1) right.key 0 right.keysNum ∧
      slice keys 0 (left.keysNum + 1 + right.keysNum) = X ++ a :: (Y ++ b :: Z) := by
    refine ⟨_, rfl, ?_⟩
    rw [← hG, slice_append_blit (slice_append_one s (slice_blit_front _ hleft.keys)) hright.keys]
    simp
  have hka : keys X.length = a := slice_at hkeys
  have hkeysb : slice keys 0 (left.keysNum + 1 + right.keysNum) = (X ++ a :: Y) ++ b :: Z := by
    rw [hkeys]; simp
  have hkb : keys (X.length + Y.length + 1) = b := by
    have := slice_at hkeysb
    rwa [List.length_append, List.length_cons, ← Nat.add_assoc] at this
  have hkeysY : slice keys 0 (left.keysNum + 1 + right.keysNum) =
      (X ++ [a]) ++ (Y ++ b :: Z) := by rw [hkeys]; simp
  have hkY := slice_run hkeysY
  rw [List.length_append, List.length_singleton] at hkY
  have hkeysZ : slice keys 0 (left.keysNum + 1 + right.keysNum) =
      (X ++ a :: (Y ++ [b])) ++ (Z ++ []) := by rw [hkeys]; simp
  have hkZ := slice_run hkeysZ
  rw [show (X ++ a :: (Y ++ [b])).length = X.length + Y.length + 2 by simp; omega] at hkZ
  -- the three children and the parent
  have hns₀ : node.keysNum ≤ slots := by omega
  have hms : middle.keysNum ≤ slots := by omega
  obtain ⟨left₁, hl1, hl1l, hl1n, hl1k⟩ := (left.setKeyNum X.length).copyKeys_front rfl hX
    (slice_take hkeys)
  obtain ⟨middle₁, hm1, hm1l, hm1n, hm1k⟩ := middle.copyKeys_front hmn hms hkY
  obtain ⟨right₁, hr1, hr1l, hr1n, hr1k⟩ := (right.setKeyNum Z.length).copyKeys_front rfl hZ hkZ
  obtain ⟨node₁, hn1, hnode₁⟩ := hnode.copyKey hns₀ a
  have hns₁ : node₁.keysNum + 1 ≤ slots := by
    rw [hnode₁.keysNum_eq]
    rw [hnode.keysNum_eq] at hns
    simpa using hns
  obtain ⟨node₂, hn2, hnode₂⟩ := hnode₁.openBetween b mid hC hns₁
  have htail : ∀ L M R : Page κ, (do
      let node ← node.copyKey slots K1.length (keys X.length)
      let parentKeysNum := node.keysNum + 1
      let node := node.setKeyNum parentKeysNum
      let node ← forDown (fun j node => node.moveKey slots (j + 1) j) K1.length
        (parentKeysNum - 1 - K1.length) node
      let node ← node.copyKey slots (K1.length + 1) (keys (X.length + Y.length + 1))
      let node ← forDown (fun j node => node.moveCursor slots (j + 1) j) (K1.length + 1)
        (parentKeysNum - (K1.length + 1)) node
      let node ← node.setCursor slots (K1.length + 1) mid
      return (node, L, M, R)) = (.ok (node₂, L, M, R) :
          Except Err (Page κ × Page κ × Page κ × Page κ)) := by
    intro L M R
    rw [hka, hkb, hn1, ok_bind]
    dsimp only
    simp only [← bind_assoc] at hn2 ⊢
    rw [hn2]
    rfl
  unfold splitChildrenPages
  dsimp only
  rw [Page.readKeys_all hls, ok_bind, hln, hnode.getKey (by omega), ok_bind, Page.readKeys_all hrs,
    ok_bind, ← hln, ← hkeysdef, hl1, ok_bind, hm1, ok_bind, hr1, ok_bind]
  cases leaf with
  | true =>
    obtain rfl : CX = [] := by
      have := hleft.cursors_nil; have := hright.cursors_nil; simp_all
    obtain rfl : CY = [] := by
      have := hleft.cursors_nil; have := hright.cursors_nil; simp_all
    obtain rfl : CZ = [] := by
      have := hleft.cursors_nil; have := hright.cursors_nil; simp_all
    rw [if_pos hleft.leaf_eq]
    refine ⟨_, _, _, _, htail _ _ _, hnode₂, Page.holds_leaf (hl1l.trans hleft.leaf_eq) hl1n hl1k,
      Page.holds_leaf (hm1l.trans hml) hm1n hm1k, Page.holds_leaf (hr1l.trans hright.leaf_eq) hr1n
      hr1k⟩
  | false =>
    have hCX := hCX rfl
    have hCY := hCY rfl
    have hlc := hleft.length_cursors
    have hrc := hright.length_cursors
    have hGclen := congrArg List.length hGc
    simp only [List.length_append] at hGclen
    obtain ⟨cursors, hcdef, hcursors⟩ : ∃ cursors, cursors = blit (blit (fun _ => 0) 0 left.cursor 0
        (left.keysNum + 1)) (left.keysNum + 1) right.cursor 0 (right.keysNum + 1) ∧
        slice cursors 0 (left.keysNum + 1 + (right.keysNum + 1)) = CX ++ (CY ++ CZ) :=
      ⟨_, rfl, by rw [← hGc]; exact slice_concat _ hleft.cursors hright.cursors⟩
    have hcZ : slice cursors 0 (left.keysNum + 1 + (right.keysNum + 1)) =
        (CX ++ CY) ++ (CZ ++ []) := by rw [hcursors]; simp
    have hsY := slice_run hcursors
    have hsZ := slice_run hcZ
    rw [hCX] at hsY
    rw [List.length_append, hCX, hCY,
      show X.length + 1 + (Y.length + 1) = X.length + Y.length + 2 by omega] at hsZ
    have hl1s : left₁.keysNum ≤ slots := by omega
    have hm1s : middle₁.keysNum ≤ slots := by omega
    have hr1s : right₁.keysNum ≤ slots := by omega
    obtain ⟨left₂, hl2, hleft₂⟩ := left₁.copyCursors_front (hl1l.trans hleft.leaf_eq) hl1n hl1k
      hl1s hCX (slice_take hcursors)
    obtain ⟨middle₂, hm2, hmiddle₂⟩ := middle₁.copyCursors_front (hm1l.trans hml) hm1n hm1k
      hm1s hCY hsY
    obtain ⟨right₂, hr2, hright₂⟩ := right₁.copyCursors_front (hr1l.trans hright.leaf_eq) hr1n hr1k
      hr1s (by omega) hsZ
    rw [if_neg (by simp [hleft.leaf_eq]), Page.readCursors_all hls, ok_bind, Page.readCursors_all hrs,
      ok_bind, ← hcdef, hl2, ok_bind, hm2, ok_bind, hr2, ok_bind]
    exact ⟨_, _, _, _, htail _ _ _, hnode₂, hleft₂, hmiddle₂, hright₂⟩

/-- The pages of `BaseBStarPlusTree::splitChildren` on leaves: the keys of both leaves are `X`, `Y`,
`Z`. The key of the parent is there twice. -/
theorem splitLeavesPages_spec {node left middle right : Page κ}
    {K1 K2 LK RK X Y Z : List κ} {C1 C2 LC RC : List ℕ} {cl cr : ℕ} {s : κ} (mid : ℕ)
    (hnode : node.Holds false (K1 ++ s :: K2) (C1 ++ cl :: cr :: C2)) (hC : C1.length = K1.length)
    (hns : node.keysNum + 1 ≤ slots)
    (hleft : left.Holds true LK LC) (hls : left.keysNum ≤ slots)
    (hright : right.Holds true RK RC) (hrs : right.keysNum ≤ slots)
    (hml : middle.isLeaf = true) (hmn : middle.keysNum = Y.length)
    (hG : LK ++ RK = X ++ (Y ++ Z))
    (hX : X.length ≤ slots) (hY : Y.length ≤ slots) (hZ : Z.length ≤ slots) :
    ∃ node' left' middle' right', splitLeavesPages slots node left middle right mid K1.length
        X.length Y.length Z.length = .ok (node', left', middle', right') ∧
      node'.Holds false (K1 ++ s :: s :: K2) (C1 ++ cl :: mid :: cr :: C2) ∧
      left'.Holds true X [] ∧ middle'.Holds true Y [] ∧ right'.Holds true Z [] := by
  obtain ⟨keys, hkeysdef, hkeys⟩ : ∃ keys, keys = blit (blit (fun _ => default) 0 left.key 0
      left.keysNum) left.keysNum right.key 0 right.keysNum ∧
      slice keys 0 (left.keysNum + right.keysNum) = X ++ (Y ++ Z) :=
    ⟨_, rfl, by rw [← hG]; exact slice_concat _ hleft.keys hright.keys⟩
  have hkY := slice_run hkeys
  have hkeysZ : slice keys 0 (left.keysNum + right.keysNum) = (X ++ Y) ++ (Z ++ []) := by
    rw [hkeys]; simp
  have hkZ := slice_run hkeysZ
  rw [List.length_append] at hkZ
  have hms : middle.keysNum ≤ slots := by omega
  obtain ⟨left₁, hl1, hl1l, hl1n, hl1k⟩ := (left.setKeyNum X.length).copyKeys_front rfl hX
    (slice_take hkeys)
  obtain ⟨middle₁, hm1, hm1l, hm1n, hm1k⟩ := middle.copyKeys_front hmn hms hkY
  obtain ⟨right₁, hr1, hr1l, hr1n, hr1k⟩ := (right.setKeyNum Z.length).copyKeys_front rfl hZ hkZ
  obtain ⟨key, hshift, hkey⟩ := hnode.shiftKeys hns
  obtain ⟨cursor, hcur, hcursor⟩ := hnode.shiftCursors key mid hns
  rw [hC] at hcur
  unfold splitLeavesPages
  dsimp only
  rw [Page.readKeys_all hls, ok_bind, Page.readKeys_all hrs, ok_bind, ← hkeysdef, hl1, ok_bind, hm1,
    ok_bind, hr1, ok_bind, hshift, ok_bind, ← bind_assoc, hcur]
  refine ⟨_, _, _, _, rfl, ⟨hnode.leaf_eq, hkey, ?_⟩, Page.holds_leaf (hl1l.trans hleft.leaf_eq)
    hl1n hl1k, Page.holds_leaf (hm1l.trans hml) hm1n hm1k,
    Page.holds_leaf (hr1l.trans hright.leaf_eq) hr1n hr1k⟩
  rw [if_neg (by simp)]
  exact hcursor

end BTreesMods

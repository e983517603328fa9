import BTreesMods.Removal.PrepareBTree

/-!
# A key from the neighbour of a neighbour

Where the direct neighbour of the first or the last child has no key to spare,
`BaseBStarTree::prepareSubtree` takes one through that neighbour from the page behind it.
-/

namespace BTreesMods

variable {κ : Type}

section

variable {T : Cfg κ} {s s1 s2 : BTree κ} {R : Multiset ℕ} {ref ref1 ref2 : PageRef κ} {h p : ℕ}
  {f g f' g' f2 : Focus κ} {b c d e : Node κ} {K1 K2 : List κ} {P S : List (Node κ)} {x x' : κ}

/-! ## Two steps -/

/-- Two rebalancing steps below a node, the first one beside the child. -/
theorem Readied.trans (h1 : Readied T s R h p g s1 ref1 g') (h2 : Readied T s1 R h p f' s2 ref2 f2)
    (hg : g.node p = f.node p) (hg' : g'.node p = f'.node p)
    (hlen : (f'.node p).keys.length = (f.node p).keys.length) (hlast : f.keysR = [] → f'.keysR = []) :
    Readied T s R h p f s2 ref2 f2 where
  stands := h2.stands
  frame := h1.frame.trans h2.frame
  sized := h2.sized
  ready := h2.ready
  keys_le := hlen ▸ h2.keys_le
  le_keys := hlen ▸ h2.le_keys
  keeps := fun hne => h2.keeps (by rw [← hg']; exact h1.keeps (by rwa [hg]))
  last := fun hnil => h2.last (hlast hnil)

theorem OrderKept.trans (h1 : OrderKept T h p g g') (h2 : OrderKept T h p f' f2)
    (hg : g.node p = f.node p) (hg' : g'.node p = f'.node p)
    (hsplits : ∀ k, f.Splits T.compare k → f'.Splits T.compare k) : OrderKept T h p f f2 where
  thinned := by
    have hth := h1.thinned
    rw [hg, hg'] at hth
    exact hth.trans h2.thinned
  splits := fun k hs hk => by
    have hth := h1.thinned
    rw [hg, hg'] at hth
    exact h2.splits k (hth.sorted hs) (hsplits k hk)

theorem Rotated.page_eq {n : Node κ} (hrot : Rotated T h f n) : n.page = f.kid.page := by
  cases hrot with
  | fromLeft hkeys hkids hrich hl hlk hX => rfl
  | fromRight hleft hkeys hkids hrich hr hrk hX => rfl

/-- A right child with a rich left neighbour gets its key from there. -/
theorem Rotated.right_eq {n : Node κ} {hP : P.length = K1.length}
    (hrot : Rotated T h (Focus.rightOf K1 x K2 P c d S hP) n) (hc : T.minKeys < c.keys.length) :
    ∃ LC X, c.kids = LC ++ X ∧ (h ≠ 0 → X.length = 1) ∧ n = ⟨d.page, x :: d.keys, X ++ d.kids⟩ := by
  cases hrot with
  | @fromLeft K LK P' LC X l z y hkeys hkids hrich hl hlk hX =>
    obtain ⟨-, hz⟩ := List.append_inj' (show K1 ++ [x] = K ++ [z] from hkeys) rfl
    obtain ⟨-, hc'⟩ := List.append_inj' (show P ++ [c] = P' ++ [l] from hkids) rfl
    obtain rfl := List.singleton_inj.mp hz
    obtain rfl := List.singleton_inj.mp hc'
    exact ⟨LC, X, hlk, hX, rfl⟩
  | fromRight hleft hkeys hkids hrich hr hrk hX =>
    have := hleft c (by simp [Focus.rightOf])
    omega

/-- A left child with a poor left neighbour gets its key from the right. -/
theorem Rotated.left_eq {n : Node κ} {hP : P.length = K1.length}
    (hrot : Rotated T h (Focus.leftOf K1 x K2 P c d S hP) n)
    (hleft : ∀ l ∈ P.getLast?, l.keys.length ≤ T.minKeys) :
    ∃ X RC, d.kids = X ++ RC ∧ (h ≠ 0 → X.length = 1) ∧ n = ⟨c.page, c.keys ++ [x], c.kids ++ X⟩ := by
  cases hrot with
  | @fromLeft K LK P' LC X l z y hkeys hkids hrich hl hlk hX =>
    have := hleft l (by
      rw [show P = P' ++ [l] from hkids, List.getLast?_concat]
      rfl)
    omega
  | @fromRight K RK S' X RC r z y _ hkeys hkids hrich hr hrk hX =>
    obtain ⟨rfl, -⟩ := List.cons.inj (show x :: K2 = z :: K from hkeys)
    obtain ⟨rfl, -⟩ := List.cons.inj (show d :: S = r :: S' from hkids)
    exact ⟨X, RC, hrk, hX, rfl⟩

/-- A page has as many children as a rotation takes from it, also after it got `X0` from a neighbour. -/
theorem Rep.length_le_kids {page : ℕ → Page κ} {X Y : List (Node κ)} (hb : Rep page h b)
    (hc : Rep page h c) (hY : Y.length ≤ b.kids.length) (hX : h ≠ 0 → X.length = 1)
    (hlen : X.length ≤ Y.length + c.kids.length) : X.length ≤ c.kids.length := by
  cases h with
  | zero =>
    have hbk : b.kids = [] := hb.below
    rw [hbk, List.length_nil] at hY
    omega
  | succ h =>
    rw [hX (Nat.succ_ne_zero h), hc.length_kids]
    omega

/-! ## From the left -/

/-- `moveOneKeyFromLeft` twice, from `b` to `c` and from `c` to `d`. -/
theorem rotateTwiceLeft_readied (hlt : StrictWeak T.compare) (hsep : T.tokenAt h = T.sep)
    (hmin : T.minOf h = T.minKeys) (hmax : T.minKeys < T.maxOf h) (hT : T.Valid)
    (hs : Stands s R ref (h + 1) ⟨p, K1 ++ x :: x' :: K2, P ++ ([b, c, d] ++ S)⟩)
    (hP : P.length = K1.length) (hslots : (K1 ++ x :: x' :: K2).length ≤ T.slots)
    (hsz : SizedBelow T (h + 1) (P ++ ([b, c, d] ++ S))) (hb : T.minKeys < b.keys.length)
    (hc : c.keys.length = T.minKeys) (hd : d.keys.length = T.minKeys)
    (hfnode : f.node p = ⟨p, K1 ++ x :: x' :: K2, P ++ ([b, c, d] ++ S)⟩)
    (hfL : f.keysL = K1 ++ [x, x']) (hfR : f.keysR = K2) :
    Returns (do
      let (_, leftNeighbour, currentPage) ←
        moveOneKeyFromLeft T (s.wrapper b.page) (s.wrapper c.page) ref (K1.length + 1)
      moveOneKeyFromLeft T leftNeighbour (s.wrapper d.page) currentPage (K1.length + 2)) s
      fun r s2 => ∃ ref2 f2, r.2 = (s2.wrapper f2.kid.page, ref2) ∧
        Readied T s R h p f s2 ref2 f2 ∧ OrderKept T h p f f2 ∧ ∃ LC X, c.kids = LC ++ X ∧
          (h ≠ 0 → X.length = 1) ∧ f2.kid = ⟨d.page, x' :: d.keys, X ++ d.kids⟩ := by
  have hne := hs.toHeld.nodup_mid
  simp only [List.map_cons, List.map_nil, List.nodup_cons, List.mem_cons, List.not_mem_nil, or_false,
    not_or] at hne
  obtain ⟨⟨-, -, hpd⟩, ⟨-, hbd⟩, hcd, -⟩ := hne
  have hs' : Stands s R ref (h + 1) ⟨p, K1 ++ x :: (x' :: K2), P ++ ([b, c] ++ (d :: S))⟩ := hs
  refine (rotateLeft_readied hlt hsep hmin hmax hT hs' hP hslots hsz hc hb).bind ?_
  rintro _ s1 ⟨ref1, f1, rfl, hready, hkept, hrot, ⟨y, b', hf1, -⟩, hother⟩
  -- the pages of the second step
  have hP' : (P ++ [b']).length = (K1 ++ [y]).length := by simp [hP]
  have hnode1 : f1.node p = (Focus.rightOf (K1 ++ [y]) x' K2 (P ++ [b']) f1.kid d S hP').node p := by
    conv_lhs => rw [hf1]
    rw [Focus.rightOf_node, Focus.rightOf_node]
    simp
  have hs1 := hready.stands
  have hsz1 := hready.sized
  rw [hnode1, Focus.rightOf_node] at hs1 hsz1
  have hcpage : f1.kid.page = c.page := hrot.page_eq
  have hwd : s.wrapper d.page = s1.wrapper d.page := by
    rw [BTree.wrapper, BTree.wrapper, hother d.page (Ne.symm hpd) (Ne.symm hbd) (Ne.symm hcd)]
  have hck : T.minKeys < f1.kid.keys.length := by
    have := hready.ready
    omega
  have hlen1 : ((K1 ++ [y]) ++ x' :: K2).length = (K1 ++ x :: x' :: K2).length := by simp
  have hstep := rotateLeft_readied hlt hsep hmin hmax hT hs1 hP' (by rw [hlen1]; exact hslots) hsz1 hd hck
  rw [List.length_append, List.length_singleton] at hstep
  dsimp only
  rw [hwd]
  refine hstep.mono ?_
  rintro _ s2 ⟨ref2, f2, rfl, hready2, hkept2, hrot2, -, -⟩
  -- the last child that `c` gives away was one of its own
  obtain ⟨hbkids, X0, hb0, -, hf1kid⟩ := hrot.right_eq hb
  obtain ⟨LC, X, hlk, hX, hf2kid⟩ := hrot2.right_eq hck
  have hkids : X0 ++ c.kids = LC ++ X := (congrArg Node.kids hf1kid).symm.trans hlk
  have hlen := congrArg List.length hkids
  rw [List.length_append, List.length_append] at hlen
  obtain ⟨-, hrb, hrc⟩ := hs'.holds_pair
  obtain ⟨LC', hLC'⟩ := List.suffix_of_suffix_length_le (List.suffix_append LC X)
    (hkids ▸ List.suffix_append X0 c.kids) (hrb.length_le_kids (Y := X0) hrc (by simp [hb0]) hX (by omega))
  refine ⟨ref2, f2, rfl, hready.trans hready2 ?_ hnode1 ?_ ?_, hkept.trans hkept2 ?_ hnode1 ?_,
    LC', X, hLC'.symm, hX, hf2kid⟩
  · rw [Focus.rightOf_node, hfnode]
    rfl
  · rw [Focus.rightOf_node, hfnode]
    exact hlen1
  · intro hnil
    rw [hfR] at hnil
    exact hnil
  · rw [Focus.rightOf_node, hfnode]
    rfl
  · intro k hk
    refine ⟨fun z hz => hk.lt_left z ?_, fun z hz => hk.lt_right z ?_⟩
    · simpa [hfL, Focus.rightOf] using hz
    · simpa [hfR, Focus.rightOf] using hz

/-! ## From the right -/

/-- `moveOneKeyFromRight` twice, from `e` to `d` and from `d` to `c`. -/
theorem rotateTwiceRight_readied (hlt : StrictWeak T.compare) (hsep : T.tokenAt h = T.sep)
    (hmin : T.minOf h = T.minKeys) (hmax : T.minKeys < T.maxOf h) (hT : T.Valid)
    (hs : Stands s R ref (h + 1) ⟨p, x :: x' :: K2, [c, d, e] ++ S⟩)
    (hslots : (x :: x' :: K2).length ≤ T.slots)
    (hsz : SizedBelow T (h + 1) ([c, d, e] ++ S)) (hc : c.keys.length = T.minKeys)
    (hd : d.keys.length = T.minKeys) (he : T.minKeys < e.keys.length)
    (hfnode : f.node p = ⟨p, x :: x' :: K2, [c, d, e] ++ S⟩)
    (hfR : f.keysR = x :: x' :: K2) :
    Returns (do
      let (_, rightNeighbour, currentPage) ←
        moveOneKeyFromRight T (s.wrapper e.page) (s.wrapper d.page) ref 1
      moveOneKeyFromRight T rightNeighbour (s.wrapper c.page) currentPage 0) s
      fun r s2 => ∃ ref2 f2, r.2 = (s2.wrapper f2.kid.page, ref2) ∧
        Readied T s R h p f s2 ref2 f2 ∧ OrderKept T h p f f2 ∧ ∃ X RC, d.kids = X ++ RC ∧
          (h ≠ 0 → X.length = 1) ∧ f2.kid = ⟨c.page, c.keys ++ [x], c.kids ++ X⟩ := by
  have hs' : Stands s R ref (h + 1) ⟨p, [x] ++ x' :: K2, [c] ++ ([d, e] ++ S)⟩ := hs
  have hne := (show Stands s R ref (h + 1) ⟨p, x :: x' :: K2, [] ++ ([c, d, e] ++ S)⟩ from
    hs).toHeld.nodup_mid
  simp only [List.map_cons, List.map_nil, List.nodup_cons, List.mem_cons, List.not_mem_nil, or_false,
    not_or] at hne
  obtain ⟨⟨hpc, -, -⟩, ⟨hcd, hce⟩, -⟩ := hne
  refine (rotateRight_readied hlt hsep hmin hmax hT hs' rfl hslots hsz hd he
    (by simp [hc])).bind ?_
  rintro _ s1 ⟨ref1, f1, rfl, hready, hkept, hrot, ⟨y, e', hf1, -⟩, hother⟩
  have hnode1 : f1.node p = (Focus.leftOf [] x (y :: K2) [] c f1.kid (e' :: S) rfl).node p := by
    conv_lhs => rw [hf1]
    rw [Focus.leftOf_node, Focus.leftOf_node]
    simp
  have hs1 := hready.stands
  have hsz1 := hready.sized
  rw [hnode1, Focus.leftOf_node] at hs1 hsz1
  have hdpage : f1.kid.page = d.page := hrot.page_eq
  have hwc : s.wrapper c.page = s1.wrapper c.page := by
    rw [BTree.wrapper, BTree.wrapper, hother c.page (Ne.symm hpc) hcd hce]
  have hdk : T.minKeys < f1.kid.keys.length := by
    have := hready.ready
    omega
  have hstep := rotateRight_readied hlt hsep hmin hmax hT hs1 rfl hslots hsz1 hc hdk (by simp)
  dsimp only
  rw [hwc]
  refine hstep.mono ?_
  rintro _ s2 ⟨ref2, f2, rfl, hready2, hkept2, hrot2, -, -⟩
  -- the first child that `d` gives away was one of its own
  obtain ⟨X0, hekids, he0, -, hf1kid⟩ := hrot.left_eq (by simp [hc])
  obtain ⟨X, RC, hrk, hX, hf2kid⟩ := hrot2.left_eq (by simp)
  have hkids : d.kids ++ X0 = X ++ RC := (congrArg Node.kids hf1kid).symm.trans hrk
  have hlen := congrArg List.length hkids
  rw [List.length_append, List.length_append] at hlen
  obtain ⟨-, hrd, hre⟩ := hs'.holds_pair
  obtain ⟨RC', hRC'⟩ := List.prefix_of_prefix_length_le (List.prefix_append X RC)
    (hkids ▸ List.prefix_append d.kids X0) (hre.length_le_kids (Y := X0) hrd (by simp [he0]) hX (by omega))
  refine ⟨ref2, f2, rfl, hready.trans hready2 ?_ hnode1 ?_ ?_, hkept.trans hkept2 ?_ hnode1 ?_,
    X, RC', hRC'.symm, hX, hf2kid⟩
  · rw [Focus.leftOf_node, hfnode]
    rfl
  · rw [Focus.leftOf_node, hfnode]
    rfl
  · intro hnil
    rw [hfR] at hnil
    cases hnil
  · rw [Focus.leftOf_node, hfnode]
    rfl
  · intro k hk
    refine ⟨by simp [Focus.leftOf], fun z hz => hk.lt_right z ?_⟩
    simpa [hfR, Focus.leftOf] using hz

end

end BTreesMods

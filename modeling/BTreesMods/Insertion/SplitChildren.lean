import BTreesMods.Insertion.ShareInsert

/-!
# Splitting two children into three

`splitChildren` of the B*-tree and the B*+-tree: a full child and its sibling, which is full or lacks
one key, become three children. The three numbers of keys that `setOrder` computes add up to the
keys that there are, in the full and in the short variant, with and without keys between the runs.
-/

namespace BTreesMods

variable {κ : Type}

/-! ## Numbers of keys -/

/-- The three floor divisions of `setOrder` lose nothing. -/
theorem thirds {m : ℕ} (hm : 1 ≤ m) : (2 * m - 1) / 3 + 2 * m / 3 + (2 * m + 1) / 3 = 2 * m - 1 := by
  obtain ⟨q, rfl | rfl | rfl⟩ : ∃ q, m = 3 * q ∨ m = 3 * q + 1 ∨ m = 3 * q + 2 :=
    ⟨m / 3, by omega⟩
  all_goals omega

/-- The runs of a full or short split use up all keys, and are not full. -/
theorem split_numbers {T : Cfg κ} (hT : T.Valid) (hk : T.treeType.isStar = true) {n : ℕ}
    {isShort : Bool} (hn : n + (if isShort then 1 else 0) = 2 * T.maxKeys) :
    n + 1 = T.leftSplitProductKeys + 1 + (T.middleSplitProductKeys + 1 +
        T.getRightSplitProductKeys isShort) ∧
      (T.treeType = .bStarPlusTree →
        n = T.leftSplitProductKeys + (T.middleLeafSplitProductKeys +
          T.getRightSplitProductKeys isShort) ∧
        T.minKeys ≤ T.middleLeafSplitProductKeys ∧ T.middleLeafSplitProductKeys < T.maxKeys) ∧
      (T.minKeys ≤ T.leftSplitProductKeys ∧ T.leftSplitProductKeys < T.maxKeys) ∧
      (T.minKeys ≤ T.middleSplitProductKeys ∧ T.middleSplitProductKeys < T.maxKeys) ∧
      (T.minKeys ≤ T.getRightSplitProductKeys isShort ∧
        T.getRightSplitProductKeys isShort < T.maxKeys) := by
  obtain ⟨m, hm, -, hmin, rfl, -, hleft, hmiddle, hright, hshort, -, hleaf⟩ := valid_star hT hk
  have hsum := thirds (by omega : 1 ≤ T.maxKeys)
  cases isShort with
  | false =>
    simp only [Params.getRightSplitProductKeys, Bool.false_eq_true, if_false] at hn ⊢
    rw [hright, hmin, hleft, hmiddle]
    refine ⟨by omega, fun hk' => ?_, by omega, by omega, by omega⟩
    rw [hleaf hk']
    omega
  | true =>
    simp only [Params.getRightSplitProductKeys, if_true] at hn ⊢
    rw [hshort, hmin, hleft, hmiddle]
    refine ⟨by omega, fun hk' => ?_, by omega, by omega, by omega⟩
    rw [hleaf hk']
    omega

section

variable {T : Cfg κ} {s s1 : BTree κ} {R : Multiset ℕ} {ref : PageRef κ} {h p q : ℕ}
  {c d c' e d' : Node κ} {K1 K2 : List κ} {P S : List (Node κ)} {x a b : κ} {nd cd ed dd : Page κ}

/-! ## Three children that are written -/

/-- The writes of a split of two children into three, after the allocation of page `q`. -/
theorem Held.writeThree (hs : Held s R ref (h + 1) ⟨p, K1 ++ x :: K2, P ++ ([c, d] ++ S)⟩)
    (hf1 : Frame s s1 ((⟨p, K1 ++ x :: K2, P ++ ([c, d] ++ S)⟩ : Node κ).pages (h + 1) + R))
    (hroot1 : s1.rootPage = s.rootPage)
    (hst1 : Store s1 ({q} + ((⟨p, K1 ++ x :: K2, P ++ ([c, d] ++ S)⟩ : Node κ).pages (h + 1) + R)))
    (hq : q ∉ (⟨p, K1 ++ x :: K2, P ++ ([c, d] ++ S)⟩ : Node κ).pages (h + 1) + R)
    (hnd : (⟨p, K1 ++ a :: b :: K2, P ++ ([c', e, d'] ++ S)⟩ : Node κ).On (h + 1) nd)
    (hc : c'.On h cd) (he : e.On h ed) (hd : d'.On h dd) (hcp : c'.page = c.page) (hep : e.page = q)
    (hdp : d'.page = d.page) (hkids : c'.kids ++ (e.kids ++ d'.kids) = c.kids ++ d.kids) :
    Returns (writeSplitChildren ref ⟨p, nd⟩ ⟨c.page, cd⟩ ⟨q, ed⟩ ⟨d.page, dd⟩) s1 fun ref2 s2 =>
      Frame s s2 R ∧
      Stands s2 R ref2 (h + 1) ⟨p, K1 ++ a :: b :: K2, P ++ ([c', e, d'] ++ S)⟩ ∧
      s2.wrapper c.page = ⟨c.page, cd⟩ ∧ s2.wrapper q = ⟨q, ed⟩ ∧
      s2.wrapper d.page = ⟨d.page, dd⟩ := by
  have hcQ : c.page ∈ (⟨p, K1 ++ x :: K2, P ++ ([c, d] ++ S)⟩ : Node κ).pages (h + 1) + R :=
    kid_page_mem (by simp)
  have hdQ : d.page ∈ (⟨p, K1 ++ x :: K2, P ++ ([c, d] ++ S)⟩ : Node κ).pages (h + 1) + R :=
    kid_page_mem (by simp)
  have hpq : p ≠ q := fun heq => hq (heq ▸ page_mem_add _ _ _)
  have hcq : c.page ≠ q := fun heq => hq (heq ▸ hcQ)
  have hdq : d.page ≠ q := fun heq => hq (heq ▸ hdQ)
  have hpcd := hs.nodup_mid
  have hmid : [c', e, d'].flatMap Node.kids = [c, d].flatMap Node.kids := by simpa using hkids
  have hl : (p :: [(c.page, cd), (q, ed), (d.page, dd)].map Prod.fst).Nodup := by
    simp only [List.map_cons, List.map_nil, List.nodup_cons, List.mem_cons, List.not_mem_nil,
      or_false, not_or, not_false_eq_true, List.nodup_nil, and_true] at hpcd ⊢
    exact ⟨⟨hpcd.1.1, hpq, hpcd.1.2⟩, ⟨hcq, hpcd.2⟩, hdq.symm⟩
  have hst : Store s1 ((⟨p, K1 ++ a :: b :: K2, P ++ ([c', e, d'] ++ S)⟩ : Node κ).pages (h + 1) + R) := by
    convert hst1 using 1
    rw [pages_mid, pages_mid, hmid]
    simp only [List.map_cons, List.map_nil, hcp, hep, hdp, coe_page_cons, Multiset.coe_nil]
    abel
  have hnew : ∀ z ∈ [(c.page, cd), (q, ed), (d.page, dd)].map Prod.fst,
      z ∈ [c, d].map Node.page ∨
      z ∉ (⟨p, K1 ++ x :: K2, P ++ ([c, d] ++ S)⟩ : Node κ).pages (h + 1) + R := by
    intro z hz
    simp only [List.map_cons, List.map_nil, List.mem_cons, List.not_mem_nil, or_false] at hz ⊢
    rcases hz with rfl | rfl | rfl
    · exact Or.inl (Or.inl rfl)
    · exact Or.inr hq
    · exact Or.inl (Or.inr rfl)
  obtain ⟨hstands, hframe⟩ := hs.commit hf1 hroot1 hst hl hnew hnd
    (by
      simp only [List.mem_cons, List.not_mem_nil, or_false, forall_eq_or_imp, forall_eq]
      exact ⟨⟨cd, by simp [hcp], hc⟩, ⟨ed, by simp [hep], he⟩, dd, by simp [hdp], hd⟩)
    hmid
  have hst2 := hst1.assign ref ⟨p, nd⟩
  have hst3 := hst2.write c.page cd
  have hst4 := hst3.write q ed
  have hst5 := hst4.write d.page dd
  refine Returns.step (store_run s1 ref ⟨p, nd⟩) (Returns.step (writePage_run hst2 ?_ cd)
    (Returns.step (writePage_run hst3 (by simp) ed) (Returns.step (writePage_run hst4 ?_ dd)
    (Returns.step (writePage_run hst5 ?_ nd) (Returns.pure ?_)))))
  · exact Multiset.mem_add.mpr (Or.inr hcQ)
  · exact Multiset.mem_add.mpr (Or.inr hdQ)
  · exact Multiset.mem_add.mpr (Or.inr (page_mem_add _ _ _))
  · exact ⟨hframe, hstands, commit_wrapper hl (by simp), commit_wrapper hl (by simp),
      commit_wrapper hl (by simp)⟩

/-- What `splitChildren` does: the children `c` and `d` become three with the keys `a` and `b`
between them. -/
def SplitChildrenPost (T : Cfg κ) (s : BTree κ) (R : Multiset ℕ) (h p : ℕ) (K1 : List κ) (x : κ)
    (K2 : List κ) (P : List (Node κ)) (c d : Node κ) (S : List (Node κ))
    (r : PageRef κ × PageWrapper κ × PageWrapper κ × PageWrapper κ) (s' : BTree κ) : Prop :=
  ∃ ref' c' e d' a b,
    r = (ref', s'.wrapper c'.page, s'.wrapper e.page, s'.wrapper d'.page) ∧ Frame s s' R ∧
    Stands s' R ref' (h + 1) ⟨p, K1 ++ a :: b :: K2, P ++ ([c', e, d'] ++ S)⟩ ∧
    c'.kids ++ (e.kids ++ d'.kids) = c.kids ++ d.kids ∧
    (T.minOf h ≤ c'.keys.length ∧ c'.keys.length < T.maxOf h) ∧
    (T.minOf h ≤ e.keys.length ∧ e.keys.length < T.maxOf h) ∧
    (T.minOf h ≤ d'.keys.length ∧ d'.keys.length < T.maxOf h) ∧
    Regroup (c.tokens T h ++ T.sep x :: d.tokens T h)
      (c'.tokens T h ++ T.sep a :: (e.tokens T h ++ T.sep b :: d'.tokens T h))

/-- The checks at the head of `splitChildren` pass. -/
theorem splitChildrenHead_run (hs : Stands s R ref (h + 1) ⟨p, K1 ++ x :: K2, P⟩)
    (hroom : (K1 ++ x :: K2).length < T.capacity (h + 1) ref) :
    splitChildrenHead T (s.wrapper p) K1.length s = .ok ((), s) := by
  have hfull : isFull T (s.wrapper p) s = .ok (false, s) := by
    rw [← hs.value_eq, isFull_run hs.toHeld]
    simp only [beq_eq_false_iff_ne.mpr (Nat.ne_of_lt hroom)]
  have hkn : (s.wrapper p).data.keysNum = (K1 ++ x :: K2).length := hs.rep.on.keysNum_eq
  unfold splitChildrenHead
  rw [bind_run hfull, if_neg Bool.false_ne_true, if_neg (by rw [hkn]; simp)]
  rfl

theorem exists_key {G : List κ} {l n : ℕ} (hG : G.length = l + (1 + n)) :
    ∃ X y Z, G = X ++ y :: Z ∧ X.length = l ∧ Z.length = n :=
  ⟨G.take l, G[l], G.drop (l + 1), by simp, by rw [List.length_take]; omega,
    by rw [List.length_drop]; omega⟩

theorem exists_append {α : Type} {G : List α} {l n : ℕ} (hG : G.length = l + n) :
    ∃ X Y, G = X ++ Y ∧ X.length = l ∧ Y.length = n :=
  ⟨G.take l, G.drop l, by simp, by rw [List.length_take]; omega, by rw [List.length_drop]; omega⟩

/-- Both routers of `BaseBStarPlusTree::splitChildren` are set. -/
theorem setRouterKeys_spec {A B : List κ}
    (hs : Stands s R ref (h + 1) ⟨p, K1 ++ x :: x :: K2, P ++ ([c, e, d] ++ S)⟩)
    (hP : P.length = K1.length) (hslots : (K1 ++ x :: x :: K2).length ≤ T.slots)
    (hc : c.keys = A ++ [a]) (hcslots : c.keys.length ≤ T.slots) (he : e.keys = B ++ [b])
    (heslots : e.keys.length ≤ T.slots) :
    Returns (setRouterKey T ref K1.length >>= fun node => setRouterKey T node (K1.length + 1)) s
      fun ref1 s1 => Frame s s1 R ∧
        Stands s1 R ref1 (h + 1) ⟨p, K1 ++ a :: b :: K2, P ++ ([c, e, d] ++ S)⟩ ∧
        ∀ z, z ≠ p → s1.wrapper z = s.wrapper z := by
  refine (setRouterKey_spec (P := P) (c := c) (S := e :: d :: S) hs hP hslots hc hcslots).bind
    fun ref1 s1 ⟨hf1, hs1, hother1⟩ => ?_
  have hkeys : K1 ++ a :: x :: K2 = (K1 ++ [a]) ++ x :: K2 := by simp
  have hkids : P ++ c :: e :: d :: S = (P ++ [c]) ++ e :: d :: S := by simp
  have hlen : (K1 ++ [a]).length = K1.length + 1 := by simp
  rw [hkeys, hkids] at hs1
  rw [← hlen]
  refine (setRouterKey_spec (P := P ++ [c]) (c := e) (S := d :: S) hs1 (by simp [hP])
    (by simpa using hslots) he heslots).mono fun ref2 s2 ⟨hf2, hs2, hother2⟩ => ?_
  refine ⟨hf1.trans hf2, ?_, fun z hz => (hother2 z hz).trans (hother1 z hz)⟩
  have hkeys2 : (K1 ++ [a]) ++ b :: K2 = K1 ++ a :: b :: K2 := by simp
  rwa [hkeys2, ← hkids] at hs2

/-- The router between two leaves is dropped, and two routers are added behind their records. -/
theorem regroup_three {A B Z : List κ} {q : ℕ} (hrouters : T.treeType.hasRouters = true)
    (hkeys : c.keys ++ d.keys = (A ++ [a]) ++ ((B ++ [b]) ++ Z)) :
    Regroup (c.tokens T 0 ++ T.sep x :: d.tokens T 0)
      ((⟨c.page, A ++ [a], []⟩ : Node κ).tokens T 0 ++ T.sep a ::
        ((⟨q, B ++ [b], []⟩ : Node κ).tokens T 0 ++ T.sep b ::
          (⟨d.page, Z, []⟩ : Node κ).tokens T 0)) := by
  have hsep : ∀ z, T.sep z = .router z := fun z => if_pos hrouters
  rw [hsep, hsep, hsep]
  refine (Regroup.drop (c.tokens T 0) x (d.tokens T 0)).trans ?_
  have hmap : c.tokens T 0 ++ d.tokens T 0 =
      A.map .record ++ .record a :: (B.map .record ++ .record b :: Z.map .record) := by
    have := congrArg (List.map (Token.record (κ := κ))) hkeys
    simpa [Node.tokens] using this
  rw [hmap]
  refine (Regroup.add (A.map .record) a (B.map .record ++ .record b :: Z.map .record)).trans ?_
  have := Regroup.add (A.map .record ++ .record a :: .router a :: B.map .record) b (Z.map .record)
  simpa [Node.tokens] using this

variable [Inhabited κ]

/-- `BaseBStarTree::splitChildren`. -/
theorem BaseBStarTree.splitChildren_spec (hT : T.Valid) (hk : T.treeType.isStar = true)
    (hfit : T.SplitBufferFits) (hs : Stands s R ref (h + 1) ⟨p, K1 ++ x :: K2, P ++ ([c, d] ++ S)⟩)
    (hP : P.length = K1.length) (hsep : T.tokenAt h = T.sep)
    (hroom : (K1 ++ x :: K2).length < T.capacity (h + 1) ref)
    (hcslots : c.keys.length ≤ T.slots) (hdslots : d.keys.length ≤ T.slots) {isShort : Bool}
    (hsum : c.keys.length + d.keys.length + (if isShort then 1 else 0) = 2 * T.maxKeys) :
    Returns (BaseBStarTree.splitChildren T ref K1.length (s.wrapper c.page) (s.wrapper d.page)
      isShort) s (SplitChildrenPost T s R h p K1 x K2 P c d S) := by
  obtain ⟨hnum, -, hl, hm, hr⟩ := split_numbers hT hk hsum
  obtain ⟨-, -, -, hms⟩ := star_numbers hT hk
  have hmaxOf := star_maxOf hk h
  have hminOf := star_minOf hk h
  have hnslots := capacity_le_slots hT (h + 1) ref
  obtain ⟨hnode, hrc, hrd⟩ := hs.holds_pair
  -- the three runs of keys and of children
  obtain ⟨X, a, G, hG, hX, hGlen⟩ := exists_key (G := c.keys ++ x :: d.keys)
    (l := T.leftSplitProductKeys)
    (n := T.middleSplitProductKeys + (1 + T.getRightSplitProductKeys isShort))
    (by rw [List.length_append, List.length_cons]; omega)
  obtain ⟨Y, b, Z, rfl, hY, hZ⟩ := exists_key hGlen
  have hbX : T.minOf h ≤ X.length ∧ X.length < T.maxOf h := by omega
  have hbY : T.minOf h ≤ Y.length ∧ Y.length < T.maxOf h := by omega
  have hbZ : T.minOf h ≤ Z.length ∧ Z.length < T.maxOf h := by omega
  obtain ⟨CX, CY, CZ, hkids, hCX, hCY⟩ : ∃ CX CY CZ, c.kids ++ d.kids = CX ++ (CY ++ CZ) ∧
      (h ≠ 0 → CX.length = X.length + 1) ∧ (h ≠ 0 → CY.length = Y.length + 1) := by
    rcases Nat.eq_zero_or_pos h with rfl | hpos
    · have hck : c.kids = [] := hrc.below
      have hdk : d.kids = [] := hrd.below
      exact ⟨[], [], [], by simp [hck, hdk], by simp, by simp⟩
    · obtain ⟨g, rfl⟩ := Nat.exists_eq_succ_of_ne_zero (Nat.ne_of_gt hpos)
      have hclen := hrc.length_kids
      have hdlen := hrd.length_kids
      have hlen := congrArg List.length hG
      simp only [List.length_append, List.length_cons] at hlen
      obtain ⟨CX, CG, hkids, hCX, hCG⟩ := exists_append (G := c.kids ++ d.kids)
        (l := X.length + 1) (n := Y.length + 1 + (Z.length + 1))
        (by rw [List.length_append]; omega)
      obtain ⟨CY, CZ, rfl, hCY, -⟩ := exists_append hCG
      exact ⟨CX, CY, CZ, hkids, fun _ => hCX, fun _ => hCY⟩
  -- the new page, and the bytes of the four pages
  obtain ⟨q, s1, halloc, hq, hst1, hf1, hroot1, -⟩ :=
    allocPage_run hs.store T.middleSplitProductKeys (s.wrapper c.page).data.isLeaf
  have hnode' : (s.wrapper p).data.Holds false (K1 ++ x :: K2)
      (P.map Node.page ++ c.page :: d.page :: S.map Node.page) := by
    simpa using hnode
  have hns : (s.wrapper p).data.keysNum + 1 ≤ T.slots := by
    rw [hnode.keysNum_eq]
    omega
  have hcs : (s.wrapper c.page).data.keysNum ≤ T.slots := by
    rw [show (s.wrapper c.page).data.keysNum = c.keys.length from hrc.on.keysNum_eq]
    exact hcslots
  have hds : (s.wrapper d.page).data.keysNum ≤ T.slots := by
    rw [show (s.wrapper d.page).data.keysNum = d.keys.length from hrd.on.keysNum_eq]
    exact hdslots
  have hleaf : (Page.cleared T.middleSplitProductKeys (s.wrapper c.page).data.isLeaf : Page κ).isLeaf =
      (h == 0) := hrc.on.leaf_eq
  have hcursors : c.kids.map Node.page ++ d.kids.map Node.page =
      CX.map Node.page ++ (CY.map Node.page ++ CZ.map Node.page) := by
    simpa using congrArg (List.map Node.page) hkids
  obtain ⟨nd, cd, ed, dd, hrun, hnd, hcd, hed, hdd⟩ := splitChildrenPages_spec q hnode'
    (by simpa using hP) hns hrc.on hcs hrd.on hds hleaf hY.symm hG hcursors
    (fun hh => by simpa using hCX (by simpa using hh))
    (fun hh => by simpa using hCY (by simpa using hh)) (by omega) (by omega) (by omega)
  rw [hX, hY, hZ] at hrun
  have hnd' : (⟨p, K1 ++ a :: b :: K2, P ++ ([⟨c.page, X, CX⟩, ⟨q, Y, CY⟩, ⟨d.page, Z, CZ⟩] ++ S)⟩ :
      Node κ).On (h + 1) nd := by
    rw [Node.On]
    simpa using hnd
  have hwrite := hs.toHeld.writeThree hf1 hroot1 hst1 hq hnd' hcd hed hdd rfl rfl rfl
    hkids.symm
  unfold BaseBStarTree.splitChildren
  refine Returns.step (load_run s ref) ?_
  rw [hs.value_eq]
  have hbuffer : (s.wrapper c.page).data.keysNum + (s.wrapper d.page).data.keysNum + 1 ≤
      2 * T.maxKeys + 1 := by
    rw [show (s.wrapper c.page).data.keysNum = c.keys.length from hrc.on.keysNum_eq,
      show (s.wrapper d.page).data.keysNum = d.keys.length from hrd.on.keysNum_eq]
    omega
  refine Returns.step (splitChildrenHead_run hs hroom) (Returns.step halloc
    (Returns.step (hfit.newKeys_run hbuffer s1)
    (Returns.step (onPages_run hrun s1) (hwrite.bind fun ref2 s2 hpost => Returns.pure ?_))))
  obtain ⟨hf2, hs2, hwc, hwe, hwd⟩ := hpost
  refine ⟨ref2, ⟨c.page, X, CX⟩, ⟨q, Y, CY⟩, ⟨d.page, Z, CZ⟩, a, b, ?_, hf2, hs2, hkids.symm,
    hbX, hbY, hbZ, ?_⟩
  · exact Prod.ext rfl (Prod.ext hwc.symm (Prod.ext hwe.symm hwd.symm))
  · -- both sides are the sequence of the two children joined
    have hjoined := tokens_cut (T := T) (h := h) (p := p) (q := c.page) (r := d.page)
      (A := c.keys) (B := d.keys) (m := x) (C := c.kids) (D := d.kids) hrc.length_kids_of_pos
    have hfirst := tokens_cut (T := T) (h := h) (p := p) (q := c.page) (r := p)
      (A := X) (B := Y ++ b :: Z) (m := a) (C := CX) (D := CY ++ CZ) hCX
    have hsecond := tokens_cut (T := T) (h := h) (p := p) (q := q) (r := d.page)
      (A := Y) (B := Z) (m := b) (C := CY) (D := CZ) hCY
    rw [hG, hkids, hfirst, hsecond, hsep] at hjoined
    rw [← node_eq c rfl rfl, ← node_eq d rfl rfl] at hjoined
    rw [← hjoined]
    exact Regroup.refl _

/-- `BaseBStarPlusTree::splitChildren` on leaves. -/
theorem BaseBStarPlusTree.splitLeaves_spec (hT : T.Valid) (hk : T.treeType = .bStarPlusTree)
    (hfit : T.SplitBufferFits) (hs : Stands s R ref 1 ⟨p, K1 ++ x :: K2, P ++ ([c, d] ++ S)⟩)
    (hP : P.length = K1.length)
    (hroom : (K1 ++ x :: K2).length < T.capacity 1 ref)
    (hcslots : c.keys.length ≤ T.slots) (hdslots : d.keys.length ≤ T.slots) {isShort : Bool}
    (hsum : c.keys.length + d.keys.length + (if isShort then 1 else 0) = 2 * T.maxKeys) :
    Returns (BaseBStarPlusTree.splitChildren T ref K1.length (s.wrapper c.page) (s.wrapper d.page)
      isShort) s (SplitChildrenPost T s R 0 p K1 x K2 P c d S) := by
  have hstar : T.treeType.isStar = true := by rw [hk]; rfl
  obtain ⟨-, hleaf, hl, -, hr⟩ := split_numbers hT hstar hsum
  obtain ⟨hnum, hm⟩ := hleaf hk
  obtain ⟨hfour, -, hminKeys, hms⟩ := star_numbers hT hstar
  have hmaxOf := star_maxOf hstar 0
  have hminOf := star_minOf hstar 0
  have hnslots := capacity_le_slots hT 1 ref
  obtain ⟨hnode, hrc, hrd⟩ := hs.holds_pair
  have hck : c.kids = [] := hrc.below
  have hdk : d.kids = [] := hrd.below
  -- the three runs of keys; the first two are not empty
  obtain ⟨X, G, hG, hX, hGlen⟩ := exists_append (G := c.keys ++ d.keys)
    (l := T.leftSplitProductKeys)
    (n := T.middleLeafSplitProductKeys + T.getRightSplitProductKeys isShort)
    (by rw [List.length_append]; omega)
  obtain ⟨Y, Z, rfl, hY, hZ⟩ := exists_append hGlen
  obtain ⟨A, a, rfl⟩ := List.eq_nil_or_concat' X |>.resolve_left fun hnil => by
    rw [hnil, List.length_nil] at hX
    omega
  obtain ⟨B, b, rfl⟩ := List.eq_nil_or_concat' Y |>.resolve_left fun hnil => by
    rw [hnil, List.length_nil] at hY
    omega
  have hbX : T.minOf 0 ≤ (A ++ [a]).length ∧ (A ++ [a]).length < T.maxOf 0 := by omega
  have hbY : T.minOf 0 ≤ (B ++ [b]).length ∧ (B ++ [b]).length < T.maxOf 0 := by omega
  have hbZ : T.minOf 0 ≤ Z.length ∧ Z.length < T.maxOf 0 := by omega
  -- the new page, and the bytes of the four pages
  obtain ⟨q, s1, halloc, hq, hst1, hf1, hroot1, -⟩ :=
    allocPage_run hs.store T.middleLeafSplitProductKeys (s.wrapper c.page).data.isLeaf
  have hleafc : (s.wrapper c.page).data.isLeaf = true := hrc.on.leaf_eq
  have hnode' : (s.wrapper p).data.Holds false (K1 ++ x :: K2)
      (P.map Node.page ++ c.page :: d.page :: S.map Node.page) := by
    simpa using hnode
  have hns : (s.wrapper p).data.keysNum + 1 ≤ T.slots := by
    rw [hnode.keysNum_eq]
    omega
  have hcs : (s.wrapper c.page).data.keysNum ≤ T.slots := by
    rw [show (s.wrapper c.page).data.keysNum = c.keys.length from hrc.on.keysNum_eq]
    exact hcslots
  have hds : (s.wrapper d.page).data.keysNum ≤ T.slots := by
    rw [show (s.wrapper d.page).data.keysNum = d.keys.length from hrd.on.keysNum_eq]
    exact hdslots
  have hleafe : (Page.cleared T.middleLeafSplitProductKeys (s.wrapper c.page).data.isLeaf :
      Page κ).isLeaf = true := hleafc
  obtain ⟨nd, cd, ed, dd, hrun, hnd, hcd, hed, hdd⟩ := splitLeavesPages_spec q hnode'
    (by simpa using hP) hns hrc.on hcs hrd.on hds hleafe hY.symm hG (by omega) (by omega)
    (by omega)
  rw [hX, hY, hZ] at hrun
  have hnd' : (⟨p, K1 ++ x :: x :: K2,
      P ++ ([⟨c.page, A ++ [a], []⟩, ⟨q, B ++ [b], []⟩, ⟨d.page, Z, []⟩] ++ S)⟩ : Node κ).On 1 nd := by
    rw [Node.On]
    simpa using hnd
  have hwrite := hs.toHeld.writeThree hf1 hroot1 hst1 hq hnd' hcd hed hdd rfl rfl rfl
    (by simp [hck, hdk])
  unfold BaseBStarPlusTree.splitChildren
  refine Returns.step (load_run s ref) ?_
  rw [hs.value_eq]
  refine Returns.step (splitChildrenHead_run hs hroom) ?_
  rw [if_neg (by simp [hleafc])]
  have hbuffer : (s.wrapper c.page).data.keysNum + (s.wrapper d.page).data.keysNum ≤
      2 * T.maxKeys + 1 := by
    rw [show (s.wrapper c.page).data.keysNum = c.keys.length from hrc.on.keysNum_eq,
      show (s.wrapper d.page).data.keysNum = d.keys.length from hrd.on.keysNum_eq]
    omega
  refine Returns.step halloc (Returns.step (hfit.newKeys_run hbuffer s1)
    (Returns.step (onPages_run hrun s1) (hwrite.bind fun ref2 s2 hpost => ?_)))
  obtain ⟨hf2, hs2, hwc, hwe, hwd⟩ := hpost
  have hrouters := setRouterKeys_spec (T := T) hs2 hP
    (by simp only [List.length_append, List.length_cons] at hroom ⊢; omega) rfl
    (by dsimp only; omega) rfl (by dsimp only; omega)
  obtain ⟨ref3, s3, hrun3, ref4, s4, hrun4, hf4, hs4, hother⟩ := hrouters.of_bind
  refine Returns.step hrun3 (Returns.step hrun4 (Returns.pure ?_))
  refine ⟨ref4, ⟨c.page, A ++ [a], []⟩, ⟨q, B ++ [b], []⟩, ⟨d.page, Z, []⟩, a, b, ?_, hf2.trans hf4,
    hs4, by simp [hck, hdk], hbX, hbY, hbZ, regroup_three (by rw [hk]; rfl) hG⟩
  have hne := hs2.toHeld.nodup_mid
  simp only [List.map_cons, List.map_nil, List.nodup_cons, List.mem_cons, List.not_mem_nil, or_false,
    not_or] at hne
  obtain ⟨⟨hpc, hpq, hpd⟩, -⟩ := hne
  exact Prod.ext rfl (Prod.ext ((hother _ (Ne.symm hpc)).trans hwc).symm
    (Prod.ext ((hother _ (Ne.symm hpq)).trans hwe).symm ((hother _ (Ne.symm hpd)).trans hwd).symm))

/-- The virtual `splitChildren`. -/
theorem splitChildren_spec (hT : T.Valid) (hk : T.treeType.isStar = true)
    (hfit : T.SplitBufferFits) (hs : Stands s R ref (h + 1) ⟨p, K1 ++ x :: K2, P ++ ([c, d] ++ S)⟩)
    (hP : P.length = K1.length) (hroom : (K1 ++ x :: K2).length < T.capacity (h + 1) ref)
    (hcslots : c.keys.length ≤ T.slots) (hdslots : d.keys.length ≤ T.slots) {isShort : Bool}
    (hsum : c.keys.length + d.keys.length + (if isShort then 1 else 0) = 2 * T.maxKeys) :
    Returns (splitChildren T ref K1.length (s.wrapper c.page) (s.wrapper d.page) isShort) s
      (SplitChildrenPost T s R h p K1 x K2 P c d S) := by
  by_cases hk' : T.treeType = .bStarPlusTree
  · simp only [splitChildren, hk']
    cases h with
    | zero => exact BaseBStarPlusTree.splitLeaves_spec hT hk' hfit hs hP hroom hcslots hdslots hsum
    | succ h =>
      have hleaf : (s.wrapper c.page).data.isLeaf = false :=
        (hs.rep.2 c (by simp)).on.leaf_eq
      unfold BaseBStarPlusTree.splitChildren
      refine Returns.step (load_run s ref) ?_
      rw [hs.value_eq]
      refine Returns.step (splitChildrenHead_run hs hroom) ?_
      rw [if_pos (by simp [hleaf])]
      exact BaseBStarTree.splitChildren_spec hT hk hfit hs hP
        (tokenAt_eq_sep (fun _ => Nat.succ_ne_zero h) hk) hroom hcslots hdslots hsum
  · have hother : splitChildren T = BaseBStarTree.splitChildren T := by
      unfold splitChildren
      cases hk'' : T.treeType <;> simp_all
    rw [hother]
    exact BaseBStarTree.splitChildren_spec hT hk hfit hs hP (tokenAt_eq_sep (fun h' => absurd h' hk') hk)
      hroom hcslots hdslots hsum

end

end BTreesMods

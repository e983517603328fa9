import BTreesMods.Removal.Rotate

/-!
# Merging two children

What the functions `mergeChildren` of two pages do to a tree. A node that keeps a key loses a key and
a child; a root page with one key is freed, and the merged child becomes the root page.
-/

namespace BTreesMods

variable {κ : Type}

section

variable {T : Cfg κ} {s : BTree κ} {R : Multiset ℕ} {ref : PageRef κ} {h p : ℕ} {c d m : Node κ}
  {K1 K2 : List κ} {P S : List (Node κ)} {x : κ} {cd : Page κ}

/-! ## The end of a merge -/

/-- The pages of a node with two children merged, with the page of the right child in front. -/
theorem pages_merge (hpage : m.page = c.page) (hkids : m.kids = c.kids ++ d.kids) :
    (⟨p, K1 ++ x :: K2, P ++ ([c, d] ++ S)⟩ : Node κ).pages (h + 1) + R =
      {d.page} + ((⟨p, K1 ++ K2, P ++ ([m] ++ S)⟩ : Node κ).pages (h + 1) + R) := by
  have hflat : [m].flatMap Node.kids = [c, d].flatMap Node.kids := by simp [hkids]
  rw [pages_mid, pages_mid, hflat, List.map_cons, List.map_cons, List.map_cons, List.map_nil,
    coe_page_cons, coe_page_cons, coe_page_cons, hpage]
  abel

/-- The pages of a node with one key, with the two that a merge frees in front. -/
theorem pages_collapse (hpage : m.page = c.page) (hkids : m.kids = c.kids ++ d.kids) :
    (⟨p, [x], [c, d]⟩ : Node κ).pages (h + 1) + R = {p} + ({d.page} + (m.pages h + R)) := by
  have hmerge : (⟨p, [] ++ x :: [], [] ++ ([c, d] ++ [])⟩ : Node κ).pages (h + 1) + R = _ :=
    pages_merge hpage hkids
  simp only [List.nil_append, List.append_nil] at hmerge
  rw [hmerge, pages_eq (h + 1), pagesBelow_cons, pagesBelow_nil, add_zero, add_assoc, add_left_comm]

/-- `finishMerge` below a node that keeps a key. -/
theorem finishMerge_kept (hs : Stands s R ref (h + 1) ⟨p, K1 ++ x :: K2, P ++ ([c, d] ++ S)⟩)
    (hP : P.length = K1.length) (hslots : (K1 ++ x :: K2).length ≤ T.slots) (hkeep : K1 ++ K2 ≠ [])
    (hpage : m.page = c.page) (hkids : m.kids = c.kids ++ d.kids) (hm : m.On h cd) :
    Returns (finishMerge T ⟨c.page, cd⟩ (s.wrapper d.page) ref K1.length) s fun r s1 =>
      ∃ ref1, r = (ref1, s1.wrapper m.page) ∧ Frame s s1 R ∧
        Stands s1 R ref1 (h + 1) ⟨p, K1 ++ K2, P ++ ([m] ++ S)⟩ := by
  obtain ⟨hnode, -, -⟩ := hs.holds_pair
  have hnode' : (s.wrapper p).data.Holds false (K1 ++ x :: K2)
      (P.map Node.page ++ c.page :: d.page :: S.map Node.page) := by
    simpa using hnode
  have hkn := hnode.keysNum_eq
  obtain ⟨nd, hclose, hleaf, -, hkeys, hcur⟩ := hnode'.closeSlot
    (by simpa using hP) (hnode.keysNum_le hslots)
  rw [List.length_append, List.length_cons] at hkn
  have hkeep' : (s.wrapper p).data.keysNum ≠ 1 := fun hone => hkeep (by
    rw [hkn] at hone
    exact List.length_eq_zero_iff.mp (by rw [List.length_append]; omega))
  have hnd : (nd.setKeyNum ((s.wrapper p).data.keysNum - 1)).Holds false (K1 ++ K2)
      (P.map Node.page ++ c.page :: S.map Node.page) := by
    refine Page.holds_inner_of hleaf hkeys ?_
    rw [← hcur]
    congr 1
    exact Nat.sub_add_cancel (by omega)
  -- the two writes
  have hcQ : c.page ∈ (⟨p, K1 ++ x :: K2, P ++ ([c, d] ++ S)⟩ : Node κ).pages (h + 1) + R :=
    kid_page_mem (by simp)
  have hne := hs.toHeld.nodup_mid
  simp only [List.map_cons, List.map_nil, List.nodup_cons, List.mem_cons, List.not_mem_nil, or_false,
    not_or] at hne
  obtain ⟨⟨hpc, hpd⟩, hcd, -⟩ := hne
  set nd' := nd.setKeyNum ((s.wrapper p).data.keysNum - 1)
  have hst1 := hs.store.write c.page cd
  have hst2 := (hst1.assign ref ⟨p, nd'⟩).write p nd'
  rw [pages_merge hpage hkids] at hst2
  obtain ⟨s3, hfree, hst3, hf3, hroot3, hpage3⟩ := markPageFree_run hst2
  have hpg : ∀ z, s3.stream.page z =
      Function.update (Function.update s.stream.page c.page cd) p nd' z := fun z => by
    rw [hpage3, write_page, assign_stream, write_page]
  have hsame : Same s s3 := (same_write s c.page cd).trans ((same_assign _ ref ⟨p, nd'⟩).trans
    ((same_write _ p nd').trans hf3.toSame))
  have hstands := hs.toHeld.reshape hsame hst3
    (fun z hz hzp hzm => by
      have hzc : z ≠ c.page := by
        rintro rfl
        exact hzm (by simp)
      rw [hpg, Function.update_of_ne hzp, Function.update_of_ne hzc])
    (by
      rw [hroot3, hpg, Function.update_self]
      cases ref with
      | rootPage => rfl
      | «local» pw => rfl)
    (by
      rw [hpg, Function.update_self, Node.On]
      simpa [hpage] using hnd)
    (fun z hz => by
      rw [List.mem_singleton.mp hz, hpage, hpg, Function.update_of_ne (Ne.symm hpc),
        Function.update_self]
      exact hm)
    (by simp [hkids])
  unfold finishMerge
  refine Returns.step (load_run s ref) ?_
  rw [hs.value_eq]
  refine Returns.step (onPages_run hclose s)
    (Returns.step (writePage_run hs.store hcQ cd) ?_)
  rw [if_neg hkeep']
  refine Returns.step (store_run _ ref ⟨p, nd'⟩) (Returns.step (writePage_run
    (hst1.assign ref ⟨p, nd'⟩) (page_mem_add _ _ _) nd') (Returns.step hfree (Returns.pure ?_)))
  rw [hpg, Function.update_self] at hstands
  refine ⟨_, Prod.ext rfl ?_, hstands.2, hstands.1⟩
  rw [BTree.wrapper, hpage, hpg, Function.update_of_ne (Ne.symm hpc), Function.update_self]

/-- `finishMerge` below a page with one key, whose merged child becomes the root page. -/
theorem finishMerge_collapse (hs : Stands s R ref (h + 1) ⟨p, [x], [c, d]⟩)
    (hslots : 1 ≤ T.slots) (hpage : m.page = c.page) (hkids : m.kids = c.kids ++ d.kids)
    (hm : m.On h cd) :
    Returns (finishMerge T ⟨c.page, cd⟩ (s.wrapper d.page) ref 0) s fun r s1 =>
      r.2 = s1.wrapper m.page ∧ Kept s s1 ∧ Stands s1 R .rootPage h m := by
  have hs' : Stands s R ref (h + 1) ⟨p, [] ++ x :: [], [] ++ ([c, d] ++ [])⟩ := hs
  obtain ⟨hnode, hrc, hrd⟩ := hs'.holds_pair
  have hnode' : (s.wrapper p).data.Holds false ([] ++ x :: []) ([] ++ c.page :: d.page :: []) := by
    simpa using hnode
  have hkn : (s.wrapper p).data.keysNum = 1 := hnode.keysNum_eq
  obtain ⟨nd, hclose, -⟩ := hnode'.closeSlot rfl (hnode.keysNum_le hslots)
  have hcQ : c.page ∈ (⟨p, [x], [c, d]⟩ : Node κ).pages (h + 1) + R := kid_page_mem (by simp)
  have hne := hs'.toHeld.nodup_mid
  simp only [List.map_cons, List.map_nil, List.nodup_cons, List.mem_cons, List.not_mem_nil, or_false,
    not_or] at hne
  obtain ⟨⟨hpc, hpd⟩, hcd, -⟩ := hne
  have hpages := pages_collapse (R := R) (p := p) (h := h) (x := x) hpage hkids
  have hst1 := hs.store.write c.page cd
  have hst2 : Store (((s.write c.page cd).assign ref ⟨p, nd⟩).withRoot c.page)
      ({p} + ({d.page} + (m.pages h + R))) := by
    rw [← hpages]
    exact ⟨(hst1.assign ref ⟨p, nd⟩).all_pages, (hst1.assign ref ⟨p, nd⟩).counter⟩
  obtain ⟨s3, hfree3, hst3, hf3, -, hpage3⟩ := markPageFree_run hst2
  have hroot3 : s3.rootPageNum = c.page := hf3.rootPageNum_eq
  have hc0 : c.page ≠ 0 := by
    have := (hs.store.mem_range hcQ).1
    omega
  have hcm : c.page ∈ {d.page} + (m.pages h + R) := by
    rw [← hpage]
    simp [page_mem_pages]
  have hload : loadRootPage s3 = .ok ((), { s3 with
      rootPage := s3.wrapper c.page, rootPageNum := c.page }) := by
    change (if s3.rootPageNum = 0 then _ else _ : TreeM κ Unit) s3 = _
    rw [hroot3, if_neg hc0, bind_run (readPage_run hst3 hcm)]
    rfl
  have hst4 : Store { s3 with rootPage := s3.wrapper c.page, rootPageNum := c.page }
      ({d.page} + (m.pages h + R)) := ⟨hst3.all_pages, hst3.counter⟩
  obtain ⟨s5, hfree5, hst5, hf5, hrootPage5, hpage5⟩ := markPageFree_run hst4
  have hpg : ∀ z, s5.stream.page z = Function.update s.stream.page c.page cd z := fun z => by
    rw [hpage5]
    change s3.stream.page z = _
    rw [hpage3]
    change ((s.write c.page cd).assign ref ⟨p, nd⟩).stream.page z = _
    rw [assign_stream, write_page]
  have hvalue : PageRef.value s5 .rootPage = s5.wrapper m.page := by
    change s5.rootPage = _
    rw [hrootPage5, hpage]
    change s3.wrapper c.page = _
    rw [BTree.wrapper, BTree.wrapper, hpage5]
  have hcpage : s5.stream.page c.page = cd := by
    rw [hpg, Function.update_self]
  have hkept4 : Kept s3 { s3 with rootPage := s3.wrapper c.page, rootPageNum := c.page } :=
    ⟨rfl, rfl, fun hstored => ⟨hstored.pageCounter, hstored.rootPageNum.trans hroot3,
      hstored.freePagesCounter⟩⟩
  have hkept : Kept s s5 := (same_write s c.page cd).kept.trans ((same_assign _ ref
    ⟨p, nd⟩).kept.trans ((kept_withRoot _ c.page).trans (hf3.toSame.kept.trans
      (hkept4.trans hf5.toSame.kept))))
  unfold finishMerge
  refine Returns.step (load_run s ref) ?_
  rw [hs.value_eq]
  refine Returns.step (onPages_run hclose s) (Returns.step (writePage_run hs.store hcQ cd) ?_)
  rw [if_pos hkn]
  refine Returns.step (store_run _ ref ⟨p, nd⟩) (Returns.step (setAsRoot_run _ hc0)
    (Returns.step hfree3 (Returns.step hload (Returns.step hfree5 (Returns.pure ?_)))))
  refine ⟨?_, hkept, ⟨⟨hst5, ⟨by rw [hvalue]; rfl, ?_⟩, ?_, ?_⟩, hvalue⟩⟩
  · rw [BTree.wrapper, hpage, hcpage]
  · exact hf5.rootPageNum_eq.trans hpage.symm
  · rw [hvalue, BTree.wrapper, hpage, hcpage]
    exact hm
  · rw [hkids]
    refine (repBelow_append.mpr ⟨hrc.below, hrd.below⟩).congr fun z hz => ?_
    have hzc : c.page ≠ z := hs'.store.ne pages_mid (by simp) (by
      rw [List.flatMap_cons, List.flatMap_cons, List.flatMap_nil, List.append_nil]
      simp only [Multiset.mem_add]
      exact Or.inr (Or.inl (Or.inl (Or.inr hz))))
    rw [hpg, Function.update_of_ne (Ne.symm hzc)]

/-! ## The four functions -/

/-- Two children joined with the key between them. -/
def Node.join (c : Node κ) (x : κ) (d : Node κ) : Node κ := ⟨c.page, c.keys ++ x :: d.keys, c.kids ++ d.kids⟩

/-- Two leaves joined without the router between them. -/
def Node.joinLeaves (c d : Node κ) : Node κ := ⟨c.page, c.keys ++ d.keys, c.kids ++ d.kids⟩

theorem tokens_join (hc : h ≠ 0 → c.kids.length = c.keys.length + 1) :
    (c.join x d).tokens T h = c.tokens T h ++ T.tokenAt h x :: d.tokens T h := by
  obtain ⟨q, CK, CC⟩ := c
  obtain ⟨r, DK, DC⟩ := d
  exact tokens_cut (T := T) (h := h) hc

theorem tokens_joinLeaves : (c.joinLeaves d).tokens T 0 = c.tokens T 0 ++ d.tokens T 0 := by
  simp [Node.joinLeaves, Node.tokens]

/-- The bytes of the left child after a merge that takes the key of the node down. -/
theorem mergePages_run {n : ℕ}
    (hs : Stands s R ref (h + 1) ⟨p, K1 ++ x :: K2, P ++ ([c, d] ++ S)⟩)
    (hslots : (K1 ++ x :: K2).length ≤ T.slots) (hn : n = c.keys.length + 1 + d.keys.length)
    (hnslots : n ≤ T.slots) :
    ∃ cd, mergePages T.slots (s.wrapper c.page).data (s.wrapper d.page).data (s.wrapper p).data
        K1.length n c.keys.length d.keys.length = .ok cd ∧ (c.join x d).On h cd := by
  obtain ⟨hnode, hrc, hrd⟩ := hs.holds_pair
  have hright : (s.wrapper d.page).data.Holds (h == 0) d.keys (d.kids.map Node.page) := hrd.on
  obtain ⟨cd, hrun, hcd⟩ := mergePages_spec hnode
    (hnode.keysNum_le hslots) hrc.on hright (by rw [hright.keysNum_eq]; omega) hn
    hnslots rfl rfl
  refine ⟨cd, hrun, ?_⟩
  rw [Node.On, Node.join, List.map_append]
  exact hcd

/-- `BaseBTree::mergeChildren` of two children with the least number of keys. -/
theorem BaseBTree.mergeChildren_eq
    (hs : Stands s R ref (h + 1) ⟨p, K1 ++ x :: K2, P ++ ([c, d] ++ S)⟩)
    (hslots : (K1 ++ x :: K2).length ≤ T.slots) (hc : c.keys.length = T.minKeys)
    (hd : d.keys.length = T.minKeys) (hmax : T.maxKeys = 2 * T.minKeys + 1)
    (hmslots : T.maxKeys ≤ T.slots) :
    ∃ cd, BaseBTree.mergeChildren T (s.wrapper c.page) (s.wrapper d.page) ref K1.length s =
        finishMerge T ⟨c.page, cd⟩ (s.wrapper d.page) ref K1.length s ∧ (c.join x d).On h cd := by
  obtain ⟨cd, hrun, hcd⟩ := mergePages_run (n := T.maxKeys) hs hslots (by omega) hmslots
  rw [hc, hd] at hrun
  refine ⟨cd, ?_, hcd⟩
  unfold BaseBTree.mergeChildren
  rw [bind_run (load_run s ref), hs.value_eq, bind_run (onPages_run hrun s)]
  rfl

/-- `BaseBStarTree::mergeChildren` of two children. -/
theorem BaseBStarTree.mergeChildren_eq
    (hs : Stands s R ref (h + 1) ⟨p, K1 ++ x :: K2, P ++ ([c, d] ++ S)⟩)
    (hslots : (K1 ++ x :: K2).length ≤ T.slots)
    (hcdslots : c.keys.length + d.keys.length + 1 ≤ T.slots) :
    ∃ cd, BaseBStarTree.mergeChildren T (s.wrapper c.page) (s.wrapper d.page) ref K1.length s =
        finishMerge T ⟨c.page, cd⟩ (s.wrapper d.page) ref K1.length s ∧ (c.join x d).On h cd := by
  obtain ⟨-, hrc, hrd⟩ := hs.holds_pair
  have hcn : (s.wrapper c.page).data.keysNum = c.keys.length := hrc.on.keysNum_eq
  have hdn : (s.wrapper d.page).data.keysNum = d.keys.length := hrd.on.keysNum_eq
  obtain ⟨cd, hrun, hcd⟩ := mergePages_run (n := c.keys.length + d.keys.length + 1) hs hslots
    (by omega) hcdslots
  refine ⟨cd, ?_, hcd⟩
  unfold BaseBStarTree.mergeChildren
  rw [bind_run (load_run s ref), hs.value_eq, hcn, hdn, bind_run (onPages_run hrun s)]
  rfl

/-- The bytes of the left leaf after a merge of two leaves. -/
theorem mergeLeaves_run {n : ℕ}
    (hs : Stands s R ref 1 ⟨p, K1 ++ x :: K2, P ++ ([c, d] ++ S)⟩)
    (hn : n = c.keys.length + d.keys.length) (hnslots : n ≤ T.slots) :
    ∃ cd, mergeLeaves T.slots (s.wrapper c.page).data (s.wrapper d.page).data n c.keys.length
        d.keys.length = .ok cd ∧ (c.joinLeaves d).On 0 cd := by
  obtain ⟨-, hrc, hrd⟩ := hs.holds_pair
  have hck : c.kids = [] := hrc.below
  have hdk : d.kids = [] := hrd.below
  have hright : (s.wrapper d.page).data.Holds true d.keys (d.kids.map Node.page) := hrd.on
  obtain ⟨cd, hrun, hcd⟩ := mergeLeaves_spec hrc.on hright
    (by rw [hright.keysNum_eq]; omega) hn hnslots rfl rfl
  refine ⟨cd, hrun, ?_⟩
  rw [Node.On, Node.joinLeaves, hck, hdk]
  exact hcd

/-- `BaseBPlusTree::mergeChildren` of two leaves with the least number of keys. -/
theorem BaseBPlusTree.mergeChildren_eq
    (hs : Stands s R ref 1 ⟨p, K1 ++ x :: K2, P ++ ([c, d] ++ S)⟩)
    (hc : c.keys.length = T.minLeafKeys) (hd : d.keys.length = T.minLeafKeys)
    (hmax : T.maxLeafKeys = 2 * T.minLeafKeys) (hmslots : T.maxLeafKeys ≤ T.slots) :
    ∃ cd, BaseBPlusTree.mergeChildren T (s.wrapper c.page) (s.wrapper d.page) ref K1.length s =
        finishMerge T ⟨c.page, cd⟩ (s.wrapper d.page) ref K1.length s ∧
      (c.joinLeaves d).On 0 cd := by
  obtain ⟨-, hrc, hrd⟩ := hs.holds_pair
  have hcl : (s.wrapper c.page).data.isLeaf = true := hrc.on.leaf_eq
  have hdl : (s.wrapper d.page).data.isLeaf = true := hrd.on.leaf_eq
  obtain ⟨cd, hrun, hcd⟩ := mergeLeaves_run (n := T.maxLeafKeys) hs (by omega) hmslots
  rw [hc, hd] at hrun
  refine ⟨cd, ?_, hcd⟩
  unfold BaseBPlusTree.mergeChildren
  rw [if_neg (by simp [hcl, hdl]), bind_run (onPages_run hrun s)]
  rfl

/-- `BaseBStarPlusTree::mergeChildren` of two leaves. -/
theorem BaseBStarPlusTree.mergeChildren_eq
    (hs : Stands s R ref 1 ⟨p, K1 ++ x :: K2, P ++ ([c, d] ++ S)⟩)
    (hcdslots : c.keys.length + d.keys.length ≤ T.slots) :
    ∃ cd, BaseBStarPlusTree.mergeChildren T (s.wrapper c.page) (s.wrapper d.page) ref K1.length s =
        finishMerge T ⟨c.page, cd⟩ (s.wrapper d.page) ref K1.length s ∧
      (c.joinLeaves d).On 0 cd := by
  obtain ⟨-, hrc, hrd⟩ := hs.holds_pair
  have hcl : (s.wrapper c.page).data.isLeaf = true := hrc.on.leaf_eq
  have hdl : (s.wrapper d.page).data.isLeaf = true := hrd.on.leaf_eq
  have hcn : (s.wrapper c.page).data.keysNum = c.keys.length := hrc.on.keysNum_eq
  have hdn : (s.wrapper d.page).data.keysNum = d.keys.length := hrd.on.keysNum_eq
  obtain ⟨cd, hrun, hcd⟩ := mergeLeaves_run (n := c.keys.length + d.keys.length) hs rfl hcdslots
  refine ⟨cd, ?_, hcd⟩
  unfold BaseBStarPlusTree.mergeChildren
  rw [if_neg (by simp [hcl, hdl]), hcn, hdn, bind_run (onPages_run hrun s)]
  rfl

end

end BTreesMods

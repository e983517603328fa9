import BTreesMods.Removal.Borrow
import BTreesMods.Removal.PrepareBTree

/-!
# A descent step of `BaseBPlusTree::remove`

Before `remove` goes down to a minimal child, it takes a key for it from a sibling or merges it with
one. A merge keeps the routers separating; a loan never does, since the router between the two siblings
is not written (`prepareChild_rebalanced_iff`).
-/

namespace BTreesMods

variable {κ : Type}

/-- No sibling of the child has a key to spare. -/
structure NoLoan (T : Cfg κ) (h : ℕ) (f : Focus κ) : Prop where
  left : ∀ l ∈ f.kidsL.getLast?, l.keys.length ≤ T.minOf h
  right : ∀ r ∈ f.kidsR.head?, r.keys.length ≤ T.minOf h

/-- After the step towards the child of `f` below the page `p`, the stored pages hold the same records
in order below routers that separate, and `next` is a page of them that has the records of the child.
The page `p` may have shrunk away when it was the root page. -/
def Rebalanced (T : Cfg κ) (R : Multiset ℕ) (ref : PageRef κ) (h p : ℕ) (f : Focus κ)
    (next : PageRef κ) (s1 : BTree κ) : Prop :=
  (∃ f1 : Focus κ, Rep s1.stream.page (h + 1) (f1.node p) ∧ Store s1 ((f1.node p).pages (h + 1) + R) ∧
    (f1.node p).records T (h + 1) = (f.node p).records T (h + 1) ∧
    Separated T.compare ((f1.node p).tokens T (h + 1)) ∧ next.value s1 = s1.wrapper f1.kid.page ∧
    ∀ x ∈ f.kid.records T h, x ∈ f1.kid.records T h) ∨
  (ref = .rootPage ∧ ∃ n : Node κ, n.page ≠ p ∧ Stands s1 R .rootPage h n ∧
    n.records T h = (f.node p).records T (h + 1) ∧ Separated T.compare (n.tokens T h) ∧
    next.value s1 = s1.wrapper n.page)

section

variable {T : Cfg κ} {s s1 : BTree κ} {R : Multiset ℕ} {ref : PageRef κ} {h p : ℕ} {c d : Node κ}
  {K1 K2 : List κ} {P S : List (Node κ)} {x : κ} {f : Focus κ} {lw : PageWrapper κ}

/-- The sizes of the B+-tree. -/
theorem bPlusTree_sizes (hT : T.Valid) (hk : T.treeType = .bPlusTree) (h : ℕ) :
    1 ≤ T.minOf h ∧ T.minOf h + 1 ≤ T.slots ∧ T.maxLeafKeys = 2 * T.minLeafKeys ∧
      T.maxKeys = 2 * T.minKeys + 1 ∧ T.maxLeafKeys ≤ T.slots ∧ T.maxKeys ≤ T.slots ∧
      T.minOf h = if (h == 0) = true then T.minLeafKeys else T.minKeys := by
  obtain ⟨m, hm, -, hmin, hmax, hminLeaf, hmaxLeaf, hslots⟩ := valid_bPlusTree hT hk
  have hminOf : T.minOf h = if (h == 0) = true then T.minLeafKeys else T.minKeys := by
    simp [Cfg.minOf, hk]
  refine ⟨one_le_minOf hT h, ?_, by omega, by omega, by omega, by omega, hminOf⟩
  rw [hminOf]
  split_ifs
  · omega
  · omega

/-! ## Loans -/

/-- What `borrow` returns. -/
def BorrowPost (T : Cfg κ) (s : BTree κ) (h p : ℕ) (f : Focus κ)
    (r : Option (PageWrapper κ) × PageWrapper κ × PageWrapper κ) (s1 : BTree κ) : Prop :=
  (∃ w, r.1 = some w ∧ ¬NoLoan T h f ∧ Lent T s h p s1) ∨
  (r.1 = none ∧ s1 = s ∧ NoLoan T h f ∧ (∀ l ∈ f.kidsL.getLast?, r.2.1 = s.wrapper l.page) ∧
    ∀ d ∈ f.kidsR.head?, r.2.2 = s.wrapper d.page)

/-- The part of `borrow` for the right sibling. -/
theorem borrowFromRight_spec (hT : T.Valid) (hrouters : T.treeType.hasRouters = true)
    (hs : Stands s R ref (h + 1) (f.node p)) (hslots : (f.node p).keys.length ≤ T.slots)
    (hsz : SizedBelow T (h + 1) (f.node p).kids) (hkid : f.kid.keys.length = T.minOf h)
    (hmin : T.minOf h + 1 ≤ T.slots) (hsep : Separated T.compare ((f.node p).tokens T (h + 1)))
    (hleft : ∀ l ∈ f.kidsL.getLast?, l.keys.length ≤ T.minOf h)
    (hlw : ∀ l ∈ f.kidsL.getLast?, lw = s.wrapper l.page) :
    Returns (do
      let rightSibling ← if f.keysL.length < (s.wrapper p).data.keysNum then
          readPageFromChild T (s.wrapper p) (f.keysL.length + 1)
        else pure (s.wrapper f.kid.page)
      if f.keysL.length < (s.wrapper p).data.keysNum ∧ rightSibling.data.keysNum > T.minOf h then do
        let (rightData, nextData, data) ← onPages (borrowRightPages T.slots rightSibling.data
          (s.wrapper f.kid.page).data (s.wrapper p).data f.keysL.length (T.minOf h))
        let _ ← ref.store ⟨(s.wrapper p).pageNum, data⟩
        writePage ⟨(s.wrapper f.kid.page).pageNum, nextData⟩
        writePage ⟨rightSibling.pageNum, rightData⟩
        return (some ⟨(s.wrapper f.kid.page).pageNum, nextData⟩, lw, rightSibling)
      else return (none, lw, rightSibling)) s (BorrowPost T s h p f) := by
  have hkn : (s.wrapper p).data.keysNum = (f.node p).keys.length := hs.rep.on.keysNum_eq
  have hlenR := Focus.length_right hs
  rw [hkn]
  rcases f.right_cases hlenR with ⟨hK, hS⟩ | ⟨x, K2, d, S, hf⟩
  · -- no right sibling
    have hlast : ¬f.keysL.length < (f.node p).keys.length := by simp [Focus.node, hK]
    rw [if_neg hlast, pure_bind]
    dsimp only
    rw [if_neg fun hc => hlast hc.1]
    exact Returns.pure (Or.inr ⟨rfl, rfl, ⟨hleft, by simp [hS]⟩, hlw, by simp [hS]⟩)
  · have hlast : f.keysL.length < (f.node p).keys.length := by
      rw [hf]
      simp [Focus.node, Focus.leftOf]
    have hnode : f.node p = ⟨p, f.keysL ++ x :: K2, f.kidsL ++ ([f.kid, d] ++ S)⟩ := by
      rw [hf]
      rfl
    have hS : f.kidsR = d :: S := by
      rw [hf]
      rfl
    rw [hnode] at hs hsz hslots hsep
    have hread : readPageFromChild T (s.wrapper p) (f.keysL.length + 1) s =
        .ok (s.wrapper d.page, s) := by
      have := readPageFromChild_run (T := T) (w := s.wrapper p) (P := f.kidsL ++ [f.kid]) (c := d)
        (S := S) hs.store (kid_page_mem (by simp)) hs.rep.on (by simp) hslots
      rwa [List.length_append, List.length_singleton, f.length_eq] at this
    have hdn : (s.wrapper d.page).data.keysNum = d.keys.length := hs.holds_pair.2.2.on.keysNum_eq
    rw [if_pos hlast]
    refine Returns.step hread ?_
    dsimp only
    by_cases hrich : T.minOf h < d.keys.length
    · rw [if_pos ⟨hlast, by rw [hdn]; exact hrich⟩]
      obtain ⟨dd, cd, nd, hrun, hlent⟩ := borrowRight_lent hT hrouters hs f.length_eq hslots hsz
        (List.length_pos_iff.mp (by omega)) (by omega) hsep
      rw [hkid] at hrun
      have hcQ : f.kid.page ∈ (⟨p, f.keysL ++ x :: K2, f.kidsL ++ ([f.kid, d] ++ S)⟩ : Node κ).pages
          (h + 1) + R := kid_page_mem (by simp)
      have hdQ : d.page ∈ (⟨p, f.keysL ++ x :: K2, f.kidsL ++ ([f.kid, d] ++ S)⟩ : Node κ).pages
          (h + 1) + R := kid_page_mem (by simp)
      have hst := hs.store.assign ref ⟨p, nd⟩
      refine Returns.step (onPages_run hrun s) (Returns.step (store_run s ref ⟨p, nd⟩)
        (Returns.step (writePage_run hst hcQ cd) (Returns.step (writePage_run (hst.write _ _) hdQ dd)
          (Returns.pure (Or.inl ⟨_, rfl, fun hno => ?_, hlent⟩)))))
      have := hno.right d (by simp [hS])
      omega
    · rw [if_neg (by rw [hdn]; exact fun hc => hrich hc.2)]
      refine Returns.pure (Or.inr ⟨rfl, rfl, ⟨hleft, ?_⟩, hlw, ?_⟩)
      · simpa [hS] using hrich
      · simp [hS]

/-- `borrow` for a minimal child. -/
theorem borrow_spec (hT : T.Valid) (hrouters : T.treeType.hasRouters = true)
    (hs : Stands s R ref (h + 1) (f.node p)) (hslots : (f.node p).keys.length ≤ T.slots)
    (hsz : SizedBelow T (h + 1) (f.node p).kids) (hkid : f.kid.keys.length = T.minOf h)
    (hmin : T.minOf h + 1 ≤ T.slots) (hsep : Separated T.compare ((f.node p).tokens T (h + 1))) :
    Returns (borrow T (T.minOf h) f.keysL.length ref (s.wrapper p) (s.wrapper f.kid.page)) s
      (BorrowPost T s h p f) := by
  unfold borrow
  rcases f.left_cases with ⟨hK, hP⟩ | ⟨K1, x, P, l, hP, hf⟩
  · -- no left sibling
    have hfirst : ¬f.keysL.length > 0 := by simp [hK]
    rw [if_neg hfirst, pure_bind]
    dsimp only
    rw [if_neg fun hc => hfirst hc.1]
    exact borrowFromRight_spec hT hrouters hs hslots hsz hkid hmin hsep (by simp [hP]) (by simp [hP])
  · have hfirst : f.keysL.length = K1.length + 1 := by
      rw [hf]
      simp [Focus.rightOf]
    have hnode : f.node p = ⟨p, K1 ++ x :: f.keysR, P ++ ([l, f.kid] ++ f.kidsR)⟩ := by
      conv_lhs => rw [hf]
      exact Focus.rightOf_node hP
    have hlast : f.kidsL.getLast? = some l := by
      rw [hf]
      simp [Focus.rightOf]
    have hs' := hs
    have hsz' := hsz
    have hslots' := hslots
    have hsep' := hsep
    rw [hnode] at hs' hsz' hslots' hsep'
    have hread : readPageFromChild T (s.wrapper p) K1.length s = .ok (s.wrapper l.page, s) := by
      have := readPageFromChild_run (T := T) (w := s.wrapper p) (P := P) (c := l)
        (S := f.kid :: f.kidsR) hs'.store (kid_page_mem (by simp)) hs'.rep.on (by simp) hslots'
      rwa [hP] at this
    have hln : (s.wrapper l.page).data.keysNum = l.keys.length := hs'.holds_pair.2.1.on.keysNum_eq
    rw [if_pos (by omega), hfirst, Nat.add_sub_cancel]
    refine Returns.step hread ?_
    dsimp only
    by_cases hrich : T.minOf h < l.keys.length
    · rw [if_pos ⟨by omega, by rw [hln]; exact hrich⟩]
      obtain ⟨cd, dd, hrun, hlent⟩ := borrowLeft_lent hT hrouters hs' hP hsz'
        (List.length_pos_iff.mp (by omega)) (by omega) hsep'
      rw [hkid] at hrun
      have hlQ : l.page ∈ (⟨p, K1 ++ x :: f.keysR, P ++ ([l, f.kid] ++ f.kidsR)⟩ : Node κ).pages
          (h + 1) + R := kid_page_mem (by simp)
      have hcQ : f.kid.page ∈ (⟨p, K1 ++ x :: f.keysR, P ++ ([l, f.kid] ++ f.kidsR)⟩ : Node κ).pages
          (h + 1) + R := kid_page_mem (by simp)
      refine Returns.step (onPages_run hrun s) (Returns.step (writePage_run hs'.store hlQ cd)
        (Returns.step (writePage_run (hs'.store.write _ _) hcQ dd)
          (Returns.pure (Or.inl ⟨_, rfl, fun hno => ?_, hlent⟩))))
      have := hno.left l (by simp [hlast])
      omega
    · rw [if_neg (by rw [hln]; exact fun hc => hrich hc.2), ← hfirst]
      refine borrowFromRight_spec hT hrouters hs hslots hsz hkid hmin hsep ?_ ?_
      · simpa [hlast] using hrich
      · simp [hlast]

/-! ## Merges -/

/-- `mergeChildren` of two minimal children: the merged one has the records of both. -/
theorem BaseBPlusTree.mergeBelow_eq (hT : T.Valid) (hk : T.treeType = .bPlusTree)
    (hs : Stands s R ref (h + 1) ⟨p, K1 ++ x :: K2, P ++ ([c, d] ++ S)⟩)
    (hslots : (K1 ++ x :: K2).length ≤ T.slots) (hc : c.keys.length = T.minOf h)
    (hd : d.keys.length = T.minOf h) :
    ∃ (m : Node κ) (cd : Page κ), BaseBPlusTree.mergeBelow T (h == 0) (s.wrapper c.page)
        (s.wrapper d.page) ref K1.length s =
          finishMerge T ⟨c.page, cd⟩ (s.wrapper d.page) ref K1.length s ∧
      m.On h cd ∧ m.page = c.page ∧ m.kids = c.kids ++ d.kids ∧
      Thinned (c.tokens T h ++ T.sep x :: d.tokens T h) (m.tokens T h) := by
  obtain ⟨-, -, hmaxLeaf, hmax, hleafSlots, hmaxSlots, hminOf⟩ := bPlusTree_sizes hT hk h
  have hsep : T.sep x = .router x := by
    rw [Cfg.sep, hk]
    rfl
  cases h with
  | zero =>
    obtain ⟨cd, hrun, hcd⟩ := BaseBPlusTree.mergeChildren_eq hs (hc.trans hminOf) (hd.trans hminOf) hmaxLeaf
      hleafSlots
    refine ⟨c.joinLeaves d, cd, hrun, hcd, rfl, rfl, ?_⟩
    rw [tokens_joinLeaves, hsep]
    exact ⟨(List.Sublist.refl _).append (List.sublist_cons_self _ _), by simp⟩
  | succ h =>
    obtain ⟨cd, hrun, hcd⟩ := BaseBTree.mergeChildren_eq hs hslots (hc.trans hminOf) (hd.trans hminOf) hmax
      hmaxSlots
    refine ⟨c.join x d, cd, hrun, hcd, rfl, rfl, Thinned.of_eq ?_⟩
    rw [tokens_join fun _ => hs.holds_pair.2.1.length_kids, Cfg.tokenAt, if_neg (Nat.succ_ne_zero h)]

/-- What a merge of the child with a sibling leaves when the page keeps a key or is the root page. -/
theorem mergeBelow_rebalanced (hT : T.Valid) (hk : T.treeType = .bPlusTree)
    (hs : Stands s R ref (h + 1) ⟨p, K1 ++ x :: K2, P ++ ([c, d] ++ S)⟩) (hP : P.length = K1.length)
    (hslots : (K1 ++ x :: K2).length ≤ T.slots) (hc : c.keys.length = T.minOf h)
    (hd : d.keys.length = T.minOf h) (hnode : f.node p = ⟨p, K1 ++ x :: K2, P ++ ([c, d] ++ S)⟩)
    (hkid : f.kid = c ∨ f.kid = d) (hsep : Separated T.compare ((f.node p).tokens T (h + 1)))
    (hpage : ref = .rootPage ∨ K1 ++ K2 ≠ []) :
    Returns (BaseBPlusTree.mergeBelow T (h == 0) (s.wrapper c.page) (s.wrapper d.page) ref K1.length) s
      fun r s1 => ∃ n : Node κ, r.2 = s1.wrapper n.page ∧
        (s1.rootPageNum = n.page → s1.rootPage = s1.wrapper n.page) ∧
        ∀ next : PageRef κ, next.value s1 = s1.wrapper n.page → Rebalanced T R ref h p f next s1 := by
  obtain ⟨m, cd, hmerge, hcd, hmpage, hkids, hthin⟩ := BaseBPlusTree.mergeBelow_eq hT hk hs hslots hc hd
  have hold := tokens_around₂ (T := T) (h := h) (p := p) (m := x) (L := K2) (S := S) (c := c) (d := d) hP
  have hrecords : ∀ z ∈ f.kid.records T h, z ∈ m.records T h := fun z hz => by
    rw [Node.records, hthin.records_eq]
    rw [Node.records, mem_recordsOf] at hz
    rw [mem_recordsOf, List.mem_append, List.mem_cons]
    rcases hkid with hkid | hkid
    · exact Or.inl (hkid ▸ hz)
    · exact Or.inr (Or.inr (hkid ▸ hz))
  by_cases hkeep : K1 ++ K2 = []
  · -- the root page shrinks away
    obtain ⟨rfl, rfl⟩ := List.append_eq_nil_iff.mp hkeep
    obtain rfl : P = [] := List.length_eq_zero_iff.mp hP
    have hlenS : S.length = 0 := by
      have := hs.rep.length_kids
      simpa using this
    obtain rfl : S = [] := List.length_eq_zero_iff.mp hlenS
    have hroot : ref = .rootPage := hpage.resolve_right fun hne => hne rfl
    refine Returns.mono (Returns.of_eq (finishMerge_collapse hs (by simpa using hslots) hmpage hkids hcd)
      hmerge) ?_
    rintro r s1 ⟨hr, -, hs1⟩
    have hwhole : (f.node p).tokens T (h + 1) = c.tokens T h ++ T.sep x :: d.tokens T h := by
      rw [hnode]
      refine hold.trans ?_
      simp [tokensBefore, tokensAfter, before, after]
    have hp : m.page ≠ p := by
      have hpages := pages_collapse (R := R) (p := p) (h := h) (x := x) hmpage hkids
      exact (hs.store.ne hpages (Multiset.mem_singleton_self p)
        (by simp [page_mem_pages])).symm
    rw [hwhole] at hsep
    refine ⟨m, hr, fun _ => hs1.value_eq, fun next hnext => Or.inr ⟨hroot, m, hp, hs1, ?_,
      hsep.sublist hthin.sublist, hnext⟩⟩
    rw [Node.records, Node.records, hwhole, hthin.records_eq]
  · refine Returns.mono (Returns.of_eq (finishMerge_kept hs hP hslots hkeep hmpage hkids hcd) hmerge) ?_
    rintro r s1 ⟨ref1, rfl, -, hs1⟩
    have hs1' : Stands s1 R ref1 (h + 1) ((Focus.merged K1 K2 P m S hP).node p) := hs1
    have htok : ((Focus.merged K1 K2 P m S hP).node p).tokens T (h + 1) =
        tokensBefore T h P K1 ++ (m.tokens T h ++ tokensAfter T h K2 S) := Focus.tokens_node T h p _
    have hthin' : Thinned ((f.node p).tokens T (h + 1))
        (((Focus.merged K1 K2 P m S hP).node p).tokens T (h + 1)) := by
      rw [hnode, htok]
      exact hold ▸ hthin.context _ _
    refine ⟨m, rfl, fun hroot => ?_, fun next hnext => Or.inl ⟨Focus.merged K1 K2 P m S hP, hs1'.rep,
      hs1'.store, hthin'.records_eq, hsep.sublist hthin'.sublist, hnext, hrecords⟩⟩
    exact absurd (hs1'.toHeld.kid.ref_eq hroot) (by simp)

/-- A merge of the two children of a page that is not the root frees that page. -/
theorem mergeBelow_freed {pw : PageWrapper κ} (hT : T.Valid) (hk : T.treeType = .bPlusTree)
    (hs : Stands s R (.local pw) (h + 1) ⟨p, [x], [c, d]⟩) (hslots : 1 ≤ T.slots)
    (hc : c.keys.length = T.minOf h) (hd : d.keys.length = T.minOf h) :
    Returns (BaseBPlusTree.mergeBelow T (h == 0) (s.wrapper c.page) (s.wrapper d.page) (.local pw) 0) s
      fun _ s1 => ∀ next, ¬Rebalanced T R (.local pw) h p f next s1 := by
  have hs' : Stands s R (.local pw) (h + 1) ⟨p, [] ++ x :: [], [] ++ ([c, d] ++ [])⟩ := hs
  obtain ⟨m, cd, hmerge, hcd, hmpage, hkids, -⟩ := BaseBPlusTree.mergeBelow_eq hT hk hs' hslots hc hd
  refine Returns.mono (Returns.of_eq (finishMerge_collapse hs hslots hmpage hkids hcd) hmerge) ?_
  rintro r s1 ⟨-, -, hs1⟩ next (⟨f1, -, hstore, -⟩ | ⟨hroot, -⟩)
  · have hpages := pages_collapse (R := R) (p := p) (h := h) (x := x) hmpage hkids
    have hp : p ∈ m.pages h + R := by
      rw [hs1.store.unique hstore]
      exact page_mem_add _ _ _
    exact hs.store.ne hpages (Multiset.mem_singleton_self p)
      (Multiset.mem_add.mpr (Or.inr hp)) rfl
  · cases hroot

/-! ## The step -/

/-- A loan leaves routers that do not separate. -/
theorem Lent.not_rebalanced (hlent : Lent T s h p s1) (hs : Stands s R ref (h + 1) (f.node p))
    {next : PageRef κ} : ¬Rebalanced T R ref h p f next s1 := by
  obtain ⟨hroot, t, hpage, hrep, hnot⟩ := hlent
  rintro (⟨f1, hrep1, -, -, hsep, -⟩ | ⟨rfl, n, hp, hs1, -⟩)
  · rw [hrep.unique hrep1 hpage] at hnot
    exact hnot hsep
  · have hn : s1.rootPageNum = n.page := hs1.at_page.root
    have hold : s.rootPageNum = p := hs.at_page.root
    exact hp (hn.symm.trans (hroot.trans hold))

/-- The run of `rootOr`. -/
theorem rootOr_run (s : BTree κ) (pw : PageWrapper κ) :
    rootOr pw s = .ok (if s.rootPageNum == pw.pageNum then .rootPage else .local pw, s) :=
  rfl

/-- The page that is searched after a merge with the right sibling. -/
theorem rootOr_value {n : Node κ} {pw : PageWrapper κ} (hpw : pw = s.wrapper n.page)
    (hroot : s.rootPageNum = n.page → s.rootPage = s.wrapper n.page) :
    PageRef.value s (if s.rootPageNum == pw.pageNum then .rootPage else .local pw) = s.wrapper n.page := by
  subst hpw
  split_ifs with h
  · exact hroot (by simpa [BTree.wrapper] using h)
  · rfl

/-- The rest of `BaseBPlusTree.prepareChild` when no sibling lends a key. -/
def BaseBPlusTree.mergeSibling (T : Cfg κ) (isLeaf : Bool) (minKeys i : ℕ) (currentPage : PageRef κ)
    (leftSibling nextPage rightSibling : PageWrapper κ) : TreeM κ (PageRef κ) := do
  if i > 0 ∧ leftSibling.data.keysNum = minKeys then do
    let (_, leftSibling) ← BaseBPlusTree.mergeBelow T isLeaf leftSibling nextPage currentPage (i - 1)
    return .local leftSibling
  else do
    let (_, nextPage) ← BaseBPlusTree.mergeBelow T isLeaf nextPage rightSibling currentPage i
    rootOr nextPage

/-- The two siblings that `mergeSibling` merges. -/
theorem mergeSibling_eq (hs : Stands s R ref (h + 1) (f.node p)) (hpos : 1 ≤ (f.node p).keys.length)
    (hsz : SizedBelow T (h + 1) (f.node p).kids) (hno : NoLoan T h f) {rw' : PageWrapper κ}
    (hlw : ∀ l ∈ f.kidsL.getLast?, lw = s.wrapper l.page)
    (hrw : ∀ d ∈ f.kidsR.head?, rw' = s.wrapper d.page) (hkid : f.kid.keys.length = T.minOf h) :
    ∃ (K1 K2 : List κ) (x : κ) (P S : List (Node κ)) (c d : Node κ) (last : Bool), P.length = K1.length ∧
      f.node p = ⟨p, K1 ++ x :: K2, P ++ ([c, d] ++ S)⟩ ∧ (f.kid = c ∨ f.kid = d) ∧
      c.keys.length = T.minOf h ∧ d.keys.length = T.minOf h ∧
      BaseBPlusTree.mergeSibling T (h == 0) (T.minOf h) f.keysL.length ref lw (s.wrapper f.kid.page) rw' =
        (do
          let r ← BaseBPlusTree.mergeBelow T (h == 0) (s.wrapper c.page) (s.wrapper d.page) ref K1.length
          if last then return .local r.2 else rootOr r.2) := by
  have hlow : ∀ e ∈ (f.node p).kids, T.minOf h ≤ e.keys.length := fun e he =>
    (sized_iff.mp (hsz e he)).1.1
  rcases f.left_cases with ⟨hK, hPL⟩ | ⟨K1, x, P, l, hP, hf⟩
  · -- the first child is merged with its right sibling
    obtain ⟨x, K2, d, S, hf⟩ := (f.right_cases (Focus.length_right hs)).resolve_left fun hR => by
      simp [Focus.node, hK, hR.1] at hpos
    have hS : f.kidsR = d :: S := by
      rw [hf]
      rfl
    have hnode : f.node p = ⟨p, f.keysL ++ x :: K2, f.kidsL ++ ([f.kid, d] ++ S)⟩ := by
      rw [hf]
      rfl
    have hd : d.keys.length = T.minOf h :=
      le_antisymm (hno.right d (by simp [hS])) (hlow d (by rw [hnode]; simp))
    refine ⟨f.keysL, K2, x, f.kidsL, S, f.kid, d, false, f.length_eq, hnode, Or.inl rfl, hkid, hd, ?_⟩
    unfold BaseBPlusTree.mergeSibling
    rw [if_neg (by simp [hK]), hrw d (by simp [hS])]
    rfl
  · -- the child is merged with its left sibling
    have hKL : f.keysL = K1 ++ [x] := by
      rw [hf]
      rfl
    have hPL : f.kidsL = P ++ [l] := by
      rw [hf]
      rfl
    have hnode : f.node p = ⟨p, K1 ++ x :: f.keysR, P ++ ([l, f.kid] ++ f.kidsR)⟩ := by
      conv_lhs => rw [hf]
      exact Focus.rightOf_node hP
    have hl : l.keys.length = T.minOf h :=
      le_antisymm (hno.left l (by simp [hPL])) (hlow l (by rw [hnode]; simp))
    have hs' := hs
    rw [hnode] at hs'
    have hln : (s.wrapper l.page).data.keysNum = l.keys.length := hs'.holds_pair.2.1.on.keysNum_eq
    refine ⟨K1, f.keysR, x, P, f.kidsR, l, f.kid, true, hP, hnode, Or.inr rfl, hl, hkid, ?_⟩
    unfold BaseBPlusTree.mergeSibling
    rw [hlw l (by simp [hPL]), if_pos ⟨by simp [hKL], by rw [hln, hl]⟩,
      show f.keysL.length - 1 = K1.length by simp [hKL]]
    rfl

/-- The run of `prepareChild` up to the merges. -/
theorem BaseBPlusTree.prepareChild_spec (hT : T.Valid) (hk : T.treeType = .bPlusTree)
    (hs : Stands s R ref (h + 1) (f.node p)) (hslots : (f.node p).keys.length ≤ T.slots)
    (hsz : SizedBelow T (h + 1) (f.node p).kids) (hkid : f.kid.keys.length = T.minOf h)
    (hsep : Separated T.compare ((f.node p).tokens T (h + 1))) :
    (¬NoLoan T h f ∧ Returns (BaseBPlusTree.prepareChild T f.keysL.length ref (s.wrapper p)
        (s.wrapper f.kid.page)) s fun _ s1 => Lent T s h p s1) ∨
    (NoLoan T h f ∧ ∃ lw rw, (∀ l ∈ f.kidsL.getLast?, lw = s.wrapper l.page) ∧
      (∀ d ∈ f.kidsR.head?, rw = s.wrapper d.page) ∧
      BaseBPlusTree.prepareChild T f.keysL.length ref (s.wrapper p) (s.wrapper f.kid.page) s =
        BaseBPlusTree.mergeSibling T (h == 0) (T.minOf h) f.keysL.length ref lw (s.wrapper f.kid.page) rw
          s) := by
  have hrouters : T.treeType.hasRouters = true := by rw [hk]; rfl
  obtain ⟨-, hminSlots, -, -, -, -, hminOf⟩ := bPlusTree_sizes hT hk h
  have hrk : Rep s.stream.page h f.kid := hs.rep.2 f.kid (by simp [Focus.node])
  have hleaf : (s.wrapper f.kid.page).data.isLeaf = (h == 0) := hrk.on.leaf_eq
  have hkn : (s.wrapper f.kid.page).data.keysNum = T.minOf h := hrk.on.keysNum_eq.trans hkid
  have hroot : (s.rootPageNum == (s.wrapper f.kid.page).pageNum) = false :=
    beq_eq_false_iff_ne.mpr fun heq => absurd (hs.toHeld.kid.ref_eq heq) (by simp)
  obtain ⟨⟨borrowed, lw, rw'⟩, s1, hrun, hpost⟩ := borrow_spec hT hrouters hs hslots hsz hkid hminSlots hsep
  have hstart : BaseBPlusTree.prepareChild T f.keysL.length ref (s.wrapper p) (s.wrapper f.kid.page) s =
      borrowed.elim (BaseBPlusTree.mergeSibling T (h == 0) (T.minOf h) f.keysL.length ref lw
        (s.wrapper f.kid.page) rw') (fun nextPage => pure (.local nextPage)) s1 := by
    unfold BaseBPlusTree.prepareChild BaseBPlusTree.mergeSibling
    rw [bind_run (isRoot_run s _), hroot, hleaf, ← hminOf, hkn, if_pos (by simp), bind_run hrun]
    cases borrowed with
    | some w => rfl
    | none => rfl
  rcases hpost with ⟨w, hr, hloan, hlent⟩ | ⟨hr, rfl, hno, hlw, hrw⟩
  · obtain rfl : borrowed = some w := hr
    exact Or.inl ⟨hloan, .local w, s1, hstart, hlent⟩
  · obtain rfl : borrowed = none := hr
    exact Or.inr ⟨hno, lw, rw', hlw, hrw, hstart⟩

/-- `BaseBPlusTree::remove` below an inner page `f.node p`, before it goes down to a child with the
least number of keys. The stored pages keep the records in order below routers that separate them, and
the search goes on below a page with the records of the child, exactly when no sibling lends a key and
the page is the root page or has two keys. -/
theorem BaseBPlusTree.prepareChild_rebalanced_iff (hT : T.Valid) (hk : T.treeType = .bPlusTree)
    (hs : Stands s R ref (h + 1) (f.node p)) (hslots : (f.node p).keys.length ≤ T.slots)
    (hpos : 1 ≤ (f.node p).keys.length) (hsz : SizedBelow T (h + 1) (f.node p).kids)
    (hkid : f.kid.keys.length = T.minOf h)
    (hsep : Separated T.compare ((f.node p).tokens T (h + 1))) :
    Returns (BaseBPlusTree.prepareChild T f.keysL.length ref (s.wrapper p) (s.wrapper f.kid.page)) s
      (Rebalanced T R ref h p f) ↔
      (∀ l ∈ f.kidsL.getLast?, l.keys.length ≤ T.minOf h) ∧
        (∀ r ∈ f.kidsR.head?, r.keys.length ≤ T.minOf h) ∧
        (ref = .rootPage ∨ 2 ≤ (f.node p).keys.length) := by
  rcases BaseBPlusTree.prepareChild_spec hT hk hs hslots hsz hkid hsep with
    ⟨hloan, hlent⟩ | ⟨hno, lw, rw', hlw, hrw, hrun⟩
  · -- a sibling lends a key
    refine iff_of_false (fun hreturns => ?_) fun hc => hloan ⟨hc.1, hc.2.1⟩
    obtain ⟨next, s1, hstep, hrebalanced⟩ := hreturns
    exact (hlent.of_run hstep).not_rebalanced hs hrebalanced
  · obtain ⟨K1, K2, x, P, S, c, d, last, hP, hnode, hkids, hc, hd, hmerge⟩ :=
      mergeSibling_eq hs hpos hsz hno hlw hrw hkid
    have hs' := hs
    have hslots' := hslots
    rw [hnode] at hs' hslots'
    have hlenS := hs'.rep.length_kids
    constructor
    · intro hreturns
      refine ⟨hno.left, hno.right, ?_⟩
      by_contra hnot
      obtain ⟨hlocal, hone⟩ := not_or.mp hnot
      cases ref with
      | rootPage => exact hlocal rfl
      | «local» pw =>
        have hlen : K1.length = 0 ∧ K2.length = 0 := by
          rw [hnode, List.length_append, List.length_cons] at hone
          omega
        obtain rfl : K1 = [] := List.length_eq_zero_iff.mp hlen.1
        obtain rfl : K2 = [] := List.length_eq_zero_iff.mp hlen.2
        obtain rfl : P = [] := List.length_eq_zero_iff.mp hP
        obtain rfl : S = [] := List.length_eq_zero_iff.mp (by simpa using hlenS)
        have hreturns' := hreturns.of_eq hrun.symm
        rw [hmerge] at hreturns'
        obtain ⟨r, s1, hmerged, hlast⟩ := hreturns'.of_bind
        have hfreed := (mergeBelow_freed (f := f) hT hk hs' (by simpa using hslots') hc hd).of_run
          hmerged
        cases last with
        | true =>
          obtain ⟨next, s2, hnext, hrebalanced⟩ := hlast
          obtain ⟨rfl, rfl⟩ := Prod.mk.inj (Except.ok.inj hnext)
          exact hfreed _ hrebalanced
        | false =>
          obtain ⟨next, s2, hnext, hrebalanced⟩ := hlast
          obtain ⟨rfl, rfl⟩ := Prod.mk.inj (Except.ok.inj ((rootOr_run s1 r.2).symm.trans hnext))
          exact hfreed _ hrebalanced
    · rintro ⟨-, -, hpage⟩
      have hkeep : ref = .rootPage ∨ K1 ++ K2 ≠ [] := hpage.imp_right fun htwo hnil => by
        obtain ⟨rfl, rfl⟩ := List.append_eq_nil_iff.mp hnil
        rw [hnode] at htwo
        simp at htwo
      refine Returns.of_eq ?_ hrun
      rw [hmerge]
      refine (mergeBelow_rebalanced hT hk hs' hP hslots' hc hd hnode hkids hsep hkeep).bind ?_
      rintro r s1 ⟨n, hr, hroot, hrebalanced⟩
      cases last with
      | true => exact Returns.pure (hrebalanced _ hr)
      | false => exact ⟨_, s1, rootOr_run s1 r.2, hrebalanced _ (rootOr_value hr hroot)⟩

end

/-! ## Two leaves of order 2 -/

/-- A root page 1 with the router `x` and the leaves 2 and 3, with the records `l` and `r`. -/
def BTree.leafPair (x : ℕ) (l r : List ℕ) : BTree ℕ := .ofPages 2 3 fun p =>
  if p = 1 then .filled [x] [2, 3] else if p = 2 then .filled l [] else .filled r []

/-- The root page of `BTree.leafPair`, seen from its second leaf. -/
def Focus.rightLeaf (x : ℕ) (l r : List ℕ) : Focus ℕ := ⟨[x], [], [⟨2, l, []⟩], ⟨3, r, []⟩, [], rfl⟩

theorem leafPair_stands :
    Stands (.leafPair 2 [1, 2] [3, 4]) 0 .rootPage 1 ((Focus.rightLeaf 2 [1, 2] [3, 4]).node 1) :=
  ofPages_stands rfl (by decide +kernel) (by decide +kernel)

theorem leafPair_stands_lending :
    Stands (.leafPair 3 [1, 2, 3] [4, 5]) 0 .rootPage 1
      ((Focus.rightLeaf 3 [1, 2, 3] [4, 5]).node 1) :=
  ofPages_stands rfl (by decide +kernel) (by decide +kernel)

/-- The leaf 1, 2, 3 lends 3 to the leaf 4, 5, and the router between them stays 3. -/
theorem prepareChild_lent :
    Stands (.leafPair 3 [1, 2, 3] [4, 5]) 0 .rootPage 1
        ((Focus.rightLeaf 3 [1, 2, 3] [4, 5]).node 1) ∧
      Separated (natCfg .bPlusTree 2).compare
        (((Focus.rightLeaf 3 [1, 2, 3] [4, 5]).node 1).tokens (natCfg .bPlusTree 2) 1) ∧
      Returns (BaseBPlusTree.prepareChild (natCfg .bPlusTree 2) 1 .rootPage
          ((BTree.leafPair 3 [1, 2, 3] [4, 5]).wrapper 1) ((BTree.leafPair 3 [1, 2, 3] [4, 5]).wrapper 3))
        (.leafPair 3 [1, 2, 3] [4, 5]) fun next s1 =>
          ¬Rebalanced (natCfg .bPlusTree 2) 0 .rootPage 0 1 (.rightLeaf 3 [1, 2, 3] [4, 5]) next s1 := by
  have hsep : Separated (natCfg .bPlusTree 2).compare
      (((Focus.rightLeaf 3 [1, 2, 3] [4, 5]).node 1).tokens (natCfg .bPlusTree 2) 1) := by
    decide +kernel
  have hsz : SizedBelow (natCfg .bPlusTree 2) 1 ((Focus.rightLeaf 3 [1, 2, 3] [4, 5]).node 1).kids := by
    decide +kernel
  refine ⟨leafPair_stands_lending, hsep, ?_⟩
  rcases BaseBPlusTree.prepareChild_spec (f := Focus.rightLeaf 3 [1, 2, 3] [4, 5]) ⟨2, 4, rfl⟩ rfl
    leafPair_stands_lending (by decide) hsz (by decide) hsep with ⟨-, hlent⟩ | ⟨hno, -⟩
  · exact hlent.mono fun next s1 hl => hl.not_rebalanced leafPair_stands_lending
  · exact absurd (hno.left ⟨2, [1, 2, 3], []⟩ rfl) (by decide)

/-- The leaves 1, 2 and 3, 4 are merged. -/
theorem prepareChild_rebalanced_pair :
    Returns (BaseBPlusTree.prepareChild (natCfg .bPlusTree 2) 1 .rootPage
        ((BTree.leafPair 2 [1, 2] [3, 4]).wrapper 1) ((BTree.leafPair 2 [1, 2] [3, 4]).wrapper 3))
      (.leafPair 2 [1, 2] [3, 4])
      (Rebalanced (natCfg .bPlusTree 2) 0 .rootPage 0 1 (.rightLeaf 2 [1, 2] [3, 4])) := by
  have h := BaseBPlusTree.prepareChild_rebalanced_iff (T := natCfg .bPlusTree 2) (h := 0)
    (f := Focus.rightLeaf 2 [1, 2] [3, 4]) ⟨2, 4, rfl⟩ rfl leafPair_stands (by decide) (by decide)
    (by decide +kernel) (by decide) (by decide +kernel)
  exact h.mpr ⟨by decide, by decide, Or.inl rfl⟩

end BTreesMods

import BTreesMods.Tree.Stands

/-!
# Splitting a child

What the `splitChild` of each class does to a standing tree: a full child becomes two, and the
parent gets a key between them.
-/

namespace BTreesMods

variable {κ : Type}

section

variable {T : Cfg κ} {s s' : BTree κ} {R : Multiset ℕ} {ref : PageRef κ} {h p : ℕ} {t c : Node κ}
  {K K1 K2 A M B : List κ} {P S C D : List (Node κ)}

/-! ## Full pages -/

theorem isFull_eq (T : Cfg κ) (pw : PageWrapper κ) (s : BTree κ) :
    isFull T pw s = .ok (match T.treeType with
      | .bTree => pw.data.keysNum == T.maxKeys
      | .bPlusTree => (!pw.data.isLeaf && pw.data.keysNum == T.maxKeys) ||
          (pw.data.isLeaf && pw.data.keysNum == T.maxLeafKeys)
      | .bStarTree | .bStarPlusTree => (!(s.rootPageNum == pw.pageNum) && pw.data.keysNum == T.maxKeys) ||
          ((s.rootPageNum == pw.pageNum) && pw.data.keysNum == T.maxRootKeys), s) := rfl

/-- `isFull` compares the number of keys with the capacity of the page. -/
theorem isFull_run (hs : Held s R ref h t) :
    isFull T (ref.value s) s = .ok (t.keys.length == T.capacity h ref, s) := by
  have hon := hs.on
  have hkn : (ref.value s).data.keysNum = t.keys.length := hon.keysNum_eq
  have hleaf : (ref.value s).data.isLeaf = (h == 0) := hon.leaf_eq
  have hroot : (s.rootPageNum == (ref.value s).pageNum) =
      (match ref with | .rootPage => true | .local _ => false) := by
    have hr := hs.at_page.root
    rw [hs.at_page.pageNum_eq]
    cases ref with
    | rootPage => exact beq_iff_eq.mpr hr
    | «local» pw =>
      refine beq_eq_false_iff_ne.mpr fun heq => hs.page_not_mem ?_
      have heq' : s.rootPageNum = t.page := heq
      rw [← heq']
      exact hr
  rw [isFull_eq, hroot, hkn, hleaf]
  congr 2
  unfold Cfg.capacity Cfg.maxRootOf Cfg.maxOf
  cases hk : T.treeType <;> cases ref <;> cases h <;> simp

theorem isFull_kid {P S : List (Node κ)} (hs : Held s R ref (h + 1) ⟨p, K, P ++ c :: S⟩) :
    isFull T (s.wrapper c.page) s = .ok (c.keys.length == T.maxOf h, s) :=
  isFull_run hs.kid.toHeld

/-! ## `splitChild` -/

/-- Adding a router behind the last key of a leaf. -/
theorem regroup_leaf {q : ℕ} {m : κ} (hrouters : T.treeType.hasRouters = true) :
    Regroup ((⟨p, (A ++ [m]) ++ B, C⟩ : Node κ).tokens T 0)
      ((⟨p, A ++ [m], C⟩ : Node κ).tokens T 0 ++ T.sep m :: (⟨q, B, D⟩ : Node κ).tokens T 0) := by
  have := Regroup.add (A.map .record) m (B.map .record)
  simpa [Node.tokens, Cfg.sep, hrouters] using this

/-- The head of `splitChild` passes on a parent that is not full, and reads the child unless its
wrapper is there. -/
theorem splitChildHead_run {lw : PageWrapper κ}
    (hs : Held s R ref (h + 1) ⟨p, K1 ++ K2, P ++ ([c] ++ S)⟩) (hP : P.length = K1.length)
    (hroom : (K1 ++ K2).length < T.capacity (h + 1) ref) (hslots : (K1 ++ K2).length ≤ T.slots)
    (hlw : lw.pageNum = 0 ∨ lw = s.wrapper c.page) :
    splitChildHead T (ref.value s) K1.length lw s = .ok (s.wrapper c.page, s) := by
  have hfull : isFull T (ref.value s) s = .ok (false, s) := by
    rw [isFull_run hs]
    simp only [beq_eq_false_iff_ne.mpr (Nat.ne_of_lt hroom)]
  have hcQ : c.page ∈ (⟨p, K1 ++ K2, P ++ ([c] ++ S)⟩ : Node κ).pages (h + 1) + R :=
    kid_page_mem (by simp)
  have hread := readPageFromChild_run (T := T) (w := ref.value s) hs.store hcQ hs.on rfl hslots
  have hkn : (ref.value s).data.keysNum = (K1 ++ K2).length := hs.on.keysNum_eq
  have hc0 := (hs.store.mem_range hcQ).1
  unfold splitChildHead
  rw [bind_run hfull, if_neg Bool.false_ne_true, if_neg (by rw [hkn, List.length_append]; omega)]
  rcases hlw with h0 | rfl
  · rw [if_pos h0, ← hP]
    exact hread
  · rw [if_neg (by simp only [BTree.wrapper]; omega)]
    rfl

variable [Inhabited κ]

/-- The part of `splitChild` after its head: the child keeps `A`, its new right neighbour `q` gets
`B`, and the parent gets a key between them. -/
theorem splitChildTail_spec (median : Option ℕ) {m : κ}
    (hs : Held s R ref (h + 1) ⟨p, K1 ++ K2, P ++ ([c] ++ S)⟩) (hP : P.length = K1.length)
    (hslots : K1.length + K2.length + 1 ≤ T.slots) (hcslots : c.keys.length ≤ T.slots)
    (hkeys : c.keys = A ++ M ++ B) (hkids : c.kids = C ++ D)
    (hC : h ≠ 0 → C.length = A.length + 1 ∧ M.length = 1)
    (hm : ∀ i ∈ median, (A ++ M ++ B)[i]? = some m) :
    Returns (splitChildTail T ref (ref.value s) K1.length (s.wrapper c.page) A.length
      (A ++ M).length B.length median) s fun r s' => ∃ q x ref', (median.isSome → x = m) ∧
        r = (ref', s'.wrapper c.page, s'.wrapper q) ∧ Frame s s' R ∧
        Stands s' R ref' (h + 1)
          ⟨p, K1 ++ x :: K2, P ++ ([⟨c.page, A, C⟩, ⟨q, B, D⟩] ++ S)⟩ := by
  obtain ⟨pd, hpd⟩ : ∃ d, ref.value s = ⟨p, d⟩ := hs.value_mk
  rw [hpd]
  have hon : pd.Holds false (K1 ++ K2)
      (P.map Node.page ++ c.page :: S.map Node.page) := by
    have := hs.on
    rwa [Node.On, hpd, List.map_append, List.map_append] at this
  have hrc : Rep s.stream.page h c := (repBelow_cons.mp (repBelow_append.mp hs.below).2).1
  have honc : (s.wrapper c.page).data.Holds (h == 0) (A ++ M ++ B)
      (C.map Node.page ++ D.map Node.page) := by
    have := hrc.on
    rwa [Node.On, hkeys, hkids, List.map_append] at this
  have hns : pd.keysNum + 1 ≤ T.slots := by
    rw [hon.keysNum_eq, List.length_append]
    exact hslots
  have hcs : (s.wrapper c.page).data.keysNum ≤ T.slots := by
    rw [honc.keysNum_eq, ← hkeys]
    exact hcslots
  -- the new page, and the bytes of the three pages
  obtain ⟨q, s1, halloc, hq, hst1, hf1, hroot1, -⟩ :=
    allocPage_run hs.store B.length (s.wrapper c.page).data.isLeaf
  have hright : (Page.cleared B.length (s.wrapper c.page).data.isLeaf : Page κ).keysNum = B.length :=
    rfl
  have hrightl : (Page.cleared B.length (s.wrapper c.page).data.isLeaf : Page κ).isLeaf =
    (h == 0) := honc.leaf_eq
  obtain ⟨nd, ld, rd, x, hsplit, hnd, hx, hld, hrd⟩ := splitPages_spec q hon (by simpa using hP) hns
    honc (fun hh => by simpa using hC (by simpa using hh)) hcs hrightl hright hm
  -- the writes
  have hpq : p ≠ q := fun heq => hq (heq ▸ page_mem_add _ _ _)
  have hcQ : c.page ∈ (⟨p, K1 ++ K2, P ++ ([c] ++ S)⟩ : Node κ).pages (h + 1) + R :=
    kid_page_mem (by simp)
  have hcq : c.page ≠ q := fun heq => hq (heq ▸ hcQ)
  have hpc := hs.nodup_mid
  have hst1' : Store s1 ((⟨p, K1 ++ x :: K2, P ++ ([⟨c.page, A, C⟩, ⟨q, B, D⟩] ++ S)⟩ :
      Node κ).pages (h + 1) + R) := by
    convert hst1 using 1
    rw [pages_mid, pages_mid]
    simp only [List.map_cons, List.map_nil, coe_page_cons, List.flatMap_cons, List.flatMap_nil, hkids,
      pagesBelow_append, List.append_nil, Multiset.coe_nil]
    abel
  have hnd' : (⟨p, K1 ++ x :: K2, P ++ ([⟨c.page, A, C⟩, ⟨q, B, D⟩] ++ S)⟩ : Node κ).On (h + 1) nd := by
    rw [Node.On, List.map_append, List.map_append]
    exact hnd
  have hl : (p :: [(c.page, ld), (q, rd)].map Prod.fst).Nodup := by simpa [hpq, hcq] using hpc
  have hnew : ∀ y ∈ [(c.page, ld), (q, rd)].map Prod.fst, y ∈ [c].map Node.page ∨
      y ∉ (⟨p, K1 ++ K2, P ++ ([c] ++ S)⟩ : Node κ).pages (h + 1) + R := by
    intro y hy
    simp only [List.map_cons, List.map_nil, List.mem_cons, List.not_mem_nil, or_false] at hy ⊢
    rcases hy with rfl | rfl
    · exact Or.inl rfl
    · exact Or.inr hq
  obtain ⟨hfin, hframe⟩ := hs.commit hf1 hroot1 hst1' hl hnew hnd'
    (by simp [Node.On, hld, hrd]) (by simp [hkids])
  have hst2 := hst1.assign ref ⟨p, nd⟩
  have hst3 := hst2.write c.page ld
  have hst4 := hst3.write q rd
  refine Returns.step halloc (Returns.step (onPages_run hsplit s1) ?_)
  refine Returns.step (store_run s1 ref ⟨p, nd⟩) (Returns.step (writePage_run hst2 ?_ ld)
    (Returns.step (writePage_run hst3 (by simp) rd) (Returns.step (writePage_run hst4 ?_ nd)
    (Returns.pure ?_))))
  · exact Multiset.mem_add.mpr (Or.inr hcQ)
  · exact Multiset.mem_add.mpr (Or.inr (page_mem_add _ _ _))
  refine ⟨q, x, ref.assign ⟨p, nd⟩, hx, ?_, hframe, hfin⟩
  have hcw : (s1.commit ref p nd [(c.page, ld), (q, rd)]).wrapper c.page = ⟨c.page, ld⟩ :=
    commit_wrapper hl (by simp)
  have hqw : (s1.commit ref p nd [(c.page, ld), (q, rd)]).wrapper q = ⟨q, rd⟩ :=
    commit_wrapper hl (by simp)
  exact Prod.ext rfl (Prod.ext hcw.symm hqw.symm)

/-- What a `splitChild` does: the child `c` after `P` becomes two pages, and the parent gets the key
`x` between them, which is a key of `c` that moves up or a router that is added. -/
def SplitChildPost (T : Cfg κ) (s : BTree κ) (R : Multiset ℕ) (h p : ℕ) (K1 K2 : List κ)
    (P S : List (Node κ)) (c : Node κ) (r : PageRef κ × PageWrapper κ × PageWrapper κ)
    (s' : BTree κ) : Prop :=
  ∃ ref' q x A B C D, r = (ref', s'.wrapper c.page, s'.wrapper q) ∧ Frame s s' R ∧
    Stands s' R ref' (h + 1) ⟨p, K1 ++ x :: K2, P ++ ([⟨c.page, A, C⟩, ⟨q, B, D⟩] ++ S)⟩ ∧
    c.kids = C ++ D ∧ (T.minOf h ≤ A.length ∧ A.length < T.maxOf h) ∧
    (T.minOf h ≤ B.length ∧ B.length < T.maxOf h) ∧
    Regroup (c.tokens T h) ((⟨c.page, A, C⟩ : Node κ).tokens T h ++
      T.sep x :: (⟨q, B, D⟩ : Node κ).tokens T h)

/-- A split whose middle key moves up. -/
theorem splitChild_middle {n : ℕ} (hs : Held s R ref (h + 1) ⟨p, K1 ++ K2, P ++ ([c] ++ S)⟩)
    (hP : P.length = K1.length) (hslots : K1.length + K2.length + 1 ≤ T.slots)
    (hcslots : c.keys.length ≤ T.slots) (hn : n < c.keys.length)
    (hsep : T.tokenAt h = T.sep)
    (hA : T.minOf h ≤ n ∧ n < T.maxOf h)
    (hB : T.minOf h ≤ c.keys.length - n - 1 ∧ c.keys.length - n - 1 < T.maxOf h) :
    Returns (splitChildTail T ref (ref.value s) K1.length (s.wrapper c.page) n (n + 1)
      (c.keys.length - n - 1) (some n)) s (SplitChildPost T s R h p K1 K2 P S c) := by
  obtain ⟨A, m, B, hkeys, hAn⟩ : ∃ A m B, c.keys = A ++ m :: B ∧ A.length = n :=
    ⟨c.keys.take n, c.keys[n], c.keys.drop (n + 1), by simp, by simp; omega⟩
  have hrc : Rep s.stream.page h c := (repBelow_cons.mp (repBelow_append.mp hs.below).2).1
  obtain ⟨C, D, hkids, hC⟩ := hrc.cut hkeys
  have hlen : c.keys.length - n - 1 = B.length := by
    rw [hkeys, List.length_append, List.length_cons]
    omega
  have hspec := splitChildTail_spec (some n) (M := [m]) (m := m) hs hP hslots hcslots
    (by simpa using hkeys) hkids (fun hh => ⟨hC hh, rfl⟩) (by simp [← hAn])
  rw [List.length_append, List.length_singleton, ← hlen, hAn] at hspec
  refine hspec.mono fun r s' ⟨q, x, ref', hx, hr, hf, hs'⟩ => ?_
  obtain rfl := hx rfl
  refine ⟨ref', q, x, A, B, C, D, hr, hf, hs', hkids, by rwa [hAn], by rwa [← hlen], ?_⟩
  have hcut := tokens_cut (T := T) (p := c.page) (q := c.page) (r := q) (B := B) (D := D) (m := x) hC
  rw [hsep, ← node_eq c hkeys hkids] at hcut
  rw [← hcut]
  exact Regroup.refl _

/-- The split of a full leaf in `BaseBPlusTree::splitChild`. -/
theorem splitChild_leaf {n : ℕ} (hs : Held s R ref 1 ⟨p, K1 ++ K2, P ++ ([c] ++ S)⟩)
    (hP : P.length = K1.length) (hslots : K1.length + K2.length + 1 ≤ T.slots)
    (hcslots : c.keys.length ≤ T.slots) (hn : n < c.keys.length)
    (hrouters : T.treeType.hasRouters = true) (hA : T.minOf 0 ≤ n ∧ 1 ≤ n ∧ n < T.maxOf 0)
    (hB : T.minOf 0 ≤ c.keys.length - n ∧ c.keys.length - n < T.maxOf 0) :
    Returns (splitChildTail T ref (ref.value s) K1.length (s.wrapper c.page) n n
      (c.keys.length - n) (some (n - 1))) s (SplitChildPost T s R 0 p K1 K2 P S c) := by
  obtain ⟨g, rfl⟩ : ∃ g, n = g + 1 := ⟨n - 1, by omega⟩
  obtain ⟨A, m, B, hkeys, hAg⟩ : ∃ A m B, c.keys = A ++ m :: B ∧ A.length = g :=
    ⟨c.keys.take g, c.keys[g], c.keys.drop (g + 1), by simp, by simp; omega⟩
  have hkeys' : c.keys = (A ++ [m]) ++ [] ++ B := by simp [hkeys]
  have hAlen : (A ++ [m]).length = g + 1 := by simp [hAg]
  have hkids : c.kids = [] :=
    (repBelow_cons.mp (repBelow_append.mp hs.below).2).1.below
  have hlen : c.keys.length - (g + 1) = B.length := by
    rw [hkeys, List.length_append, List.length_cons]
    omega
  have hspec := splitChildTail_spec (some g) (C := []) (D := []) (m := m) hs hP hslots
    hcslots hkeys' hkids (fun hh => absurd rfl hh) (by simp [← hAg])
  rw [List.append_nil, ← hlen, hAlen] at hspec
  refine hspec.mono fun r s' ⟨q, x, ref', hx, hr, hf, hs'⟩ => ?_
  obtain rfl := hx rfl
  refine ⟨ref', q, x, A ++ [x], B, [], [], hr, hf, hs', hkids, ?_, ?_, ?_⟩
  · rw [hAlen]
    exact ⟨hA.1, hA.2.2⟩
  · rwa [← hlen]
  · rw [List.append_nil] at hkeys'
    rw [node_eq c hkeys' hkids]
    exact regroup_leaf hrouters

/-! ## The B-tree and the B+-tree -/

/-- The trees whose insertion splits a full child before the descent. -/
def TreeType.splitsOne : TreeType → Bool
  | .bTree | .bPlusTree => true
  | .bStarTree | .bStarPlusTree => false

/-- `BaseBTree::splitChild` on a full child whose keys are keys of the tree. -/
theorem BaseBTree.splitChild_spec {lw : PageWrapper κ}
    (hs : Held s R ref (h + 1) ⟨p, K1 ++ K2, P ++ ([c] ++ S)⟩) (hP : P.length = K1.length)
    (hroom : (K1 ++ K2).length < T.capacity (h + 1) ref) (hslots : (K1 ++ K2).length + 1 ≤ T.slots)
    (hcslots : c.keys.length ≤ T.slots) (hfull : c.keys.length = 2 * T.minKeys + 1)
    (hsep : T.tokenAt h = T.sep) (hmin : T.minOf h ≤ T.minKeys) (hmax : T.minKeys < T.maxOf h)
    (hlw : lw.pageNum = 0 ∨ lw = s.wrapper c.page) :
    Returns (BaseBTree.splitChild T ref K1.length lw) s (SplitChildPost T s R h p K1 K2 P S c) := by
  unfold BaseBTree.splitChild
  refine Returns.step (load_run s ref) ?_
  refine Returns.step (splitChildHead_run hs hP hroom (by omega) hlw) ?_
  have hright : c.keys.length - T.minKeys - 1 = T.minKeys := by omega
  have hmid := splitChild_middle (T := T) (n := T.minKeys) hs hP
    (by rwa [List.length_append] at hslots) hcslots (by omega) hsep ⟨hmin, hmax⟩
    (by rw [hright]; exact ⟨hmin, hmax⟩)
  rwa [hright] at hmid

/-- `splitChild` of a B-tree or B+-tree on a full child of a node that is not full. -/
theorem splitChild_spec {lw : PageWrapper κ} (hT : T.Valid) (hk : T.treeType.splitsOne = true)
    (hs : Held s R ref (h + 1) ⟨p, K1 ++ K2, P ++ ([c] ++ S)⟩) (hP : P.length = K1.length)
    (hroom : (K1 ++ K2).length < T.capacity (h + 1) ref) (hfull : c.keys.length = T.maxOf h)
    (hlw : lw.pageNum = 0 ∨ lw = s.wrapper c.page) :
    Returns (splitChild T ref K1.length lw) s (SplitChildPost T s R h p K1 K2 P S c) := by
  cases hk' : T.treeType with
  | bStarTree => simp [hk', TreeType.splitsOne] at hk
  | bStarPlusTree => simp [hk', TreeType.splitsOne] at hk
  | bTree =>
    obtain ⟨m, hm, -, hmin, hmax, hslots⟩ := valid_bTree hT hk'
    have hcap : T.capacity (h + 1) ref = 2 * m - 1 := by
      cases ref <;> simp [Cfg.capacity, Cfg.maxRootOf, Cfg.maxOf, hk', hmax]
    have hmaxOf : T.maxOf h = 2 * m - 1 := by simp [Cfg.maxOf, hk', hmax]
    have hminOf : T.minOf h = m - 1 := by simp [Cfg.minOf, hk', hmin]
    have hsep : T.tokenAt h = T.sep := by
      funext x
      simp [Cfg.tokenAt, Cfg.sep, hk', TreeType.hasRouters]
    simp only [splitChild, hk']
    exact BaseBTree.splitChild_spec hs hP hroom (by omega) (by omega) (by omega) hsep (by omega)
      (by omega) hlw
  | bPlusTree =>
    obtain ⟨m, hm, -, hmin, hmax, hminLeaf, hmaxLeaf, hslots⟩ := valid_bPlusTree hT hk'
    have hcap : T.capacity (h + 1) ref = 2 * m - 1 := by
      cases ref <;> simp [Cfg.capacity, Cfg.maxRootOf, Cfg.maxOf, hk', hmax]
    have hleaf : (s.wrapper c.page).data.isLeaf = (h == 0) :=
      (repBelow_cons.mp (repBelow_append.mp hs.below).2).1.on.leaf_eq
    simp only [splitChild, hk', BaseBPlusTree.splitChild]
    refine Returns.step (load_run s ref) ?_
    refine Returns.step (splitChildHead_run hs hP hroom (by omega) hlw) ?_
    cases h with
    | zero =>
      -- a leaf: its keys are shared out evenly
      have hmaxOf : T.maxOf 0 = 2 * m := by simp [Cfg.maxOf, hk', hmaxLeaf]
      have hminOf : T.minOf 0 = m := by simp [Cfg.minOf, hk', hminLeaf]
      have hspec := splitChild_leaf (T := T) (n := T.minLeafKeys) hs hP
        (by rw [List.length_append] at hroom; omega) (by omega) (by omega)
        (by simp [hk', TreeType.hasRouters]) (by omega) (by omega)
      rw [show c.keys.length - T.minLeafKeys = T.minLeafKeys by omega] at hspec
      rw [if_neg (by simp [hleaf])]
      exact hspec
    | succ h =>
      have hmaxOf : T.maxOf (h + 1) = 2 * m - 1 := by simp [Cfg.maxOf, hmax]
      have hminOf : T.minOf (h + 1) = m - 1 := by simp [Cfg.minOf, hmin]
      have hsep : T.tokenAt (h + 1) = T.sep := by
        funext x
        simp [Cfg.tokenAt]
      rw [if_pos (by simp [hleaf])]
      exact BaseBTree.splitChild_spec hs hP hroom (by omega) (by omega) (by omega) hsep (by omega)
        (by omega) (Or.inr rfl)

end

end BTreesMods

import BTreesMods.Removal.Ready

/-!
# `prepareSubtree` of the B-tree

`BaseBTree::prepareSubtree` readies a child with the least number of keys: it takes a key from a
neighbour or merges the child with one. When the merge takes the only key of the root page, the
merged child is the new root page.
-/

namespace BTreesMods

variable {κ : Type}

/-- What `BaseBTree::prepareSubtree` returns, and the child that a removal goes on with. -/
inductive BaseBTree.Next (T : Cfg κ) (h : ℕ) (f : Focus κ) : Bool → Node κ → Prop
  | rich (hrich : T.minKeys < f.kid.keys.length) : Next T h f false f.kid
  | rotated {c : Node κ} (hpoor : f.kid.keys.length ≤ T.minKeys) (hrot : Rotated T h f c) :
    Next T h f false c
  | mergedLeft {K1 : List κ} {P : List (Node κ)} {l : Node κ} {x : κ}
    (hpoor : f.kid.keys.length ≤ T.minKeys) (hstuck : Stuck T f) (hkeys : f.keysL = K1 ++ [x])
    (hkids : f.kidsL = P ++ [l]) : Next T h f true (l.join x f.kid)
  | mergedRight {K2 : List κ} {S : List (Node κ)} {r : Node κ} {x : κ}
    (hpoor : f.kid.keys.length ≤ T.minKeys) (hstuck : Stuck T f) (hfirst : f.keysL = [])
    (hkeys : f.keysR = x :: K2) (hkids : f.kidsR = r :: S) : Next T h f false (f.kid.join x r)

/-- A node that no merge of two children leaves without keys. -/
def Node.Solid (T : Cfg κ) (t : Node κ) : Prop :=
  2 ≤ t.keys.length ∨ ∃ c ∈ t.kids, T.minKeys < c.keys.length

section

variable {T : Cfg κ} {s : BTree κ} {R : Multiset ℕ} {ref : PageRef κ} {h p : ℕ} {c d : Node κ}
  {K1 K2 : List κ} {P S : List (Node κ)} {x : κ} {f : Focus κ}

/-- The sizes of the B-tree. -/
theorem bTree_sizes (hT : T.Valid) (hk : T.treeType = .bTree) (h : ℕ) :
    1 ≤ T.minKeys ∧ T.maxKeys = 2 * T.minKeys + 1 ∧ T.maxKeys ≤ T.slots ∧ T.minOf h = T.minKeys ∧
      T.maxOf h = T.maxKeys := by
  obtain ⟨m, hm, -, hmin, hmax, hslots⟩ := valid_bTree hT hk
  refine ⟨by omega, by omega, by omega, ?_, ?_⟩
  · simp [Cfg.minOf, hk]
  · simp [Cfg.maxOf, hk]

theorem tokenAt_bTree (hk : T.treeType.hasRouters = false) (h : ℕ) : T.tokenAt h = T.sep := by
  funext x
  simp [Cfg.tokenAt, Cfg.sep, hk]

/-- The merged child in place of two. -/
def Focus.merged (K1 K2 : List κ) (P : List (Node κ)) (m : Node κ) (S : List (Node κ))
    (hP : P.length = K1.length) : Focus κ :=
  ⟨K1, K2, P, m, S, hP⟩

theorem Focus.merged_node {m : Node κ} (hP : P.length = K1.length) :
    (merged K1 K2 P m S hP).node p = ⟨p, K1 ++ K2, P ++ ([m] ++ S)⟩ :=
  rfl

/-- Two children that are merged with the key between them. -/
theorem join_readied {s1 : BTree κ} {ref1 : PageRef κ} (hmin : T.minOf h = T.minKeys)
    (hmax : 2 * T.minKeys + 1 ≤ T.maxOf h)
    (hnode : f.node p = ⟨p, K1 ++ x :: K2, P ++ ([c, d] ++ S)⟩) (hP : P.length = K1.length)
    (hkeep : K1 ++ K2 ≠ []) (hlast : f.keysR = [] → K2 = []) (hsz : SizedBelow T (h + 1) (f.node p).kids)
    (hc : c.keys.length = T.minKeys) (hd : d.keys.length = T.minKeys) (hf : Frame s s1 R)
    (hs1 : Stands s1 R ref1 (h + 1) ⟨p, K1 ++ K2, P ++ ([c.join x d] ++ S)⟩) :
    Readied T s R h p f s1 ref1 (Focus.merged K1 K2 P (c.join x d) S hP) := by
  rw [hnode] at hsz
  obtain ⟨hszP, hszc⟩ := sizedBelow_append.mp hsz
  obtain ⟨hszc, hszd⟩ := sizedBelow_cons.mp hszc
  obtain ⟨hszd, hszS⟩ := sizedBelow_cons.mp hszd
  obtain ⟨-, hszck⟩ := sized_iff.mp hszc
  obtain ⟨-, hszdk⟩ := sized_iff.mp hszd
  have hlen : (c.join x d).keys.length = 2 * T.minKeys + 1 := by
    rw [Node.join, List.length_append, List.length_cons]
    omega
  have hbounds : T.minOf h ≤ (c.join x d).keys.length ∧ (c.join x d).keys.length ≤ T.maxOf h := by
    omega
  refine ⟨hs1, hf, ?_, ?_, ?_, ?_, fun _ => hkeep, hlast⟩
  · exact sizedBelow_append.mpr ⟨hszP, sizedBelow_cons.mpr ⟨sized_iff.mpr ⟨hbounds,
      sizedBelow_append.mpr ⟨hszck, hszdk⟩⟩, hszS⟩⟩
  · change T.minOf h < (c.join x d).keys.length
    omega
  · rw [hnode, Focus.merged_node]
    simp only [List.length_append, List.length_cons]
    omega
  · rw [hnode, Focus.merged_node]
    simp only [List.length_append, List.length_cons]
    omega

theorem join_orderKept (hlt : StrictWeak T.compare) (hsep : T.tokenAt h = T.sep)
    (hs : Stands s R ref (h + 1) (f.node p))
    (hnode : f.node p = ⟨p, K1 ++ x :: K2, P ++ ([c, d] ++ S)⟩) (hP : P.length = K1.length)
    (hleft : ∀ y ∈ K1, y ∈ f.keysL) (hright : ∀ y ∈ K2, y ∈ f.keysR) :
    OrderKept T h p f (Focus.merged K1 K2 P (c.join x d) S hP) := by
  have hlenR := Focus.length_right hs
  have hrc : Rep s.stream.page h c := by
    rw [hnode] at hs
    exact hs.holds_pair.2.1
  refine ⟨Thinned.of_eq ?_, fun k hsorted hk => ⟨fun y hy => ?_, fun y hy => ?_⟩⟩
  · have htok := tokens_around₂ (T := T) (h := h) (p := p) (P := P) (K := K1) (L := K2) (S := S)
      (c := c) (d := d) (m := x) hP
    have hjoin := tokens_join (T := T) (h := h) (c := c) (d := d) (x := x) hrc.length_kids_of_pos
    rw [hsep] at hjoin
    rw [hnode, Focus.tokens_node]
    change tokensBefore T h P K1 ++ ((c.join x d).tokens T h ++ tokensAfter T h K2 S) = _
    rw [hjoin]
    exact htok.symm
  · exact hk.lt_of_mem hlt hsorted y (hleft y (List.mem_of_getLast? hy))
  · exact hk.gt_of_mem hlt hsorted hlenR y (hright y (List.mem_of_head? hy))

/-- A node whose children have no key to spare keeps a key when it loses one. -/
theorem Node.Solid.keeps (hsolid : (⟨p, K1 ++ x :: K2, P ++ ([c, d] ++ S)⟩ : Node κ).Solid T)
    (hlen : (P ++ ([c, d] ++ S)).length = (K1 ++ x :: K2).length + 1)
    (hc : c.keys.length ≤ T.minKeys) (hd : d.keys.length ≤ T.minKeys) : K1 ++ K2 ≠ [] := by
  rintro hnil
  obtain ⟨rfl, rfl⟩ := List.append_eq_nil_iff.mp hnil
  simp only [List.nil_append, List.length_append, List.length_cons, List.length_nil] at hlen
  obtain rfl : P = [] := List.length_eq_zero_iff.mp (by omega)
  obtain rfl : S = [] := List.length_eq_zero_iff.mp (by omega)
  rcases hsolid with htwo | ⟨e, he, hrich⟩
  · simp at htwo
  · simp only [List.nil_append, List.append_nil, List.mem_cons, List.not_mem_nil, or_false] at he
    rcases he with rfl | rfl
    · omega
    · omega

/-- `BaseBTree::prepareSubtree` below a node that no merge leaves without keys. -/
theorem BaseBTree.prepareSubtree_spec (hT : T.Valid) (hk : T.treeType = .bTree)
    (hlt : StrictWeak T.compare) (hs : Stands s R ref (h + 1) (f.node p))
    (hslots : (f.node p).keys.length ≤ T.slots) (hsz : SizedBelow T (h + 1) (f.node p).kids)
    (hsolid : (f.node p).Solid T) :
    Returns (BaseBTree.prepareSubtree T f.keysL.length ref) s fun r s1 => ∃ ref1 f1,
      (if r.merged then r.leftNeighbour else r.child) = s1.wrapper f1.kid.page ∧
        Readied T s R h p f s1 ref1 f1 ∧ OrderKept T h p f f1 ∧ BaseBTree.Next T h f r.merged f1.kid := by
  obtain ⟨hpos, hmaxKeys, hmaxslots, hmin, hmax⟩ := bTree_sizes hT hk h
  have hsep := tokenAt_bTree (T := T) (by rw [hk]; rfl) h
  have hlenk := hs.rep.length_kids
  have hread : readPageFromChild T (s.wrapper p) f.keysL.length s =
      .ok (s.wrapper f.kid.page, s) := by
    have := readPageFromChild_run (T := T) (w := s.wrapper p) (P := f.kidsL) (c := f.kid)
      (S := f.kidsR) hs.store (kid_page_mem (by simp [Focus.node])) hs.rep.on rfl hslots
    rwa [f.length_eq] at this
  have hrk : Rep s.stream.page h f.kid := hs.rep.2 f.kid (by simp [Focus.node])
  have hkn : (s.wrapper f.kid.page).data.keysNum = f.kid.keys.length := hrk.on.keysNum_eq
  have hlow : ∀ c ∈ (f.node p).kids, T.minKeys ≤ c.keys.length := fun c hc => by
    have := (sized_iff.mp (hsz c hc)).1.1
    omega
  unfold BaseBTree.prepareSubtree
  refine Returns.step (load_run s ref) ?_
  rw [hs.value_eq]
  refine Returns.step hread ?_
  rw [hkn]
  by_cases hrich : T.minKeys < f.kid.keys.length
  · rw [if_neg (by omega)]
    exact Returns.pure ⟨ref, f, rfl, Readied.refl hs hsz (by omega), OrderKept.refl f, .rich hrich⟩
  have hkid : f.kid.keys.length = T.minKeys := by
    have := hlow f.kid (by simp [Focus.node])
    omega
  rw [if_pos (by omega)]
  refine (rotateFromNeighbour_spec hlt hsep hmin (by omega) hT hs hslots hsz hkid).bind ?_
  rintro ⟨rotated, lw, rw'⟩ s1 hpost
  rcases hpost with ⟨ref1, f1, lw', hr, hready, hkept, hrot⟩ | ⟨hr, rfl, hstuck, hlw, hrw⟩
  · obtain rfl : rotated = _ := hr
    exact Returns.pure ⟨ref1, f1, rfl, hready, hkept, .rotated (by omega) hrot⟩
  obtain rfl : rotated = none := hr
  dsimp only at hlw hrw ⊢
  rcases f.left_cases with ⟨hK, hP⟩ | ⟨K1, x, P, l, hP, hf⟩
  · -- the first child is merged with its right neighbour
    rcases f.right_cases (Focus.length_right hs) with ⟨hKR, -⟩ | ⟨x, K2, d, S, hf⟩
    · exfalso
      have hzero : (f.node p).keys.length = 0 := by simp [Focus.node, hK, hKR]
      have hone : (f.node p).kids.length = 1 := by omega
      rcases hsolid with htwo | ⟨e, he, herich⟩
      · omega
      · obtain ⟨e', hkids⟩ := List.length_eq_one_iff.mp hone
        have hmem : f.kid ∈ (f.node p).kids := by simp [Focus.node]
        rw [hkids, List.mem_singleton] at he hmem
        rw [he, ← hmem] at herich
        omega
    · have hnode : f.node p = ⟨p, f.keysL ++ x :: K2, f.kidsL ++ ([f.kid, d] ++ S)⟩ := by
        rw [hf]
        rfl
      have hS : f.kidsR = d :: S := by
        rw [hf]
        rfl
      have hKR : f.keysR = x :: K2 := by
        rw [hf]
        rfl
      have hd : d.keys.length = T.minKeys := by
        have hpoor := hstuck.right d (by simp [hS])
        have := hlow d (by rw [hnode]; simp)
        omega
      have hs' := hs
      rw [hnode] at hs' hslots hsolid hlenk
      have hkeep := hsolid.keeps hlenk (by omega) (by omega)
      obtain ⟨cd, hmerge, hcd⟩ := BaseBTree.mergeChildren_eq hs' hslots hkid hd hmaxKeys hmaxslots
      obtain ⟨r, s1, hrun, ref1, rfl, hf1, hs1⟩ := finishMerge_kept hs' f.length_eq hslots hkeep
        (m := f.kid.join x d) rfl rfl hcd
      rw [if_neg (by simp [hK]), hrw d (by simp [hS])]
      refine Returns.step (hmerge.trans hrun) (Returns.pure ⟨ref1,
        Focus.merged f.keysL K2 f.kidsL (f.kid.join x d) S f.length_eq, rfl,
        join_readied hmin (by omega) hnode f.length_eq hkeep (by simp [hKR]) hsz hkid hd hf1 hs1,
        join_orderKept hlt hsep hs hnode f.length_eq (fun y hy => hy) (fun y hy => by simp [hKR, hy]),
        .mergedRight (by omega) hstuck hK hKR hS⟩)
  · -- the child is merged with its left neighbour
    have hKL : f.keysL = K1 ++ [x] := by
      rw [hf]
      rfl
    have hPL : f.kidsL = P ++ [l] := by
      rw [hf]
      rfl
    have hnode : f.node p = ⟨p, K1 ++ x :: f.keysR, P ++ ([l, f.kid] ++ f.kidsR)⟩ := by
      conv_lhs => rw [hf]
      exact Focus.rightOf_node hP
    have hl : l.keys.length = T.minKeys := by
      have hpoor := hstuck.left l (by simp [hPL])
      have := hlow l (by rw [hnode]; simp)
      omega
    have hs' := hs
    rw [hnode] at hs' hslots hsolid hlenk
    have hkeep := hsolid.keeps hlenk (by omega) (by omega)
    obtain ⟨cd, hmerge, hcd⟩ := BaseBTree.mergeChildren_eq hs' hslots hl hkid hmaxKeys hmaxslots
    obtain ⟨r, s1, hrun, ref1, rfl, hf1, hs1⟩ := finishMerge_kept hs' hP hslots hkeep
      (m := l.join x f.kid) rfl rfl hcd
    rw [if_pos (by simp [hKL]), hlw l (by simp [hPL]), show f.keysL.length - 1 = K1.length by simp [hKL]]
    refine Returns.step (hmerge.trans hrun) (Returns.pure ⟨ref1,
      Focus.merged K1 f.keysR P (l.join x f.kid) f.kidsR hP, rfl,
      join_readied hmin (by omega) hnode hP hkeep (fun hnil => hnil) hsz hl hkid hf1 hs1,
      join_orderKept hlt hsep hs hnode hP (fun y hy => by simp [hKL, hy]) (fun y hy => hy),
      .mergedLeft (by omega) hstuck hKL hPL⟩)

/-- A focus of a root page with one key. -/
theorem Focus.node_single (hnode : f.node p = ⟨p, [x], [c, d]⟩) :
    (f.keysL = [] ∧ f.kidsL = [] ∧ f.kid = c ∧ f.kidsR = [d] ∧ f.keysR = [x]) ∨
      (f.keysL = [x] ∧ f.kidsL = [c] ∧ f.kid = d ∧ f.kidsR = [] ∧ f.keysR = []) := by
  obtain ⟨KL, KR, PL, e, SR, hlen⟩ := f
  simp only [Focus.node, Node.mk.injEq, true_and] at hnode ⊢
  obtain ⟨hkeys, hkids⟩ := hnode
  rcases List.append_eq_singleton_iff.mp hkeys with ⟨rfl, rfl⟩ | ⟨rfl, rfl⟩
  · obtain rfl := List.length_eq_zero_iff.mp hlen
    rw [List.nil_append, List.cons.injEq] at hkids
    exact Or.inl ⟨rfl, rfl, hkids.1, hkids.2, rfl⟩
  · obtain ⟨l, rfl⟩ := List.length_eq_one_iff.mp hlen
    simp only [List.cons_append, List.nil_append, List.cons.injEq] at hkids
    exact Or.inr ⟨rfl, by simp [hkids.1], hkids.2.1, hkids.2.2, rfl⟩

/-- No key moves when no child has one to spare. -/
theorem Rotated.not_of_stuck {e : Node κ} (hrot : Rotated T h f e) (hstuck : Stuck T f) : False := by
  cases hrot with
  | fromLeft hkeys hkids hrich hl hlk hX =>
    have := hstuck.left _ (by rw [hkids, List.getLast?_concat]; rfl)
    omega
  | fromRight hleft hkeys hkids hrich hr hrk hX =>
    have := hstuck.right _ (by rw [hkids]; rfl)
    omega

/-- `BaseBTree::prepareSubtree` below a root page with one key, whose children are merged. -/
theorem BaseBTree.prepareSubtree_collapse (hT : T.Valid) (hk : T.treeType = .bTree)
    (hlt : StrictWeak T.compare) (hs : Stands s R .rootPage (h + 1) (f.node p))
    (hnode : f.node p = ⟨p, [x], [c, d]⟩) (hsz : SizedBelow T (h + 1) (f.node p).kids)
    (hc : c.keys.length ≤ T.minKeys) (hd : d.keys.length ≤ T.minKeys) :
    Returns (BaseBTree.prepareSubtree T f.keysL.length .rootPage) s fun r s1 =>
      (if r.merged then r.leftNeighbour else r.child) = s1.wrapper c.page ∧ Kept s s1 ∧
        Stands s1 R .rootPage h (c.join x d) ∧ BaseBTree.Next T h f r.merged (c.join x d) := by
  obtain ⟨hpos, hmaxKeys, hmaxslots, hmin, hmax⟩ := bTree_sizes hT hk h
  have hsep := tokenAt_bTree (T := T) (by rw [hk]; rfl) h
  have hslots : (f.node p).keys.length ≤ T.slots := by
    rw [hnode, List.length_singleton]
    omega
  have hlow : ∀ e ∈ (f.node p).kids, T.minKeys ≤ e.keys.length := fun e he => by
    have := (sized_iff.mp (hsz e he)).1.1
    omega
  have hc : c.keys.length = T.minKeys := by
    have := hlow c (by rw [hnode]; simp)
    omega
  have hd : d.keys.length = T.minKeys := by
    have := hlow d (by rw [hnode]; simp)
    omega
  have hread : readPageFromChild T (s.wrapper p) f.keysL.length s =
      .ok (s.wrapper f.kid.page, s) := by
    have := readPageFromChild_run (T := T) (w := s.wrapper p) (P := f.kidsL) (c := f.kid)
      (S := f.kidsR) hs.store (kid_page_mem (by simp [Focus.node])) hs.rep.on rfl hslots
    rwa [f.length_eq] at this
  have hrk : Rep s.stream.page h f.kid := hs.rep.2 f.kid (by simp [Focus.node])
  have hkn : (s.wrapper f.kid.page).data.keysNum = f.kid.keys.length := hrk.on.keysNum_eq
  have hs' : Stands s R .rootPage (h + 1) ⟨p, [] ++ x :: [], [] ++ ([c, d] ++ [])⟩ := by
    rw [hnode] at hs
    exact hs
  obtain ⟨cd, hmerge, hcd⟩ := BaseBTree.mergeChildren_eq hs' (by simp; omega) hc hd hmaxKeys hmaxslots
  obtain ⟨r, s1, hrun, hr, hkept, hs1⟩ := finishMerge_collapse (T := T) hs' (by omega)
    (m := c.join x d) rfl rfl hcd
  have hboth : f.kid.keys.length = T.minKeys ∧ Stuck T f := by
    rcases Focus.node_single hnode with ⟨-, hkL, hkid, hkR, -⟩ | ⟨-, hkL, hkid, hkR, -⟩
    · exact ⟨by rw [hkid, hc], ⟨by simp [hkL], by simp [hkR, hd]⟩⟩
    · exact ⟨by rw [hkid, hd], ⟨by simp [hkL, hc], by simp [hkR]⟩⟩
  unfold BaseBTree.prepareSubtree
  refine Returns.step (load_run s .rootPage) ?_
  rw [hs.value_eq]
  refine Returns.step hread ?_
  rw [hkn, if_pos (by omega)]
  refine (rotateFromNeighbour_spec hlt hsep hmin (by omega) hT hs hslots hsz hboth.1).bind ?_
  rintro ⟨rotated, lw, rw'⟩ s2 hpost
  rcases hpost with ⟨ref1, f1, lw', -, -, -, hrot⟩ | ⟨hrotated, rfl, -, hlw, hrw⟩
  · exact (hrot.not_of_stuck hboth.2).elim
  obtain rfl : rotated = none := hrotated
  dsimp only at hlw hrw ⊢
  rcases Focus.node_single hnode with ⟨hK, -, hkid, hkR, hKR⟩ | ⟨hK, hkL, hkid, -, -⟩
  · rw [if_neg (by simp [hK]), hrw d (by simp [hkR]), hkid, hK]
    exact Returns.step (hmerge.trans hrun) (Returns.pure ⟨hr, hkept, hs1,
      hkid ▸ .mergedRight hboth.1.le hboth.2 hK hKR hkR⟩)
  · rw [if_pos (by simp [hK]), hlw c (by simp [hkL]), hkid, hK]
    exact Returns.step (hmerge.trans hrun) (Returns.pure ⟨hr, hkept, hs1,
      hkid ▸ .mergedLeft hboth.1.le hboth.2 (hK.trans (List.nil_append _).symm)
        (hkL.trans (List.nil_append _).symm)⟩)

end

end BTreesMods

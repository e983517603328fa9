import BTreesMods.Removal.Ancestors
import BTreesMods.Removal.PrepareBTree

/-!
# A descent step of `BaseBTree::remove`

`remove` calls `prepareSubtree` for the child where its scan stops. The step keeps the sequence of
the whole tree, leaves the tree well formed, and the page that the search goes on with has a key to
spare and holds every record equal to the key (`prepareSubtree_descends`).
-/

namespace BTreesMods

variable {κ : Type}

section

variable {T : Cfg κ} {s : BTree κ} {h p : ℕ} {k : κ} {Z : List (ℕ × Focus κ)} {K : List κ}
  {C : List (Node κ)} {f : Focus κ} {n : Node κ} {b : Bool}

/-! ## The child where the scan stops -/

/-- A node seen from the child where the scan for `k` stops, when it does not stop in front of a key that is
equal to `k`. -/
theorem exists_focus (heq : T.Equates) (hlen : C.length = K.length + 1) {A B : List κ}
    (hK : K = A ++ B) (hcut : LowerCut T.compare k A B) (hne : ∀ x ∈ B.head?, T.isEqual k x = false) :
    ∃ f : Focus κ, f.node p = ⟨p, K, C⟩ ∧ f.keysL = A ∧ f.Splits T.compare k := by
  subst hK
  rw [List.length_append] at hlen
  obtain ⟨P, R, rfl, hP⟩ : ∃ P R, C = P ++ R ∧ P.length = A.length :=
    ⟨C.take A.length, C.drop A.length, (List.take_append_drop _ _).symm, by
      rw [List.length_take]
      omega⟩
  obtain ⟨c, S, rfl⟩ := List.exists_cons_of_length_pos (l := R) (by
    rw [List.length_append] at hlen
    omega)
  refine ⟨⟨A, B, P, c, S, hP⟩, rfl, rfl, fun x hx => hcut.lt_left x (List.mem_of_getLast? hx),
    fun x hx => ?_⟩
  exact heq.lt_of_ne (hcut.not_lt_head x hx) (hne x hx)

/-- The records of a node that are equal to `k` are those of the child. -/
theorem Focus.Splits.filter_eq (hlt : StrictWeak T.compare) (heq : T.Equates)
    (hs : Sorted T.compare ((f.node p).tokens T (h + 1))) (hk : f.Splits T.compare k) :
    ((f.node p).records T (h + 1)).filter (T.isEqual k) = (f.kid.records T h).filter (T.isEqual k) :=
  plug_outside (Z := [(p, f)]) (t := f.kid) hlt heq hs fun q hq => by
    rw [List.mem_singleton.mp hq]
    exact hk

/-! ## What the step returns -/

/-- `prepareSubtree` returns true exactly when the child was merged into its left neighbour. -/
theorem BaseBTree.Next.merged_iff (hn : BaseBTree.Next T h f b n)
    (hpages : ∀ l ∈ f.kidsL, l.page ≠ f.kid.page) :
    b = true ↔ ∃ l x, f.kidsL.getLast? = some l ∧ f.keysL.getLast? = some x ∧ n = l.join x f.kid := by
  have hother : n.page = f.kid.page → ¬∃ l x, f.kidsL.getLast? = some l ∧ f.keysL.getLast? = some x ∧
      n = l.join x f.kid := by
    rintro hpage ⟨l, x, hl, -, rfl⟩
    exact hpages l (List.mem_of_getLast? hl) hpage
  cases hn with
  | rich hrich => simpa using hother rfl
  | rotated hpoor hrot =>
    have hpage : n.page = f.kid.page := by
      cases hrot with
      | fromLeft hkeys hkids hrich hl hlk hX => rfl
      | fromRight hleft hkeys hkids hrich hr hrk hX => rfl
    simpa using hother hpage
  | mergedLeft hpoor hstuck hkeys hkids =>
    refine ⟨fun _ => ?_, fun _ => rfl⟩
    rw [hkids, hkeys, List.getLast?_concat, List.getLast?_concat]
    exact ⟨_, _, rfl, rfl, rfl⟩
  | mergedRight hpoor hstuck hfirst hkeys hkids => simpa using hother rfl

/-- The child is not one of those in front of it. -/
theorem Stands.kids_ne {R : Multiset ℕ} {ref : PageRef κ} (hs : Stands s R ref (h + 1) ⟨p, K, C⟩)
    (hnode : f.node p = ⟨p, K, C⟩) : ∀ l ∈ f.kidsL, l.page ≠ f.kid.page := by
  rw [← hnode] at hs
  have hs' : Held s R ref (h + 1) ⟨p, f.keysL ++ f.keysR, [] ++ ((f.kidsL ++ [f.kid]) ++ f.kidsR)⟩ := by
    simpa [Focus.node] using hs.toHeld
  have hnd := (List.nodup_cons.mp hs'.nodup_mid).2
  rw [List.map_append, List.nodup_append] at hnd
  exact fun l hl => hnd.2.2 _ (List.mem_map_of_mem hl) _ (by simp)

/-- The places of the child and of what is left of it in the node. -/
theorem Focus.merged_places (hnode : f.node p = ⟨p, K, C⟩) :
    (∃ l x, f.kidsL.getLast? = some l ∧ f.keysL.getLast? = some x ∧ n = l.join x f.kid) ↔
      ∃ l x c, 1 ≤ f.keysL.length ∧ C[f.keysL.length - 1]? = some l ∧
        K[f.keysL.length - 1]? = some x ∧ C[f.keysL.length]? = some c ∧ n = l.join x c := by
  simp only [Focus.node, Node.mk.injEq, true_and] at hnode
  obtain ⟨rfl, rfl⟩ := hnode
  have hkid : (f.kidsL ++ f.kid :: f.kidsR)[f.keysL.length]? = some f.kid := by
    rw [← f.length_eq, List.getElem?_append_right (Nat.le_refl _)]
    simp
  have hlen := f.length_eq
  rcases f.left_cases with ⟨hK, hP⟩ | ⟨K1, x, P, l, hP, hf⟩
  · simp [hK, hP]
  · have hK : f.keysL = K1 ++ [x] := by
      rw [hf]
      rfl
    have hC : f.kidsL = P ++ [l] := by
      rw [hf]
      rfl
    have hl : (f.kidsL ++ f.kid :: f.kidsR)[f.keysL.length - 1]? = some l := by
      simp [hK, hC, ← hP]
    have hx : (f.keysL ++ f.keysR)[f.keysL.length - 1]? = some x := by
      simp [hK]
    rw [hkid, hl, hx, hC, hK, List.getLast?_concat, List.getLast?_concat]
    constructor
    · rintro ⟨l', x', hl', hx', hn⟩
      exact ⟨l', x', f.kid, by simp, hl', hx', rfl, hn⟩
    · rintro ⟨l', x', c, -, hl', hx', hc, hn⟩
      obtain rfl := Option.some.inj hc
      exact ⟨l', x', hl', hx', hn⟩

/-- A root page with one key and no child with a key to spare. -/
theorem not_solid_cases (hsolid : ¬(⟨p, K, C⟩ : Node κ).Solid T) (hlen : C.length = K.length + 1)
    (hpos : 1 ≤ K.length) : ∃ x c d, K = [x] ∧ C = [c, d] ∧ c.keys.length ≤ T.minKeys ∧
      d.keys.length ≤ T.minKeys := by
  obtain ⟨hone, hpoor⟩ := not_or.mp hsolid
  simp only [not_exists, not_and, Nat.not_lt] at hone hpoor
  obtain ⟨x, rfl⟩ := List.length_eq_one_iff.mp (show K.length = 1 by omega)
  obtain ⟨c, d, rfl⟩ := List.length_eq_two.mp hlen
  exact ⟨x, c, d, rfl, rfl, hpoor c (by simp), hpoor d (by simp)⟩

/-! ## The whole tree after the step -/

/-- What a descent step for `k` does: the whole tree is well formed with the same records, and the
page at the end of its way is the one that `remove` goes on with. -/
structure Descended (T : Cfg κ) (k : κ) (h : ℕ) (Z : List (ℕ × Focus κ)) (t : Node κ) (s1 : BTree κ)
    (w : PageWrapper κ) (Z' : List (ℕ × Focus κ)) (n : Node κ) : Prop where
  wellFormed : WellFormed T s1 (h + Z'.length) (plug Z' n)
  records_eq : (plug Z' n).records T (h + Z'.length) = (plug Z t).records T (h + 1 + Z.length)
  page_eq : w = s1.wrapper n.page
  ready : T.minKeys + 1 ≤ n.keys.length
  holds : (n.records T h).filter (T.isEqual k) = (t.records T (h + 1)).filter (T.isEqual k)

/-- The step below a page that keeps a key. -/
theorem Readied.descended {R : Multiset ℕ} {s1 : BTree κ} {ref1 : PageRef κ} {f1 : Focus κ}
    (hrouters : T.treeType.hasRouters = false) (hlt : StrictWeak T.compare) (heq : T.Equates)
    (hw : WellFormed T s (h + 1 + Z.length) (plug Z (f.node p)))
    (hs : Stands s R .rootPage (h + 1 + Z.length) (plug Z (f.node p)))
    (hmin : T.minOf h = T.minKeys) (hmin' : T.minOf (h + 1) = T.minKeys)
    (hrich : Z ≠ [] → T.minKeys + 1 ≤ (f.node p).keys.length)
    (hready : Readied T s (beside (h + 1) Z R) h p f s1 ref1 f1) (hkept : OrderKept T h p f f1)
    (hk : f.Splits T.compare k) :
    Descended T k h Z (f.node p) s1 (s1.wrapper f1.kid.page) (Z ++ [(p, f1)]) f1.kid := by
  have hsorted : Sorted T.compare ((f.node p).tokens T (h + 1)) := sorted_of_plug hw.sorted
  have hheight : h + (Z ++ [(p, f1)]).length = h + 1 + Z.length := by
    rw [List.length_append, List.length_singleton]
    omega
  have hle := hready.keys_le
  have hge := hready.le_keys
  have hrecords := records_plug (h + 1) Z hkept.thinned.records_eq
  have hw1 := hw.refill hrouters hs hready.frame hready.stands rfl hkept.thinned.sublist
    (fun hZ => by
      have hsz := (sized_iff.mp (sized_of_plug hw.sized.below hZ)).1
      have := hrich hZ
      exact sized_iff.mpr ⟨by omega, hready.sized⟩)
    (fun hZ => by
      subst hZ
      have hpos := hw.sized.pos (by omega)
      refine ⟨hle.trans hw.sized.le_max, fun _ => ?_, hready.sized⟩
      exact List.length_pos_iff.mpr (hready.keeps (List.length_pos_iff.mp hpos)))
  refine ⟨?_, ?_, rfl, ?_, ?_⟩
  · rwa [hheight, plug_concat]
  · rwa [hheight, plug_concat]
  · have := hready.ready
    omega
  · rw [← (hkept.splits k hsorted hk).filter_eq hlt heq (p := p) (hkept.thinned.sorted hsorted),
      Node.records, hkept.thinned.records_eq, Node.records]

/-- A root page with one key and its two children merged have the same sequence. -/
theorem tokens_single {x : κ} {c d : Node κ} (hrouters : T.treeType.hasRouters = false)
    (hc : h ≠ 0 → c.kids.length = c.keys.length + 1) :
    (⟨p, [x], [c, d]⟩ : Node κ).tokens T (h + 1) = (c.join x d).tokens T h := by
  have haround := tokens_around₂ (T := T) (h := h) (p := p) (P := []) (K := []) (L := []) (S := [])
    (c := c) (d := d) (m := x) rfl
  rw [tokens_join hc, tokenAt_bTree hrouters]
  refine haround.trans ?_
  simp [tokensBefore, tokensAfter, before, after]

/-- The step below a root page that shrinks away. -/
theorem Stands.descended {R : Multiset ℕ} {s1 : BTree κ} {x : κ} {c d : Node κ} (hk : T.treeType = .bTree)
    (hT : T.Valid) (hw : WellFormed T s (h + 1) ⟨p, [x], [c, d]⟩) (hs : Stands s R .rootPage (h + 1)
      ⟨p, [x], [c, d]⟩) (hc : c.keys.length ≤ T.minKeys) (hd : d.keys.length ≤ T.minKeys)
    (hs1 : Stands s1 R .rootPage h (c.join x d)) :
    Descended T k h [] ⟨p, [x], [c, d]⟩ s1 (s1.wrapper c.page) [] (c.join x d) := by
  obtain ⟨hpos, hmaxKeys, hmaxslots, hmin, hmax⟩ := bTree_sizes hT hk h
  have hrouters : T.treeType.hasRouters = false := by rw [hk]; rfl
  have hrc : Rep s.stream.page h c := hs.rep.2 c (by simp)
  have htok : (⟨p, [x], [c, d]⟩ : Node κ).tokens T (h + 1) = (c.join x d).tokens T h :=
    tokens_single hrouters hrc.length_kids_of_pos
  have hszc := sized_iff.mp (hw.sized.below c (by simp))
  have hszd := sized_iff.mp (hw.sized.below d (by simp))
  have hlen : (c.join x d).keys.length = c.keys.length + d.keys.length + 1 := by
    rw [Node.join, List.length_append, List.length_cons, add_assoc]
  have hmaxRoot : T.maxRootOf h = T.maxKeys := by
    rw [← hmax]
    simp [Cfg.maxRootOf, hk]
  have hw1 : WellFormed T s1 h (c.join x d) := by
    refine hs1.wellFormed hrouters ⟨?_, fun _ => ?_, sizedBelow_append.mpr ⟨hszc.2, hszd.2⟩⟩ ?_
    · omega
    · omega
    · rw [← htok]
      exact hw.sorted
  refine ⟨hw1, congrArg recordsOf htok.symm, rfl, ?_, ?_⟩
  · omega
  · rw [Node.records, Node.records, htok]

/-- `BaseBTree::prepareSubtree`, called by `remove` for `k` on an inner page without a key equal to
`k`: the page `⟨p, K, C⟩` of a well-formed tree at the end of the way `Z`. -/
theorem BaseBTree.prepareSubtree_descends (hT : T.Valid) (hk : T.treeType = .bTree)
    (hlt : StrictWeak T.compare) (heq : T.Equates)
    (hw : WellFormed T s (h + 1 + Z.length) (plug Z ⟨p, K, C⟩))
    (hrich : Z ≠ [] → T.minKeys + 1 ≤ K.length) (hne : ∀ x ∈ K, T.isEqual k x = false) :
    ∃ i, (PageRef.value s (pageAt s p Z)).data.lowerBound T.slots T.compare k
        (PageRef.value s (pageAt s p Z)).data.keysNum 0 = .ok i ∧
      Returns (BaseBTree.prepareSubtree T i (pageAt s p Z)) s fun r s1 => ∃ Z' n,
        Descended T k h Z ⟨p, K, C⟩ s1 (if r.merged then r.leftNeighbour else r.child) Z' n ∧
        (r.merged = true ↔ ∃ l x c, 1 ≤ i ∧ C[i - 1]? = some l ∧ K[i - 1]? = some x ∧
          C[i]? = some c ∧ n = l.join x c) ∧
        ((∀ q ∈ Z, q.2.Splits T.compare k) → (n.records T h).filter (T.isEqual k) =
          ((plug Z ⟨p, K, C⟩).records T (h + 1 + Z.length)).filter (T.isEqual k)) := by
  obtain ⟨R, hs⟩ := hw.stands
  have hrouters : T.treeType.hasRouters = false := by rw [hk]; rfl
  obtain ⟨hpos, -, -, hmin, -⟩ := bTree_sizes hT hk h
  obtain ⟨-, -, -, hmin', -⟩ := bTree_sizes hT hk (h + 1)
  have hpage : Stands s (beside (h + 1) Z R) (pageAt s p Z) (h + 1) ⟨p, K, C⟩ := hs.descend
  have hslots : K.length ≤ T.slots := length_keys_of_plug hT hw.sized
  have hsz : SizedBelow T (h + 1) C := sizedBelow_of_plug hw.sized.below
  have hlenC : C.length = K.length + 1 := hpage.rep.length_kids
  have hon : (PageRef.value s (pageAt s p Z)).data.Holds false K (C.map Node.page) := by
    rw [hpage.value_eq]
    exact hpage.rep.on
  obtain ⟨A, B, hAB, hcut, hi⟩ := hon.lowerBound T.compare k
    (hon.keysNum_le hslots)
  obtain ⟨f, hnode, hKL, hsplits⟩ := exists_focus (p := p) heq hlenC hAB hcut fun x hx =>
    hne x (by rw [hAB]; exact List.mem_append_right A (List.mem_of_head? hx))
  have houtside : (∀ q ∈ Z, q.2.Splits T.compare k) →
      ((⟨p, K, C⟩ : Node κ).records T (h + 1)).filter (T.isEqual k) =
        ((plug Z ⟨p, K, C⟩).records T (h + 1 + Z.length)).filter (T.isEqual k) :=
    fun hZ => (plug_outside hlt heq hw.sorted hZ).symm
  have hmerged : ∀ b n, BaseBTree.Next T h f b n → (b = true ↔ ∃ l x c, 1 ≤ A.length ∧
      C[A.length - 1]? = some l ∧ K[A.length - 1]? = some x ∧ C[A.length]? = some c ∧
        n = l.join x c) := fun b n hn => by
    rw [hn.merged_iff (hpage.kids_ne hnode), ← hKL]
    exact f.merged_places hnode
  refine ⟨A.length, hi, ?_⟩
  rw [← hKL]
  by_cases hsolid : (⟨p, K, C⟩ : Node κ).Solid T
  · have hpage' := hpage
    rw [← hnode] at hpage' hw hs
    refine (BaseBTree.prepareSubtree_spec hT hk hlt hpage' (by rw [hnode]; exact hslots)
      (by rw [hnode]; exact hsz) (by rw [hnode]; exact hsolid)).mono ?_
    rintro r s1 ⟨ref1, f1, hr, hready, hkept, hnext⟩
    have hdescended := hready.descended hrouters hlt heq hw hs hmin hmin' (by rw [hnode]; exact hrich)
      hkept hsplits
    rw [hnode, ← hr] at hdescended
    refine ⟨_, f1.kid, hdescended, ?_, fun hZ => hdescended.holds.trans (houtside hZ)⟩
    rw [hKL]
    exact hmerged _ _ hnext
  · have hZ : Z = [] := by
      by_contra hZ
      have := hrich hZ
      exact hsolid (Or.inl (show 2 ≤ K.length by omega))
    subst hZ
    obtain ⟨x, c, d, rfl, rfl, hc, hd⟩ := not_solid_cases hsolid hlenC (hw.sized.pos (by omega))
    have hs' := hs
    rw [show plug [] ⟨p, [x], [c, d]⟩ = f.node p from hnode.symm] at hs'
    refine (BaseBTree.prepareSubtree_collapse hT hk hlt hs' hnode (by rw [hnode]; exact hsz) hc
      hd).mono ?_
    rintro r s1 ⟨hr, -, hs1, hnext⟩
    have hdescended := hs.descended (k := k) hk hT hw hc hd hs1
    rw [← hr] at hdescended
    refine ⟨[], _, hdescended, ?_, fun hZ => hdescended.holds.trans (houtside hZ)⟩
    rw [hKL]
    exact hmerged _ _ hnext

end

/-! ## A tree of order 2 -/

/-- A root page 1 with the key 2 and the leaves 2 and 3. -/
def BTree.pair : BTree ℕ := .ofPages 2 3 fun p =>
  if p = 1 then .filled [2] [2, 3] else if p = 2 then .filled [1] [] else .filled [3] []

theorem pair_wellFormed :
    WellFormed (natCfg .bTree 2) BTree.pair 1 ⟨1, [2], [⟨2, [1], []⟩, ⟨3, [3], []⟩]⟩ :=
  ofPages_wellFormed rfl rfl (by decide) (by decide) (by decide) (by decide) (by
    unfold Sorted
    decide)

/-- The step for 3 on the root page of `BTree.pair`, which shrinks away. -/
theorem prepareSubtree_descends_pair :
    ∃ i, BTree.pair.rootPage.data.lowerBound (natCfg .bTree 2).slots (natCfg .bTree 2).compare 3
        BTree.pair.rootPage.data.keysNum 0 = .ok i ∧
      Returns (BaseBTree.prepareSubtree (natCfg .bTree 2) i .rootPage) BTree.pair fun r s1 => ∃ Z' n,
        Descended (natCfg .bTree 2) 3 0 [] ⟨1, [2], [⟨2, [1], []⟩, ⟨3, [3], []⟩]⟩ s1
          (if r.merged then r.leftNeighbour else r.child) Z' n := by
  obtain ⟨i, hi, hstep⟩ := BaseBTree.prepareSubtree_descends (Z := []) (k := 3) ⟨2, 4, rfl⟩ rfl
    (natCfg_strictWeak _ _) (natCfg_equates _ _) pair_wellFormed (fun h => absurd rfl h) (by decide)
  refine ⟨i, hi, hstep.mono ?_⟩
  rintro r s1 ⟨Z', n, hdescended, -, -⟩
  exact ⟨Z', n, hdescended⟩

end BTreesMods

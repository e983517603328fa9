import BTreesMods.Removal.RotateTwice
import BTreesMods.Removal.MergeThree

/-!
# `prepareSubtree` of the B*-tree

`BaseBStarTree::prepareSubtree` readies a child with the least number of keys: it takes a key from a
neighbour, also through a neighbour, or makes two children of three. When the child is in the middle
of the three, its records are spread over both new children and one of them goes up
(`Focus.Middle`, `ThreeToTwo`).
-/

namespace BTreesMods

variable {κ : Type}

section

variable {T : Cfg κ} {s : BTree κ} {R : Multiset ℕ} {ref : PageRef κ} {h p : ℕ} {c d e : Node κ}
  {K1 K2 : List κ} {P S : List (Node κ)} {a b : κ} {f : Focus κ}

/-- The sizes of the B*-tree. -/
theorem bStarTree_sizes (hT : T.Valid) (hk : T.treeType = .bStarTree) (h : ℕ) :
    2 ≤ T.minKeys ∧ 3 * T.minKeys + 2 ≤ 2 * T.maxKeys ∧ T.maxKeys ≤ T.slots ∧
      2 * T.minKeys + 1 ≤ T.slots ∧ T.minOf h = T.minKeys ∧ T.maxOf h = T.maxKeys := by
  obtain ⟨m, hm, -, hmin, hmax, -, -, -, -, -, hslots, -⟩ := valid_star hT (by rw [hk]; rfl)
  have hle := le_max_left m (2 * ((2 * m - 2) / 3) + 1)
  have hle' := le_max_right m (2 * ((2 * m - 2) / 3) + 1)
  refine ⟨by omega, by omega, by omega, by omega, ?_, ?_⟩
  · simp [Cfg.minOf, hk]
  · simp [Cfg.maxOf, hk]

/-! ## Three minimal children -/

/-- The place in the middle one of three minimal children of the key that goes up. -/
def Cfg.medianPlace (T : Cfg κ) : ℕ := 2 * T.minKeys - (3 * T.minKeys + 2) / 2

/-- The children `c`, `d` and `e` became two: the key `y` of `d` went up, the keys of `d` in front of
it went to the left child and those behind it to the right one. -/
structure ThreeToTwo (T : Cfg κ) (s : BTree κ) (R : Multiset ℕ) (h p : ℕ) (K1 K2 : List κ)
    (P S : List (Node κ)) (c d e : Node κ) (a b : κ) (s1 : BTree κ) (ref1 : PageRef κ) (A : List κ)
    (y : κ) (B : List κ) (CX CY : List (Node κ)) : Prop where
  keys_eq : d.keys = A ++ y :: B
  place : A.length = T.medianPlace
  frame : Frame s s1 R
  stands : Stands s1 R ref1 (h + 1) ⟨p, K1 ++ y :: K2,
    P ++ ([⟨c.page, c.keys ++ a :: A, CX⟩, ⟨d.page, B ++ b :: e.keys, CY⟩] ++ S)⟩
  sized : SizedBelow T (h + 1)
    (P ++ ([⟨c.page, c.keys ++ a :: A, CX⟩, ⟨d.page, B ++ b :: e.keys, CY⟩] ++ S))
  ready : T.minKeys < (c.keys ++ a :: A).length ∧ T.minKeys < (B ++ b :: e.keys).length
  kids_eq : c.kids ++ (d.kids ++ e.kids) = CX ++ CY
  tokens_eq : (⟨p, K1 ++ y :: K2, P ++ ([⟨c.page, c.keys ++ a :: A, CX⟩,
      ⟨d.page, B ++ b :: e.keys, CY⟩] ++ S)⟩ : Node κ).tokens T (h + 1) =
    (⟨p, K1 ++ a :: b :: K2, P ++ ([c, d, e] ++ S)⟩ : Node κ).tokens T (h + 1)

/-- The left one of the minimal children `c`, `d` and `e` when they have become two; the key `a` stood
between `c` and `d`. -/
def Node.takeIn (T : Cfg κ) (c : Node κ) (a : κ) (d e : Node κ) : Node κ :=
  ⟨c.page, c.keys ++ a :: d.keys.take T.medianPlace,
    (c.kids ++ (d.kids ++ e.kids)).take (T.minKeys + T.medianPlace + 2)⟩

/-- The middle one of the minimal children `c`, `d` and `e` when they have become two; the key `b` stood
between `d` and `e`. -/
def Node.takeOver (T : Cfg κ) (c d : Node κ) (b : κ) (e : Node κ) : Node κ :=
  ⟨d.page, d.keys.drop (T.medianPlace + 1) ++ b :: e.keys,
    (c.kids ++ (d.kids ++ e.kids)).drop (T.minKeys + T.medianPlace + 2)⟩

/-- `BaseBStarTree::mergeChildren` of three children with the least number of keys. -/
theorem mergeThreeMin_spec [Inhabited κ] (hT : T.Valid) (hk : T.treeType = .bStarTree)
    (hfit : T.MergeBufferFits)
    (hs : Stands s R ref (h + 1) ⟨p, K1 ++ a :: b :: K2, P ++ ([c, d, e] ++ S)⟩)
    (hP : P.length = K1.length) (hslots : (K1 ++ a :: b :: K2).length ≤ T.slots)
    (hsz : SizedBelow T (h + 1) (P ++ ([c, d, e] ++ S))) (hc : c.keys.length = T.minKeys)
    (hd : d.keys.length = T.minKeys) (he : e.keys.length = T.minKeys) :
    Returns (BaseBStarTree.mergeThreeChildren T (s.wrapper c.page) (s.wrapper d.page)
        (s.wrapper e.page) ref K1.length (K1.length + 1)) s fun r s1 => ∃ ref1 A y B CX CY,
      r = (ref1, s1.wrapper c.page, s1.wrapper d.page) ∧
        ThreeToTwo T s R h p K1 K2 P S c d e a b s1 ref1 A y B CX CY := by
  obtain ⟨htwo, hmaxKeys, hmaxslots, hminslots, hmin, hmax⟩ := bStarTree_sizes hT hk h
  have hsep := tokenAt_bTree (T := T) (by rw [hk]; rfl) h
  have hplace : T.medianPlace < d.keys.length := by
    rw [Cfg.medianPlace]
    omega
  obtain ⟨A, y, B, hdk, hA⟩ : ∃ A y B, d.keys = A ++ y :: B ∧ A.length = T.medianPlace :=
    ⟨d.keys.take T.medianPlace, d.keys[T.medianPlace], d.keys.drop (T.medianPlace + 1), by simp, by
      rw [List.length_take]
      omega⟩
  have hlen := congrArg List.length hdk
  rw [List.length_append, List.length_cons] at hlen
  rw [Cfg.medianPlace] at hA
  have hX : (c.keys ++ a :: A).length = T.minKeys + 1 + A.length := by
    rw [List.length_append, List.length_cons]
    omega
  have hY : (B ++ b :: e.keys).length = B.length + 1 + T.minKeys := by
    rw [List.length_append, List.length_cons]
    omega
  have hrep := hs.holds_triple
  have hbuffer : (c.keys.length + d.keys.length + e.keys.length + 2) * T.recSize < 2 ^ 31 := by
    rw [hc, hd, he, show T.minKeys + T.minKeys + T.minKeys + 2 = 3 * T.minKeys + 2 by omega]
    exact hfit
  refine (BaseBStarTree.mergeThree_spec (X := c.keys ++ a :: A) (Y := B ++ b :: e.keys) (y := y) hs hP
    hslots (by omega) (by omega) (by omega) (by omega) hbuffer (by simp [hdk]) (by omega) (by omega)).mono ?_
  rintro _ s1 ⟨ref1, CX, CY, rfl, hf, hkids, hCX, hs1⟩
  obtain ⟨hszP, hszc⟩ := sizedBelow_append.mp hsz
  obtain ⟨hszc, hszd⟩ := sizedBelow_cons.mp hszc
  obtain ⟨hszd, hsze⟩ := sizedBelow_cons.mp hszd
  obtain ⟨hsze, hszS⟩ := sizedBelow_cons.mp hsze
  have hgrand : SizedBelow T h (CX ++ CY) := by
    rw [← hkids]
    exact sizedBelow_append.mpr ⟨(sized_iff.mp hszc).2,
      sizedBelow_append.mpr ⟨(sized_iff.mp hszd).2, (sized_iff.mp hsze).2⟩⟩
  obtain ⟨hszX, hszY⟩ := sizedBelow_append.mp hgrand
  have hszX' : (⟨c.page, c.keys ++ a :: A, CX⟩ : Node κ).Sized T h :=
    sized_iff.mpr ⟨⟨by dsimp only; omega, by dsimp only; omega⟩, hszX⟩
  have hszY' : (⟨d.page, B ++ b :: e.keys, CY⟩ : Node κ).Sized T h :=
    sized_iff.mpr ⟨⟨by dsimp only; omega, by dsimp only; omega⟩, hszY⟩
  refine ⟨ref1, A, y, B, CX, CY, rfl, hdk, hA, hf, hs1, sizedBelow_append.mpr ⟨hszP,
    sizedBelow_cons.mpr ⟨hszX', sizedBelow_cons.mpr ⟨hszY', hszS⟩⟩⟩, ⟨by omega, by omega⟩, hkids, ?_⟩
  have hnew := tokens_around₂ (T := T) (h := h) (p := p) (P := P) (K := K1) (m := y) (L := K2) (S := S)
    (c := ⟨c.page, c.keys ++ a :: A, CX⟩) (d := ⟨d.page, B ++ b :: e.keys, CY⟩) hP
  have hold := tokens_around₂ (T := T) (h := h) (p := p) (P := P) (K := K1) (m := a) (L := b :: K2)
    (S := e :: S) (c := c) (d := d) hP
  have hgathered : c.keys ++ a :: (d.keys ++ b :: e.keys) =
      (c.keys ++ a :: A) ++ y :: (B ++ b :: e.keys) := by
    simp [hdk]
  have hmiddle := tokens_threeToTwo (T := T)
    (fun hh => by
      obtain ⟨i, rfl⟩ := Nat.exists_eq_succ_of_ne_zero hh
      exact hrep.2.1.length_kids)
    (fun hh => by
      obtain ⟨i, rfl⟩ := Nat.exists_eq_succ_of_ne_zero hh
      exact hrep.2.2.1.length_kids) hCX hgathered hkids
  rw [hsep] at hmiddle
  refine hnew.trans ?_
  rw [hmiddle]
  refine Eq.trans ?_ hold.symm
  rw [tokensAfter_cons]
  simp

section

variable {s1 : BTree κ} {ref1 : PageRef κ} {A B : List κ} {y : κ} {CX CY : List (Node κ)}

/-- The two nodes that three minimal children have become. -/
theorem ThreeToTwo.nodes_eq (hthree : ThreeToTwo T s R h p K1 K2 P S c d e a b s1 ref1 A y B CX CY)
    (hc : c.keys.length = T.minKeys) :
    (⟨c.page, c.keys ++ a :: A, CX⟩ : Node κ) = c.takeIn T a d e ∧
      (⟨d.page, B ++ b :: e.keys, CY⟩ : Node κ) = c.takeOver T d b e := by
  have hA : d.keys.take T.medianPlace = A := by
    rw [hthree.keys_eq, ← hthree.place]
    simp
  have hB : d.keys.drop (T.medianPlace + 1) = B := by
    rw [hthree.keys_eq, ← hthree.place]
    simp
  have hkids : (c.kids ++ (d.kids ++ e.kids)).take (T.minKeys + T.medianPlace + 2) = CX ∧
      (c.kids ++ (d.kids ++ e.kids)).drop (T.minKeys + T.medianPlace + 2) = CY := by
    rw [hthree.kids_eq]
    have hrc := hthree.stands.holds_pair.2.1
    cases h with
    | zero =>
      have hCX : CX = [] := hrc.below
      have hCY : CY = [] := hthree.stands.holds_pair.2.2.below
      simp [hCX, hCY]
    | succ h =>
      have hCX : CX.length = (c.keys ++ a :: A).length + 1 := hrc.length_kids
      rw [List.length_append, List.length_cons, hc, hthree.place] at hCX
      exact ⟨List.take_left' (by omega), List.drop_left' (by omega)⟩
  refine ⟨?_, ?_⟩
  · rw [Node.takeIn, hA, hkids.1]
  · rw [Node.takeOver, hB, hkids.2]

/-- A child is ready when it is one of the two that three minimal children have become. -/
theorem ThreeToTwo.readied (hmin : T.minOf h = T.minKeys)
    (hthree : ThreeToTwo T s R h p K1 K2 P S c d e a b s1 ref1 A y B CX CY)
    (hnode : f.node p = ⟨p, K1 ++ a :: b :: K2, P ++ ([c, d, e] ++ S)⟩) {f1 : Focus κ}
    (hnode1 : f1.node p = ⟨p, K1 ++ y :: K2, P ++ ([⟨c.page, c.keys ++ a :: A, CX⟩,
      ⟨d.page, B ++ b :: e.keys, CY⟩] ++ S)⟩) (hready : T.minKeys < f1.kid.keys.length)
    (hlast : f.keysR = [] → f1.keysR = []) :
    Readied T s R h p f s1 ref1 f1 ∧
      Thinned ((f.node p).tokens T (h + 1)) ((f1.node p).tokens T (h + 1)) := by
  refine ⟨⟨?_, hthree.frame, ?_, ?_, ?_, ?_, fun _ => ?_, hlast⟩, ?_⟩
  · rw [hnode1]
    exact hthree.stands
  · rw [hnode1]
    exact hthree.sized
  · rwa [hmin]
  · rw [hnode, hnode1]
    simp
  · rw [hnode, hnode1]
    simp only [List.length_append, List.length_cons]
    omega
  · simp [hnode1]
  · rw [hnode, hnode1]
    exact Thinned.of_eq hthree.tokens_eq

/-- The first one of three children is ready when they have become two. -/
theorem ThreeToTwo.readied_first (hlt : StrictWeak T.compare)
    (hs : Stands s R ref (h + 1) ⟨p, K1 ++ a :: b :: K2, P ++ ([c, d, e] ++ S)⟩)
    (hP : P.length = K1.length) (hmin : T.minOf h = T.minKeys)
    (hthree : ThreeToTwo T s R h p K1 K2 P S c d e a b s1 ref1 A y B CX CY)
    (hnode : f.node p = ⟨p, K1 ++ a :: b :: K2, P ++ ([c, d, e] ++ S)⟩) (hL : f.keysL = K1)
    (hR : f.keysR = a :: b :: K2) :
    ∃ f1 : Focus κ, f1.kid = ⟨c.page, c.keys ++ a :: A, CX⟩ ∧ Readied T s R h p f s1 ref1 f1 ∧
      OrderKept T h p f f1 := by
  have hrep := hs.holds_triple
  obtain ⟨hready, hthin⟩ := hthree.readied hmin hnode (Focus.leftOf_node hP) hthree.ready.1
    fun hnil => by
      rw [hR] at hnil
      cases hnil
  refine ⟨Focus.leftOf K1 y K2 P ⟨c.page, c.keys ++ a :: A, CX⟩ ⟨d.page, B ++ b :: e.keys, CY⟩ S hP, rfl,
    hready, hthin, fun k hsorted hk => ⟨?_, ?_⟩⟩
  · exact fun z hz => hk.lt_left z (by rw [hL]; exact hz)
  · simp only [Focus.leftOf, List.head?_cons, Option.mem_def, Option.some.injEq]
    rintro _ rfl
    rw [hnode] at hsorted
    have hsorted' : Sorted T.compare
        ((⟨p, K1 ++ a :: b :: K2, P ++ ([c, d] ++ e :: S)⟩ : Node κ).tokens T (h + 1)) := hsorted
    have hay : T.compare y a = false := sep_le hP hrep.2.2.1 hthree.keys_eq hsorted'
    exact hlt.lt_of_lt_of_le (hk.lt_right a (by simp [hR])) hay

/-- The last one of three children is ready when they have become two. -/
theorem ThreeToTwo.readied_last (hlt : StrictWeak T.compare)
    (hs : Stands s R ref (h + 1) ⟨p, K1 ++ a :: b :: K2, P ++ ([c, d, e] ++ S)⟩)
    (hP : P.length = K1.length) (hmin : T.minOf h = T.minKeys)
    (hthree : ThreeToTwo T s R h p K1 K2 P S c d e a b s1 ref1 A y B CX CY)
    (hnode : f.node p = ⟨p, K1 ++ a :: b :: K2, P ++ ([c, d, e] ++ S)⟩) (hL : f.keysL = K1 ++ [a, b])
    (hR : f.keysR = K2) :
    ∃ f1 : Focus κ, f1.kid = ⟨d.page, B ++ b :: e.keys, CY⟩ ∧ Readied T s R h p f s1 ref1 f1 ∧
      OrderKept T h p f f1 := by
  have hrep := hs.holds_triple
  obtain ⟨hready, hthin⟩ := hthree.readied hmin hnode (Focus.rightOf_node hP) hthree.ready.2
    fun hnil => hR.symm.trans hnil
  refine ⟨Focus.rightOf K1 y K2 P ⟨c.page, c.keys ++ a :: A, CX⟩ ⟨d.page, B ++ b :: e.keys, CY⟩ S hP, rfl,
    hready, hthin, fun k hsorted hk => ⟨?_, ?_⟩⟩
  · simp only [Focus.rightOf, List.getLast?_concat, Option.mem_def, Option.some.injEq]
    rintro _ rfl
    rw [hnode] at hsorted
    have hyb : T.compare b y = false := by
      have hsorted' : Sorted T.compare ((⟨p, (K1 ++ [a]) ++ b :: K2, (P ++ [c]) ++ ([d, e] ++ S)⟩ :
          Node κ).tokens T (h + 1)) := by
        simpa using hsorted
      exact le_sep (by simp [hP]) hrep.2.2.1 hthree.keys_eq hsorted'
    exact hlt.lt_of_le_of_lt hyb (hk.lt_left b (by simp [hL]))
  · exact fun z hz => hk.lt_right z (by rw [hR]; exact hz)

/-- The right one of the two children has the keys and children of the last one of the three. -/
theorem ThreeToTwo.extended (hk : T.treeType = .bStarTree)
    (hs : Stands s R ref (h + 1) ⟨p, K1 ++ a :: b :: K2, P ++ ([c, d, e] ++ S)⟩)
    (hthree : ThreeToTwo T s R h p K1 K2 P S c d e a b s1 ref1 A y B CX CY)
    (hd : d.keys.length = T.minKeys) : Extended e ⟨d.page, B ++ b :: e.keys, CY⟩ T.mergeGain := by
  have hre : Rep s.stream.page h e := hs.holds_triple.2.2.2
  have hrd := hthree.stands.holds_pair.2.2
  have hlen : e.kids.length ≤ CY.length := by
    cases h with
    | zero =>
      have hnil : e.kids = [] := hre.below
      simp [hnil]
    | succ h =>
      have hY : CY.length = (B ++ b :: e.keys).length + 1 := hrd.length_kids
      have hE := hre.length_kids
      rw [hY, hE, List.length_append, List.length_cons]
      omega
  have hsuffix : e.kids <:+ CX ++ CY := by
    rw [← hthree.kids_eq, ← List.append_assoc]
    exact List.suffix_append _ _
  obtain ⟨X, hX⟩ := List.suffix_of_suffix_length_le hsuffix (List.suffix_append CX CY) hlen
  refine ⟨B ++ [b], X, by simp, hX.symm, ?_⟩
  have hlenA := hthree.place
  have hlend := congrArg List.length hthree.keys_eq
  rw [List.length_append, List.length_cons] at hlend
  rw [Cfg.medianPlace] at hlenA
  rw [List.length_append, List.length_singleton, Cfg.mergeGain, if_pos (by rw [hk]; rfl)]
  omega

/-- A key other than `y` belongs to the left or to the right of it when `y` takes the place of the keys
around a child. -/
theorem Focus.Splits.or {c' d' : Node κ} {k : κ} (hlt : StrictWeak T.compare) (heq : T.Equates)
    (hP : P.length = K1.length) (hlenR : f.kidsR.length = f.keysR.length) (hL : f.keysL = K1 ++ [a])
    (hR : f.keysR = b :: K2) (hsorted : Sorted T.compare ((f.node p).tokens T (h + 1)))
    (hk : f.Splits T.compare k) (hy : T.isEqual k y = false) :
    (Focus.leftOf K1 y K2 P c' d' S hP).Splits T.compare k ∨
      (Focus.rightOf K1 y K2 P c' d' S hP).Splits T.compare k := by
  by_cases hky : T.compare k y = true
  · refine Or.inl ⟨fun z hz => hk.lt_of_mem hlt hsorted z ?_, by simpa [Focus.leftOf] using hky⟩
    rw [hL]
    exact List.mem_append_left _ (List.mem_of_getLast? hz)
  · have hyk : T.compare y k = true := by
      by_contra hyk
      rw [(heq k y).mpr ⟨by simpa using hky, by simpa using hyk⟩] at hy
      cases hy
    refine Or.inr ⟨by simpa [Focus.rightOf] using hyk, fun z hz => hk.gt_of_mem hlt hsorted hlenR z ?_⟩
    rw [hR]
    exact List.mem_cons_of_mem _ (List.mem_of_head? hz)

/-- Below the middle one of three children, a key other than the one that went up is below one of the
two that they have become. -/
theorem ThreeToTwo.readied_middle (hlt : StrictWeak T.compare) (heq : T.Equates)
    (hs : Stands s R ref (h + 1) (f.node p)) (hP : P.length = K1.length) (hmin : T.minOf h = T.minKeys)
    (hthree : ThreeToTwo T s R h p K1 K2 P S c d e a b s1 ref1 A y B CX CY)
    (hnode : f.node p = ⟨p, K1 ++ a :: b :: K2, P ++ ([c, d, e] ++ S)⟩) (hL : f.keysL = K1 ++ [a])
    (hR : f.keysR = b :: K2) {k : κ} (hsorted : Sorted T.compare ((f.node p).tokens T (h + 1)))
    (hk : f.Splits T.compare k) (hy : T.isEqual k y = false) :
    ∃ f1 : Focus κ, (f1.kid.page = c.page ∨ f1.kid.page = d.page) ∧ Readied T s R h p f s1 ref1 f1 ∧
      Thinned ((f.node p).tokens T (h + 1)) ((f1.node p).tokens T (h + 1)) ∧
      f1.Splits T.compare k := by
  have hlenR := Focus.length_right hs
  have hready : ∀ f1 : Focus κ, f1.node p = ⟨p, K1 ++ y :: K2, P ++ ([⟨c.page, c.keys ++ a :: A, CX⟩,
      ⟨d.page, B ++ b :: e.keys, CY⟩] ++ S)⟩ → T.minKeys < f1.kid.keys.length →
      Readied T s R h p f s1 ref1 f1 ∧
        Thinned ((f.node p).tokens T (h + 1)) ((f1.node p).tokens T (h + 1)) :=
    fun f1 hf1 hlen => hthree.readied hmin hnode hf1 hlen fun hnil => by
      rw [hR] at hnil
      cases hnil
  rcases hk.or hlt heq hP hlenR hL hR hsorted hy with hk1 | hk1
  · exact ⟨Focus.leftOf K1 y K2 P ⟨c.page, c.keys ++ a :: A, CX⟩ ⟨d.page, B ++ b :: e.keys, CY⟩ S hP,
      Or.inl rfl, (hready _ (Focus.leftOf_node hP) hthree.ready.1).1,
      (hready _ (Focus.leftOf_node hP) hthree.ready.1).2, hk1⟩
  · exact ⟨Focus.rightOf K1 y K2 P ⟨c.page, c.keys ++ a :: A, CX⟩ ⟨d.page, B ++ b :: e.keys, CY⟩ S hP,
      Or.inr rfl, (hready _ (Focus.rightOf_node hP) hthree.ready.2).1,
      (hready _ (Focus.rightOf_node hP) hthree.ready.2).2, hk1⟩

end

/-! ## Near the child -/

/-- A last child gets its key from the left. -/
theorem Rotated.extended_last {n : Node κ} (hrot : Rotated T h f n) (hlast : f.keysR = []) :
    ∃ l ∈ f.kidsL.reverse.take T.reach, T.minKeys < l.keys.length ∧ Extended f.kid n 1 := by
  cases hrot with
  | @fromLeft K1 LK P LC X l x y hkeys hkids hrich hl hlk hX =>
    refine ⟨l, ?_, hrich, Extended.cons f.kid⟩
    rw [hkids, List.reverse_append, Cfg.reach]
    split_ifs <;> simp
  | fromRight hleft hkeys hkids hrich hr hrk hX =>
    rw [hlast] at hkeys
    cases hkeys

variable [Inhabited κ]

/-- `BaseBStarTree::prepareSubtree` when the child or a direct neighbour has a key to spare. -/
theorem BaseBStarTree.prepareSubtree_near (hT : T.Valid) (hk : T.treeType = .bStarTree)
    (hlt : StrictWeak T.compare) (hs : Stands s R ref (h + 1) (f.node p))
    (hslots : (f.node p).keys.length ≤ T.slots) (hsz : SizedBelow T (h + 1) (f.node p).kids)
    (hnear : T.minKeys < f.kid.keys.length ∨ ¬Stuck T f) :
    Returns (BaseBStarTree.prepareSubtree T f.keysL.length ref) s fun r s1 => ∃ ref1 f1,
      r.merged = false ∧ r.child = s1.wrapper f1.kid.page ∧ (T.minKeys < f.kid.keys.length ∧ f1 = f ∨
        f.kid.keys.length ≤ T.minKeys ∧ Rotated T h f f1.kid) ∧
        Readied T s R h p f s1 ref1 f1 ∧ OrderKept T h p f f1 := by
  obtain ⟨htwo, hmaxKeys, -, -, hmin, hmax⟩ := bStarTree_sizes hT hk h
  have hsep := tokenAt_bTree (T := T) (by rw [hk]; rfl) h
  have hkn : (s.wrapper f.kid.page).data.keysNum = f.kid.keys.length :=
    (hs.rep.2 f.kid (by simp [Focus.node])).on.keysNum_eq
  unfold BaseBStarTree.prepareSubtree
  refine Returns.step (load_run s ref) ?_
  rw [hs.value_eq]
  refine Returns.step (Focus.readKid hs hslots) ?_
  rw [hkn]
  by_cases hrich : T.minKeys < f.kid.keys.length
  · rw [if_neg (by omega)]
    exact Returns.pure ⟨ref, f, rfl, rfl, Or.inl ⟨hrich, rfl⟩, Readied.refl hs hsz (by omega),
      OrderKept.refl f⟩
  have hkid : f.kid.keys.length = T.minKeys := by
    have hlow := (sized_iff.mp (hsz f.kid (by simp [Focus.node]))).1.1
    omega
  rw [if_pos (by omega)]
  refine (rotateFromNeighbour_spec hlt hsep hmin (by omega) hT hs hslots hsz hkid).bind ?_
  rintro ⟨rotated, lw, rw'⟩ s1 hpost
  rcases hpost with ⟨ref1, f1, lw', hr, hready, hkept, hrot⟩ | ⟨-, -, hstuck, -, -⟩
  · obtain rfl : rotated = _ := hr
    exact Returns.pure ⟨ref1, f1, rfl, rfl, Or.inr ⟨hkid.le, hrot⟩, hready, hkept⟩
  · exact absurd hstuck (hnear.resolve_left hrich)

/-- The rest of `BaseBStarTree::prepareSubtree` when neither the child nor a direct neighbour has a key
to spare. -/
def BaseBStarTree.prepareStuck (T : Cfg κ) (cursorNum : ℕ) (currentPage : PageRef κ)
    (cur leftNeighbour child rightNeighbour : PageWrapper κ) : TreeM κ (Prepared κ) := do
  let root ← isRoot cur
  if root then
    if cursorNum ≥ 1 then do
      let (currentPage, leftNeighbour) ←
        BaseBStarTree.mergeChildren T leftNeighbour child currentPage (cursorNum - 1)
      return ⟨true, currentPage, child, leftNeighbour⟩
    else do
      let (currentPage, child) ←
        BaseBStarTree.mergeChildren T child rightNeighbour currentPage cursorNum
      return ⟨false, currentPage, child, leftNeighbour⟩
  else if cursorNum ≥ 1 then
    BaseBStarTree.prepareFromLeft T cursorNum currentPage cur leftNeighbour child rightNeighbour
  else
    BaseBStarTree.prepareFromRight T cursorNum currentPage cur leftNeighbour child rightNeighbour

theorem BaseBStarTree.prepareSubtree_stuck (hT : T.Valid) (hk : T.treeType = .bStarTree)
    (hlt : StrictWeak T.compare) (hs : Stands s R ref (h + 1) (f.node p))
    (hslots : (f.node p).keys.length ≤ T.slots) (hsz : SizedBelow T (h + 1) (f.node p).kids)
    (hpoor : f.kid.keys.length ≤ T.minKeys) (hstuck : Stuck T f) :
    ∃ lw rw, (∀ l ∈ f.kidsL.getLast?, lw = s.wrapper l.page) ∧
      (∀ d ∈ f.kidsR.head?, rw = s.wrapper d.page) ∧
      BaseBStarTree.prepareSubtree T f.keysL.length ref s =
        BaseBStarTree.prepareStuck T f.keysL.length ref (s.wrapper p) lw (s.wrapper f.kid.page) rw s := by
  obtain ⟨htwo, hmaxKeys, -, -, hmin, hmax⟩ := bStarTree_sizes hT hk h
  have hsep := tokenAt_bTree (T := T) (by rw [hk]; rfl) h
  have hkn : (s.wrapper f.kid.page).data.keysNum = f.kid.keys.length :=
    (hs.rep.2 f.kid (by simp [Focus.node])).on.keysNum_eq
  have hkid : f.kid.keys.length = T.minKeys := by
    have hlow := (sized_iff.mp (hsz f.kid (by simp [Focus.node]))).1.1
    omega
  obtain ⟨⟨rotated, lw, rw'⟩, s1, hrun, hpost⟩ :=
    rotateFromNeighbour_spec hlt hsep hmin (by omega) hT hs hslots hsz hkid
  rcases hpost with ⟨ref1, f1, lw', -, -, -, hrot⟩ | ⟨hr, rfl, -, hlw, hrw⟩
  · exact (hrot.not_of_stuck hstuck).elim
  obtain rfl : rotated = none := hr
  refine ⟨lw, rw', hlw, hrw, ?_⟩
  unfold BaseBStarTree.prepareSubtree BaseBStarTree.prepareStuck
  have hvalue : ref.value s1 = s1.wrapper p := hs.value_eq
  rw [bind_run (load_run s1 ref), hvalue, bind_run (Focus.readKid hs hslots), hkn, if_pos hpoor,
    bind_run hrun]

/-! ## Two pages away from the child -/

omit [Inhabited κ] in
/-- The last two keys and children in front of the child. -/
theorem Focus.two_left (f : Focus κ) (hlen : 2 ≤ f.keysL.length) : ∃ K1 a b P c d,
    f.keysL = K1 ++ [a, b] ∧ f.kidsL = P ++ [c, d] ∧ P.length = K1.length := by
  have hkids := f.length_eq
  rcases f.left_cases with ⟨hK, -⟩ | ⟨K1, b, P, d, hP, hf⟩
  · simp [hK] at hlen
  have hK : f.keysL = K1 ++ [b] := by
    rw [hf]
    rfl
  have hC : f.kidsL = P ++ [d] := by
    rw [hf]
    rfl
  obtain ⟨K1, a, rfl⟩ := List.eq_nil_or_concat' K1 |>.resolve_left fun hnil => by
    simp [hK, hnil] at hlen
  obtain ⟨P, c, rfl⟩ := List.eq_nil_or_concat' P |>.resolve_left fun hnil => by
    simp [hnil] at hP
  exact ⟨K1, a, b, P, c, d, by simp [hK], by simp [hC], by simpa using hP⟩

omit [Inhabited κ] in
/-- The first two keys and children behind the child. -/
theorem Focus.two_right (f : Focus κ) (hlen : 2 ≤ f.keysR.length)
    (hkids : f.kidsR.length = f.keysR.length) : ∃ a b K2 d e S,
    f.keysR = a :: b :: K2 ∧ f.kidsR = d :: e :: S := by
  obtain ⟨a, L, hK⟩ := List.exists_cons_of_length_pos (l := f.keysR) (by omega)
  obtain ⟨b, K2, rfl⟩ := List.exists_cons_of_length_pos (l := L) (by
    rw [hK, List.length_cons] at hlen
    omega)
  rw [hK, List.length_cons, List.length_cons] at hkids
  obtain ⟨d, M, hC⟩ := List.exists_cons_of_length_eq_add_one hkids
  rw [hC, List.length_cons, Nat.add_right_cancel_iff] at hkids
  obtain ⟨e, S, rfl⟩ := List.exists_cons_of_length_eq_add_one hkids
  exact ⟨a, b, K2, d, e, S, hK, hC⟩

variable {lw rw : PageWrapper κ}

/-- The child is between two others, and neither it nor a direct neighbour has a key to spare. -/
structure Focus.Middle (T : Cfg κ) (f : Focus κ) : Prop where
  poor : f.kid.keys.length ≤ T.minKeys
  stuck : Stuck T f
  left : f.keysL ≠ []
  right : f.keysR ≠ []

/-- The step towards the child of a page that is not the root makes two children of three: neither the child
nor a neighbour has a key to spare, and where the child is the last or first one, not the next but one
either. -/
structure Focus.MergesThree (T : Cfg κ) (f : Focus κ) : Prop where
  poor : f.kid.keys.length ≤ T.minKeys
  stuck : Stuck T f
  left : f.keysR = [] → ∀ c ∈ f.kidsL.reverse.take 2, c.keys.length ≤ T.minKeys
  right : f.keysL = [] → ∀ c ∈ f.kidsR.take 2, c.keys.length ≤ T.minKeys

omit [Inhabited κ] in
theorem Focus.Middle.mergesThree (hmid : f.Middle T) : f.MergesThree T :=
  ⟨hmid.poor, hmid.stuck, fun h => absurd h hmid.right, fun h => absurd h hmid.left⟩

/-- The node that `remove` goes on with after a step towards the child `f.kid` of a page that is not the
root, and whether the page of that child was freed. -/
inductive BaseBStarTree.Next (T : Cfg κ) (h : ℕ) (f : Focus κ) : Bool → Node κ → Prop
  | rich (hrich : T.minKeys < f.kid.keys.length) : Next T h f false f.kid
  | rotated {n : Node κ} (hpoor : f.kid.keys.length ≤ T.minKeys) (hrot : Rotated T h f n) : Next T h f false n
  | throughLeft {K1 : List κ} {P LC X : List (Node κ)} {c d : Node κ} {x : κ}
    (hpoor : f.kid.keys.length ≤ T.minKeys) (hstuck : Stuck T f) (hlast : f.keysR = [])
    (hkeys : f.keysL = K1 ++ [x]) (hkids : f.kidsL = P ++ [c, d]) (hrich : T.minKeys < c.keys.length)
    (hd : d.kids = LC ++ X) (hX : h ≠ 0 → X.length = 1) :
    Next T h f false ⟨f.kid.page, x :: f.kid.keys, X ++ f.kid.kids⟩
  | throughRight {K2 : List κ} {S X RC : List (Node κ)} {d e : Node κ} {x : κ}
    (hpoor : f.kid.keys.length ≤ T.minKeys) (hstuck : Stuck T f) (hfirst : f.keysL = [])
    (hkeys : f.keysR = x :: K2) (hkids : f.kidsR = d :: e :: S) (hrich : T.minKeys < e.keys.length)
    (hd : d.kids = X ++ RC) (hX : h ≠ 0 → X.length = 1) :
    Next T h f false ⟨f.kid.page, f.kid.keys ++ [x], f.kid.kids ++ X⟩
  | firstOfThree {K2 : List κ} {S : List (Node κ)} {d e : Node κ} {a : κ}
    (hpoor : f.kid.keys.length ≤ T.minKeys) (hstuck : Stuck T f) (hfirst : f.keysL = [])
    (hkeys : f.keysR = a :: K2) (hkids : f.kidsR = d :: e :: S) (he : e.keys.length ≤ T.minKeys) :
    Next T h f false (f.kid.takeIn T a d e)
  | lastOfThree {K1 : List κ} {P : List (Node κ)} {c d : Node κ} {b : κ}
    (hpoor : f.kid.keys.length ≤ T.minKeys) (hstuck : Stuck T f) (hlast : f.keysR = [])
    (hkeys : f.keysL = K1 ++ [b]) (hkids : f.kidsL = P ++ [c, d]) (hc : c.keys.length ≤ T.minKeys) :
    Next T h f true (c.takeOver T d b f.kid)
  | middleLeft {K1 : List κ} {P S : List (Node κ)} {c e : Node κ} {a : κ} (hmid : f.Middle T)
    (hkeys : f.keysL = K1 ++ [a]) (hkidsL : f.kidsL = P ++ [c]) (hkidsR : f.kidsR = e :: S) :
    Next T h f false (c.takeIn T a f.kid e)
  | middleRight {K2 : List κ} {P S : List (Node κ)} {c e : Node κ} {b : κ} (hmid : f.Middle T)
    (hkeys : f.keysR = b :: K2) (hkidsL : f.kidsL = P ++ [c]) (hkidsR : f.kidsR = e :: S) :
    Next T h f false (c.takeOver T f.kid b e)

/-- What a step towards one child of a page that is not the root does, with the node it goes on with. -/
def StarStep (T : Cfg κ) (s : BTree κ) (R : Multiset ℕ) (h p : ℕ) (f : Focus κ) (r : Prepared κ)
    (s1 : BTree κ) : Prop :=
  ∃ ref1 f1, (if r.merged then r.leftNeighbour else r.child) = s1.wrapper f1.kid.page ∧
    (r.merged = true → r.child = s.wrapper f.kid.page) ∧ Readied T s R h p f s1 ref1 f1 ∧
    OrderKept T h p f f1 ∧ BaseBStarTree.Next T h f r.merged f1.kid ∧
    (f.keysR = [] → Extended f.kid f1.kid (T.lastGain f.kid f.kidsL.reverse))

/-- What a step towards one child of a page that is not the root does. -/
def StarPost (T : Cfg κ) (s : BTree κ) (R : Multiset ℕ) (h p : ℕ) (f : Focus κ) (r : Prepared κ)
    (s1 : BTree κ) : Prop :=
  ∃ ref1 f1, (if r.merged then r.leftNeighbour else r.child) = s1.wrapper f1.kid.page ∧
    Readied T s R h p f s1 ref1 f1 ∧ OrderKept T h p f f1 ∧
    (f.keysR = [] → Extended f.kid f1.kid (T.lastGain f.kid f.kidsL.reverse))

omit [Inhabited κ] in
theorem StarStep.post {r : Prepared κ} {s1 : BTree κ} (hstep : StarStep T s R h p f r s1) :
    StarPost T s R h p f r s1 := by
  obtain ⟨ref1, f1, hr, -, hready, hkept, -, hextended⟩ := hstep
  exact ⟨ref1, f1, hr, hready, hkept, hextended⟩

/-- The step towards the last child, below a page that is not the root, up to the rotations or the merge. -/
theorem BaseBStarTree.prepareStuck_last_run (rw : PageWrapper κ) (hs : Stands s R ref (h + 1) (f.node p))
    (hroot : s.rootPageNum ≠ p) (hslots : (f.node p).keys.length ≤ T.slots) (htwo : 2 ≤ (f.node p).keys.length)
    (hlast : f.keysR = [])
    (hlw : ∀ l ∈ f.kidsL.getLast?, lw = s.wrapper l.page) :
    ∃ K1 a b P c d, f.keysL = K1 ++ [a, b] ∧ f.kidsL = P ++ [c, d] ∧ P.length = K1.length ∧
      f.node p = ⟨p, K1 ++ a :: b :: [], P ++ ([c, d, f.kid] ++ [])⟩ ∧
      BaseBStarTree.prepareStuck T f.keysL.length ref (s.wrapper p) lw (s.wrapper f.kid.page) rw s =
        (if T.minKeys < c.keys.length then do
          let (_, leftNeighbour, currentPage) ←
            moveOneKeyFromLeft T (s.wrapper c.page) (s.wrapper d.page) ref (K1.length + 1)
          let (leftNeighbour, child, currentPage) ←
            moveOneKeyFromLeft T leftNeighbour (s.wrapper f.kid.page) currentPage (K1.length + 2)
          return ⟨false, currentPage, child, leftNeighbour⟩
        else do
          let (currentPage, _, leftNeighbour) ← BaseBStarTree.mergeThreeChildren T (s.wrapper c.page)
            (s.wrapper d.page) (s.wrapper f.kid.page) ref K1.length (K1.length + 1)
          return ⟨true, currentPage, s.wrapper f.kid.page, leftNeighbour⟩ : TreeM κ (Prepared κ)) s := by
  have hkn : (s.wrapper p).data.keysNum = (f.node p).keys.length := hs.rep.on.keysNum_eq
  have hlenR := Focus.length_right hs
  have hkeys : (f.node p).keys.length = f.keysL.length := by simp [Focus.node, hlast]
  have hSR : f.kidsR = [] := List.length_eq_zero_iff.mp (by rw [hlenR, hlast]; rfl)
  obtain ⟨K1, a, b, P, c, d, hKL, hPL, hP⟩ := f.two_left (by omega)
  have hi : f.keysL.length = K1.length + 2 := by simp [hKL]
  have hnode : f.node p = ⟨p, K1 ++ a :: b :: [], P ++ ([c, d, f.kid] ++ [])⟩ := by
    simp [Focus.node, hKL, hPL, hlast, hSR]
  refine ⟨K1, a, b, P, c, d, hKL, hPL, hP, hnode, ?_⟩
  rw [hnode] at hs hslots
  have hread : readPageFromChild T (s.wrapper p) K1.length s = .ok (s.wrapper c.page, s) := by
    have := readPageFromChild_run (T := T) (w := s.wrapper p) (P := P) (c := c) (S := [d, f.kid])
      hs.store (kid_page_mem (by simp)) hs.rep.on (by simp) hslots
    rwa [hP] at this
  have hcn : (s.wrapper c.page).data.keysNum = c.keys.length := hs.holds_triple.2.1.on.keysNum_eq
  unfold BaseBStarTree.prepareStuck
  rw [bind_run (isRoot_run s _), if_neg (by simpa [BTree.wrapper] using hroot), if_pos (by omega)]
  unfold BaseBStarTree.prepareFromLeft
  rw [if_neg (by omega), hi, show K1.length + 2 - 2 = K1.length from rfl, hlw d (by simp [hPL]),
    bind_run hread, hcn]
  rfl

/-- The step towards the first child, below a page that is not the root, up to the rotations or the merge. -/
theorem BaseBStarTree.prepareStuck_first_run (lw : PageWrapper κ) (hs : Stands s R ref (h + 1) (f.node p))
    (hroot : s.rootPageNum ≠ p) (hslots : (f.node p).keys.length ≤ T.slots)
    (htwo : 2 ≤ (f.node p).keys.length) (hfirst : f.keysL = [])
    (hrw : ∀ d ∈ f.kidsR.head?, rw = s.wrapper d.page) :
    ∃ a b K2 d e S, f.keysR = a :: b :: K2 ∧ f.kidsR = d :: e :: S ∧
      f.node p = ⟨p, [] ++ a :: b :: K2, [] ++ ([f.kid, d, e] ++ S)⟩ ∧
      BaseBStarTree.prepareStuck T f.keysL.length ref (s.wrapper p) lw (s.wrapper f.kid.page) rw s =
        (if T.minKeys < e.keys.length then do
          let (_, rightNeighbour, currentPage) ←
            moveOneKeyFromRight T (s.wrapper e.page) (s.wrapper d.page) ref 1
          let (_, child, currentPage) ←
            moveOneKeyFromRight T rightNeighbour (s.wrapper f.kid.page) currentPage 0
          return ⟨false, currentPage, child, lw⟩
        else do
          let (currentPage, child, _) ← BaseBStarTree.mergeThreeChildren T (s.wrapper f.kid.page)
            (s.wrapper d.page) (s.wrapper e.page) ref 0 1
          return ⟨false, currentPage, child, lw⟩ : TreeM κ (Prepared κ)) s := by
  have hlenR := Focus.length_right hs
  have hkeys : (f.node p).keys.length = f.keysR.length := by simp [Focus.node, hfirst]
  have hSL : f.kidsL = [] := List.length_eq_zero_iff.mp (by rw [f.length_eq, hfirst]; rfl)
  obtain ⟨a, b, K2, d, e, S, hKR, hPR⟩ := f.two_right (by omega) hlenR
  have hi : f.keysL.length = 0 := by simp [hfirst]
  have hnode : f.node p = ⟨p, [] ++ a :: b :: K2, [] ++ ([f.kid, d, e] ++ S)⟩ := by
    simp [Focus.node, hKR, hPR, hfirst, hSL]
  refine ⟨a, b, K2, d, e, S, hKR, hPR, hnode, ?_⟩
  rw [hnode] at hs hslots
  have hread : readPageFromChild T (s.wrapper p) 2 s = .ok (s.wrapper e.page, s) :=
    readPageFromChild_run (T := T) (w := s.wrapper p) (P := [f.kid, d]) (c := e) (S := S)
      hs.store (kid_page_mem (by simp)) hs.rep.on (by simp) hslots
  have hen : (s.wrapper e.page).data.keysNum = e.keys.length := hs.holds_triple.2.2.2.on.keysNum_eq
  unfold BaseBStarTree.prepareStuck
  rw [bind_run (isRoot_run s _), if_neg (by simpa [BTree.wrapper] using hroot), if_neg (by omega)]
  unfold BaseBStarTree.prepareFromRight
  rw [hi, hrw d (by simp [hPR]), bind_run hread, hen]

/-- The last child, below a page that is not the root. -/
theorem BaseBStarTree.prepareStuck_last (hT : T.Valid) (hk : T.treeType = .bStarTree)
    (hlt : StrictWeak T.compare) (hs : Stands s R ref (h + 1) (f.node p)) (hroot : s.rootPageNum ≠ p)
    (hslots : (f.node p).keys.length ≤ T.slots) (hsz : SizedBelow T (h + 1) (f.node p).kids)
    (hready : T.minKeys < (f.node p).keys.length) (hlast : f.keysR = [])
    (hpoor : f.kid.keys.length ≤ T.minKeys) (hstuck : Stuck T f)
    (hfit : f.MergesThree T → T.MergeBufferFits) (hlw : ∀ l ∈ f.kidsL.getLast?, lw = s.wrapper l.page) :
    Returns (BaseBStarTree.prepareStuck T f.keysL.length ref (s.wrapper p) lw (s.wrapper f.kid.page) rw)
      s (StarStep T s R h p f) := by
  obtain ⟨htwo, hmaxKeys, -, -, hmin, hmax⟩ := bStarTree_sizes hT hk h
  have hsep := tokenAt_bTree (T := T) (by rw [hk]; rfl) h
  obtain ⟨K1, a, b, P, c, d, hKL, hPL, hP, hnode, hrun⟩ :=
    BaseBStarTree.prepareStuck_last_run rw hs hroot hslots (by omega) hlast hlw
  have hs' := hs
  have hsz' := hsz
  have hslots' := hslots
  rw [hnode] at hs' hsz' hslots'
  have hlow : ∀ z ∈ [c, d, f.kid], T.minKeys ≤ z.keys.length := fun z hz => by
    have hmem : z ∈ P ++ ([c, d, f.kid] ++ []) := by simp only [List.append_nil, List.mem_append, hz, or_true]
    have := (sized_iff.mp (hsz' z hmem)).1.1
    omega
  have hd : d.keys.length = T.minKeys := le_antisymm (hstuck.left d (by simp [hPL])) (hlow d (by simp))
  have he : f.kid.keys.length = T.minKeys := le_antisymm hpoor (hlow f.kid (by simp))
  refine Returns.of_eq ?_ hrun
  by_cases hrich : T.minKeys < c.keys.length
  · rw [if_pos hrich]
    have hrotate := rotateTwiceLeft_readied hlt hsep hmin (by omega) hT hs' hP hslots' hsz' hrich hd he
      hnode hKL hlast
    obtain ⟨x, s1, hx, hrest⟩ := hrotate.of_bind
    refine Returns.step hx (hrest.bind ?_)
    rintro ⟨lw', w, cp⟩ s2 ⟨ref2, f2, hr, hready2, hkept2, LC, X, hdkids, hX, hkid⟩
    obtain ⟨rfl, rfl⟩ := Prod.mk.inj hr
    refine Returns.pure ⟨_, f2, rfl, by simp, hready2, hkept2, ?_, fun _ => ?_⟩
    · rw [hkid]
      exact .throughLeft hpoor hstuck hlast (hKL.trans (by simp : _ = (K1 ++ [a]) ++ [b])) hPL hrich hdkids hX
    · rw [Cfg.lastGain, if_neg (by omega), if_pos ⟨c, by simp [hPL, Cfg.reach, hk, TreeType.isStar], hrich⟩,
        hkid]
      exact Extended.cons f.kid
  · rw [if_neg hrich]
    have hc : c.keys.length = T.minKeys := le_antisymm (by omega) (hlow c (by simp))
    have hthree : f.MergesThree T := by
      refine ⟨hpoor, hstuck, fun _ z hz => ?_, fun hnil => by simp [hKL] at hnil⟩
      simp only [hPL, List.reverse_append, List.reverse_cons, List.reverse_nil, List.nil_append,
        List.cons_append, List.take_succ_cons, List.take_zero, List.mem_cons, List.not_mem_nil, or_false] at hz
      rcases hz with rfl | rfl
      · exact hd.le
      · exact hc.le
    refine (mergeThreeMin_spec hT hk (hfit hthree) hs' hP hslots' hsz' hc hd he).bind ?_
    rintro _ s1 ⟨ref1, A, y, B, CX, CY, rfl, hthree⟩
    obtain ⟨f1, hkid, hready1, hkept⟩ := hthree.readied_last hlt hs' hP hmin hnode hKL hlast
    refine Returns.pure ⟨ref1, f1, by rw [hkid]; rfl, fun _ => rfl, hready1, hkept, ?_, fun _ => ?_⟩
    · rw [hkid, (hthree.nodes_eq hc).2]
      exact .lastOfThree hpoor hstuck hlast (hKL.trans (by simp : _ = (K1 ++ [a]) ++ [b])) hPL hc.le
    have hextended := hthree.extended hk hs' hd
    rwa [Cfg.lastGain, if_neg (by omega), if_neg, hkid]
    rintro ⟨l, hl, hlrich⟩
    simp only [hPL, Cfg.reach, hk, TreeType.isStar, List.reverse_append, List.reverse_cons,
      List.reverse_nil, List.nil_append, List.cons_append, if_pos, List.take_succ_cons, List.take_zero,
      List.mem_cons, List.not_mem_nil, or_false] at hl
    rcases hl with rfl | rfl
    · omega
    · omega

/-- The first child, below a page that is not the root. -/
theorem BaseBStarTree.prepareStuck_first (hT : T.Valid) (hk : T.treeType = .bStarTree)
    (hlt : StrictWeak T.compare) (hs : Stands s R ref (h + 1) (f.node p)) (hroot : s.rootPageNum ≠ p)
    (hslots : (f.node p).keys.length ≤ T.slots) (hsz : SizedBelow T (h + 1) (f.node p).kids)
    (hready : T.minKeys < (f.node p).keys.length) (hfirst : f.keysL = [])
    (hpoor : f.kid.keys.length ≤ T.minKeys) (hstuck : Stuck T f)
    (hfit : f.MergesThree T → T.MergeBufferFits) (hrw : ∀ d ∈ f.kidsR.head?, rw = s.wrapper d.page) :
    Returns (BaseBStarTree.prepareStuck T f.keysL.length ref (s.wrapper p) lw (s.wrapper f.kid.page) rw)
      s (StarStep T s R h p f) := by
  obtain ⟨htwo, hmaxKeys, -, -, hmin, hmax⟩ := bStarTree_sizes hT hk h
  have hsep := tokenAt_bTree (T := T) (by rw [hk]; rfl) h
  obtain ⟨a, b, K2, d, e, S, hKR, hPR, hnode, hrun⟩ :=
    BaseBStarTree.prepareStuck_first_run lw hs hroot hslots (by omega) hfirst hrw
  have hs' := hs
  have hsz' := hsz
  have hslots' := hslots
  rw [hnode] at hs' hsz' hslots'
  have hlow : ∀ z ∈ [f.kid, d, e], T.minKeys ≤ z.keys.length := fun z hz => by
    have := (sized_iff.mp (hsz' z (List.mem_append_left S hz))).1.1
    omega
  have hd : d.keys.length = T.minKeys := le_antisymm (hstuck.right d (by simp [hPR])) (hlow d (by simp))
  have hc : f.kid.keys.length = T.minKeys := le_antisymm hpoor (hlow f.kid (by simp))
  refine Returns.of_eq ?_ hrun
  by_cases hrich : T.minKeys < e.keys.length
  · rw [if_pos hrich]
    obtain ⟨x, s1, hx, hrest⟩ := (rotateTwiceRight_readied hlt hsep hmin (by omega) hT hs' hslots' hsz'
      hc hd hrich hnode hKR).of_bind
    refine Returns.step hx (hrest.bind ?_)
    rintro ⟨rw', w, cp⟩ s2 ⟨ref2, f2, hr, hready2, hkept2, X, RC, hdkids, hX, hkid⟩
    obtain ⟨rfl, rfl⟩ := Prod.mk.inj hr
    refine Returns.pure ⟨_, f2, rfl, by simp, hready2, hkept2, ?_,
      fun hnil => by simp [hKR] at hnil⟩
    rw [hkid]
    exact .throughRight hpoor hstuck hfirst hKR hPR hrich hdkids hX
  · rw [if_neg hrich]
    have he : e.keys.length = T.minKeys := le_antisymm (by omega) (hlow e (by simp))
    have hthree : f.MergesThree T := by
      refine ⟨hpoor, hstuck, fun hnil => by simp [hKR] at hnil, fun _ z hz => ?_⟩
      simp only [hPR, List.take_succ_cons, List.take_zero, List.mem_cons, List.not_mem_nil, or_false] at hz
      rcases hz with rfl | rfl
      · exact hd.le
      · exact he.le
    refine (mergeThreeMin_spec hT hk (hfit hthree) hs' rfl hslots' hsz' hc hd he).bind ?_
    rintro _ s1 ⟨ref1, A, y, B, CX, CY, rfl, hthree⟩
    obtain ⟨f1, hkid, hready1, hkept⟩ := hthree.readied_first hlt hs' rfl hmin hnode hfirst hKR
    refine Returns.pure ⟨ref1, f1, ?_, by simp, hready1, hkept, ?_,
      fun hnil => by simp [hKR] at hnil⟩
    · rw [hkid]
      rfl
    · rw [hkid, (hthree.nodes_eq hc).1]
      exact .firstOfThree hpoor hstuck hfirst hKR hPR he.le

/-- What a step does towards a child in the middle of three minimal children. -/
def MiddlePost (T : Cfg κ) (s : BTree κ) (R : Multiset ℕ) (h p : ℕ) (f : Focus κ) (r : Prepared κ)
    (s1 : BTree κ) : Prop :=
  ∃ K1 a b K2 P c e S ref1 A y B CX CY, f.keysL = K1 ++ [a] ∧ f.keysR = b :: K2 ∧ f.kidsL = P ++ [c] ∧
    f.kidsR = e :: S ∧ r = ⟨true, ref1, s1.wrapper f.kid.page, s1.wrapper c.page⟩ ∧
      ThreeToTwo T s R h p K1 K2 P S c f.kid e a b s1 ref1 A y B CX CY

omit [Inhabited κ] in
theorem Focus.node_of_middle {K1 K2 : List κ} {P S : List (Node κ)} {a b : κ} {c e : Node κ}
    (hKL : f.keysL = K1 ++ [a]) (hKR : f.keysR = b :: K2) (hPL : f.kidsL = P ++ [c])
    (hPR : f.kidsR = e :: S) :
    f.node p = ⟨p, K1 ++ a :: b :: K2, P ++ ([c, f.kid, e] ++ S)⟩ := by
  simp [Focus.node, hKL, hKR, hPL, hPR]

/-- A child between two others, below a page that is not the root: the three are merged. -/
theorem BaseBStarTree.prepareSubtree_middle_eq (hT : T.Valid) (hk : T.treeType = .bStarTree)
    (hlt : StrictWeak T.compare) (hs : Stands s R ref (h + 1) (f.node p)) (hroot : s.rootPageNum ≠ p)
    (hslots : (f.node p).keys.length ≤ T.slots) (hsz : SizedBelow T (h + 1) (f.node p).kids)
    (hmid : f.Middle T) :
    ∃ K1 a b K2 P c e S, f.keysL = K1 ++ [a] ∧ f.keysR = b :: K2 ∧ f.kidsL = P ++ [c] ∧
      f.kidsR = e :: S ∧ P.length = K1.length ∧ (∀ z ∈ [c, f.kid, e], z.keys.length = T.minKeys) ∧
      BaseBStarTree.prepareSubtree T f.keysL.length ref s = (do
        let (currentPage, leftNeighbour, child) ← BaseBStarTree.mergeThreeChildren T
          (s.wrapper c.page) (s.wrapper f.kid.page) (s.wrapper e.page) ref K1.length (K1.length + 1)
        return ⟨true, currentPage, child, leftNeighbour⟩ : TreeM κ (Prepared κ)) s := by
  obtain ⟨htwo, hmaxKeys, -, -, hmin, hmax⟩ := bStarTree_sizes hT hk h
  have hkn : (s.wrapper p).data.keysNum = (f.node p).keys.length := hs.rep.on.keysNum_eq
  obtain ⟨lw, rw', hlw, hrw, hrun⟩ := BaseBStarTree.prepareSubtree_stuck hT hk hlt hs hslots hsz hmid.poor
    hmid.stuck
  have hlenL := f.length_eq
  obtain ⟨K1, a, hKL⟩ := List.eq_nil_or_concat' f.keysL |>.resolve_left hmid.left
  obtain ⟨b, K2, hKR⟩ := List.exists_cons_of_ne_nil hmid.right
  obtain ⟨P, c, hPL⟩ := List.eq_nil_or_concat' f.kidsL |>.resolve_left fun hnil => by
    simp [hnil, hKL] at hlenL
  obtain ⟨e, S, hPR⟩ : ∃ e S, f.kidsR = e :: S := by
    have hlenR := Focus.length_right hs
    rw [hKR, List.length_cons] at hlenR
    exact List.exists_cons_of_length_eq_add_one hlenR
  have hlast : f.keysL.length < (f.node p).keys.length := by simp [Focus.node, hKR]
  have hi : f.keysL.length = K1.length + 1 := by simp [hKL]
  have hlow : ∀ z ∈ [c, f.kid, e], T.minKeys ≤ z.keys.length := fun z hz => by
    have hmem : z ∈ P ++ ([c, f.kid, e] ++ S) := List.mem_append_right P (List.mem_append_left S hz)
    rw [← show (f.node p).kids = P ++ ([c, f.kid, e] ++ S) by simp [Focus.node, hPL, hPR]] at hmem
    have := (sized_iff.mp (hsz z hmem)).1.1
    omega
  refine ⟨K1, a, b, K2, P, c, e, S, hKL, hKR, hPL, hPR, by simpa [hKL, hPL] using hlenL,
    fun z hz => le_antisymm ?_ (hlow z hz), hrun.trans ?_⟩
  · simp only [List.mem_cons, List.not_mem_nil, or_false] at hz
    rcases hz with rfl | rfl | rfl
    · exact hmid.stuck.left z (by simp [hPL])
    · exact hmid.poor
    · exact hmid.stuck.right z (by simp [hPR])
  unfold BaseBStarTree.prepareStuck
  rw [bind_run (isRoot_run s _), if_neg (by simpa [BTree.wrapper] using hroot), if_pos (by omega)]
  unfold BaseBStarTree.prepareFromLeft
  rw [if_pos (by rw [hkn]; exact hlast), hi, Nat.add_sub_cancel, hlw c (by simp [hPL]),
    hrw e (by simp [hPR])]

theorem BaseBStarTree.prepareSubtree_middle (hT : T.Valid) (hk : T.treeType = .bStarTree)
    (hlt : StrictWeak T.compare) (hfit : T.MergeBufferFits) (hs : Stands s R ref (h + 1) (f.node p))
    (hroot : s.rootPageNum ≠ p)
    (hslots : (f.node p).keys.length ≤ T.slots) (hsz : SizedBelow T (h + 1) (f.node p).kids)
    (hmid : f.Middle T) :
    Returns (BaseBStarTree.prepareSubtree T f.keysL.length ref) s (MiddlePost T s R h p f) := by
  obtain ⟨K1, a, b, K2, P, c, e, S, hKL, hKR, hPL, hPR, hP, hlen, hrun⟩ :=
    BaseBStarTree.prepareSubtree_middle_eq hT hk hlt hs hroot hslots hsz hmid
  have hnode := Focus.node_of_middle (p := p) hKL hKR hPL hPR
  rw [hnode] at hs hsz hslots
  refine Returns.of_eq ?_ hrun
  refine (mergeThreeMin_spec hT hk hfit hs hP hslots hsz (hlen c (by simp)) (hlen f.kid (by simp))
    (hlen e (by simp))).bind ?_
  rintro _ s1 ⟨ref1, A, y, B, CX, CY, rfl, hthree⟩
  exact Returns.pure ⟨K1, a, b, K2, P, c, e, S, ref1, A, y, B, CX, CY, hKL, hKR, hPL, hPR, rfl, hthree⟩

/-- Any other child, below a page that is not the root. -/
theorem BaseBStarTree.prepareSubtree_step (hT : T.Valid) (hk : T.treeType = .bStarTree)
    (hlt : StrictWeak T.compare) (hfit : f.MergesThree T → T.MergeBufferFits)
    (hs : Stands s R ref (h + 1) (f.node p)) (hroot : s.rootPageNum ≠ p)
    (hslots : (f.node p).keys.length ≤ T.slots) (hsz : SizedBelow T (h + 1) (f.node p).kids)
    (hready : T.minKeys < (f.node p).keys.length) (hmid : ¬f.Middle T) :
    Returns (BaseBStarTree.prepareSubtree T f.keysL.length ref) s (StarStep T s R h p f) := by
  by_cases hnear : T.minKeys < f.kid.keys.length ∨ ¬Stuck T f
  · refine (BaseBStarTree.prepareSubtree_near hT hk hlt hs hslots hsz hnear).mono ?_
    rintro r s1 ⟨ref1, f1, hmerged, hchild, hhow, hready1, hkept⟩
    refine ⟨ref1, f1, by simp [hmerged, hchild], by simp [hmerged], hready1, hkept,
      ?_, fun hlast => ?_⟩
    · rw [hmerged]
      rcases hhow with ⟨hrich, rfl⟩ | ⟨hpoor, hrot⟩
      · exact .rich hrich
      · exact .rotated hpoor hrot
    rcases hhow with ⟨hrich, rfl⟩ | ⟨hpoor, hrot⟩
    · rw [Cfg.lastGain, if_pos hrich]
      exact Extended.refl f1.kid
    · obtain ⟨l, hl, hlrich, hextended⟩ := hrot.extended_last hlast
      rwa [Cfg.lastGain, if_neg (by omega), if_pos ⟨l, hl, hlrich⟩]
  · obtain ⟨hpoor, hstuck⟩ := not_or.mp hnear
    rw [Nat.not_lt] at hpoor
    rw [not_not] at hstuck
    obtain ⟨lw, rw', hlw, hrw, hrun⟩ := BaseBStarTree.prepareSubtree_stuck hT hk hlt hs hslots hsz hpoor
      hstuck
    by_cases hlast : f.keysR = []
    · exact (BaseBStarTree.prepareStuck_last hT hk hlt hs hroot hslots hsz hready hlast hpoor hstuck
        hfit hlw).of_eq hrun
    · have hfirst : f.keysL = [] := by
        by_contra hne
        exact hmid ⟨hpoor, hstuck, hne, hlast⟩
      exact (BaseBStarTree.prepareStuck_first hT hk hlt hs hroot hslots hsz hready hfirst hpoor hstuck
        hfit hrw).of_eq hrun

theorem BaseBStarTree.prepareSubtree_spec (hT : T.Valid) (hk : T.treeType = .bStarTree)
    (hlt : StrictWeak T.compare) (hfit : f.MergesThree T → T.MergeBufferFits)
    (hs : Stands s R ref (h + 1) (f.node p)) (hroot : s.rootPageNum ≠ p)
    (hslots : (f.node p).keys.length ≤ T.slots) (hsz : SizedBelow T (h + 1) (f.node p).kids)
    (hready : T.minKeys < (f.node p).keys.length) (hmid : ¬f.Middle T) :
    Returns (BaseBStarTree.prepareSubtree T f.keysL.length ref) s (StarPost T s R h p f) :=
  (BaseBStarTree.prepareSubtree_step hT hk hlt hfit hs hroot hslots hsz hready hmid).mono
    fun _ _ hstep => hstep.post

/-- `mergeChildren` of three minimal children whose keys do not fit into a buffer. -/
theorem BaseBStarTree.mergeThree_throws
    (hs : Stands s R ref (h + 1) ⟨p, K1 ++ a :: b :: K2, P ++ ([c, d, e] ++ S)⟩)
    (hlen : ∀ z ∈ [c, d, e], z.keys.length = T.minKeys) (hfit : ¬T.MergeBufferFits) (l r : ℕ) :
    BaseBStarTree.mergeThreeChildren T (s.wrapper c.page) (s.wrapper d.page) (s.wrapper e.page) ref l r s =
      .error .badArrayNewLength := by
  obtain ⟨-, hrc, hrd, hre⟩ := hs.holds_triple
  have hbuffer : ¬((s.wrapper c.page).data.keysNum + (s.wrapper d.page).data.keysNum +
      (s.wrapper e.page).data.keysNum + 2) * T.recSize < 2 ^ 31 := by
    rw [show (s.wrapper c.page).data.keysNum = c.keys.length from hrc.on.keysNum_eq,
      show (s.wrapper d.page).data.keysNum = d.keys.length from hrd.on.keysNum_eq,
      show (s.wrapper e.page).data.keysNum = e.keys.length from hre.on.keysNum_eq, hlen c (by simp),
      hlen d (by simp), hlen e (by simp),
      show T.minKeys + T.minKeys + T.minKeys + 2 = 3 * T.minKeys + 2 by omega]
    exact hfit
  exact BaseBStarTree.mergeThreeChildren_throws hbuffer l r

/-- A step that merges three children whose keys do not fit into a buffer. -/
theorem BaseBStarTree.prepareSubtree_throws (hT : T.Valid) (hk : T.treeType = .bStarTree)
    (hlt : StrictWeak T.compare) (hs : Stands s R ref (h + 1) (f.node p)) (hroot : s.rootPageNum ≠ p)
    (hslots : (f.node p).keys.length ≤ T.slots) (hsz : SizedBelow T (h + 1) (f.node p).kids)
    (hready : T.minKeys < (f.node p).keys.length) (hthree : f.MergesThree T) (hfit : ¬T.MergeBufferFits) :
    BaseBStarTree.prepareSubtree T f.keysL.length ref s = .error .badArrayNewLength := by
  obtain ⟨htwo, -, -, -, hmin, -⟩ := bStarTree_sizes hT hk h
  by_cases hmid : f.Middle T
  · obtain ⟨K1, a, b, K2, P, c, e, S, hKL, hKR, hPL, hPR, -, hlen, hrun⟩ :=
      BaseBStarTree.prepareSubtree_middle_eq hT hk hlt hs hroot hslots hsz hmid
    rw [Focus.node_of_middle (p := p) hKL hKR hPL hPR] at hs
    exact hrun.trans (bind_error (BaseBStarTree.mergeThree_throws hs hlen hfit _ _) _)
  obtain ⟨lw, rw', hlw, hrw, hrun⟩ := BaseBStarTree.prepareSubtree_stuck hT hk hlt hs hslots hsz hthree.poor
    hthree.stuck
  have hlow : ∀ z ∈ (f.node p).kids, T.minKeys ≤ z.keys.length := fun z hz => by
    have := (sized_iff.mp (hsz z hz)).1.1
    omega
  rw [hrun]
  by_cases hlast : f.keysR = []
  · obtain ⟨K1, a, b, P, c, d, hKL, hPL, hP, hnode, hrun'⟩ :=
      BaseBStarTree.prepareStuck_last_run rw' hs hroot hslots (by omega) hlast hlw
    have hlen : ∀ z ∈ [c, d, f.kid], z.keys.length = T.minKeys := fun z hz => by
      refine le_antisymm ?_ (hlow z (by rw [hnode]; simpa using Or.inr hz))
      simp only [List.mem_cons, List.not_mem_nil, or_false] at hz
      rcases hz with rfl | rfl | rfl
      · exact hthree.left hlast z (by simp [hPL])
      · exact hthree.left hlast z (by simp [hPL])
      · exact hthree.poor
    rw [hrun', if_neg (by rw [hlen c (by simp)]; exact lt_irrefl _)]
    rw [hnode] at hs
    exact bind_error (BaseBStarTree.mergeThree_throws hs hlen hfit _ _) _
  · have hfirst : f.keysL = [] := by
      by_contra hne
      exact hmid ⟨hthree.poor, hthree.stuck, hne, hlast⟩
    obtain ⟨a, b, K2, d, e, S, hKR, hPR, hnode, hrun'⟩ :=
      BaseBStarTree.prepareStuck_first_run lw hs hroot hslots (by omega) hfirst hrw
    have hlen : ∀ z ∈ [f.kid, d, e], z.keys.length = T.minKeys := fun z hz => by
      refine le_antisymm ?_ (hlow z (by rw [hnode]; exact List.mem_append_left S hz))
      simp only [List.mem_cons, List.not_mem_nil, or_false] at hz
      rcases hz with rfl | rfl | rfl
      · exact hthree.poor
      · exact hthree.right hfirst z (by simp [hPR])
      · exact hthree.right hfirst z (by simp [hPR])
    rw [hrun', if_neg (by rw [hlen e (by simp)]; exact lt_irrefl _)]
    rw [hnode] at hs
    exact bind_error (BaseBStarTree.mergeThree_throws hs hlen hfit _ _) _

/-! ## Two minimal children of the root page -/

/-- A step towards a child of the root page joins the children `c` and `d`, whose page gets the bytes
`cd`; the child is the right one of them if `b` holds. -/
structure RootMerge (T : Cfg κ) (h p : ℕ) (f : Focus κ) (b : Bool) (K1 : List κ) (x : κ) (K2 : List κ)
    (P : List (Node κ)) (c d : Node κ) (S : List (Node κ)) (cd : Page κ) : Prop where
  node_eq : f.node p = ⟨p, K1 ++ x :: K2, P ++ ([c, d] ++ S)⟩
  length_eq : P.length = K1.length
  left : ∀ y ∈ K1, y ∈ f.keysL
  right : ∀ y ∈ K2, y ∈ f.keysR
  last : f.keysR = [] → K2 = []
  minimal : c.keys.length = T.minKeys ∧ d.keys.length = T.minKeys
  on : (c.join x d).On h cd
  next : BaseBTree.Next T h f b (c.join x d)

/-- A step towards a child of the root page when neither it nor a direct neighbour has a key to
spare. -/
theorem BaseBStarTree.prepareSubtree_merges (hT : T.Valid) (hk : T.treeType = .bStarTree)
    (hlt : StrictWeak T.compare) (hs : Stands s R .rootPage (h + 1) (f.node p))
    (hslots : (f.node p).keys.length ≤ T.slots) (hpos : 1 ≤ (f.node p).keys.length)
    (hsz : SizedBelow T (h + 1) (f.node p).kids) (hpoor : f.kid.keys.length ≤ T.minKeys)
    (hstuck : Stuck T f) : ∃ b K1 x K2 P c d S cd lw, RootMerge T h p f b K1 x K2 P c d S cd ∧
      BaseBStarTree.prepareSubtree T f.keysL.length .rootPage s = (do
        let (currentPage, w) ← finishMerge T ⟨c.page, cd⟩ (s.wrapper d.page) .rootPage K1.length
        return (if b then ⟨true, currentPage, s.wrapper f.kid.page, w⟩ else
          ⟨false, currentPage, w, lw⟩ : Prepared κ)) s := by
  obtain ⟨-, -, -, hslots2, hmin, -⟩ := bStarTree_sizes hT hk h
  obtain ⟨lw, rw', hlw, hrw, hrun⟩ := BaseBStarTree.prepareSubtree_stuck hT hk hlt hs hslots hsz hpoor hstuck
  have hroot : s.rootPageNum = p := hs.at_page.root
  have hlow : ∀ c ∈ (f.node p).kids, T.minKeys ≤ c.keys.length := fun c hc => by
    have := (sized_iff.mp (hsz c hc)).1.1
    omega
  have hkid : f.kid.keys.length = T.minKeys := le_antisymm hpoor (hlow f.kid (by simp [Focus.node]))
  unfold BaseBStarTree.prepareStuck at hrun
  rw [bind_run (isRoot_run s _), if_pos (by simpa [BTree.wrapper] using hroot)] at hrun
  rcases f.left_cases with ⟨hK, -⟩ | ⟨K1, x, P, l, hP, hf⟩
  · -- the first child is merged with its right neighbour
    obtain ⟨x, K2, d, S, hf⟩ := (f.right_cases (Focus.length_right hs)).resolve_left fun hR => by
      simp [Focus.node, hK, hR.1] at hpos
    have hKR : f.keysR = x :: K2 := by
      rw [hf]
      rfl
    have hS : f.kidsR = d :: S := by
      rw [hf]
      rfl
    have hnode : f.node p = ⟨p, f.keysL ++ x :: K2, f.kidsL ++ ([f.kid, d] ++ S)⟩ := by
      rw [hf]
      rfl
    have hd : d.keys.length = T.minKeys :=
      le_antisymm (hstuck.right d (by simp [hS])) (hlow d (by simp [hnode]))
    rw [hnode] at hs hslots
    obtain ⟨cd, hmerge, hcd⟩ := BaseBStarTree.mergeChildren_eq hs hslots (by omega)
    refine ⟨false, f.keysL, x, K2, f.kidsL, f.kid, d, S, cd, lw, ⟨hnode, f.length_eq, fun y hy => hy,
      fun y hy => by simp [hKR, hy], by simp [hKR], ⟨hkid, hd⟩, hcd, .mergedRight hpoor hstuck hK hKR hS⟩, ?_⟩
    rw [hrun, if_neg (by simp [hK]), hrw d (by simp [hS])]
    change (BaseBStarTree.mergeChildren T _ _ .rootPage f.keysL.length s >>= fun z => _) =
      (finishMerge T _ _ .rootPage f.keysL.length s >>= fun z => _)
    rw [hmerge]
    rfl
  · -- the child is merged with its left neighbour
    have hKL : f.keysL = K1 ++ [x] := by
      rw [hf]
      rfl
    have hPL : f.kidsL = P ++ [l] := by
      rw [hf]
      rfl
    have hnode : f.node p = ⟨p, K1 ++ x :: f.keysR, P ++ ([l, f.kid] ++ f.kidsR)⟩ := by
      conv_lhs => rw [hf]
      exact Focus.rightOf_node hP
    have hl : l.keys.length = T.minKeys :=
      le_antisymm (hstuck.left l (by simp [hPL])) (hlow l (by simp [hnode]))
    rw [hnode] at hs hslots
    obtain ⟨cd, hmerge, hcd⟩ := BaseBStarTree.mergeChildren_eq hs hslots (by omega)
    refine ⟨true, K1, x, f.keysR, P, l, f.kid, f.kidsR, cd, lw, ⟨hnode, hP, fun y hy => by simp [hKL, hy],
      fun y hy => hy, fun hnil => hnil, ⟨hl, hkid⟩, hcd, .mergedLeft hpoor hstuck hKL hPL⟩, ?_⟩
    rw [hrun, if_pos (by simp [hKL]), hlw l (by simp [hPL]), show f.keysL.length - 1 = K1.length by simp [hKL]]
    change (BaseBStarTree.mergeChildren T _ _ .rootPage K1.length s >>= fun z => _) =
      (finishMerge T _ _ .rootPage K1.length s >>= fun z => _)
    rw [hmerge]
    rfl

/-- The root page after two of its children were joined to `m`: it keeps its other keys, or `m` is the root
page. -/
def RootJoined (s : BTree κ) (R : Multiset ℕ) (h p : ℕ) (K1 K2 : List κ) (P : List (Node κ)) (m : Node κ)
    (S : List (Node κ)) (s1 : BTree κ) : Prop :=
  K1 ++ K2 = [] ∧ Stands s1 R .rootPage h m ∨ K1 ++ K2 ≠ [] ∧ Frame s s1 R ∧
    ∃ ref1, Stands s1 R ref1 (h + 1) ⟨p, K1 ++ K2, P ++ ([m] ++ S)⟩

omit [Inhabited κ] in
theorem RootMerge.node_single {b : Bool} {x : κ} {K1 K2 : List κ} {P S : List (Node κ)} {c d : Node κ}
    {cd : Page κ} (hm : RootMerge T h p f b K1 x K2 P c d S cd) (hs : Stands s R ref (h + 1) (f.node p))
    (hnil : K1 ++ K2 = []) : K1 = [] ∧ K2 = [] ∧ P = [] ∧ S = [] ∧ f.node p = ⟨p, [x], [c, d]⟩ := by
  obtain ⟨rfl, rfl⟩ := List.append_eq_nil_iff.mp hnil
  obtain rfl : P = [] := List.length_eq_zero_iff.mp hm.length_eq
  have hlenS : S.length = 0 := by
    have hlen := hs.rep.length_kids
    rw [hm.node_eq] at hlen
    simpa using hlen
  obtain rfl : S = [] := List.length_eq_zero_iff.mp hlenS
  exact ⟨rfl, rfl, rfl, rfl, hm.node_eq⟩

theorem BaseBStarTree.prepareSubtree_joins (hT : T.Valid) (hk : T.treeType = .bStarTree)
    (hlt : StrictWeak T.compare) (hs : Stands s R .rootPage (h + 1) (f.node p))
    (hslots : (f.node p).keys.length ≤ T.slots) (hpos : 1 ≤ (f.node p).keys.length)
    (hsz : SizedBelow T (h + 1) (f.node p).kids) (hpoor : f.kid.keys.length ≤ T.minKeys)
    (hstuck : Stuck T f) :
    Returns (BaseBStarTree.prepareSubtree T f.keysL.length .rootPage) s fun r s1 =>
      ∃ K1 x K2 P c d S cd, RootMerge T h p f r.merged K1 x K2 P c d S cd ∧
        (if r.merged then r.leftNeighbour else r.child) = s1.wrapper (c.join x d).page ∧
        (r.merged = true → r.child = s.wrapper f.kid.page) ∧
        RootJoined s R h p K1 K2 P (c.join x d) S s1 := by
  obtain ⟨b, K1, x, K2, P, c, d, S, cd, lw, hm, hrun⟩ := BaseBStarTree.prepareSubtree_merges hT hk hlt hs
    hslots hpos hsz hpoor hstuck
  have hs' := hs
  rw [hm.node_eq] at hs' hslots
  have hmerge : Returns (finishMerge T ⟨c.page, cd⟩ (s.wrapper d.page) .rootPage K1.length) s
      fun z s1 => z.2 = s1.wrapper (c.join x d).page ∧ RootJoined s R h p K1 K2 P (c.join x d) S s1 := by
    by_cases hkeep : K1 ++ K2 = []
    · obtain ⟨rfl, rfl, rfl, rfl, -⟩ := hm.node_single hs hkeep
      refine (finishMerge_collapse hs' (by simpa using hslots) (m := c.join x d) rfl rfl hm.on).mono ?_
      exact fun z s1 ⟨hz, _, hs1⟩ => ⟨hz, Or.inl ⟨rfl, hs1⟩⟩
    · refine (finishMerge_kept hs' hm.length_eq hslots hkeep (m := c.join x d) rfl rfl hm.on).mono ?_
      rintro _ s1 ⟨ref1, rfl, hf, hs1⟩
      exact ⟨rfl, Or.inr ⟨hkeep, hf, ref1, hs1⟩⟩
  refine Returns.of_eq ?_ hrun
  refine hmerge.bind ?_
  rintro ⟨cp, w⟩ s1 ⟨hw, hjoined⟩
  obtain rfl : w = _ := hw
  refine Returns.pure ⟨K1, x, K2, P, c, d, S, cd, ?_⟩
  cases b with
  | true => exact ⟨hm, rfl, fun _ => rfl, hjoined⟩
  | false => exact ⟨hm, rfl, fun hb => (Bool.false_ne_true hb).elim, hjoined⟩

end

end BTreesMods

import BTreesMods.Removal.Focus

/-!
# A child that is ready for a removal

`Readied`: a rebalancing step below a node gave the child more than its least number of keys, so that
it may lose one. `Removed`: what a removal does to a tree. A removal from a ready child is a removal
from the node (`Readied.put`). `rotateFromNeighbour` readies a child when a neighbour has a key to
spare.
-/

namespace BTreesMods

variable {κ : Type}

/-! ## Steps of a removal -/

/-- A rebalancing step below the page `p`, from the focus `f` to the focus `f1`. -/
structure Readied (T : Cfg κ) (s : BTree κ) (R : Multiset ℕ) (h p : ℕ) (f : Focus κ) (s1 : BTree κ)
    (ref1 : PageRef κ) (f1 : Focus κ) : Prop where
  stands : Stands s1 R ref1 (h + 1) (f1.node p)
  frame : Frame s s1 R
  sized : SizedBelow T (h + 1) (f1.node p).kids
  ready : T.minOf h < f1.kid.keys.length
  keys_le : (f1.node p).keys.length ≤ (f.node p).keys.length
  le_keys : (f.node p).keys.length ≤ (f1.node p).keys.length + 1
  keeps : (f.node p).keys ≠ [] → (f1.node p).keys ≠ []
  last : f.keysR = [] → f1.keysR = []

/-- The step keeps the records in order, and a key below the child stays below it. -/
structure OrderKept (T : Cfg κ) (h p : ℕ) (f f1 : Focus κ) : Prop where
  thinned : Thinned ((f.node p).tokens T (h + 1)) ((f1.node p).tokens T (h + 1))
  splits : ∀ k, Sorted T.compare ((f.node p).tokens T (h + 1)) → f.Splits T.compare k →
    f1.Splits T.compare k

/-- A removal from the tree `t` that leaves the tree `t'`. -/
structure Removed (T : Cfg κ) (s : BTree κ) (R : Multiset ℕ) (h : ℕ) (t : Node κ) (s' : BTree κ)
    (t' : Node κ) : Prop where
  page_eq : t'.page = t.page
  frame : Frame s s' R
  stands : ∃ ref', Stands s' R ref' h t'
  sized : SizedBelow T h t'.kids
  keys_le : t'.keys.length ≤ t.keys.length
  le_keys : t.keys.length ≤ t'.keys.length + 1

section

variable {T : Cfg κ} {s s1 s' : BTree κ} {R : Multiset ℕ} {ref ref1 : PageRef κ} {h p : ℕ}
  {f f1 : Focus κ} {c' : Node κ} {k : κ} {b : Bool}

theorem Readied.kid_sized (hr : Readied T s R h p f s1 ref1 f1) : f1.kid.Sized T h :=
  hr.sized f1.kid (by simp [Focus.node])

/-- The removal from a ready child as a removal from its node. -/
theorem Readied.put (hr : Readied T s R h p f s1 ref1 f1)
    (hc : Removed T s1 (around p h f1.kidsL f1.kidsR R) h f1.kid s' c') :
    Removed T s R (h + 1) (f.node p) s' ((f1.put c').node p) where
  page_eq := rfl
  frame := hr.frame.trans hc.frame.of_around
  stands := by
    obtain ⟨ref', hs'⟩ := hc.stands
    exact ⟨ref1, hr.stands.putBack hc.frame hs' hc.page_eq⟩
  sized := by
    obtain ⟨hleft, hkid⟩ := sizedBelow_append.mp hr.sized
    obtain ⟨hkid, hright⟩ := sizedBelow_cons.mp hkid
    obtain ⟨⟨-, hhi⟩, -⟩ := sized_iff.mp hkid
    have hready := hr.ready
    have hle := hc.keys_le
    have hge := hc.le_keys
    have hlen : T.minOf h ≤ c'.keys.length ∧ c'.keys.length ≤ T.maxOf h := by omega
    exact sizedBelow_append.mpr ⟨hleft, sizedBelow_cons.mpr ⟨sized_iff.mpr ⟨hlen, hc.sized⟩,
      hright⟩⟩
  keys_le := hr.keys_le
  le_keys := hr.le_keys

/-- A record that is dropped from a ready child is dropped from its node. -/
theorem OrderKept.put (hlt : StrictWeak T.compare) (heq : T.Equates) (ho : OrderKept T h p f f1)
    (hs : Sorted T.compare ((f.node p).tokens T (h + 1))) (hk : f.Splits T.compare k)
    (hc : Drops T k b (f1.kid.tokens T h) (c'.tokens T h)) :
    Drops T k b ((f.node p).tokens T (h + 1)) (((f1.put c').node p).tokens T (h + 1)) := by
  obtain ⟨hF, hG⟩ := (ho.splits k hs hk).outside hlt heq (ho.thinned.sorted hs)
  refine Drops.of_thinned ho.thinned ?_
  rw [Focus.tokens_node, Focus.tokens_node]
  exact hc.context hF hG

theorem OrderKept.kid_sorted (ho : OrderKept T h p f f1)
    (hs : Sorted T.compare ((f.node p).tokens T (h + 1))) :
    Sorted T.compare (f1.kid.tokens T h) := by
  have := ho.thinned.sorted hs
  rw [Focus.tokens_node] at this
  exact (sorted_append.mp (sorted_append.mp this).2.1).1

/-- A child with a key to spare is ready. -/
theorem Readied.refl (hs : Stands s R ref (h + 1) (f.node p))
    (hsz : SizedBelow T (h + 1) (f.node p).kids) (hrich : T.minOf h < f.kid.keys.length) :
    Readied T s R h p f s ref f :=
  ⟨hs, Frame.refl s R, hsz, hrich, Nat.le_refl _, Nat.le_succ _, id, id⟩

theorem OrderKept.refl (f : Focus κ) : OrderKept T h p f f :=
  ⟨Thinned.refl _, fun _ _ hk => hk⟩

end

/-! ## Windows -/

section

variable {T : Cfg κ} {page : ℕ → Page κ} {h p : ℕ} {c d : Node κ} {K1 K2 A B : List κ}
  {P S : List (Node κ)} {x y : κ}

/-- The left one of two adjacent children. -/
def Focus.leftOf (K1 : List κ) (x : κ) (K2 : List κ) (P : List (Node κ)) (c d : Node κ)
    (S : List (Node κ)) (hP : P.length = K1.length) : Focus κ :=
  ⟨K1, x :: K2, P, c, d :: S, hP⟩

/-- The right one of two adjacent children. -/
def Focus.rightOf (K1 : List κ) (x : κ) (K2 : List κ) (P : List (Node κ)) (c d : Node κ)
    (S : List (Node κ)) (hP : P.length = K1.length) : Focus κ :=
  ⟨K1 ++ [x], K2, P ++ [c], d, S, by simp [hP]⟩

theorem Focus.leftOf_node (hP : P.length = K1.length) : (leftOf K1 x K2 P c d S hP).node p =
    ⟨p, K1 ++ x :: K2, P ++ ([c, d] ++ S)⟩ :=
  rfl

theorem Focus.rightOf_node (hP : P.length = K1.length) : (rightOf K1 x K2 P c d S hP).node p =
    ⟨p, K1 ++ x :: K2, P ++ ([c, d] ++ S)⟩ := by
  simp [rightOf, Focus.node]

/-- The keys of the left child are not greater than the key behind it. -/
theorem le_sep (hP : P.length = K1.length) (hr : Rep page h c) (hc : c.keys = A ++ y :: B)
    (hs : Sorted T.compare
      ((⟨p, K1 ++ x :: K2, P ++ ([c, d] ++ S)⟩ : Node κ).tokens T (h + 1))) :
    T.compare x y = false := by
  have htok : (⟨p, K1 ++ x :: K2, P ++ ([c, d] ++ S)⟩ : Node κ).tokens T (h + 1) = _ :=
    tokens_around₂ hP
  rw [htok] at hs
  obtain ⟨q, CK, CC⟩ := c
  obtain rfl : CK = A ++ y :: B := hc
  have hmem : T.tokenAt h y ∈ (⟨q, A ++ y :: B, CC⟩ : Node κ).tokens T h :=
    tokenAt_mem_tokens hr.length_kids_of_pos
  have := (sorted_append.mp (sorted_append.mp (sorted_append.mp hs).2.1).1).2.2 _ hmem (T.sep x)
    (by simp)
  rwa [key_tokenAt, key_sep] at this

/-- The keys of the right child are not less than the key in front of it. -/
theorem sep_le (hP : P.length = K1.length) (hr : Rep page h d) (hd : d.keys = A ++ y :: B)
    (hs : Sorted T.compare
      ((⟨p, K1 ++ x :: K2, P ++ ([c, d] ++ S)⟩ : Node κ).tokens T (h + 1))) :
    T.compare y x = false := by
  have htok : (⟨p, K1 ++ x :: K2, P ++ ([c, d] ++ S)⟩ : Node κ).tokens T (h + 1) = _ :=
    tokens_around₂ hP
  rw [htok] at hs
  obtain ⟨q, DK, DC⟩ := d
  obtain rfl : DK = A ++ y :: B := hd
  have hmem : T.tokenAt h y ∈ (⟨q, A ++ y :: B, DC⟩ : Node κ).tokens T h :=
    tokenAt_mem_tokens hr.length_kids_of_pos
  have := (sorted_cons.mp (sorted_append.mp (sorted_append.mp (sorted_append.mp hs).2.1).1).2.1).1 _
    hmem
  rwa [key_tokenAt, key_sep] at this

end

/-! ## A key from a neighbour -/

/-- The child after it got a key from a direct neighbour with a key to spare, from the left one if
that has one. -/
inductive Rotated (T : Cfg κ) (h : ℕ) (f : Focus κ) : Node κ → Prop
  | fromLeft {K1 LK : List κ} {P LC X : List (Node κ)} {l : Node κ} {x y : κ}
    (hkeys : f.keysL = K1 ++ [x]) (hkids : f.kidsL = P ++ [l]) (hrich : T.minKeys < l.keys.length)
    (hl : l.keys = LK ++ [y]) (hlk : l.kids = LC ++ X) (hX : h ≠ 0 → X.length = 1) :
    Rotated T h f ⟨f.kid.page, x :: f.kid.keys, X ++ f.kid.kids⟩
  | fromRight {K2 RK : List κ} {S X RC : List (Node κ)} {r : Node κ} {x y : κ}
    (hleft : ∀ l ∈ f.kidsL.getLast?, l.keys.length ≤ T.minKeys)
    (hkeys : f.keysR = x :: K2) (hkids : f.kidsR = r :: S) (hrich : T.minKeys < r.keys.length)
    (hr : r.keys = y :: RK) (hrk : r.kids = X ++ RC) (hX : h ≠ 0 → X.length = 1) :
    Rotated T h f ⟨f.kid.page, f.kid.keys ++ [x], f.kid.kids ++ X⟩

/-- The node `n` has `j` more keys than `c`, and other children, in front of those of `c`. -/
def Extended (c n : Node κ) (j : ℕ) : Prop :=
  ∃ U X, n.keys = U ++ c.keys ∧ n.kids = X ++ c.kids ∧ U.length = j

/-- The keys that a minimal last child gets when no page in reach has one to spare. -/
def Cfg.mergeGain (T : Cfg κ) : ℕ :=
  if T.treeType.isStar then (3 * T.minKeys + 2) / 2 - T.minKeys else T.minKeys + 1

/-- How many pages in front of the last child it can get a key from. -/
def Cfg.reach (T : Cfg κ) : ℕ := if T.treeType.isStar then 2 else 1

/-- The keys that `prepareSubtree` puts in front of those of the last child `c`; `ls` are the children
in front of it, the nearest one first. -/
def Cfg.lastGain (T : Cfg κ) (c : Node κ) (ls : List (Node κ)) : ℕ :=
  if T.minKeys < c.keys.length then 0
  else if ∃ l ∈ ls.take T.reach, T.minKeys < l.keys.length then 1
  else T.mergeGain

/-- No direct neighbour of the child has a key to spare. -/
structure Stuck (T : Cfg κ) (f : Focus κ) : Prop where
  left : ∀ l ∈ f.kidsL.getLast?, l.keys.length ≤ T.minKeys
  right : ∀ r ∈ f.kidsR.head?, r.keys.length ≤ T.minKeys

section

variable {T : Cfg κ} {s : BTree κ} {R : Multiset ℕ} {ref : PageRef κ} {h p : ℕ} {c d : Node κ}
  {K1 K2 : List κ} {P S : List (Node κ)} {x : κ} {f : Focus κ}

theorem Extended.refl (c : Node κ) : Extended c c 0 := ⟨[], [], rfl, rfl, rfl⟩

theorem Extended.cons {q : ℕ} {x : κ} {X : List (Node κ)} (c : Node κ) :
    Extended c ⟨q, x :: c.keys, X ++ c.kids⟩ 1 :=
  ⟨[x], X, rfl, rfl, rfl⟩

/-- `moveOneKeyFromLeft` readies the right child. -/
theorem rotateLeft_readied (hlt : StrictWeak T.compare) (hsep : T.tokenAt h = T.sep)
    (hmin : T.minOf h = T.minKeys) (hmax : T.minKeys < T.maxOf h) (hT : T.Valid)
    (hs : Stands s R ref (h + 1) ⟨p, K1 ++ x :: K2, P ++ ([c, d] ++ S)⟩) (hP : P.length = K1.length)
    (hslots : (K1 ++ x :: K2).length ≤ T.slots)
    (hsz : SizedBelow T (h + 1) (P ++ ([c, d] ++ S))) (hd : d.keys.length = T.minKeys)
    (hc : T.minKeys < c.keys.length) :
    Returns (moveOneKeyFromLeft T (s.wrapper c.page) (s.wrapper d.page) ref (K1.length + 1)) s
      fun r s1 => ∃ ref1 f1, r = (s1.wrapper c.page, s1.wrapper f1.kid.page, ref1) ∧
        Readied T s R h p (Focus.rightOf K1 x K2 P c d S hP) s1 ref1 f1 ∧
        OrderKept T h p (Focus.rightOf K1 x K2 P c d S hP) f1 ∧
        Rotated T h (Focus.rightOf K1 x K2 P c d S hP) f1.kid ∧
        (∃ y c', f1 = Focus.rightOf K1 y K2 P c' f1.kid S hP ∧ c'.page = c.page) ∧
        ∀ q, q ≠ p → q ≠ c.page → q ≠ d.page → s1.stream.page q = s.stream.page q := by
  obtain ⟨hszP, hszc⟩ := sizedBelow_append.mp hsz
  obtain ⟨hszc, hszd⟩ := sizedBelow_cons.mp hszc
  obtain ⟨hszd, hszS⟩ := sizedBelow_cons.mp hszd
  obtain ⟨⟨-, hchi⟩, hszck⟩ := sized_iff.mp hszc
  obtain ⟨-, hszdk⟩ := sized_iff.mp hszd
  obtain ⟨-, hrc, -⟩ := hs.holds_pair
  have hmaxs := maxOf_le_slots hT h
  obtain ⟨LK, y, hck⟩ := List.eq_nil_or_concat' c.keys |>.resolve_left fun hnil => by
    rw [hnil] at hc
    simp at hc
  have hckl : c.keys.length = LK.length + 1 := by simp [hck]
  refine (moveOneKeyFromLeft_spec hs hslots hck (by omega) (by omega)).mono ?_
  rintro r s1 ⟨ref1, LC, X, rfl, hkids, hLC, hX, hwritten, hother⟩
  rw [hkids, sizedBelow_append] at hszck
  have hnode : (Focus.rightOf K1 x K2 P c d S hP).node p = _ := Focus.rightOf_node hP
  have hnode1 : (Focus.rightOf K1 y K2 P ⟨c.page, LK, LC⟩ ⟨d.page, x :: d.keys, X ++ d.kids⟩ S
      hP).node p = _ := Focus.rightOf_node hP
  refine ⟨ref1, Focus.rightOf K1 y K2 P ⟨c.page, LK, LC⟩ ⟨d.page, x :: d.keys, X ++ d.kids⟩ S hP,
    rfl, ⟨?_, hwritten.frame, ?_, ?_, ?_, ?_, fun _ => ?_, id⟩, ⟨?_, fun k hsorted hk => ⟨?_, ?_⟩⟩,
    .fromLeft rfl rfl hc hck hkids hX, ⟨y, _, rfl, rfl⟩, hother⟩
  · rw [hnode1]
    exact hwritten.stands
  · rw [hnode1]
    have hold : T.minOf h ≤ LK.length ∧ LK.length ≤ T.maxOf h := by omega
    have hnew : T.minOf h ≤ (x :: d.keys).length ∧ (x :: d.keys).length ≤ T.maxOf h := by
      rw [List.length_cons]
      omega
    exact sizedBelow_append.mpr ⟨hszP, sizedBelow_cons.mpr ⟨sized_iff.mpr ⟨hold, hszck.1⟩,
      sizedBelow_cons.mpr ⟨sized_iff.mpr ⟨hnew, sizedBelow_append.mpr ⟨hszck.2, hszdk⟩⟩, hszS⟩⟩⟩
  · change T.minOf h < (x :: d.keys).length
    rw [List.length_cons]
    omega
  · rw [hnode, hnode1]
    simp
  · rw [hnode, hnode1]
    simp
  · rw [hnode1]
    simp
  · rw [hnode, hnode1]
    refine Thinned.of_eq ?_
    have htok : ∀ (z : κ) (a b : Node κ), (⟨p, K1 ++ z :: K2, P ++ ([a, b] ++ S)⟩ : Node κ).tokens T
        (h + 1) = _ := fun z a b => tokens_around₂ hP
    have hrot := tokens_rotateLeft (T := T) (c := c) (d := d) (x := x) (y := y) hLC hX
    rw [hsep, ← node_eq c hck hkids] at hrot
    rw [htok, htok, hrot]
  · simp only [Focus.rightOf, List.getLast?_concat, Option.mem_def, Option.some.injEq]
    rintro _ rfl
    rw [hnode] at hsorted
    exact hlt.lt_of_le_of_lt (le_sep hP hrc hck hsorted) (hk.lt_left x (by simp [Focus.rightOf]))
  · exact hk.lt_right

/-- `moveOneKeyFromRight` readies the left child. -/
theorem rotateRight_readied (hlt : StrictWeak T.compare) (hsep : T.tokenAt h = T.sep)
    (hmin : T.minOf h = T.minKeys) (hmax : T.minKeys < T.maxOf h) (hT : T.Valid)
    (hs : Stands s R ref (h + 1) ⟨p, K1 ++ x :: K2, P ++ ([c, d] ++ S)⟩) (hP : P.length = K1.length)
    (hslots : (K1 ++ x :: K2).length ≤ T.slots)
    (hsz : SizedBelow T (h + 1) (P ++ ([c, d] ++ S))) (hc : c.keys.length = T.minKeys)
    (hd : T.minKeys < d.keys.length) (hleft : ∀ l ∈ P.getLast?, l.keys.length ≤ T.minKeys) :
    Returns (moveOneKeyFromRight T (s.wrapper d.page) (s.wrapper c.page) ref K1.length) s
      fun r s1 => ∃ ref1 f1, r = (s1.wrapper d.page, s1.wrapper f1.kid.page, ref1) ∧
        Readied T s R h p (Focus.leftOf K1 x K2 P c d S hP) s1 ref1 f1 ∧
        OrderKept T h p (Focus.leftOf K1 x K2 P c d S hP) f1 ∧
        Rotated T h (Focus.leftOf K1 x K2 P c d S hP) f1.kid ∧
        (∃ y d', f1 = Focus.leftOf K1 y K2 P f1.kid d' S hP ∧ d'.page = d.page) ∧
        ∀ q, q ≠ p → q ≠ c.page → q ≠ d.page → s1.stream.page q = s.stream.page q := by
  obtain ⟨hszP, hszc⟩ := sizedBelow_append.mp hsz
  obtain ⟨hszc, hszd⟩ := sizedBelow_cons.mp hszc
  obtain ⟨hszd, hszS⟩ := sizedBelow_cons.mp hszd
  obtain ⟨-, hszck⟩ := sized_iff.mp hszc
  obtain ⟨⟨-, hdhi⟩, hszdk⟩ := sized_iff.mp hszd
  obtain ⟨-, hrc, hrd⟩ := hs.holds_pair
  have hmaxs := maxOf_le_slots hT h
  obtain ⟨y, RK, hdk⟩ := List.exists_cons_of_length_pos (Nat.zero_lt_of_lt hd)
  have hdkl : d.keys.length = RK.length + 1 := by simp [hdk]
  refine (moveOneKeyFromRight_spec hs hslots hdk (by omega) (by omega)).mono ?_
  rintro r s1 ⟨ref1, X, RC, rfl, hkids, hX, hRC, hwritten, hother⟩
  rw [hkids, sizedBelow_append] at hszdk
  refine ⟨ref1, Focus.leftOf K1 y K2 P ⟨c.page, c.keys ++ [x], c.kids ++ X⟩ ⟨d.page, RK, RC⟩ S hP,
    rfl, ⟨hwritten.stands, hwritten.frame, ?_, ?_, ?_, ?_, fun _ => ?_, fun hnil => by cases hnil⟩,
    ⟨?_, fun k hsorted hk => ⟨hk.lt_left, ?_⟩⟩, .fromRight hleft rfl rfl hd hdk hkids hX,
    ⟨y, _, rfl, rfl⟩, hother⟩
  · have hnew : T.minOf h ≤ (c.keys ++ [x]).length ∧ (c.keys ++ [x]).length ≤ T.maxOf h := by
      rw [List.length_append, List.length_singleton]
      omega
    have hold : T.minOf h ≤ RK.length ∧ RK.length ≤ T.maxOf h := by omega
    exact sizedBelow_append.mpr ⟨hszP, sizedBelow_cons.mpr ⟨sized_iff.mpr ⟨hnew,
      sizedBelow_append.mpr ⟨hszck, hszdk.1⟩⟩, sizedBelow_cons.mpr ⟨sized_iff.mpr ⟨hold, hszdk.2⟩,
        hszS⟩⟩⟩
  · change T.minOf h < (c.keys ++ [x]).length
    rw [List.length_append, List.length_singleton]
    omega
  · simp [Focus.leftOf_node]
  · simp [Focus.leftOf_node]
  · simp [Focus.leftOf_node]
  · rw [Focus.leftOf_node, Focus.leftOf_node]
    refine Thinned.of_eq ?_
    have htok : ∀ (z : κ) (a b : Node κ), (⟨p, K1 ++ z :: K2, P ++ ([a, b] ++ S)⟩ : Node κ).tokens T
        (h + 1) = _ := fun z a b => tokens_around₂ hP
    have hrot : (⟨c.page, c.keys ++ [x], c.kids ++ X⟩ : Node κ).tokens T h ++ T.tokenAt h y ::
        (⟨d.page, RK, RC⟩ : Node κ).tokens T h =
        c.tokens T h ++ T.tokenAt h x :: (⟨d.page, y :: RK, X ++ RC⟩ : Node κ).tokens T h := by
      refine tokens_rotateRight (fun hh => ?_) hX
      obtain ⟨g, rfl⟩ := Nat.exists_eq_succ_of_ne_zero hh
      exact hrc.length_kids
    rw [hsep, ← node_eq d hdk hkids] at hrot
    rw [htok, htok, hrot]
  · simp only [Focus.leftOf, List.head?_cons, Option.mem_def, Option.some.injEq]
    rintro _ rfl
    rw [Focus.leftOf_node] at hsorted
    exact hlt.lt_of_lt_of_le (hk.lt_right x (by simp [Focus.leftOf]))
      (sep_le (A := []) hP hrd hdk hsorted)

/-- The child and its left neighbour, when there is one. -/
theorem Focus.left_cases (f : Focus κ) : (f.keysL = [] ∧ f.kidsL = []) ∨
    ∃ K1 x P l hP, f = rightOf K1 x f.keysR P l f.kid f.kidsR hP := by
  obtain ⟨KL, KR, PL, c, SR, hlen⟩ := f
  rcases List.eq_nil_or_concat' KL with rfl | ⟨K1, x, rfl⟩
  · exact Or.inl ⟨rfl, List.length_eq_zero_iff.mp hlen⟩
  · obtain ⟨P, l, rfl⟩ := List.eq_nil_or_concat' PL |>.resolve_left fun hnil => by
      simp [hnil] at hlen
    exact Or.inr ⟨K1, x, P, l, by simpa using hlen, rfl⟩

/-- The child and its right neighbour, when there is one. -/
theorem Focus.right_cases (f : Focus κ) (hlen : f.kidsR.length = f.keysR.length) :
    (f.keysR = [] ∧ f.kidsR = []) ∨
      ∃ x K2 d S, f = leftOf f.keysL x K2 f.kidsL f.kid d S f.length_eq := by
  obtain ⟨KL, KR, PL, c, SR, hlenL⟩ := f
  cases KR with
  | nil => exact Or.inl ⟨rfl, List.length_eq_zero_iff.mp hlen⟩
  | cons x K2 =>
    obtain ⟨d, S, rfl⟩ := List.exists_cons_of_length_pos (l := SR) (by
      change SR.length = K2.length + 1 at hlen
      omega)
    exact Or.inr ⟨x, K2, d, S, rfl⟩

theorem Focus.length_right (hs : Stands s R ref (h + 1) (f.node p)) :
    f.kidsR.length = f.keysR.length := by
  have hlen := hs.rep.length_kids
  have hleft := f.length_eq
  simp only [Focus.node, List.length_append, List.length_cons] at hlen
  omega

/-- The child of a focus is read. -/
theorem Focus.readKid (hs : Stands s R ref (h + 1) (f.node p))
    (hslots : (f.node p).keys.length ≤ T.slots) :
    readPageFromChild T (s.wrapper p) f.keysL.length s = .ok (s.wrapper f.kid.page, s) := by
  have hread := readPageFromChild_run (T := T) (w := s.wrapper p) (P := f.kidsL) (c := f.kid)
    (S := f.kidsR) hs.store (kid_page_mem (by simp [Focus.node])) hs.rep.on rfl hslots
  rwa [f.length_eq] at hread

/-- What `rotateFromNeighbour` returns. -/
def RotatePost (T : Cfg κ) (s : BTree κ) (R : Multiset ℕ) (h p : ℕ) (f : Focus κ)
    (r : Option (Prepared κ) × PageWrapper κ × PageWrapper κ) (s1 : BTree κ) : Prop :=
  (∃ ref1 f1 lw, r.1 = some ⟨false, ref1, s1.wrapper f1.kid.page, lw⟩ ∧
    Readied T s R h p f s1 ref1 f1 ∧ OrderKept T h p f f1 ∧ Rotated T h f f1.kid) ∨
  (r.1 = none ∧ s1 = s ∧ Stuck T f ∧ (∀ l ∈ f.kidsL.getLast?, r.2.1 = s.wrapper l.page) ∧
    ∀ d ∈ f.kidsR.head?, r.2.2 = s.wrapper d.page)

/-- The part of `rotateFromNeighbour` for the right neighbour. -/
theorem rotateFromRight_spec (hlt : StrictWeak T.compare) (hsep : T.tokenAt h = T.sep)
    (hmin : T.minOf h = T.minKeys) (hmax : T.minKeys < T.maxOf h) (hT : T.Valid)
    (hs : Stands s R ref (h + 1) (f.node p)) (hslots : (f.node p).keys.length ≤ T.slots)
    (hsz : SizedBelow T (h + 1) (f.node p).kids) (hkid : f.kid.keys.length = T.minKeys)
    (hleft : ∀ l ∈ f.kidsL.getLast?, l.keys.length ≤ T.minKeys) {lw : PageWrapper κ}
    (hlw : ∀ l ∈ f.kidsL.getLast?, lw = s.wrapper l.page) :
    Returns (do
      let rightNeighbour ← if f.keysL.length < (s.wrapper p).data.keysNum then
          readPageFromChild T (s.wrapper p) (f.keysL.length + 1)
        else pure (s.wrapper f.kid.page)
      if f.keysL.length < (s.wrapper p).data.keysNum ∧
          rightNeighbour.data.keysNum ≥ T.minKeys + 1 then do
        let (rightNeighbour, child, currentPage) ←
          moveOneKeyFromRight T rightNeighbour (s.wrapper f.kid.page) ref f.keysL.length
        return (some ⟨false, currentPage, child, lw⟩, lw, rightNeighbour)
      else return (none, lw, rightNeighbour)) s (RotatePost T s R h p f) := by
  have hkn : (s.wrapper p).data.keysNum = (f.node p).keys.length := hs.rep.on.keysNum_eq
  have hlenR := Focus.length_right hs
  rw [hkn]
  rcases f.right_cases hlenR with ⟨hK, hS⟩ | ⟨x, K2, d, S, hf⟩
  · -- no right neighbour
    have hlast : ¬f.keysL.length < (f.node p).keys.length := by simp [Focus.node, hK]
    rw [if_neg hlast, pure_bind]
    dsimp only
    rw [if_neg fun hc => hlast hc.1]
    exact Returns.pure (Or.inr ⟨rfl, rfl, ⟨hleft, by simp [hS]⟩, hlw, by simp [hS]⟩)
  · have hlast : f.keysL.length < (f.node p).keys.length := by
      rw [hf]
      simp [Focus.node, Focus.leftOf]
    have hnode : f.node p = ⟨p, f.keysL ++ x :: K2, f.kidsL ++ ([f.kid, d] ++ S)⟩ := by
      rw [hf]
      rfl
    have hS : f.kidsR = d :: S := by
      rw [hf]
      rfl
    rw [hnode] at hs hsz hslots
    have hread : readPageFromChild T (s.wrapper p) (f.keysL.length + 1) s =
        .ok (s.wrapper d.page, s) := by
      have := readPageFromChild_run (T := T) (w := s.wrapper p) (P := f.kidsL ++ [f.kid]) (c := d)
        (S := S) hs.store (kid_page_mem (by simp)) hs.rep.on (by simp) hslots
      rwa [List.length_append, List.length_singleton, f.length_eq] at this
    have hdn : (s.wrapper d.page).data.keysNum = d.keys.length := hs.holds_pair.2.2.on.keysNum_eq
    rw [if_pos hlast]
    refine Returns.step hread ?_
    dsimp only
    by_cases hrich : T.minKeys < d.keys.length
    · rw [if_pos ⟨hlast, by rw [hdn]; exact hrich⟩]
      refine (rotateRight_readied hlt hsep hmin hmax hT hs f.length_eq hslots hsz hkid hrich
        hleft).bind ?_
      rintro _ s1 ⟨ref1, f1, rfl, hready, hkept, hrot, -⟩
      rw [← hf] at hready hkept hrot
      exact Returns.pure (Or.inl ⟨ref1, f1, lw, rfl, hready, hkept, hrot⟩)
    · rw [if_neg (by rw [hdn]; exact fun hc => hrich hc.2)]
      refine Returns.pure (Or.inr ⟨rfl, rfl, ⟨hleft, ?_⟩, hlw, ?_⟩)
      · simpa [hS] using hrich
      · simp [hS]

/-- `rotateFromNeighbour` below a child with the least number of keys. -/
theorem rotateFromNeighbour_spec (hlt : StrictWeak T.compare) (hsep : T.tokenAt h = T.sep)
    (hmin : T.minOf h = T.minKeys) (hmax : T.minKeys < T.maxOf h) (hT : T.Valid)
    (hs : Stands s R ref (h + 1) (f.node p)) (hslots : (f.node p).keys.length ≤ T.slots)
    (hsz : SizedBelow T (h + 1) (f.node p).kids) (hkid : f.kid.keys.length = T.minKeys) :
    Returns (rotateFromNeighbour T f.keysL.length ref (s.wrapper p) (s.wrapper f.kid.page)) s
      (RotatePost T s R h p f) := by
  unfold rotateFromNeighbour
  rcases f.left_cases with ⟨hK, hP⟩ | ⟨K1, x, P, l, hP, hf⟩
  · -- no left neighbour
    have hfirst : ¬f.keysL.length ≥ 1 := by simp [hK]
    rw [if_neg hfirst, pure_bind]
    dsimp only
    rw [if_neg fun hc => hfirst hc.1]
    exact rotateFromRight_spec hlt hsep hmin hmax hT hs hslots hsz hkid (by simp [hP]) (by simp [hP])
  · have hfirst : f.keysL.length = K1.length + 1 := by
      rw [hf]
      simp [Focus.rightOf]
    have hnode : f.node p = ⟨p, K1 ++ x :: f.keysR, P ++ ([l, f.kid] ++ f.kidsR)⟩ := by
      conv_lhs => rw [hf]
      exact Focus.rightOf_node hP
    have hlast : f.kidsL.getLast? = some l := by
      rw [hf]
      simp [Focus.rightOf]
    have hs' := hs
    have hsz' := hsz
    have hslots' := hslots
    rw [hnode] at hs' hsz' hslots'
    have hread : readPageFromChild T (s.wrapper p) K1.length s = .ok (s.wrapper l.page, s) := by
      have := readPageFromChild_run (T := T) (w := s.wrapper p) (P := P) (c := l)
        (S := f.kid :: f.kidsR) hs'.store (kid_page_mem (by simp)) hs'.rep.on (by simp) hslots'
      rwa [hP] at this
    have hln : (s.wrapper l.page).data.keysNum = l.keys.length := hs'.holds_pair.2.1.on.keysNum_eq
    rw [if_pos (by omega), hfirst, Nat.add_sub_cancel]
    refine Returns.step hread ?_
    dsimp only
    by_cases hrich : T.minKeys < l.keys.length
    · rw [if_pos ⟨by omega, by rw [hln]; exact hrich⟩]
      refine (rotateLeft_readied hlt hsep hmin hmax hT hs' hP hslots' hsz' hkid hrich).bind ?_
      rintro _ s1 ⟨ref1, f1, rfl, hready, hkept, hrot, -⟩
      rw [← hf] at hready hkept hrot
      exact Returns.pure (Or.inl ⟨ref1, f1, _, rfl, hready, hkept, hrot⟩)
    · rw [if_neg (by rw [hln]; exact fun hc => hrich hc.2), ← hfirst]
      refine rotateFromRight_spec hlt hsep hmin hmax hT hs hslots hsz hkid ?_ ?_
      · simpa [hlast] using hrich
      · simp [hlast]

end

end BTreesMods

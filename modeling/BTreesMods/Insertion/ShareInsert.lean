import BTreesMods.Insertion.Share

/-!
# Sharing keys and inserting

The four functions that share keys with a sibling, run in a tree: each refuses and changes nothing,
which happens only when the sibling lacks one key, or evens out the two children and inserts `k`
into one of them that has room.
-/

namespace BTreesMods

variable {κ : Type}

/-! ## Numbers of keys -/

theorem newSiblingKeys_eq (a b : ℕ) : newSiblingKeys a b = (a + b + 1) / 2 := by
  unfold newSiblingKeys
  dsimp only
  split <;> omega

/-- A full child with `m` keys and a sibling with `l` share: `g + 1` keys leave the child. -/
theorem share_numbers {m l : ℕ} (hl : l < m) (hm : m < 2 ^ 16) :
    ∃ g, newSiblingKeys m l = l + 1 + g ∧ subUShort (l + 1 + g) l = g + 1 ∧
      subUShort m (g + 1) = m - (g + 1) ∧ l + 1 + g ≤ m ∧ (l + 1 + g = m → g = 0) ∧
      l ≤ m - (g + 1) ∧ g + 1 ≤ m := by
  refine ⟨(m - l - 1) / 2, ?_, ?_, subUShort_eq (by omega) hm, by omega, by omega, by omega, by omega⟩
  · rw [newSiblingKeys_eq]
    omega
  · rw [subUShort_eq (by omega) (by omega)]
    omega

/-- The guard of the sharing functions looks at the key `y` that would move up. -/
theorem share_guard {m l g : ℕ} {X : List κ} {y z : κ} (f : κ → Bool) (hX : X.length = g)
    (hle : l + 1 + g ≤ m) (hzy : X = [] → z = y) :
    (l + 1 + g == m && g + 1 == 1 && f z) = true ↔ l + 1 = m ∧ f y = true := by
  simp only [Bool.and_eq_true, beq_iff_eq, Nat.add_eq_right]
  constructor
  · rintro ⟨⟨h1, rfl⟩, h2⟩
    rw [← hzy (List.length_eq_zero_iff.mp hX)]
    exact ⟨h1, h2⟩
  · rintro ⟨h1, h2⟩
    obtain rfl : g = 0 := by omega
    rw [hzy (List.length_eq_zero_iff.mp hX)]
    exact ⟨⟨h1, rfl⟩, h2⟩

theorem star_maxOf {T : Cfg κ} (hk : T.treeType.isStar = true) (h : ℕ) : T.maxOf h = T.maxKeys := by
  unfold Cfg.maxOf
  rw [if_neg]
  rintro ⟨-, h'⟩
  simp [h', TreeType.isStar] at hk

theorem star_minOf {T : Cfg κ} (hk : T.treeType.isStar = true) (h : ℕ) : T.minOf h = T.minKeys := by
  unfold Cfg.minOf
  rw [if_neg]
  rintro ⟨-, h'⟩
  simp [h', TreeType.isStar] at hk

theorem star_numbers {T : Cfg κ} (hT : T.Valid) (hk : T.treeType.isStar = true) :
    4 ≤ T.maxKeys ∧ T.maxKeys < 2 ^ 16 ∧ T.minKeys = (2 * T.maxKeys - 2) / 3 ∧
      T.maxKeys ≤ T.slots := by
  obtain ⟨m, hm, hm16, hmin, rfl, -, -, -, -, -, hslots, -⟩ := valid_star hT hk
  exact ⟨hm, hm16, hmin, by rw [hslots]; exact Nat.le_max_left _ _⟩

/-! ## Two children, one of which gets the record -/

/-- A node with two adjacent children between whose neighbours the record `k` fits. -/
structure PairReady (T : Cfg κ) (k : κ) (H : Prop) (s : BTree κ) (R : Multiset ℕ) (ref : PageRef κ)
    (h p : ℕ) (K1 : List κ) (x : κ) (K2 : List κ) (P : List (Node κ)) (c d : Node κ)
    (S : List (Node κ)) : Prop where
  stands : Stands s R ref (h + 1) ⟨p, K1 ++ x :: K2, P ++ ([c, d] ++ S)⟩
  length_eq : P.length = K1.length
  sized : SizedBelow T (h + 1) (P ++ ([c, d] ++ S))
  le_slots : (K1 ++ x :: K2).length ≤ T.slots
  sorted : H → Sorted T.compare ((⟨p, K1 ++ x :: K2, P ++ ([c, d] ++ S)⟩ : Node κ).tokens T (h + 1))
  between : H → Between T.compare k (tokensBefore T h P K1) (tokensAfter T h K2 S)

/-- A sharing function changes nothing, and the sibling lacks one key; or it shares and inserts. -/
def SharesOrRefuses (T : Cfg κ) (k : κ) (H : Prop) (s : BTree κ) (R : Multiset ℕ) (h : ℕ)
    (t : Node κ) (sibling : Node κ) (run : TreeM κ Bool) : Prop :=
  (run s = .ok (false, s) ∧ sibling.keys.length + 1 = T.maxOf h) ∨
    Returns run s fun done s' => done = true ∧ InsertPost T k H s R (h + 1) t t.keys.length s'

section

variable {T : Cfg κ} {k : κ} {H : Prop} {s s1 : BTree κ} {R : Multiset ℕ} {ref ref1 : PageRef κ}
  {h p fuel : ℕ} {K1 K2 : List κ} {x y : κ} {P S : List (Node κ)} {c d c' d' : Node κ}

theorem shareHead_run {child sibling : PageWrapper κ} {what whatCursor : String}
    (hchild : isFull T child s = .ok (true, s)) (hsibling : isFull T sibling s = .ok (false, s)) :
    shareHead T child sibling what false whatCursor s = .ok ((), s) := by
  unfold shareHead
  rw [bind_run hchild, bind_run hsibling]
  rfl

namespace PairReady

theorem sized_pair (hp : PairReady T k H s R ref h p K1 x K2 P c d S) : c.Sized T h ∧ d.Sized T h :=
  ⟨hp.sized c (by simp), hp.sized d (by simp)⟩

theorem full_left (hp : PairReady T k H s R ref h p K1 x K2 P c d S) :
    isFull T (s.wrapper c.page) s = .ok (c.keys.length == T.maxOf h, s) :=
  isFull_kid (S := d :: S) hp.stands.toHeld

theorem full_right (hp : PairReady T k H s R ref h p K1 x K2 P c d S) :
    isFull T (s.wrapper d.page) s = .ok (d.keys.length == T.maxOf h, s) := by
  have hs := hp.stands
  have hlist : P ++ ([c, d] ++ S) = (P ++ [c]) ++ d :: S := by simp
  rw [hlist] at hs
  exact isFull_kid hs.toHeld

theorem le_slots_of_eq (hp : PairReady T k H s R ref h p K1 x K2 P c d S) {K : List κ}
    (hK : K.length = (K1 ++ x :: K2).length) : K.length ≤ T.slots := by
  rw [hK]
  exact hp.le_slots

theorem keysNum_left (hp : PairReady T k H s R ref h p K1 x K2 P c d S) :
    (s.wrapper c.page).data.keysNum = c.keys.length :=
  (hp.stands.rep.2 c (by simp)).on.keysNum_eq

theorem keysNum_right (hp : PairReady T k H s R ref h p K1 x K2 P c d S) :
    (s.wrapper d.page).data.keysNum = d.keys.length :=
  (hp.stands.rep.2 d (by simp)).on.keysNum_eq

theorem keysNum (hp : PairReady T k H s R ref h p K1 x K2 P c d S) :
    (s.wrapper p).data.keysNum = (K1 ++ x :: K2).length :=
  hp.stands.rep.on.keysNum_eq

/-- The first key of the right child. -/
theorem firstKey {X Y : List κ} (hp : PairReady T k H s R ref h p K1 x K2 P c d S)
    (hd : d.keys = X ++ y :: Y) (hslots : d.keys.length ≤ T.slots) :
    ∃ z, (s.wrapper d.page).data.getKey T.slots 0 = .ok z ∧ (X = [] → z = y) := by
  have hon : (s.wrapper d.page).data.Holds (h == 0) d.keys (d.kids.map Node.page) :=
    (hp.stands.rep.2 d (by simp)).on
  have hkn : (s.wrapper d.page).data.keysNum ≤ T.slots := by
    rw [hon.keysNum_eq]
    exact hslots
  rw [hd] at hon
  cases X with
  | nil =>
    rw [← List.nil_append ([] ++ y :: Y)] at hon
    exact ⟨y, hon.getKey hkn, fun _ => rfl⟩
  | cons z X =>
    rw [← List.nil_append (z :: X ++ y :: Y)] at hon
    exact ⟨z, hon.getKey hkn, fun hX => by cases hX⟩

/-- The last key of the left child. -/
theorem lastKey {X Y : List κ} (hp : PairReady T k H s R ref h p K1 x K2 P c d S)
    (hc : c.keys = Y ++ y :: X) (hslots : c.keys.length ≤ T.slots) :
    ∃ z, (s.wrapper c.page).data.getKey T.slots (c.keys.length - 1) = .ok z ∧ (X = [] → z = y) := by
  have hon : (s.wrapper c.page).data.Holds (h == 0) c.keys (c.kids.map Node.page) :=
    (hp.stands.rep.2 c (by simp)).on
  have hkn : (s.wrapper c.page).data.keysNum ≤ T.slots := by
    rw [hon.keysNum_eq]
    exact hslots
  rw [hc] at hon ⊢
  rcases List.eq_nil_or_concat X with rfl | ⟨X, z, rfl⟩
  · refine ⟨y, ?_, fun _ => rfl⟩
    rw [List.length_append, List.length_singleton, Nat.add_sub_cancel]
    exact hon.getKey hkn
  · refine ⟨z, ?_, fun hX => by simp at hX⟩
    have hlist : Y ++ y :: X.concat z = (Y ++ y :: X) ++ [z] := by simp
    rw [hlist] at hon ⊢
    rw [List.length_append, List.length_singleton, Nat.add_sub_cancel]
    exact hon.getKey hkn

/-- The head of the functions that share with the left sibling passes. -/
theorem headLeft (hp : PairReady T k H s R ref h p K1 x K2 P c d S)
    (hd : d.keys.length = T.maxOf h) (hc : c.keys.length < T.maxOf h) (wrong : Prop)
    [Decidable wrong] (what whatCursor : String) (hwrong : ¬wrong) :
    shareHead T (s.wrapper d.page) (s.wrapper c.page) what wrong whatCursor s = .ok ((), s) := by
  rw [decide_eq_false hwrong]
  refine shareHead_run ?_ ?_
  · rw [hp.full_right, hd, beq_self_eq_true]
  · rw [hp.full_left, beq_eq_false_iff_ne.mpr (Nat.ne_of_lt hc)]

/-- The head of the functions that share with the right sibling passes. -/
theorem headRight (hp : PairReady T k H s R ref h p K1 x K2 P c d S)
    (hc : c.keys.length = T.maxOf h) (hd : d.keys.length < T.maxOf h) (wrong : Prop)
    [Decidable wrong] (what whatCursor : String) (hwrong : ¬wrong) :
    shareHead T (s.wrapper c.page) (s.wrapper d.page) what wrong whatCursor s = .ok ((), s) := by
  rw [decide_eq_false hwrong]
  refine shareHead_run ?_ ?_
  · rw [hp.full_left, hc, beq_self_eq_true]
  · rw [hp.full_right, beq_eq_false_iff_ne.mpr (Nat.ne_of_lt hd)]

variable [Inhabited κ]

/-- The insertion into one of two children that were evened out. -/
theorem insert (hlt : StrictWeak T.compare) (hmin : h ≠ 0 → 1 ≤ T.minOf h)
    (ih : InsertsAt T k h fuel) (hp : PairReady T k H s R ref h p K1 x K2 P c d S)
    (hf : Frame s s1 R) (hs1 : Stands s1 R ref1 (h + 1) ⟨p, K1 ++ y :: K2, P ++ ([c', d'] ++ S)⟩)
    (hkids : c'.kids ++ d'.kids = c.kids ++ d.kids)
    (hclen : T.minOf h ≤ c'.keys.length ∧ c'.keys.length ≤ T.maxOf h)
    (hdlen : T.minOf h ≤ d'.keys.length ∧ d'.keys.length ≤ T.maxOf h)
    (hreg : Regroup (c.tokens T h ++ T.sep x :: d.tokens T h)
      (c'.tokens T h ++ T.sep y :: d'.tokens T h)) (toLeft : Bool)
    (hleft : toLeft = true → T.compare y k = false ∧ c'.keys.length < T.maxOf h)
    (hright : toLeft = false → T.compare k y = false ∧ d'.keys.length < T.maxOf h) :
    Returns (insertNonFull T k fuel
        (.local (s1.wrapper (if toLeft then c'.page else d'.page)))) s1 fun _ s' =>
      InsertPost T k H s R (h + 1) ⟨p, K1 ++ x :: K2, P ++ ([c, d] ++ S)⟩
        (K1 ++ x :: K2).length s' := by
  have hP := hp.length_eq
  obtain ⟨hszP, hszrest⟩ := sizedBelow_append.mp hp.sized
  obtain ⟨hszcd, hszS⟩ := sizedBelow_append.mp hszrest
  have hbelow : SizedBelow T h (c'.kids ++ d'.kids) := by
    rw [hkids, sizedBelow_append]
    exact ⟨(sized_iff.mp hp.sized_pair.1).2, (sized_iff.mp hp.sized_pair.2).2⟩
  rw [sizedBelow_append] at hbelow
  have hsz1 : SizedBelow T (h + 1) (P ++ ([c', d'] ++ S)) := by
    refine sizedBelow_append.mpr ⟨hszP, sizedBelow_cons.mpr ⟨sized_iff.mpr ⟨hclen, hbelow.1⟩,
      sizedBelow_cons.mpr ⟨sized_iff.mpr ⟨hdlen, hbelow.2⟩, hszS⟩⟩⟩
  have hreg1 : Regroup ((⟨p, K1 ++ x :: K2, P ++ ([c, d] ++ S)⟩ : Node κ).tokens T (h + 1))
      ((⟨p, K1 ++ y :: K2, P ++ ([c', d'] ++ S)⟩ : Node κ).tokens T (h + 1)) := by
    have h1 := tokens_around₂ (T := T) (h := h) (p := p) (L := K2) (S := S) (c := c) (d := d) (m := x) hP
    have h2 := tokens_around₂ (T := T) (h := h) (p := p) (L := K2) (S := S) (c := c') (d := d') (m := y)
      hP
    change Regroup ((⟨p, K1 ++ x :: K2, P ++ c :: d :: S⟩ : Node κ).tokens T (h + 1))
      ((⟨p, K1 ++ y :: K2, P ++ c' :: d' :: S⟩ : Node κ).tokens T (h + 1))
    rw [h1, h2]
    exact hreg.context _ _
  have hlen : (K1 ++ x :: K2).length = K1.length + 1 + K2.length := by
    rw [List.length_append, List.length_cons]
    omega
  have hsorted : H → Sorted T.compare
      ((⟨p, K1 ++ y :: K2, P ++ ([c', d'] ++ S)⟩ : Node κ).tokens T (h + 1)) :=
    fun hH => hreg1.sorted hlt (hp.sorted hH)
  rw [hlen]
  cases toLeft with
  | true =>
    exact (insertLeftKid hlt hs1 hP hsz1 (hleft rfl).2 hmin ih hsorted hp.between (hleft rfl).1).mono
      fun _ s' hpost => InsertPost.of_regroup hreg1 hf rfl hpost
  | false =>
    exact (insertRightKid hlt hs1 hP hsz1 (hright rfl).2 hmin ih hsorted hp.between
      (hright rfl).1).mono fun _ s' hpost => InsertPost.of_regroup hreg1 hf rfl hpost

/-- The end of the functions that share with the left sibling. -/
theorem finishLeft (hlt : StrictWeak T.compare) (hmin : h ≠ 0 → 1 ≤ T.minOf h)
    (ih : InsertsAt T k h fuel) (hp : PairReady T k H s R ref h p K1 x K2 P c d S)
    (hs1 : PairWritten s R h p K1 K2 P S c' d' y s1 ref1)
    (hkids : c'.kids ++ d'.kids = c.kids ++ d.kids)
    (hclen : T.minOf h ≤ c'.keys.length ∧ c'.keys.length ≤ T.maxOf h)
    (hdlen : T.minOf h ≤ d'.keys.length ∧ d'.keys.length ≤ T.maxOf h)
    (hreg : Regroup (c.tokens T h ++ T.sep x :: d.tokens T h)
      (c'.tokens T h ++ T.sep y :: d'.tokens T h))
    (hroom : c'.keys.length < T.maxOf h ∨ T.compare k y = false)
    (hroom' : d'.keys.length < T.maxOf h) :
    Returns (do
        let nd ← ref1.load
        let median ← onPages (nd.data.getKey T.slots K1.length)
        if T.compare k median then do
          insertNonFull T k fuel (.local (s1.wrapper c'.page))
          return true
        else do
          insertNonFull T k fuel (.local (s1.wrapper d'.page))
          return true) s1 fun done s' => done = true ∧
      InsertPost T k H s R (h + 1) ⟨p, K1 ++ x :: K2, P ++ ([c, d] ++ S)⟩
        (K1 ++ x :: K2).length s' := by
  have hinsert := hp.insert hlt hmin ih hs1.frame hs1.stands hkids hclen hdlen hreg
  have hget := hs1.stands.toHeld.getKey (hp.le_slots_of_eq (by simp))
  refine Returns.step (load_run s1 ref1) (Returns.step (onPages_run hget s1) ?_)
  by_cases hky : T.compare k y = true
  · rw [if_pos hky]
    exact Returns.bind_pure ((hinsert true (fun _ => ⟨hlt.asymm hky, by simpa [hky] using hroom⟩)
      (by simp)).mono fun _ s' hpost => ⟨rfl, hpost⟩)
  · rw [if_neg hky]
    exact Returns.bind_pure ((hinsert false (by simp)
      (fun _ => ⟨by simpa using hky, hroom'⟩)).mono fun _ s' hpost => ⟨rfl, hpost⟩)

/-- The end of the functions that share with the right sibling. -/
theorem finishRight (hlt : StrictWeak T.compare) (hmin : h ≠ 0 → 1 ≤ T.minOf h)
    (ih : InsertsAt T k h fuel) (hp : PairReady T k H s R ref h p K1 x K2 P c d S)
    (hs1 : PairWritten s R h p K1 K2 P S c' d' y s1 ref1)
    (hkids : c'.kids ++ d'.kids = c.kids ++ d.kids)
    (hclen : T.minOf h ≤ c'.keys.length ∧ c'.keys.length ≤ T.maxOf h)
    (hdlen : T.minOf h ≤ d'.keys.length ∧ d'.keys.length ≤ T.maxOf h)
    (hreg : Regroup (c.tokens T h ++ T.sep x :: d.tokens T h)
      (c'.tokens T h ++ T.sep y :: d'.tokens T h))
    (hroom : d'.keys.length < T.maxOf h ∨ T.compare y k = false)
    (hroom' : c'.keys.length < T.maxOf h) :
    Returns (do
        let nd ← ref1.load
        let median ← onPages (nd.data.getKey T.slots K1.length)
        if T.compare median k then do
          insertNonFull T k fuel (.local (s1.wrapper d'.page))
          return true
        else do
          insertNonFull T k fuel (.local (s1.wrapper c'.page))
          return true) s1 fun done s' => done = true ∧
      InsertPost T k H s R (h + 1) ⟨p, K1 ++ x :: K2, P ++ ([c, d] ++ S)⟩
        (K1 ++ x :: K2).length s' := by
  have hinsert := hp.insert hlt hmin ih hs1.frame hs1.stands hkids hclen hdlen hreg
  have hget := hs1.stands.toHeld.getKey (hp.le_slots_of_eq (by simp))
  refine Returns.step (load_run s1 ref1) (Returns.step (onPages_run hget s1) ?_)
  by_cases hyk : T.compare y k = true
  · rw [if_pos hyk]
    exact Returns.bind_pure ((hinsert false (by simp)
      (fun _ => ⟨hlt.asymm hyk, by simpa [hyk] using hroom⟩)).mono fun _ s' hpost => ⟨rfl, hpost⟩)
  · rw [if_neg hyk]
    exact Returns.bind_pure ((hinsert true (fun _ => ⟨by simpa using hyk, hroom'⟩)
      (by simp)).mono fun _ s' hpost => ⟨rfl, hpost⟩)

end PairReady

end

/-! ## B*-tree -/

section

variable {T : Cfg κ} {k : κ} {H : Prop} {s : BTree κ} {R : Multiset ℕ} {ref : PageRef κ}
  {h p fuel : ℕ} {K1 K2 : List κ} {x : κ} {P S : List (Node κ)} {c d : Node κ} [Inhabited κ]

/-- `BaseBStarTree::shareKeysWithLeftChildAndInsert`. -/
theorem BaseBStarTree.shareLeft_spec (hT : T.Valid) (hk : T.treeType.isStar = true)
    (hlt : StrictWeak T.compare) (ih : InsertsAt T k h fuel)
    (hp : PairReady T k H s R ref h p K1 x K2 P c d S) (hsep : T.tokenAt h = T.sep)
    (hd : d.keys.length = T.maxKeys) (hc : c.keys.length < T.maxKeys) :
    SharesOrRefuses T k H s R h ⟨p, K1 ++ x :: K2, P ++ ([c, d] ++ S)⟩ c
      (BaseBStarTree.shareKeysWithLeftChildAndInsert T (insertNonFull T k fuel) k ref
        (K1.length + 1) (s.wrapper d.page) (s.wrapper c.page)) := by
  obtain ⟨hm, hm16, hmin, hms⟩ := star_numbers hT hk
  have hmaxOf := star_maxOf hk h
  have hminOf := star_minOf hk h
  obtain ⟨g, hnew, hmoved, hrest, hle, hfull, hlrest, hgm⟩ := share_numbers hc hm16
  obtain ⟨X, y, Y, hdk, hX⟩ : ∃ X y Y, d.keys = X ++ y :: Y ∧ X.length = g :=
    ⟨d.keys.take g, d.keys[g], d.keys.drop (g + 1), by simp, by rw [List.length_take]; omega⟩
  have hY : Y.length = T.maxKeys - (g + 1) := by
    rw [hdk, List.length_append, List.length_cons] at hd
    omega
  obtain ⟨z, hz, hzy⟩ := hp.firstKey hdk (by omega)
  have hhead := hp.headLeft (by omega) (by omega) (K1.length + 1 > (s.wrapper p).data.keysNum)
    "Left sibling should not be full" "Cursor not exists" (by simp [hp.keysNum])
  have hguard := share_guard (T.compare k) hX hle hzy
  by_cases hg : c.keys.length + 1 = T.maxKeys ∧ T.compare k y = true
  · refine Or.inl ⟨?_, by omega⟩
    unfold BaseBStarTree.shareKeysWithLeftChildAndInsert
    rw [bind_run (load_run s ref), hp.stands.value_eq, bind_run hhead]
    dsimp only
    rw [hp.keysNum_left, hp.keysNum_right, hd, hnew, hmoved, hrest, bind_run (onPages_run hz s),
      if_pos (hguard.mpr hg)]
    rfl
  · obtain ⟨nd, cd, dd, c', d', hrun, hstep, hc', hd', htok⟩ := shareLeft_pairStep hp.stands
      hp.le_slots (by omega) hdk (by omega) (by omega)
    rw [hX, hY] at hrun
    refine Or.inr ?_
    unfold BaseBStarTree.shareKeysWithLeftChildAndInsert
    refine Returns.step (load_run s ref) ?_
    rw [hp.stands.value_eq]
    refine Returns.step hhead ?_
    dsimp only
    rw [hp.keysNum_left, hp.keysNum_right, hd, hnew, hmoved, hrest]
    refine Returns.step (onPages_run hz s) ?_
    rw [if_neg (mt hguard.mp hg)]
    refine Returns.step (onPages_run hrun s) ?_
    refine (hstep.write hp.stands.toHeld).bind fun ref1 s1 ⟨hs1, hwc, hwd⟩ => ?_
    have hreg : Regroup (c.tokens T h ++ T.sep x :: d.tokens T h)
        (c'.tokens T h ++ T.sep y :: d'.tokens T h) := by
      rw [htok hsep]
      exact Regroup.refl _
    have hclen : c'.keys.length = c.keys.length + 1 + g := by
      rw [hc', List.length_append, List.length_cons, hX]
      omega
    have hdlen : d'.keys.length = T.maxKeys - (g + 1) := by rw [hd', hY]
    have hcmin := (sized_iff.mp hp.sized_pair.1).1.1
    have hfinish := hp.finishLeft hlt (fun _ => one_le_minOf hT h) ih hs1 hstep.kids
      ⟨by omega, by omega⟩ ⟨by omega, by omega⟩ hreg
      (by
        by_cases hlast : c.keys.length + 1 = T.maxKeys
        · exact Or.inr (by simpa [hlast] using hg)
        · exact Or.inl (by omega)) (by omega)
    rw [hstep.page_left, hstep.page_right, hwc, hwd] at hfinish
    exact hfinish

/-- `BaseBStarTree::shareKeysWithRightChildAndInsert`. -/
theorem BaseBStarTree.shareRight_spec (hT : T.Valid) (hk : T.treeType.isStar = true)
    (hlt : StrictWeak T.compare) (ih : InsertsAt T k h fuel)
    (hp : PairReady T k H s R ref h p K1 x K2 P c d S) (hsep : T.tokenAt h = T.sep)
    (hc : c.keys.length = T.maxKeys) (hd : d.keys.length < T.maxKeys) :
    SharesOrRefuses T k H s R h ⟨p, K1 ++ x :: K2, P ++ ([c, d] ++ S)⟩ d
      (BaseBStarTree.shareKeysWithRightChildAndInsert T (insertNonFull T k fuel) k ref
        K1.length (s.wrapper c.page) (s.wrapper d.page)) := by
  obtain ⟨hm, hm16, hmin, hms⟩ := star_numbers hT hk
  have hmaxOf := star_maxOf hk h
  have hminOf := star_minOf hk h
  obtain ⟨g, hnew, hmoved, hrest, hle, hfull, hlrest, hgm⟩ := share_numbers hd hm16
  obtain ⟨Y, y, X, hck, hY⟩ : ∃ Y y X, c.keys = Y ++ y :: X ∧ Y.length = T.maxKeys - (g + 1) :=
    ⟨c.keys.take (T.maxKeys - (g + 1)), c.keys[T.maxKeys - (g + 1)],
      c.keys.drop (T.maxKeys - (g + 1) + 1), by simp, by rw [List.length_take]; omega⟩
  have hX : X.length = g := by
    rw [hck, List.length_append, List.length_cons] at hc
    omega
  obtain ⟨z, hz, hzy⟩ := hp.lastKey hck (by omega)
  have hhead := hp.headRight (by omega) (by omega) (K1.length ≥ (s.wrapper p).data.keysNum)
    "Right sibling should not be full" "Cursor and/or right sibling not exists"
    (by simp [hp.keysNum])
  have hguard := share_guard (T.compare · k) hX hle hzy
  rw [hc] at hz
  by_cases hg : d.keys.length + 1 = T.maxKeys ∧ T.compare y k = true
  · refine Or.inl ⟨?_, by omega⟩
    unfold BaseBStarTree.shareKeysWithRightChildAndInsert
    rw [bind_run (load_run s ref), hp.stands.value_eq, bind_run hhead]
    dsimp only
    rw [hp.keysNum_left, hp.keysNum_right, hc, hnew, hmoved, hrest, bind_run (onPages_run hz s),
      if_pos (hguard.mpr hg)]
    rfl
  · obtain ⟨nd, cd, dd, c', d', hrun, hstep, hc', hd', htok⟩ := shareRight_pairStep hp.stands
      hp.le_slots (by omega) hck (by omega) (by omega)
    rw [show X.length + 1 + d.keys.length = d.keys.length + 1 + g by omega, hX, hY] at hrun
    refine Or.inr ?_
    unfold BaseBStarTree.shareKeysWithRightChildAndInsert
    refine Returns.step (load_run s ref) ?_
    rw [hp.stands.value_eq]
    refine Returns.step hhead ?_
    dsimp only
    rw [hp.keysNum_left, hp.keysNum_right, hc, hnew, hmoved, hrest]
    refine Returns.step (onPages_run hz s) ?_
    rw [if_neg (mt hguard.mp hg)]
    refine Returns.step (onPages_run hrun s) ?_
    refine (hstep.write hp.stands.toHeld).bind fun ref1 s1 ⟨hs1, hwc, hwd⟩ => ?_
    have hreg : Regroup (c.tokens T h ++ T.sep x :: d.tokens T h)
        (c'.tokens T h ++ T.sep y :: d'.tokens T h) := by
      rw [htok hsep]
      exact Regroup.refl _
    have hclen : c'.keys.length = T.maxKeys - (g + 1) := by rw [hc', hY]
    have hdlen : d'.keys.length = d.keys.length + 1 + g := by
      rw [hd', List.length_append, List.length_cons, hX]
      omega
    have hdmin := (sized_iff.mp hp.sized_pair.2).1.1
    have hfinish := hp.finishRight hlt (fun _ => one_le_minOf hT h) ih hs1 hstep.kids
      ⟨by omega, by omega⟩ ⟨by omega, by omega⟩ hreg
      (by
        by_cases hlast : d.keys.length + 1 = T.maxKeys
        · exact Or.inr (by simpa [hlast] using hg)
        · exact Or.inl (by omega)) (by omega)
    rw [hstep.page_left, hstep.page_right, hwc, hwd] at hfinish
    exact hfinish

end

/-! ## B*+-tree -/

section

variable {T : Cfg κ} {k : κ} {H : Prop} {s : BTree κ} {R : Multiset ℕ} {ref : PageRef κ}
  {h p fuel : ℕ} {K1 K2 : List κ} {x y : κ} {P S : List (Node κ)} {c d : Node κ}

theorem tokenAt_eq_sep (hk : T.treeType = .bStarPlusTree → h ≠ 0) (hstar : T.treeType.isStar = true) :
    T.tokenAt h = T.sep := by
  funext z
  unfold Cfg.tokenAt
  split
  · rename_i hh
    cases hk' : T.treeType with
    | bTree => simp [hk', TreeType.isStar] at hstar
    | bPlusTree => simp [hk', TreeType.isStar] at hstar
    | bStarTree => simp [Cfg.sep, hk', TreeType.hasRouters]
    | bStarPlusTree => exact absurd hh (hk hk')
  · rfl

/-- A router between two leaves that follows the last key of the left one. -/
theorem regroup_leaves {A B : List κ} {q r : ℕ} {C D : List (Node κ)}
    (hrouters : T.treeType.hasRouters = true) (hkeys : c.keys ++ d.keys = (A ++ [y]) ++ B) :
    Regroup (c.tokens T 0 ++ T.sep x :: d.tokens T 0)
      ((⟨q, A ++ [y], C⟩ : Node κ).tokens T 0 ++ T.sep y :: (⟨r, B, D⟩ : Node κ).tokens T 0) := by
  have hsep : ∀ z, T.sep z = .router z := fun z => if_pos hrouters
  rw [hsep, hsep]
  refine (Regroup.drop (c.tokens T 0) x (d.tokens T 0)).trans ?_
  have hmap : c.tokens T 0 ++ d.tokens T 0 = A.map .record ++ .record y :: B.map .record := by
    have := congrArg (List.map (Token.record (κ := κ))) hkeys
    simpa [Node.tokens] using this
  rw [hmap]
  have := Regroup.add (A.map .record) y (B.map .record)
  simpa [Node.tokens] using this

/-- `writeShared` on two leaves and `setRouterKey` on the router between them. -/
theorem writeLeaves_spec {c' d' : Node κ} {cd dd : Page κ} {A : List κ}
    (hp : PairReady T k H s R ref 0 p K1 x K2 P c d S)
    (hstep : PairStep 0 p K1 K2 P S c d (s.wrapper p).data cd dd c' d' x)
    (hc' : c'.keys = A ++ [y]) (hcslots : c'.keys.length ≤ T.slots) :
    Returns (writeShared ref (s.wrapper p) ⟨c.page, cd⟩ ⟨d.page, dd⟩ >>= fun node =>
        setRouterKey T node K1.length) s fun ref1 s1 =>
      PairWritten s R 0 p K1 K2 P S c' d' y s1 ref1 ∧ s1.wrapper c.page = ⟨c.page, cd⟩ ∧
      s1.wrapper d.page = ⟨d.page, dd⟩ := by
  have hne : c.page ≠ p ∧ d.page ≠ p := by
    have := hp.stands.toHeld.nodup_mid
    simp only [List.map_cons, List.map_nil, List.nodup_cons, List.mem_cons, List.not_mem_nil,
      or_false, not_or] at this
    exact ⟨fun heq => this.1.1 heq.symm, fun heq => this.1.2 heq.symm⟩
  refine (hstep.write hp.stands.toHeld).bind fun ref1 s1 ⟨hs1, hwc, hwd⟩ => ?_
  refine (setRouterKey_spec (P := P) (c := c') (S := d' :: S) hs1.stands hp.length_eq hp.le_slots hc'
    hcslots).mono fun ref2 s2 ⟨hf2, hs2, hother⟩ => ?_
  exact ⟨⟨hs1.frame.trans hf2, hs2⟩, (hother _ hne.1).trans hwc, (hother _ hne.2).trans hwd⟩

variable [Inhabited κ]

/-- `BaseBStarPlusTree::shareKeysWithLeftChildAndInsert` on leaves. -/
theorem BaseBStarPlusTree.shareLeftLeaf_spec (hT : T.Valid) (hk : T.treeType = .bStarPlusTree)
    (hlt : StrictWeak T.compare) (ih : InsertsAt T k 0 fuel)
    (hp : PairReady T k H s R ref 0 p K1 x K2 P c d S)
    (hd : d.keys.length = T.maxKeys) (hc : c.keys.length < T.maxKeys) :
    SharesOrRefuses T k H s R 0 ⟨p, K1 ++ x :: K2, P ++ ([c, d] ++ S)⟩ c
      (BaseBStarPlusTree.shareKeysWithLeftChildAndInsert T (insertNonFull T k fuel) k ref
        (K1.length + 1) (s.wrapper d.page) (s.wrapper c.page)) := by
  have hstar : T.treeType.isStar = true := by rw [hk]; rfl
  obtain ⟨hm, hm16, hmin, hms⟩ := star_numbers hT hstar
  have hmaxOf := star_maxOf hstar 0
  have hminOf := star_minOf hstar 0
  obtain ⟨g, hnew, hmoved, hrest, hle, hfull, hlrest, hgm⟩ := share_numbers hc hm16
  obtain ⟨X, y, Y, hdk, hX⟩ : ∃ X y Y, d.keys = X ++ y :: Y ∧ X.length = g :=
    ⟨d.keys.take g, d.keys[g], d.keys.drop (g + 1), by simp, by rw [List.length_take]; omega⟩
  have hY : Y.length = T.maxKeys - (g + 1) := by
    rw [hdk, List.length_append, List.length_cons] at hd
    omega
  have hXy : (X ++ [y]).length = g + 1 := by rw [List.length_append, List.length_singleton, hX]
  obtain ⟨z, hz, hzy⟩ := hp.firstKey hdk (by omega)
  have hhead := hp.headLeft (by omega) (by omega) (K1.length + 1 > (s.wrapper p).data.keysNum)
    "Left sibling should not be full" "Cursor not exists" (by simp [hp.keysNum])
  have hleaf : (s.wrapper d.page).data.isLeaf = true := (hp.stands.rep.2 d (by simp)).on.leaf_eq
  have hguard := share_guard (T.compare k) hX hle hzy
  by_cases hg : c.keys.length + 1 = T.maxKeys ∧ T.compare k y = true
  · refine Or.inl ⟨?_, by omega⟩
    unfold BaseBStarPlusTree.shareKeysWithLeftChildAndInsert
    rw [bind_run (load_run s ref), hp.stands.value_eq, bind_run hhead]
    dsimp only
    rw [if_neg (by simp [hleaf]), hp.keysNum_left, hp.keysNum_right, hd, hnew, hmoved, hrest,
      bind_run (onPages_run hz s), if_pos (hguard.mpr hg)]
    rfl
  · have hdk' : d.keys = (X ++ [y]) ++ Y := by simp [hdk]
    obtain ⟨cd, dd, hrun, hstep⟩ := shareLeftLeaves_pairStep (T := T) hp.stands (by omega) hdk'
      (by rw [hXy]; omega)
    rw [hXy, hY, ← Nat.add_assoc, Nat.add_right_comm] at hrun
    have hckeys : c.keys ++ (X ++ [y]) = (c.keys ++ X) ++ [y] := by simp
    rw [hckeys] at hstep
    have hclen : ((c.keys ++ X) ++ [y]).length = c.keys.length + 1 + g := by
      rw [List.length_append, List.length_append, List.length_singleton, hX]
      omega
    refine Or.inr ?_
    unfold BaseBStarPlusTree.shareKeysWithLeftChildAndInsert
    refine Returns.step (load_run s ref) ?_
    rw [hp.stands.value_eq]
    refine Returns.step hhead ?_
    dsimp only
    rw [if_neg (by simp [hleaf]), hp.keysNum_left, hp.keysNum_right, hd, hnew, hmoved, hrest]
    refine Returns.step (onPages_run hz s) ?_
    rw [if_neg (mt hguard.mp hg)]
    refine Returns.step (onPages_run hrun s) ?_
    have hreg : Regroup (c.tokens T 0 ++ T.sep x :: d.tokens T 0)
        ((⟨c.page, (c.keys ++ X) ++ [y], []⟩ : Node κ).tokens T 0 ++
          T.sep y :: (⟨d.page, Y, []⟩ : Node κ).tokens T 0) :=
      regroup_leaves (by rw [hk]; rfl) (by simp [hdk])
    have hcmin := (sized_iff.mp hp.sized_pair.1).1.1
    have hwritten := writeLeaves_spec hp hstep rfl (by rw [hclen]; omega)
    obtain ⟨node, s0, hnode, ref1, s1, hrouter, hs1, hwc, hwd⟩ := hwritten.of_bind
    refine Returns.step hnode (Returns.step hrouter ?_)
    have hfinish := hp.finishLeft hlt (fun hh => absurd rfl hh) ih hs1 hstep.kids
      ⟨by dsimp only; omega, by dsimp only; omega⟩ ⟨by dsimp only; omega, by dsimp only; omega⟩ hreg
      (by
        by_cases hlast : c.keys.length + 1 = T.maxKeys
        · exact Or.inr (by simpa [hlast] using hg)
        · exact Or.inl (by dsimp only; omega)) (by dsimp only; omega)
    dsimp only at hfinish
    rw [hwc, hwd] at hfinish
    exact hfinish

/-- `BaseBStarPlusTree::shareKeysWithRightChildAndInsert` on leaves. -/
theorem BaseBStarPlusTree.shareRightLeaf_spec (hT : T.Valid) (hk : T.treeType = .bStarPlusTree)
    (hlt : StrictWeak T.compare) (ih : InsertsAt T k 0 fuel)
    (hp : PairReady T k H s R ref 0 p K1 x K2 P c d S)
    (hc : c.keys.length = T.maxKeys) (hd : d.keys.length < T.maxKeys) :
    SharesOrRefuses T k H s R 0 ⟨p, K1 ++ x :: K2, P ++ ([c, d] ++ S)⟩ d
      (BaseBStarPlusTree.shareKeysWithRightChildAndInsert T (insertNonFull T k fuel) k ref
        K1.length (s.wrapper c.page) (s.wrapper d.page)) := by
  have hstar : T.treeType.isStar = true := by rw [hk]; rfl
  obtain ⟨hm, hm16, hmin, hms⟩ := star_numbers hT hstar
  have hmaxOf := star_maxOf hstar 0
  have hminOf := star_minOf hstar 0
  have hdmin := (sized_iff.mp hp.sized_pair.2).1.1
  obtain ⟨g, hnew, hmoved, hrest, hle, hfull, hlrest, hgm⟩ := share_numbers hd hm16
  -- the last key `y` that stays, and the `g + 1` keys `X` that move
  obtain ⟨Y, y, X, hck, hY⟩ : ∃ Y y X, c.keys = Y ++ y :: X ∧ Y.length + 1 = T.maxKeys - (g + 1) :=
    ⟨c.keys.take (T.maxKeys - (g + 1) - 1), c.keys[T.maxKeys - (g + 1) - 1],
      c.keys.drop (T.maxKeys - (g + 1) - 1 + 1), by simp, by rw [List.length_take]; omega⟩
  have hX : X.length = g + 1 := by
    rw [hck, List.length_append, List.length_cons] at hc
    omega
  have hYy : (Y ++ [y]).length = T.maxKeys - (g + 1) := by
    rw [List.length_append, List.length_singleton, hY]
  obtain ⟨X', hX', z, hz, hzy⟩ : ∃ X' : List κ, X'.length = g ∧ ∃ z,
      (s.wrapper c.page).data.getKey T.slots (T.maxKeys - 2) = .ok z ∧ (X' = [] → z = y) := by
    obtain ⟨X', w, rfl⟩ := List.eq_nil_or_concat X |>.resolve_left (by rintro rfl; simp at hX)
    have hX' : X'.length = g := by simpa using hX
    refine ⟨X', hX', ?_⟩
    have hon : (s.wrapper c.page).data.Holds true c.keys (c.kids.map Node.page) :=
      (hp.stands.rep.2 c (by simp)).on
    have hkn : (s.wrapper c.page).data.keysNum ≤ T.slots := by
      rw [hon.keysNum_eq]
      omega
    rcases List.eq_nil_or_concat X' with rfl | ⟨X', v, rfl⟩
    · have hlist : Y ++ y :: ([] : List κ).concat w = Y ++ y :: [w] := by simp
      rw [hck, hlist] at hon
      rw [show T.maxKeys - 2 = Y.length by simp at hX'; omega]
      exact ⟨y, hon.getKey hkn, fun _ => rfl⟩
    · have hlist : Y ++ y :: (X'.concat v).concat w = (Y ++ y :: X') ++ v :: [w] := by simp
      rw [hck, hlist] at hon
      rw [show T.maxKeys - 2 = (Y ++ y :: X').length by simp at hX' ⊢; omega]
      exact ⟨v, hon.getKey hkn, fun hnil => by simp at hnil⟩
  have hhead := hp.headRight (by omega) (by omega) (K1.length ≥ (s.wrapper p).data.keysNum)
    "Right sibling should not be full" "Cursor and/or right sibling not exists"
    (by simp [hp.keysNum])
  have hleaf : (s.wrapper c.page).data.isLeaf = true := (hp.stands.rep.2 c (by simp)).on.leaf_eq
  have hguard := share_guard (T.compare · k) hX' hle hzy
  by_cases hg : d.keys.length + 1 = T.maxKeys ∧ T.compare y k = true
  · refine Or.inl ⟨?_, by omega⟩
    unfold BaseBStarPlusTree.shareKeysWithRightChildAndInsert
    rw [bind_run (load_run s ref), hp.stands.value_eq, bind_run hhead]
    dsimp only
    rw [if_neg (by simp [hleaf]), hp.keysNum_left, hp.keysNum_right, hc, hnew, hmoved, hrest,
      bind_run (onPages_run hz s), if_pos (hguard.mpr hg)]
    rfl
  · have hck' : c.keys = (Y ++ [y]) ++ X := by simp [hck]
    obtain ⟨cd, dd, hrun, hstep⟩ := shareRightLeaves_pairStep (T := T) hp.stands (by omega) hck'
      (by rw [hX]; omega)
    rw [hX, hYy, show g + 1 + d.keys.length = d.keys.length + 1 + g by omega] at hrun
    have hdlen : (X ++ d.keys).length = d.keys.length + 1 + g := by
      rw [List.length_append, hX]
      omega
    refine Or.inr ?_
    unfold BaseBStarPlusTree.shareKeysWithRightChildAndInsert
    refine Returns.step (load_run s ref) ?_
    rw [hp.stands.value_eq]
    refine Returns.step hhead ?_
    dsimp only
    rw [if_neg (by simp [hleaf]), hp.keysNum_left, hp.keysNum_right, hc, hnew, hmoved, hrest]
    refine Returns.step (onPages_run hz s) ?_
    rw [if_neg (mt hguard.mp hg)]
    refine Returns.step (onPages_run hrun s) ?_
    have hreg : Regroup (c.tokens T 0 ++ T.sep x :: d.tokens T 0)
        ((⟨c.page, Y ++ [y], []⟩ : Node κ).tokens T 0 ++
          T.sep y :: (⟨d.page, X ++ d.keys, []⟩ : Node κ).tokens T 0) :=
      regroup_leaves (by rw [hk]; rfl) (by simp [hck])
    have hwritten := writeLeaves_spec hp hstep rfl (by rw [hYy]; omega)
    obtain ⟨node, s0, hnode, ref1, s1, hrouter, hs1, hwc, hwd⟩ := hwritten.of_bind
    refine Returns.step hnode (Returns.step hrouter ?_)
    have hfinish := hp.finishRight hlt (fun hh => absurd rfl hh) ih hs1 hstep.kids
      ⟨by dsimp only; omega, by dsimp only; omega⟩ ⟨by dsimp only; omega, by dsimp only; omega⟩ hreg
      (by
        by_cases hlast : d.keys.length + 1 = T.maxKeys
        · exact Or.inr (by simpa [hlast] using hg)
        · exact Or.inl (by dsimp only; omega)) (by dsimp only; omega)
    dsimp only at hfinish
    rw [hwc, hwd] at hfinish
    exact hfinish

/-! ## The virtual functions -/

/-- The virtual `shareKeysWithLeftChildAndInsert`. -/
theorem shareLeft_spec (hT : T.Valid) (hk : T.treeType.isStar = true) (hlt : StrictWeak T.compare)
    (ih : InsertsAt T k h fuel) (hp : PairReady T k H s R ref h p K1 x K2 P c d S)
    (hd : d.keys.length = T.maxKeys) (hc : c.keys.length < T.maxKeys) :
    SharesOrRefuses T k H s R h ⟨p, K1 ++ x :: K2, P ++ ([c, d] ++ S)⟩ c
      (shareKeysWithLeftChildAndInsert T (insertNonFull T k fuel) k ref (K1.length + 1)
        (s.wrapper d.page) (s.wrapper c.page)) := by
  by_cases hk' : T.treeType = .bStarPlusTree
  · simp only [shareKeysWithLeftChildAndInsert, hk']
    cases h with
    | zero => exact BaseBStarPlusTree.shareLeftLeaf_spec hT hk' hlt ih hp hd hc
    | succ h =>
      have hmaxOf := star_maxOf hk (h + 1)
      have hhead := hp.headLeft (by omega) (by omega) (K1.length + 1 > (s.wrapper p).data.keysNum)
        "Left sibling should not be full" "Cursor not exists" (by simp [hp.keysNum])
      have hleaf : (s.wrapper d.page).data.isLeaf = false :=
        (hp.stands.rep.2 d (by simp)).on.leaf_eq
      have hrun : BaseBStarPlusTree.shareKeysWithLeftChildAndInsert T (insertNonFull T k fuel) k ref
          (K1.length + 1) (s.wrapper d.page) (s.wrapper c.page) s =
          BaseBStarTree.shareKeysWithLeftChildAndInsert T (insertNonFull T k fuel) k ref
            (K1.length + 1) (s.wrapper d.page) (s.wrapper c.page) s := by
        unfold BaseBStarPlusTree.shareKeysWithLeftChildAndInsert
        rw [bind_run (load_run s ref), hp.stands.value_eq, bind_run hhead, if_pos (by simp [hleaf])]
      have hbase := BaseBStarTree.shareLeft_spec hT hk hlt ih hp
        (tokenAt_eq_sep (fun _ => Nat.succ_ne_zero h) hk) hd hc
      unfold SharesOrRefuses Returns at hbase ⊢
      rwa [hrun]
  · have hother : shareKeysWithLeftChildAndInsert T = BaseBStarTree.shareKeysWithLeftChildAndInsert T := by
      unfold shareKeysWithLeftChildAndInsert
      cases hk'' : T.treeType <;> simp_all
    rw [hother]
    exact BaseBStarTree.shareLeft_spec hT hk hlt ih hp (tokenAt_eq_sep (fun h' => absurd h' hk') hk)
      hd hc

/-- The virtual `shareKeysWithRightChildAndInsert`. -/
theorem shareRight_spec (hT : T.Valid) (hk : T.treeType.isStar = true) (hlt : StrictWeak T.compare)
    (ih : InsertsAt T k h fuel) (hp : PairReady T k H s R ref h p K1 x K2 P c d S)
    (hc : c.keys.length = T.maxKeys) (hd : d.keys.length < T.maxKeys) :
    SharesOrRefuses T k H s R h ⟨p, K1 ++ x :: K2, P ++ ([c, d] ++ S)⟩ d
      (shareKeysWithRightChildAndInsert T (insertNonFull T k fuel) k ref K1.length
        (s.wrapper c.page) (s.wrapper d.page)) := by
  by_cases hk' : T.treeType = .bStarPlusTree
  · simp only [shareKeysWithRightChildAndInsert, hk']
    cases h with
    | zero => exact BaseBStarPlusTree.shareRightLeaf_spec hT hk' hlt ih hp hc hd
    | succ h =>
      have hmaxOf := star_maxOf hk (h + 1)
      have hhead := hp.headRight (by omega) (by omega) (K1.length ≥ (s.wrapper p).data.keysNum)
        "Right sibling should not be full" "Cursor and/or right sibling not exists"
        (by simp [hp.keysNum])
      have hleaf : (s.wrapper c.page).data.isLeaf = false :=
        (hp.stands.rep.2 c (by simp)).on.leaf_eq
      have hrun : BaseBStarPlusTree.shareKeysWithRightChildAndInsert T (insertNonFull T k fuel) k ref
          K1.length (s.wrapper c.page) (s.wrapper d.page) s =
          BaseBStarTree.shareKeysWithRightChildAndInsert T (insertNonFull T k fuel) k ref
            K1.length (s.wrapper c.page) (s.wrapper d.page) s := by
        unfold BaseBStarPlusTree.shareKeysWithRightChildAndInsert
        rw [bind_run (load_run s ref), hp.stands.value_eq, bind_run hhead, if_pos (by simp [hleaf])]
      have hbase := BaseBStarTree.shareRight_spec hT hk hlt ih hp
        (tokenAt_eq_sep (fun _ => Nat.succ_ne_zero h) hk) hc hd
      unfold SharesOrRefuses Returns at hbase ⊢
      rwa [hrun]
  · have hother : shareKeysWithRightChildAndInsert T = BaseBStarTree.shareKeysWithRightChildAndInsert T := by
      unfold shareKeysWithRightChildAndInsert
      cases hk'' : T.treeType <;> simp_all
    rw [hother]
    exact BaseBStarTree.shareRight_spec hT hk hlt ih hp (tokenAt_eq_sep (fun h' => absurd h' hk') hk)
      hc hd

end

end BTreesMods

import BTreesMods.Insertion.InsertStar

/-!
# The buffer of a split of two children

`splitChildren` of the B*-tree and the B*+-tree collects the keys of two children in
`new Byte[keysNum * _recSize]` (`btree.hpp`, lines 1580–1581 and 2416–2417). The size is an `int`: for
large orders and record sizes that `setOrder` accepts it is negative, and `new` throws.

Main result: `star_insertsWell_iff`, insertion is right in all well-formed trees exactly when the buffer
for two full children has less than 2^31 bytes.
-/

namespace BTreesMods

variable {κ : Type}

/-! ## A split that throws -/

section

variable {T : Cfg κ} {s : BTree κ} {R : Multiset ℕ} {ref : PageRef κ} {h p fuel : ℕ} {k x : κ}
  {c d : Node κ} {K1 K2 : List κ} {P S : List (Node κ)} {H : Prop} [Inhabited κ]

/-- `BaseBStarTree::splitChildren` of two full children whose keys do not fit into a buffer. -/
theorem BaseBStarTree.splitChildren_throws (hs : Stands s R ref (h + 1) ⟨p, K1 ++ x :: K2, P ++ ([c, d] ++ S)⟩)
    (hroom : (K1 ++ x :: K2).length < T.capacity (h + 1) ref) (hc : c.keys.length = T.maxKeys)
    (hd : d.keys.length = T.maxKeys) (hfit : ¬T.SplitBufferFits) (isShort : Bool) :
    BaseBStarTree.splitChildren T ref K1.length (s.wrapper c.page) (s.wrapper d.page) isShort s =
      .error .badArrayNewLength := by
  obtain ⟨-, hrc, hrd⟩ := hs.holds_pair
  obtain ⟨q, s1, halloc, -⟩ :=
    allocPage_run hs.store T.middleSplitProductKeys (s.wrapper c.page).data.isLeaf
  have hkeys : (s.wrapper c.page).data.keysNum + (s.wrapper d.page).data.keysNum + 1 =
      2 * T.maxKeys + 1 := by
    rw [show (s.wrapper c.page).data.keysNum = c.keys.length from hrc.on.keysNum_eq,
      show (s.wrapper d.page).data.keysNum = d.keys.length from hrd.on.keysNum_eq]
    omega
  have hnew := newKeys_throws (T := T) hfit s1
  unfold BaseBStarTree.splitChildren
  rw [bind_run (load_run s ref), hs.value_eq, bind_run (splitChildrenHead_run hs hroom),
    bind_run halloc, hkeys]
  exact bind_error hnew _

/-- `splitChildren` of two full children whose keys do not fit into a buffer: in a B*+-tree, of two inner
pages. -/
theorem splitChildren_throws (hs : Stands s R ref (h + 1) ⟨p, K1 ++ x :: K2, P ++ ([c, d] ++ S)⟩)
    (hroom : (K1 ++ x :: K2).length < T.capacity (h + 1) ref) (hc : c.keys.length = T.maxKeys)
    (hd : d.keys.length = T.maxKeys) (hfit : ¬T.SplitBufferFits)
    (hinner : T.treeType = .bStarPlusTree → h ≠ 0) (isShort : Bool) :
    splitChildren T ref K1.length (s.wrapper c.page) (s.wrapper d.page) isShort s =
      .error .badArrayNewLength := by
  have hthrows := BaseBStarTree.splitChildren_throws hs hroom hc hd hfit isShort
  by_cases hk : T.treeType = .bStarPlusTree
  · have hleaf : (s.wrapper c.page).data.isLeaf = false := by
      rw [show (s.wrapper c.page).data.isLeaf = (h == 0) from (hs.rep.2 c (by simp)).on.leaf_eq]
      simpa using hinner hk
    simp only [splitChildren, hk]
    unfold BaseBStarPlusTree.splitChildren
    rw [bind_run (load_run s ref), hs.value_eq, bind_run (splitChildrenHead_run hs hroom),
      if_pos (by simp [hleaf])]
    exact hthrows
  · have hother : splitChildren T = BaseBStarTree.splitChildren T := by
      unfold splitChildren
      cases hk' : T.treeType <;> simp_all
    rwa [hother]

/-- The insertion below the last of two full children, with a buffer that cannot be allocated. -/
theorem BaseBStarTree.insertBelow_throws (hk : T.treeType.isStar = true)
    (hp : PairReady T k H s R ref h p K1 x [] P c d []) (hc : c.keys.length = T.maxKeys)
    (hd : d.keys.length = T.maxKeys) (hroom : (K1 ++ [x]).length < T.capacity (h + 1) ref)
    (hfit : ¬T.SplitBufferFits) (hinner : T.treeType = .bStarPlusTree → h ≠ 0)
    (insertNonFull : PageRef κ → TreeM κ Unit) :
    BaseBStarTree.insertBelow T insertNonFull k ref (K1.length + 1) (s.wrapper d.page) s =
      .error .badArrayNewLength := by
  have hmaxOf := star_maxOf hk h
  have hleft : isFull T (s.wrapper c.page) s = .ok (true, s) := by
    rw [hp.full_left, hc, hmaxOf, beq_self_eq_true]
  have hright : isFull T (s.wrapper d.page) s = .ok (true, s) := by
    rw [hp.full_right, hd, hmaxOf, beq_self_eq_true]
  have hread := readPageFromChild_run (T := T) (w := s.wrapper p) (P := P) (c := c) (S := [d])
    hp.stands.store (kid_page_mem (by simp)) hp.stands.rep.on rfl hp.le_slots
  rw [hp.length_eq] at hread
  have htryLeft : BaseBStarTree.tryLeft T insertNonFull k ref (s.wrapper p) (K1.length + 1)
      (s.wrapper d.page) s = .ok ((s.wrapper c.page, false), s) := by
    unfold BaseBStarTree.tryLeft
    rw [if_pos (Nat.succ_pos _), Nat.add_sub_cancel, bind_run hread, bind_run hleft]
    rfl
  have htryRight : BaseBStarTree.tryRight T insertNonFull k ref (s.wrapper p) (K1.length + 1)
      (s.wrapper d.page) s = .ok ((s.wrapper d.page, false), s) := by
    unfold BaseBStarTree.tryRight
    rw [if_neg (by simp [hp.keysNum])]
    rfl
  have hsplit := BTreesMods.splitChildren_throws hp.stands hroom hc hd hfit hinner false
  unfold BaseBStarTree.insertBelow
  rw [bind_run (load_run s ref), hp.stands.value_eq, bind_run hright, if_pos rfl, bind_run htryLeft]
  simp only [Bool.false_eq_true, if_false]
  rw [bind_run htryRight]
  simp only [Bool.false_eq_true, if_false]
  rw [if_pos (Nat.succ_pos _), bind_run hleft, Nat.add_sub_cancel]
  unfold BaseBStarTree.insertBelowSplit
  exact bind_error hsplit _

/-- An insertion that goes below the second of two full children of the root. -/
theorem insert_throws (hT : T.Valid) (hk : T.treeType.isStar = true)
    (hs : Stands s R .rootPage (h + 1) ⟨p, [x], [c, d]⟩) (hsz : SizedBelow T (h + 1) [c, d])
    (hc : c.keys.length = T.maxKeys) (hd : d.keys.length = T.maxKeys) (hfit : ¬T.SplitBufferFits)
    (hinner : T.treeType = .bStarPlusTree → h ≠ 0) (hx : T.compare k x = false) :
    insert T k s = .error .badArrayNewLength := by
  have hroom : 1 < T.maxRootOf (h + 1) := two_le_maxRootOf hT (h + 1)
  have hfull : isFull T (PageRef.value s .rootPage) s = .ok (false, s) := by
    have := isFull_run (T := T) hs.toHeld
    rwa [show (⟨p, [x], [c, d]⟩ : Node κ).keys.length = 1 from rfl,
      beq_eq_false_iff_ne.mpr (Nat.ne_of_lt (show 1 < T.capacity (h + 1) .rootPage from hroom))] at this
  have hslots : [x].length ≤ T.slots :=
    (Nat.le_of_lt hroom).trans (capacity_le_slots hT (h + 1) (.rootPage : PageRef κ))
  have hon : (s.wrapper p).data.Holds false [x] ([c, d].map Node.page) := hs.rep.on
  have hkn : (s.wrapper p).data.keysNum ≤ T.slots := hon.keysNum_le hslots
  have hupper : (s.wrapper p).data.upperBound T.slots T.compare k (s.wrapper p).data.keysNum = .ok 1 := by
    have hkey : (s.wrapper p).data.getKey T.slots ([] : List κ).length = .ok x := hon.getKey hkn
    rw [List.length_nil] at hkey
    rw [hon.keysNum_eq, List.length_singleton, Page.upperBound, hkey, ok_bind, if_neg (by simp [hx])]
  have hread := readPageFromChild_run (T := T) (w := s.wrapper p) (P := [c]) (c := d) (S := []) hs.store
    (kid_page_mem (by simp)) hs.rep.on rfl hslots
  have hp : PairReady T k False s R .rootPage h p [] x [] [] c d [] := by
    refine ⟨hs, rfl, hsz, hslots, fun hH => hH.elim, fun hH => hH.elim⟩
  have hbelow := BaseBStarTree.insertBelow_throws hk hp hc hd hroom hfit hinner
    (insertNonFull T k s.lastPageNum)
  have hstar : insertBelow T = BaseBStarTree.insertBelow T := by
    unfold insertBelow
    cases hk' : T.treeType <;> simp_all [TreeType.isStar]
  unfold insert
  rw [bind_run (show (get : TreeM κ _) s = .ok (s, s) from rfl),
    bind_run (show isFull T s.rootPage s = .ok (false, s) from hfull)]
  change insertNonFull T k (s.lastPageNum + 1) .rootPage s = _
  unfold insertNonFull
  rw [bind_run (load_run s .rootPage), bind_run hfull, if_neg Bool.false_ne_true, hs.value_eq,
    if_neg (by simp [hon.leaf_eq]), bind_run (onPages_run hupper s)]
  refine (bind_run hread).trans ?_
  rw [hstar]
  exact hbelow

end

/-! ## Trees of full pages -/

section

variable [Inhabited κ]

/-- A full leaf of equal keys. -/
def fullLeaf (T : Cfg κ) (p : ℕ) : Node κ := ⟨p, List.replicate T.maxKeys default, []⟩

/-- The full page 2 or 3 of equal keys, a leaf or above full leaves. -/
def fullChild (T : Cfg κ) (inner : Bool) (p : ℕ) : Node κ :=
  ⟨p, List.replicate T.maxKeys default, if inner then
    (List.range' (4 + (p - 2) * (T.maxKeys + 1)) (T.maxKeys + 1)).map (fullLeaf T) else []⟩

/-- A tree of equal keys: one key in the root page 1, the pages 2 and 3 below it, which are full, and full
leaves below them if they are inner pages. -/
def fullTree (T : Cfg κ) (inner : Bool) : Node κ := ⟨1, [default], [fullChild T inner 2, fullChild T inner 3]⟩

/-- The pages of `fullTree`. -/
def fullPage (T : Cfg κ) (inner : Bool) (p : ℕ) : Page κ :=
  if p = 1 then ⟨1, false, fun _ => default, fun i => 2 + i⟩
  else ⟨T.maxKeys, !(inner && decide (p ≤ 3)), fun _ => default,
    fun i => 4 + (p - 2) * (T.maxKeys + 1) + i⟩

/-- The open tree `fullTree`. -/
def BTree.full (T : Cfg κ) (inner : Bool) (order recSize : UInt16) : BTree κ :=
  BTree.withPages order recSize (3 + if inner then 2 * (T.maxKeys + 1) else 0) (fullPage T inner)

variable {T : Cfg κ} {h : ℕ} {t : Node κ}

theorem slice_default (n : ℕ) : slice (fun _ => default) 0 n = List.replicate n (default : κ) := by
  simp [slice]

theorem slice_add_range (a n : ℕ) : slice (fun i => a + i) 0 n = List.range' a n := by
  simp [slice, List.range'_eq_map_range]

theorem fullPage_of_ne (inner : Bool) {p : ℕ} (hp : p ≠ 1) : fullPage T inner p =
    ⟨T.maxKeys, !(inner && decide (p ≤ 3)), fun _ => default,
      fun i => 4 + (p - 2) * (T.maxKeys + 1) + i⟩ :=
  if_neg hp

theorem fullLeaf_rep (inner : Bool) {p : ℕ} (hp : 4 ≤ p) : Rep (fullPage T inner) 0 (fullLeaf T p) := by
  have hpage := fullPage_of_ne (T := T) inner (by omega : p ≠ 1)
  refine ⟨?_, rfl⟩
  rw [show (fullLeaf T p).page = p from rfl, hpage]
  exact Page.holds_leaf_of (by simp [(by omega : 3 < p)]) (slice_default _)

theorem fullChild_rep (inner : Bool) {p : ℕ} (hp : p = 2 ∨ p = 3) :
    Rep (fullPage T inner) inner.toNat (fullChild T inner p) := by
  have hpage := fullPage_of_ne (T := T) inner (by omega : p ≠ 1)
  have hthree : p ≤ 3 := by omega
  cases inner with
  | false =>
    refine ⟨?_, rfl⟩
    rw [show (fullChild T false p).page = p from rfl, hpage]
    exact Page.holds_leaf_of rfl (slice_default _)
  | true =>
    refine ⟨?_, fun c hc => ?_⟩
    · rw [show (fullChild T true p).page = p from rfl, hpage]
      refine Page.holds_inner_of (by simp [hthree]) (slice_default _) ?_
      rw [slice_add_range, fullChild, if_pos rfl, List.map_map]
      exact (List.map_id'' (fun _ => rfl) _).symm
    · obtain ⟨q, hq, rfl⟩ := List.mem_map.mp hc
      rw [List.mem_range'_1] at hq
      exact fullLeaf_rep true (by omega)

theorem fullTree_rep (inner : Bool) : Rep (fullPage T inner) (inner.toNat + 1) (fullTree T inner) := by
  refine ⟨Page.holds_inner_of rfl rfl rfl, fun c hc => ?_⟩
  simp only [fullTree, List.mem_cons, List.not_mem_nil, or_false] at hc
  rcases hc with rfl | rfl
  · exact fullChild_rep inner (Or.inl rfl)
  · exact fullChild_rep inner (Or.inr rfl)

theorem fullLeaves_pages (l : List ℕ) : pagesBelow 1 (l.map (fullLeaf T)) = (l : Multiset ℕ) := by
  induction l with
  | nil => rfl
  | cons p l ih =>
    rw [List.map_cons, pagesBelow_cons, ih]
    rfl

theorem fullTree_pages (inner : Bool) : (fullTree T inner).pages (inner.toNat + 1) =
    (List.range' 1 (3 + if inner then 2 * (T.maxKeys + 1) else 0) : Multiset ℕ) := by
  cases inner with
  | false => rfl
  | true =>
    have hchild : ∀ p, (fullChild T true p).pages 1 =
        {p} + (List.range' (4 + (p - 2) * (T.maxKeys + 1)) (T.maxKeys + 1) : Multiset ℕ) := fun p => by
      rw [pages_eq]
      exact congrArg _ (fullLeaves_pages _)
    have hrange : List.range' 1 (3 + 2 * (T.maxKeys + 1)) = [1, 2, 3] ++
        (List.range' 4 (T.maxKeys + 1) ++ List.range' (4 + (T.maxKeys + 1)) (T.maxKeys + 1)) := by
      rw [List.range'_append_1, two_mul, ← List.range'_append_1 (s := 1) (m := 3)]
      rfl
    rw [pages_eq, if_pos rfl, hrange]
    change {1} + pagesBelow 2 [fullChild T true 2, fullChild T true 3] = _
    rw [pagesBelow_cons, pagesBelow_cons, pagesBelow_nil, hchild, hchild]
    simp only [Nat.sub_self, Nat.zero_mul, Nat.add_zero, Nat.one_mul, Nat.reduceSub]
    rw [← Multiset.coe_add, ← Multiset.coe_add, show (↑[1, 2, 3] : Multiset ℕ) = {1} + {2} + {3} from rfl]
    abel

/-! ## Trees of equal keys -/

/-- All keys of the tree are `x`. -/
def Node.Uniform (x : κ) : ℕ → Node κ → Prop
  | 0, t => ∀ y ∈ t.keys, y = x
  | h + 1, t => (∀ y ∈ t.keys, y = x) ∧ ∀ c ∈ t.kids, c.Uniform x h

namespace Node.Uniform

variable {x : κ}

omit [Inhabited κ] in
theorem key_eq (hu : t.Uniform x h) : ∀ y ∈ t.tokens T h, y.key = x := by
  induction h generalizing t with
  | zero =>
    intro y hy
    obtain ⟨z, hz, rfl⟩ := List.mem_map.mp hy
    exact hu z hz
  | succ h ih =>
    intro y hy
    rcases mem_or_mem_of_mem_weave hy with ⟨ts, hts, hy⟩ | hy
    · obtain ⟨c, hc, rfl⟩ := List.mem_map.mp hts
      exact ih (hu.2 c hc) y hy
    · obtain ⟨z, hz, rfl⟩ := List.mem_map.mp hy
      rw [key_sep]
      exact hu.1 z hz

omit [Inhabited κ] in
theorem sorted (hu : t.Uniform x h) (hlt : StrictWeak T.compare) : Sorted T.compare (t.tokens T h) := by
  refine List.pairwise_of_forall_mem_list fun y hy z hz => ?_
  rw [hu.key_eq y hy, hu.key_eq z hz]
  exact hlt.irrefl x

omit [Inhabited κ] in
theorem routersFit {page : ℕ → Page κ} (hu : t.Uniform x h) (hT : T.Valid) (hlt : StrictWeak T.compare)
    (hrep : Rep page h t) (hsz : SizedBelow T h t.kids) : t.RoutersFit T h := by
  induction h generalizing t with
  | zero => trivial
  | succ h ih =>
    refine ⟨fun i c d y hc hd hy => ?_, fun c hc =>
      ih (hu.2 c hc) (hrep.2 c hc) (sized_iff.mp (hsz c hc)).2⟩
    have hcmem := List.mem_of_getElem? hc
    have hcu := (hu.2 c hcmem).key_eq (T := T)
    have hdu := (hu.2 d (List.mem_of_getElem? hd)).key_eq (T := T)
    obtain rfl : y = x := hu.1 y (List.mem_of_getElem? hy)
    obtain ⟨⟨k, us, hk⟩, -⟩ := enclosed_tokens hT (hrep.2 c hcmem) (hsz c hcmem)
    have hkmem : Token.record k ∈ c.tokens T h := by
      rw [hk]
      exact List.mem_cons_self
    obtain rfl : k = y := hcu _ hkmem
    refine ⟨⟨k, mem_recordsOf.mpr hkmem, ⟨hlt.irrefl k, hlt.irrefl k⟩, fun z hz => ?_⟩, fun z hz => ?_⟩
    · rw [hcu z hz]
      exact hlt.irrefl k
    · rw [hdu z hz]
      exact hlt.irrefl k

end Node.Uniform

theorem fullChild_uniform (inner : Bool) (p : ℕ) : (fullChild T inner p).Uniform default inner.toNat := by
  cases inner with
  | false => exact fun y hy => List.eq_of_mem_replicate hy
  | true =>
    refine ⟨fun y hy => List.eq_of_mem_replicate hy, fun c hc => ?_⟩
    obtain ⟨q, -, rfl⟩ := List.mem_map.mp hc
    exact fun y hy => List.eq_of_mem_replicate hy

theorem fullTree_uniform (inner : Bool) : (fullTree T inner).Uniform default (inner.toNat + 1) := by
  refine ⟨fun y hy => List.mem_singleton.mp hy, fun c hc => ?_⟩
  rw [fullTree, List.mem_pair] at hc
  rcases hc with rfl | rfl
  · exact fullChild_uniform inner 2
  · exact fullChild_uniform inner 3

/-- A full page of a star tree is of the right size. -/
theorem fullChild_sized (hT : T.Valid) (hk : T.treeType.isStar = true) (inner : Bool) (p : ℕ) :
    (fullChild T inner p).Sized T inner.toNat := by
  obtain ⟨-, -, hmin, -⟩ := star_numbers hT hk
  have hbounds : ∀ h, T.minOf h ≤ (List.replicate T.maxKeys (default : κ)).length ∧
      (List.replicate T.maxKeys (default : κ)).length ≤ T.maxOf h := fun h => by
    rw [star_minOf hk, star_maxOf hk, List.length_replicate]
    omega
  cases inner with
  | false => exact hbounds 0
  | true =>
    refine ⟨hbounds 1, fun c hc => ?_⟩
    obtain ⟨q, -, rfl⟩ := List.mem_map.mp hc
    exact hbounds 0

/-- The tree of full pages is well formed. -/
theorem full_wellFormed (hT : T.Valid) (hk : T.treeType.isStar = true) (hlt : StrictWeak T.compare)
    (inner : Bool) (order recSize : UInt16) :
    WellFormed T (BTree.full T inner order recSize) (inner.toNat + 1) (fullTree T inner) := by
  have hsz : ∀ c ∈ (fullTree T inner).kids, c.Sized T inner.toNat := fun c hc => by
    rw [fullTree, List.mem_pair] at hc
    rcases hc with rfl | rfl
    · exact fullChild_sized hT hk inner 2
    · exact fullChild_sized hT hk inner 3
  refine withPages_wellFormed rfl (fullTree_rep inner) (fullTree_pages inner) ⟨Nat.le_refl 1, ?_⟩ hsz
    ((fullTree_uniform inner).sorted hlt) fun _ =>
      (fullTree_uniform inner).routersFit hT hlt (fullTree_rep inner) hsz
  exact (Nat.le_of_lt (two_le_maxRootOf hT _))

/-- The insertion of another equal key throws. -/
theorem full_insert (hT : T.Valid) (hk : T.treeType.isStar = true) (hlt : StrictWeak T.compare)
    (hfit : ¬T.SplitBufferFits) (inner : Bool) (hinner : T.treeType = .bStarPlusTree → inner = true)
    (order recSize : UInt16) :
    insert T default (BTree.full T inner order recSize) = .error .badArrayNewLength := by
  have hw := full_wellFormed hT hk hlt inner order recSize
  obtain ⟨R, hs⟩ := hw.stands
  refine insert_throws hT hk hs hw.sized.below (List.length_replicate ..) (List.length_replicate ..) hfit
    (fun hplus => ?_) (hlt.irrefl default)
  rw [hinner hplus]
  exact Nat.one_ne_zero

/-! ## The sizes for which insertion is right -/

/-- Insertion into well-formed B*-trees and B*+-trees throws nothing, adds one record and leaves the tree well
formed, in all of them exactly when the buffer for two full children can be allocated. It never descends to a
full page: `insertNonFull` throws on a full one. -/
theorem star_insertsWell_iff (hT : T.Valid) (hk : T.treeType.isStar = true) (hlt : StrictWeak T.compare) :
    (InsertsWell T ↔ T.SplitBufferFits) ∧
      ∀ s k ref, isFull T (PageRef.value s ref) s = .ok (true, s) → ∀ fuel,
        insertNonFull T k (fuel + 1) ref s = .error (.domainError "Node is full. Can't insert") := by
  refine ⟨⟨fun hwell => ?_, fun hfit => star_insertsWell hT hk hfit hlt⟩, fun s k ref hfull =>
    insertNonFull_full hfull⟩
  by_contra hfit
  obtain ⟨order, recSize, -⟩ := id hT
  have hthrows := full_insert hT hk hlt hfit true (fun _ => rfl) order recSize
  exact Returns.not_of_error hthrows
    (hwell _ _ _ default (full_wellFormed hT hk hlt true order recSize))

end

/-- A B*-tree of order 4 with two full leaves that hold the key of the root page too. -/
def BTree.fullLeaves : BTree ℕ := .ofPages 4 3 fun p =>
  if p = 1 then .filled [5] [2, 3] else if p = 2 then .filled [1, 3, 5, 5] [] else .filled [5, 6, 7, 8] []

/-- Another 5 goes into it: the two leaves are split into three. -/
theorem star_insertsWell_fullLeaves :
    Returns (insert (natCfg .bStarTree 4) 5) BTree.fullLeaves fun _ s' => ∃ h' t',
      WellFormed (natCfg .bStarTree 4) s' h' t' ∧
        (t'.records (natCfg .bStarTree 4) h' : Multiset ℕ) = 5 ::ₘ {1, 3, 5, 5, 5, 5, 6, 7, 8} ∧ h' = 1 := by
  have hw : WellFormed (natCfg .bStarTree 4) BTree.fullLeaves 1
      ⟨1, [5], [⟨2, [1, 3, 5, 5], []⟩, ⟨3, [5, 6, 7, 8], []⟩]⟩ :=
    ofPages_wellFormed rfl rfl (by decide) (by decide) (by decide) (by decide) (by
      unfold Sorted
      decide)
  exact (star_insertsWell_iff (T := natCfg .bStarTree 4) ⟨4, 4, rfl⟩ rfl (natCfg_strictWeak _ _)).1.mpr
    (by decide) _ _ _ 5 hw

/-- A B*-tree of order 16385 with keys of 65531 bytes: `setOrder` takes both numbers. -/
def largeCfg : Cfg ℕ where
  toParams := (setOrder .bStarTree 16385 65531).toOption.getD default
  compare := fun a b => decide (a < b)
  isEqual := fun a b => a == b
  treeType := .bStarTree

/-- With two full leaves below the root it takes less than 4 GiB, and is well formed; an insertion throws. -/
theorem insert_throws_largeCfg :
    setOrder .bStarTree 16385 65531 = .ok largeCfg.toParams ∧ 20 + 3 * largeCfg.nodePageSize < 2 ^ 32 ∧
      WellFormed largeCfg (BTree.full largeCfg false 16385 65531) 1 (fullTree largeCfg false) ∧
      insert largeCfg 0 (BTree.full largeCfg false 16385 65531) = .error .badArrayNewLength ∧
      ¬InsertsWell largeCfg := by
  have hset : setOrder .bStarTree 16385 65531 = .ok largeCfg.toParams := rfl
  have hT : largeCfg.Valid := ⟨16385, 65531, hset⟩
  have hlt : StrictWeak largeCfg.compare := natCfg_strictWeak .bStarTree 4
  have hw := full_wellFormed hT rfl hlt false 16385 65531
  have hthrows := full_insert hT rfl hlt (by decide) false (fun hplus => by cases hplus) 16385 65531
  exact ⟨hset, by decide, hw, hthrows, fun hwell => Returns.not_of_error hthrows (hwell _ _ _ 0 hw)⟩

end BTreesMods

import BTreesMods.Tree.Node
import BTreesMods.Lib.Program

/-!
# The storage of a tree

`Store s Q`: the pages `Q` are in use, and they and the free pages are all the pages of the stream.
`Frame s s' R`: a step from `s` to `s'` leaves the pages `R` alone. `At s ref p R`: `ref` is a
wrapper of page `p`, and it is the member `_rootPage` exactly for the root page, which is otherwise
one of the pages `R`.

Main results: what `readPage`, `writePage`, `allocPage` and `markPageFree` do to a `Store`.
-/

namespace BTreesMods

variable {κ : Type}

/-! ## Invariants -/

/-- The pages in use are `Q`; the others are in the free list. -/
structure Store (s : BTree κ) (Q : Multiset ℕ) : Prop where
  all_pages : Q + (s.stream.freePages : Multiset ℕ) = (List.range' 1 s.lastPageNum : Multiset ℕ)
  counter : s.freePagesCounter = s.stream.freePages.length

/-- The counters in the stream are those in memory. -/
structure BTree.Stored (s : BTree κ) : Prop where
  pageCounter : s.stream.pageCounter = s.lastPageNum
  rootPageNum : s.stream.rootPageNum = s.rootPageNum
  freePagesCounter : s.stream.freePagesCounter = s.freePagesCounter

/-- The root page number and the header are the same after a step, and the counters in the stream
are as good as before. -/
structure Same (s s' : BTree κ) : Prop where
  rootPageNum_eq : s'.rootPageNum = s.rootPageNum
  order_eq : s'.stream.order = s.stream.order
  recSize_eq : s'.stream.recSize = s.stream.recSize
  stored : s.Stored → s'.Stored

/-- What every operation keeps, also when it changes the root page number. -/
structure Kept (s s' : BTree κ) : Prop where
  order_eq : s'.stream.order = s.stream.order
  recSize_eq : s'.stream.recSize = s.stream.recSize
  stored : s.Stored → s'.Stored

/-- Moreover the pages `R` are the same after a step, and so is the wrapper of the root page if it
is one of them. -/
structure Frame (s s' : BTree κ) (R : Multiset ℕ) : Prop extends Same s s' where
  page_eq : ∀ p ∈ R, s'.stream.page p = s.stream.page p
  rootPage_eq : s.rootPageNum ∈ R → s'.rootPage = s.rootPage

/-- The wrapper that a reference refers to in a state. -/
def PageRef.value (s : BTree κ) : PageRef κ → PageWrapper κ
  | .rootPage => s.rootPage
  | .local pw => pw

/-- The wrapper with the stored bytes of a page. -/
def BTree.wrapper (s : BTree κ) (p : ℕ) : PageWrapper κ := ⟨p, s.stream.page p⟩

/-- The reference is to a wrapper of page `p`, which is the root page if the reference is to the
member `_rootPage`; else the root page is one of the pages `R`. -/
structure At (s : BTree κ) (ref : PageRef κ) (p : ℕ) (R : Multiset ℕ) : Prop where
  pageNum_eq : (ref.value s).pageNum = p
  root : match ref with
    | .rootPage => s.rootPageNum = p
    | .local _ => s.rootPageNum ∈ R

section

variable {s s' s'' : BTree κ} {Q R : Multiset ℕ} {p q : ℕ} {ref : PageRef κ}

theorem Store.nodup (h : Store s Q) : Q.Nodup := by
  have hall : (Q + (s.stream.freePages : Multiset ℕ)).Nodup := by
    rw [h.all_pages, Multiset.coe_nodup]
    exact List.nodup_range'
  exact (Multiset.nodup_add.mp hall).1

/-- The pages in use are those that are not free. -/
theorem Store.unique {Q' : Multiset ℕ} (h : Store s Q) (h' : Store s Q') : Q = Q' :=
  add_right_cancel (h.all_pages.trans h'.all_pages.symm)

theorem Store.mem_range (h : Store s Q) (hp : p ∈ Q) : 1 ≤ p ∧ p ≤ s.lastPageNum := by
  have hmem : p ∈ (List.range' 1 s.lastPageNum : Multiset ℕ) := by
    rw [← h.all_pages]
    exact Multiset.mem_add.mpr (Or.inl hp)
  rw [Multiset.mem_coe, List.mem_range'_1] at hmem
  omega

/-- The recursion goes through as many levels as there are pages at most. -/
theorem Store.height_lt {h : ℕ} {t : Node κ} {pg : Page κ} (hst : Store s (t.pages h + R))
    (hon : t.On h pg) (hb : RepBelow s.stream.page h t.kids) : h < s.lastPageNum + 1 := by
  have hall := congrArg Multiset.card hst.all_pages
  rw [Multiset.card_add, Multiset.card_add, Multiset.coe_card (List.range' _ _ _),
    List.length_range'] at hall
  have := height_lt_card hon hb
  omega

/-- Pages of two parts of a store are different. -/
theorem Store.ne {A B : Multiset ℕ} (h : Store s Q) (hQ : Q = A + B) (hp : p ∈ A) (hq : q ∈ B) :
    p ≠ q := by
  have hnd := h.nodup
  rw [hQ] at hnd
  exact Multiset.disjoint_left.mp (Multiset.nodup_add.mp hnd).2.2 hp |> fun hn heq => hn (heq ▸ hq)

theorem Same.trans (h : Same s s') (h' : Same s' s'') : Same s s'' where
  rootPageNum_eq := h'.rootPageNum_eq.trans h.rootPageNum_eq
  order_eq := h'.order_eq.trans h.order_eq
  recSize_eq := h'.recSize_eq.trans h.recSize_eq
  stored hs := h'.stored (h.stored hs)

theorem Same.kept (h : Same s s') : Kept s s' := ⟨h.order_eq, h.recSize_eq, h.stored⟩

theorem Kept.trans (h : Kept s s') (h' : Kept s' s'') : Kept s s'' where
  order_eq := h'.order_eq.trans h.order_eq
  recSize_eq := h'.recSize_eq.trans h.recSize_eq
  stored hs := h'.stored (h.stored hs)

theorem Frame.refl (s : BTree κ) (R : Multiset ℕ) : Frame s s R :=
  ⟨⟨rfl, rfl, rfl, id⟩, fun _ _ => rfl, fun _ => rfl⟩

theorem Frame.mono {R' : Multiset ℕ} (h : Frame s s' R) (hR : ∀ p ∈ R', p ∈ R) : Frame s s' R' :=
  ⟨h.toSame, fun p hp => h.page_eq p (hR p hp), fun hr => h.rootPage_eq (hR _ hr)⟩

theorem Frame.trans (h : Frame s s' R) (h' : Frame s' s'' R) : Frame s s'' R where
  toSame := h.toSame.trans h'.toSame
  page_eq p hp := (h'.page_eq p hp).trans (h.page_eq p hp)
  rootPage_eq hr := (h'.rootPage_eq (by rwa [h.rootPageNum_eq])).trans (h.rootPage_eq hr)

theorem Frame.rep {h : ℕ} {t : Node κ} (hf : Frame s s' R) (ht : ∀ p ∈ t.pages h, p ∈ R)
    (hr : Rep s.stream.page h t) : Rep s'.stream.page h t :=
  hr.congr fun p hp => hf.page_eq p (ht p hp)

theorem Frame.wrapper (hf : Frame s s' R) (hp : p ∈ R) : s'.wrapper p = s.wrapper p := by
  rw [BTree.wrapper, hf.page_eq p hp]
  rfl

/-- A wrapper stays as it is when its page and the pages `R` are left alone. -/
theorem At.value_frame (ha : At s ref p R) (hf : Frame s s' ({p} + R)) :
    ref.value s' = ref.value s := by
  cases ref with
  | rootPage =>
    have hroot : s.rootPageNum = p := ha.root
    exact hf.rootPage_eq (by rw [hroot]; simp)
  | «local» pw => rfl

theorem At.frame (ha : At s ref p R) (hf : Frame s s' ({p} + R)) : At s' ref p R := by
  refine ⟨by rw [ha.value_frame hf]; exact ha.pageNum_eq, ?_⟩
  cases ref with
  | rootPage => exact hf.rootPageNum_eq.trans ha.root
  | «local» pw =>
    show s'.rootPageNum ∈ R
    rw [hf.rootPageNum_eq]
    exact ha.root

/-! ## References -/

theorem load_run (s : BTree κ) (ref : PageRef κ) : ref.load s = .ok (ref.value s, s) := by
  cases ref with
  | rootPage => rfl
  | «local» pw => rfl

/-- The reference after an assignment. -/
def PageRef.assign : PageRef κ → PageWrapper κ → PageRef κ
  | .rootPage, _ => .rootPage
  | .local _, pw => .local pw

/-- The state after an assignment to a reference. -/
def BTree.assign (s : BTree κ) : PageRef κ → PageWrapper κ → BTree κ
  | .rootPage, pw => { s with rootPage := pw }
  | .local _, _ => s

theorem store_run (s : BTree κ) (ref : PageRef κ) (pw : PageWrapper κ) :
    ref.store pw s = .ok (ref.assign pw, s.assign ref pw) := by
  cases ref with
  | rootPage => rfl
  | «local» pw' => rfl

@[simp] theorem assign_stream (s : BTree κ) (ref : PageRef κ) (pw : PageWrapper κ) :
    (s.assign ref pw).stream = s.stream := by
  cases ref with
  | rootPage => rfl
  | «local» pw' => rfl

@[simp] theorem assign_rootPageNum (s : BTree κ) (ref : PageRef κ) (pw : PageWrapper κ) :
    (s.assign ref pw).rootPageNum = s.rootPageNum := by
  cases ref with
  | rootPage => rfl
  | «local» pw' => rfl

@[simp] theorem assign_lastPageNum (s : BTree κ) (ref : PageRef κ) (pw : PageWrapper κ) :
    (s.assign ref pw).lastPageNum = s.lastPageNum := by
  cases ref with
  | rootPage => rfl
  | «local» pw' => rfl

@[simp] theorem assign_freePagesCounter (s : BTree κ) (ref : PageRef κ) (pw : PageWrapper κ) :
    (s.assign ref pw).freePagesCounter = s.freePagesCounter := by
  cases ref with
  | rootPage => rfl
  | «local» pw' => rfl

theorem Store.assign (h : Store s Q) (ref : PageRef κ) (pw : PageWrapper κ) :
    Store (s.assign ref pw) Q :=
  ⟨by simpa using h.all_pages, by simpa using h.counter⟩

theorem same_assign (s : BTree κ) (ref : PageRef κ) (pw : PageWrapper κ) :
    Same s (s.assign ref pw) :=
  ⟨by simp, by simp, by simp, fun hs => ⟨by simpa using hs.pageCounter, by simpa using hs.rootPageNum,
    by simpa using hs.freePagesCounter⟩⟩

/-- Assigning to a reference to a page outside `R` leaves the wrapper of a root page in `R` alone. -/
theorem At.assign_rootPage (ha : At s ref p R) (hp : p ∉ R) (pw : PageWrapper κ)
    (hr : s.rootPageNum ∈ R) : (s.assign ref pw).rootPage = s.rootPage := by
  cases ref with
  | rootPage =>
    have hroot : s.rootPageNum = p := ha.root
    exact absurd (hroot ▸ hr) hp
  | «local» pw' => rfl

/-- A reference after an assignment. -/
theorem value_assign {pw : PageWrapper κ} (hroot : s'.rootPage = (s.assign ref pw).rootPage) :
    (ref.assign pw).value s' = pw := by
  cases ref with
  | rootPage => exact hroot
  | «local» pw' => rfl

theorem At.assign {d : Page κ} (ha : At s ref p R)
    (hroot : s'.rootPage = (s.assign ref ⟨p, d⟩).rootPage) (hnum : s'.rootPageNum = s.rootPageNum) :
    At s' (ref.assign ⟨p, d⟩) p R := by
  refine ⟨by rw [value_assign hroot], ?_⟩
  cases ref with
  | rootPage => exact hnum.trans ha.root
  | «local» pw =>
    show s'.rootPageNum ∈ R
    rw [hnum]
    exact ha.root

theorem onPages_run {α : Type} {x : Except Err α} {a : α} (hx : x = .ok a) (s : BTree κ) :
    onPages x s = .ok (a, s) := by
  rw [hx]
  rfl

/-! ## Reading and writing pages -/

theorem readPage_run (h : Store s Q) (hp : p ∈ Q) : readPage p s = .ok (s.wrapper p, s) := by
  have hr := h.mem_range hp
  change (if p = 0 ∨ p > s.lastPageNum then _ else _ : TreeM κ (PageWrapper κ)) s = _
  rw [if_neg (by omega)]
  rfl

/-- The state after writing a page. -/
def BTree.write (s : BTree κ) (p : ℕ) (d : Page κ) : BTree κ :=
  { s with stream := s.stream.setPage p d }

theorem writePage_run (h : Store s Q) (hp : p ∈ Q) (d : Page κ) :
    writePage ⟨p, d⟩ s = .ok ((), s.write p d) := by
  have hr := h.mem_range hp
  change (if p = 0 then _ else if p > s.lastPageNum then _ else _ : TreeM κ Unit) s = _
  rw [if_neg (by omega), if_neg (by omega)]
  rfl

@[simp] theorem write_page (s : BTree κ) (p : ℕ) (d : Page κ) :
    (s.write p d).stream.page = Function.update s.stream.page p d := rfl

@[simp] theorem write_rootPage (s : BTree κ) (p : ℕ) (d : Page κ) :
    (s.write p d).rootPage = s.rootPage := rfl

@[simp] theorem write_rootPageNum (s : BTree κ) (p : ℕ) (d : Page κ) :
    (s.write p d).rootPageNum = s.rootPageNum := rfl

theorem Store.write (h : Store s Q) (p : ℕ) (d : Page κ) : Store (s.write p d) Q :=
  ⟨h.all_pages, h.counter⟩

theorem same_write (s : BTree κ) (p : ℕ) (d : Page κ) : Same s (s.write p d) :=
  ⟨rfl, rfl, rfl, fun hs => ⟨hs.pageCounter, hs.rootPageNum, hs.freePagesCounter⟩⟩

theorem isRoot_run (s : BTree κ) (pw : PageWrapper κ) :
    isRoot pw s = .ok (s.rootPageNum == pw.pageNum, s) :=
  rfl

/-- Reading child `P.length` of a node. -/
theorem readPageFromChild_run {T : Cfg κ} {h : ℕ} {t c : Node κ} {P S : List (Node κ)}
    {w : PageWrapper κ} (hst : Store s Q) (hc : c.page ∈ Q) (hon : t.On (h + 1) w.data)
    (hkids : t.kids = P ++ c :: S) (hs : t.keys.length ≤ T.slots) :
    readPageFromChild T w P.length s = .ok (s.wrapper c.page, s) := by
  have hcur : w.data.getCursor T.slots P.length = .ok c.page := by
    have hon' : w.data.Holds false t.keys (P.map Node.page ++ c.page :: S.map Node.page) := by
      have := hon
      rw [Node.On, hkids, List.map_append, List.map_cons] at this
      exact this
    have hget : w.data.getCursor T.slots (P.map Node.page).length = .ok c.page :=
      hon'.getCursor (hon'.keysNum_le hs)
    rwa [List.length_map] at hget
  have hr := hst.mem_range hc
  change (onPages (w.data.getCursor T.slots P.length) >>= fun cur => _ : TreeM κ _) s = _
  rw [hcur]
  change (if c.page = 0 then _ else readPage c.page : TreeM κ _) s = _
  rw [if_neg (by omega)]
  exact readPage_run hst hc

/-! ## Allocating and freeing pages -/

/-- `allocPage` returns a page that is not in use. -/
theorem allocPage_run [Inhabited κ] (h : Store s Q) (keysNum : ℕ) (isLeaf : Bool) :
    ∃ q s', allocPage keysNum isLeaf s = .ok (⟨q, Page.cleared keysNum isLeaf⟩, s') ∧ q ∉ Q ∧
      Store s' ({q} + Q) ∧ Frame s s' Q ∧ s'.rootPage = s.rootPage ∧
      s'.stream.page q = Page.cleared keysNum isLeaf := by
  by_cases hzero : s.freePagesCounter = 0
  · -- no free page: a new last page
    have hfree : s.stream.freePages = [] := List.length_eq_zero_iff.mp (by rw [← h.counter, hzero])
    have hq : s.lastPageNum + 1 ∉ Q := fun hmem => by
      have := h.mem_range hmem
      omega
    have hrun : allocPage keysNum isLeaf s = .ok (⟨s.lastPageNum + 1, Page.cleared keysNum isLeaf⟩,
        { s with
          lastPageNum := s.lastPageNum + 1
          stream := { s.stream.setPage (s.lastPageNum + 1) (Page.cleared keysNum isLeaf) with
            pageCounter := s.lastPageNum + 1
            freePagesCounter := s.freePagesCounter } }) := by
      change (if s.freePagesCounter = 0 then _ else _ : TreeM κ _) s = _
      rw [if_pos hzero]
      rfl
    refine ⟨_, _, hrun, hq, ⟨?_, h.counter⟩, ?_, rfl, Function.update_self _ _ _⟩
    · have hall := h.all_pages
      simp only [Stream.setPage]
      rw [hfree, Multiset.coe_nil, add_zero] at hall ⊢
      rw [hall, List.range'_concat, add_comm, ← Multiset.coe_singleton, Multiset.coe_add,
        Nat.one_mul, Nat.add_comm 1]
    · refine ⟨⟨rfl, rfl, rfl, fun hs => ⟨rfl, hs.rootPageNum, rfl⟩⟩,
        fun p hp => Function.update_of_ne ?_ _ _, fun _ => rfl⟩
      rintro rfl
      exact hq hp
  · -- the free page on top of the stack
    obtain ⟨q, rest, hfree⟩ : ∃ q rest, s.stream.freePages = q :: rest := by
      cases hl : s.stream.freePages with
      | nil => exact absurd (by rw [h.counter, hl]; rfl) hzero
      | cons q rest => exact ⟨q, rest, rfl⟩
    have hall : Q + ({q} + (rest : Multiset ℕ)) = (List.range' 1 s.lastPageNum : Multiset ℕ) := by
      rw [← h.all_pages, hfree, Multiset.singleton_add, Multiset.cons_coe]
    have hq : q ∉ Q := fun hmem => by
      have hnd : (Q + ({q} + (rest : Multiset ℕ))).Nodup := by
        rw [hall, Multiset.coe_nodup]
        exact List.nodup_range'
      exact Multiset.disjoint_left.mp (Multiset.nodup_add.mp hnd).2.2 hmem (by simp)
    have hrun : allocPage keysNum isLeaf s = .ok (⟨q, Page.cleared keysNum isLeaf⟩,
        { s with
          freePagesCounter := s.freePagesCounter - 1
          stream := { s.stream.setPage q (Page.cleared keysNum isLeaf) with
            freePages := rest
            freePagesCounter := s.freePagesCounter - 1 } }) := by
      change (if s.freePagesCounter = 0 then _ else _ : TreeM κ _) s = _
      rw [if_neg hzero]
      dsimp only
      rw [hfree]
      rfl
    refine ⟨_, _, hrun, hq, ⟨?_, ?_⟩, ?_, rfl, Function.update_self _ _ _⟩
    · rw [← hall]
      dsimp only
      abel
    · dsimp only
      rw [h.counter, hfree]
      simp
    · refine ⟨⟨rfl, rfl, rfl, fun hs => ⟨hs.pageCounter, hs.rootPageNum, rfl⟩⟩,
        fun p hp => Function.update_of_ne ?_ _ _, fun _ => rfl⟩
      rintro rfl
      exact hq hp

/-- `markPageFree` takes a page out of use. -/
theorem markPageFree_run (h : Store s ({q} + Q)) :
    ∃ s', markPageFree q s = .ok ((), s') ∧ Store s' Q ∧ Frame s s' ({q} + Q) ∧
      s'.rootPage = s.rootPage ∧ s'.stream.page = s.stream.page := by
  have hmem : q ∈ {q} + Q := by simp
  have hr := h.mem_range hmem
  have hrun : markPageFree q s = .ok ((), { s with
      freePagesCounter := s.freePagesCounter + 1
      stream := { s.stream with
        freePages := q :: s.stream.freePages
        freePagesCounter := s.freePagesCounter + 1 } }) := by
    change (if q > s.lastPageNum then _ else _ : TreeM κ _) s = _
    rw [if_neg (by omega)]
    rfl
  refine ⟨_, hrun, ⟨?_, ?_⟩, ⟨⟨rfl, rfl, rfl, fun hs => ⟨hs.pageCounter, hs.rootPageNum, rfl⟩⟩,
    fun _ _ => rfl, fun _ => rfl⟩, rfl, rfl⟩
  · rw [← h.all_pages, ← Multiset.cons_coe, ← Multiset.singleton_add]
    abel
  · simp only
    rw [h.counter]
    rfl

/-! ## The root page number -/

/-- The state with another root page number, in memory and in the stream. -/
def BTree.withRoot (s : BTree κ) (q : ℕ) : BTree κ :=
  { s with rootPageNum := q, stream := { s.stream with rootPageNum := q } }

theorem setAsRoot_run (s : BTree κ) {pw : PageWrapper κ} (h : pw.pageNum ≠ 0) :
    setAsRoot pw s = .ok ((), s.withRoot pw.pageNum) := by
  change (if pw.pageNum = 0 then _ else _ : TreeM κ Unit) _ = _
  rw [if_neg h]
  rfl

theorem kept_withRoot (s : BTree κ) (q : ℕ) : Kept s (s.withRoot q) :=
  ⟨rfl, rfl, fun hs => ⟨hs.pageCounter, rfl, hs.freePagesCounter⟩⟩

end

end BTreesMods

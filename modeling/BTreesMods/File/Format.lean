import BTreesMods.File.StoredTree

/-!
# The format of the file

`BTree.fileBytes` are the bytes of the file of a tree: the header, the page counter and the root page
number, the pages, the counter of the free pages and their numbers, the last one marked last
(`btree.h`, lines 54–112).

* `storageCalls_bytes`: any sequence of storage calls on a new tree, as long as the file stays below
  4 GiB, does on the bytes of the file what it does on the tree, leaves the bytes of the tree that is left,
  and opening the file gives that tree.
* `fileBytes_opens`: opening a file that begins with the bytes of a tree gives the tree.
-/

namespace BTreesMods

open StreamTree

section

variable {p : Params}

/-! ## The bytes -/

/-- The header and the two numbers behind it. -/
def BTree.headBytes {κ : Type} (s : BTree κ) : List UInt8 :=
  leBytes 4 VALID_SIGN ++ leBytes 2 s.stream.order.toNat ++ leBytes 2 s.stream.recSize.toNat ++
    leBytes 4 s.lastPageNum ++ leBytes 4 s.rootPageNum

/-- The counter of the free pages and their numbers. -/
def BTree.freeListBytes {κ : Type} (s : BTree κ) : List UInt8 :=
  leBytes 4 s.stream.freePages.length ++ cursorCodec.words s.stream.freePages.reverse

/-- The bytes of the file. -/
def BTree.fileBytes (p : Params) (s : BTree (Record p.recSize)) : List UInt8 :=
  s.headBytes ++ ((slice s.stream.page 1 s.lastPageNum).flatMap (Page.bytes p) ++ s.freeListBytes)

/-! ## Where they stand -/

theorem FileStream.bytesAt_openExisting {content : List UInt8} {o n : ℕ} (h : o + n ≤ content.length) :
    (FileStream.openExisting content).bytesAt o n = peek content o n := by
  apply List.ext_getElem
  · rw [FileStream.length_bytesAt, length_peek h]
  · intro i hi hi'
    have hin : o + i < content.length := by
      rw [FileStream.length_bytesAt] at hi
      omega
    simp only [FileStream.bytesAt, List.getElem_map, List.getElem_range, peek, List.getElem_take,
      List.getElem_drop]
    exact List.getD_eq_getElem _ _ hin

theorem FileStream.content_openExisting (content : List UInt8) :
    (FileStream.openExisting content).content = content := by
  have hin : 0 + content.length ≤ content.length := by omega
  exact (FileStream.bytesAt_openExisting hin).trans (peek_all content)

variable (s : BTree (Record p.recSize))

@[simp]
theorem length_headBytes {κ : Type} (s : BTree κ) : s.headBytes.length = 16 := by
  simp [BTree.headBytes]

theorem peek_headBytes {o n : ℕ} (h : o + n ≤ 16) (rest : List UInt8) :
    peek (s.fileBytes p ++ rest) o n = peek s.headBytes o n := by
  rw [BTree.fileBytes, List.append_assoc, peek_append_left (by rw [length_headBytes]; exact h)]

theorem peek_header : peek s.headBytes 0 8 =
    leBytes 4 VALID_SIGN ++ leBytes 2 s.stream.order.toNat ++ leBytes 2 s.stream.recSize.toNat := by
  rw [BTree.headBytes, peek_append_left (by simp), peek_append_left (by simp)]
  exact peek_all _

theorem peek_pageCounter : peek s.headBytes 8 4 = leBytes 4 s.lastPageNum := by
  rw [BTree.headBytes, peek_append_left (by simp)]
  exact (peek_append_right _ _ 0 4).trans (peek_all _)

theorem peek_rootPageNum : peek s.headBytes 12 4 = leBytes 4 s.rootPageNum :=
  (peek_append_right _ _ 0 4).trans (peek_all _)

section

variable {treeType : TreeType} {order recSize : ℕ} (hsz : p.Sizes treeType order recSize)

/-- Pages, one behind the other. -/
def pageCodec : WordCodec (Page (Record p.recSize)) UInt8 :=
  ⟨p.nodePageSize, Page.bytes p, fun _ => length_bytes hsz⟩

include hsz

theorem length_pages : ((slice s.stream.page 1 s.lastPageNum).flatMap (Page.bytes p)).length =
    p.nodePageSize * s.lastPageNum := by
  have := (pageCodec hsz).length_words (slice s.stream.page 1 s.lastPageNum)
  rwa [length_slice] at this

theorem peek_page {n : ℕ} (h0 : n ≠ 0) (hn : n ≤ s.lastPageNum) (rest : List UInt8) :
    peek (s.fileBytes p ++ rest) (16 + (n - 1) * p.nodePageSize) p.nodePageSize =
      (s.stream.page n).bytes p := by
  have hmul : (n - 1) * p.nodePageSize + p.nodePageSize ≤ p.nodePageSize * s.lastPageNum := by
    rw [← Nat.succ_mul, Nat.mul_comm]
    exact Nat.mul_le_mul_left _ (by omega)
  have hwords := (pageCodec hsz).peek_words (slice (fun j => s.stream.page (1 + j)) 0 s.lastPageNum) (n - 1) 1
  rw [peek_slice _ (by omega), slice_one, WordCodec.words_singleton, slice_add_left, Nat.mul_one,
    Nat.mul_comm, show 1 + (n - 1) = n by omega] at hwords
  have hright := peek_append_right s.headBytes
    ((slice s.stream.page 1 s.lastPageNum).flatMap (Page.bytes p) ++ (s.freeListBytes ++ rest))
    ((n - 1) * p.nodePageSize) p.nodePageSize
  rw [length_headBytes] at hright
  rw [BTree.fileBytes, List.append_assoc, List.append_assoc, hright,
    peek_append_left (by rw [length_pages s hsz]; exact hmul)]
  exact hwords

/-- What stands behind the pages. -/
theorem peek_freeList (o n : ℕ) (h : o + n ≤ s.freeListBytes.length) (rest : List UInt8) :
    peek (s.fileBytes p ++ rest) (16 + p.nodePageSize * s.lastPageNum + o) n = peek s.freeListBytes o n := by
  have hright := peek_append_right
    (s.headBytes ++ (slice s.stream.page 1 s.lastPageNum).flatMap (Page.bytes p))
    (s.freeListBytes ++ rest) o n
  rw [List.length_append, length_headBytes, length_pages s hsz] at hright
  rw [BTree.fileBytes, ← List.append_assoc, List.append_assoc _ s.freeListBytes, hright, peek_append_left h]

end

theorem length_freeListBytes : s.freeListBytes.length = 4 + 4 * s.stream.freePages.length := by
  rw [BTree.freeListBytes, List.length_append, length_leBytes, WordCodec.length_words, List.length_reverse]
  rfl

theorem peek_freePagesCounter : peek s.freeListBytes 0 4 = leBytes 4 s.stream.freePages.length := by
  rw [BTree.freeListBytes, peek_append_left (by simp)]
  exact peek_all _

/-- The number marked last stands last. -/
theorem peek_freePage {free rest : List ℕ} {q : ℕ} (h : s.stream.freePages = free ++ q :: rest) :
    peek s.freeListBytes (4 + 4 * rest.length) 4 = leBytes 4 q := by
  have hsplit : s.stream.freePages.reverse = rest.reverse ++ ([q] ++ free.reverse) := by
    rw [h, List.reverse_append, List.reverse_cons, List.append_assoc]
  have hwords := cursorCodec.peek_words s.stream.freePages.reverse rest.length 1
  have hright := peek_append_right rest.reverse ([q] ++ free.reverse) 0 1
  rw [List.length_reverse, Nat.add_zero, ← hsplit, peek_append_left (by simp)] at hright
  rw [hright] at hwords
  have hcounter := peek_append_right (leBytes 4 s.stream.freePages.length)
    (cursorCodec.words s.stream.freePages.reverse) (4 * rest.length) 4
  rw [length_leBytes] at hcounter
  exact hcounter.trans (hwords.trans (cursorCodec.words_singleton q))

/-! ## Opening the file -/

/-- A tree that a file can hold: its fields belong together, page 0 is not free, the root page is a page
and is the one in memory, and the file is below 4 GiB. -/
structure BTree.Filable (p : Params) (s : BTree (Record p.recSize)) : Prop where
  booked : s.Booked
  nonzero : 0 ∉ s.stream.freePages
  root_le : s.rootPageNum ≤ s.lastPageNum
  rootPage_eq : s.rootPage = s.wrapper s.rootPageNum
  fits : s.FileFits p

/-- An object whose stream is the file of the tree. -/
def BTree.onFile (p : Params) (treeType : TreeType) (s : BTree (Record p.recSize)) (rest : List UInt8) :
    StreamTree where
  treeType := treeType
  params := p
  hasStream := true
  lastPageNum := UInt32.ofNat s.lastPageNum
  rootPageNum := UInt32.ofNat s.rootPageNum
  freePagesCounter := UInt32.ofNat s.freePagesCounter
  rootPage := s.rootPage.data.bytes p
  rootPagePageNum := UInt32.ofNat s.rootPage.pageNum
  stream := FileStream.openExisting (s.fileBytes p ++ rest)

variable {s} {treeType : TreeType} {order recSize : ℕ}

theorem BTree.Filable.numbers (hs : s.Filable p) (hpage : 1 ≤ p.nodePageSize) :
    s.lastPageNum < 2 ^ 32 ∧ s.rootPageNum < 2 ^ 32 ∧ s.freePagesCounter < 2 ^ 32 := by
  have hfits : 20 + s.lastPageNum * p.nodePageSize + 4 * s.stream.freePages.length < 2 ^ 32 := hs.fits
  have hmul := Nat.mul_le_mul_left s.lastPageNum hpage
  have hroot := hs.root_le
  have hcounter := hs.booked.counter
  omega

theorem length_fileBytes (hsz : p.Sizes treeType order recSize) (rest : List UInt8) :
    (s.fileBytes p ++ rest).length =
      20 + s.lastPageNum * p.nodePageSize + 4 * s.stream.freePages.length + rest.length := by
  rw [List.length_append, BTree.fileBytes, List.length_append, List.length_append, length_headBytes,
    length_pages s hsz, length_freeListBytes, Nat.mul_comm p.nodePageSize]
  omega

theorem pagesEnd_onFile (treeType : TreeType) (hlast : s.lastPageNum < 2 ^ 32) (rest : List UInt8) :
    (s.onFile p treeType rest).pagesEnd = 16 + s.lastPageNum * p.nodePageSize := by
  show 16 + (UInt32.ofNat s.lastPageNum).toNat * p.nodePageSize = _
  rw [UInt32.toNat_ofNat_of_lt' hlast]

/-- The list of free pages on the file. -/
theorem onFile_freeListInv (hsz : p.Sizes treeType order recSize) (hfits : p.PageSizeFits)
    (hs : s.Filable p) (rest : List UInt8) :
    (s.onFile p treeType rest).FreeListInv (s.stream.freePages.map UInt32.ofNat) := by
  have hpage : 1 ≤ p.nodePageSize := by
    have := hfits.1
    omega
  obtain ⟨hlast, hroot, hcounter⟩ := hs.numbers hpage
  have hfile : 20 + s.lastPageNum * p.nodePageSize + 4 * s.stream.freePages.length < 2 ^ 32 := hs.fits
  have hlen := length_fileBytes (s := s) hsz rest
  have hend := pagesEnd_onFile (p := p) treeType hlast rest
  have hfree := length_freeListBytes s
  -- what stands behind the pages
  have hbytes (o : ℕ) (ho : o + 4 ≤ s.freeListBytes.length) :
      (s.onFile p treeType rest).stream.bytesAt ((s.onFile p treeType rest).pagesEnd + o) 4 =
        peek s.freeListBytes o 4 := by
    have hpeek := peek_freeList s hsz o 4 ho rest
    rw [Nat.mul_comm p.nodePageSize] at hpeek
    rw [hend, ← hpeek]
    exact FileStream.bytesAt_openExisting (by omega)
  refine ⟨rfl, ⟨rfl, rfl⟩, hfits, ?_, ?_, ?_, ?_, ?_, ?_⟩
  · show (UInt32.ofNat s.freePagesCounter).toNat = _
    rw [UInt32.toNat_ofNat_of_lt' hcounter, List.length_map, hs.booked.counter]
  · intro q hq
    obtain ⟨n, hn, rfl⟩ := List.mem_map.mp hq
    have hle := hs.booked.marked n hn
    show UInt32.ofNat n ≤ UInt32.ofNat s.lastPageNum
    rw [UInt32.le_iff_toNat_le, UInt32.toNat_ofNat_of_lt' hlast,
      UInt32.toNat_ofNat_of_lt' (show n < 2 ^ 32 by omega)]
    exact hle
  · rw [listEnd, hend, List.length_map]
    omega
  · rw [listEnd, hend, List.length_map]
    show _ ≤ (s.fileBytes p ++ rest).length
    omega
  · have := hbytes 0 (by omega)
    rw [Nat.add_zero, peek_freePagesCounter] at this
    rw [List.length_map]
    exact this
  · -- by induction on the rest of the list
    have hentries (free tail : List ℕ) (hsplit : s.stream.freePages = free ++ tail) :
        (s.onFile p treeType rest).EntriesStored (tail.map UInt32.ofNat) := by
      induction tail generalizing free with
      | nil => trivial
      | cons q tail ih =>
        constructor
        · have hlen' : s.stream.freePages.length = free.length + (tail.length + 1) := by
            rw [hsplit, List.length_append, List.length_cons]
          have hq : q < 2 ^ 32 := by
            have := hs.booked.marked q (by rw [hsplit]; simp)
            omega
          have := hbytes (4 + 4 * tail.length) (by omega)
          rw [peek_freePage s hsplit] at this
          rw [listEnd, List.length_map, UInt32.toNat_ofNat_of_lt' hq, Nat.add_assoc]
          exact this
        · exact ih (free ++ [q]) (by rw [hsplit, List.append_assoc]; rfl)
    exact hentries [] s.stream.freePages rfl

theorem onFile_stores (hsz : p.Sizes treeType order recSize) (hfits : p.PageSizeFits) (hs : s.Filable p)
    (rest : List UInt8) : Stores p (s.onFile p treeType rest) s := by
  have hpage : 1 ≤ p.nodePageSize := by
    have := hfits.1
    omega
  obtain ⟨hlast, hroot, hcounter⟩ := hs.numbers hpage
  have hlen := length_fileBytes (s := s) hsz rest
  have hhead (o n : ℕ) (hon : o + n ≤ 16) :
      (s.onFile p treeType rest).stream.bytesAt o n = peek s.headBytes o n :=
    (FileStream.bytesAt_openExisting (by omega)).trans (peek_headBytes s hon rest)
  exact {
    booked := hs.booked
    nonzero := hs.nonzero
    params_eq := rfl
    lastPageNum := UInt32.toNat_ofNat_of_lt' hlast
    rootPageNum := UInt32.toNat_ofNat_of_lt' hroot
    rootPagePageNum := by
      have hnum : s.rootPage.pageNum = s.rootPageNum := by
        rw [hs.rootPage_eq]
        rfl
      show (UInt32.ofNat s.rootPage.pageNum).toNat = _
      rw [hnum]
      exact UInt32.toNat_ofNat_of_lt' hroot
    rootPage := rfl
    free := onFile_freeListInv hsz hfits hs rest
    header := (hhead 0 8 (by omega)).trans (peek_header s)
    pageCounter := (hhead 8 4 (by omega)).trans (peek_pageCounter s)
    rootField := (hhead 12 4 (by omega)).trans (peek_rootPageNum s)
    pages := by
      intro n h0 hn
      have hmul : (n - 1) * p.nodePageSize + p.nodePageSize ≤ s.lastPageNum * p.nodePageSize := by
        rw [← Nat.succ_mul]
        exact Nat.mul_le_mul_right _ (by omega)
      exact (FileStream.bytesAt_openExisting (by omega)).trans (peek_page s hsz h0 hn rest) }

/-- Opening a file that begins with the bytes of a tree gives the tree. -/
theorem fileBytes_opens (pl : Platform) (hs : s.Filable p)
    (hset : BTreesMods.setOrder treeType s.stream.order s.stream.recSize = .ok p)
    (hrec : s.stream.recSize ≠ 0) (rest : List UInt8) :
    ∃ v, FileBaseBTree.newOpen pl treeType (some (s.fileBytes p ++ rest)) = (.ok (), v) ∧ Stores p v s := by
  have hstores := onFile_stores (setOrder_sizes hset) (setOrder_pageSizeFits hset) hs rest
  obtain ⟨v, hopen, hv⟩ := hstores.newOpen pl hset hrec hs.root_le
  have hcontent : (s.onFile p treeType rest).stream.content = s.fileBytes p ++ rest :=
    FileStream.content_openExisting _
  rw [hcontent] at hopen
  rw [← hs.rootPage_eq] at hv
  exact ⟨v, hopen, hv⟩

/-! ## The bytes that the tree leaves -/

theorem bytesAt_pages {t : StreamTree} (h : Stores p t s) {n : ℕ} (hn : n ≤ s.lastPageNum) :
    t.stream.bytesAt 16 (n * p.nodePageSize) = (slice s.stream.page 1 n).flatMap (Page.bytes p) := by
  induction n with
  | zero =>
    rw [Nat.zero_mul]
    rfl
  | succ n ih =>
    have hpage := h.pages (n + 1) (Nat.succ_ne_zero n) hn
    rw [Nat.add_sub_cancel] at hpage
    rw [Nat.succ_mul, FileStream.bytesAt_add, ih (by omega), hpage, slice_add, slice_one,
      List.flatMap_append, List.flatMap_singleton, Nat.add_comm 1 n]

theorem bytesAt_freePages {t : StreamTree} {free : List ℕ} (hlt : ∀ q ∈ free, q < 2 ^ 32)
    (h : t.EntriesStored (free.map UInt32.ofNat)) :
    t.stream.bytesAt (t.pagesEnd + 4) (4 * free.length) = cursorCodec.words free.reverse := by
  induction free with
  | nil => rfl
  | cons q free ih =>
    obtain ⟨hq, hfree⟩ := h
    rw [List.length_map, UInt32.toNat_ofNat_of_lt' (hlt q List.mem_cons_self)] at hq
    rw [List.length_cons, Nat.mul_succ, FileStream.bytesAt_add, List.reverse_cons, WordCodec.words_append,
      WordCodec.words_singleton, ih (fun q hq => hlt q (List.mem_cons_of_mem _ hq)) hfree]
    congr 1

/-- A file that holds a tree begins with the bytes of the tree. -/
theorem Stores.content_eq {t : StreamTree} (h : Stores p t s) :
    ∃ rest, t.stream.content = s.fileBytes p ++ rest := by
  have hfree := h.free
  have hend := h.pagesEnd_eq
  have hmarked : ∀ q ∈ s.stream.freePages, q < 2 ^ 32 := by
    intro q hq
    have := t.lastPageNum.toNat_lt
    have := h.booked.marked q hq
    have := h.lastPageNum
    omega
  have hsize : t.pagesEnd + 4 + 4 * s.stream.freePages.length ≤ t.stream.size := by
    have := hfree.inFile
    rwa [listEnd, List.length_map] at this
  have hhead : t.stream.bytesAt 0 16 = s.headBytes := by
    have hsplit : t.stream.bytesAt 0 16 =
        t.stream.bytesAt 0 8 ++ t.stream.bytesAt 8 4 ++ t.stream.bytesAt 12 4 := by
      rw [← FileStream.bytesAt_add _ 0 8 4]
      exact FileStream.bytesAt_add _ 0 12 4
    rw [hsplit, h.header, h.pageCounter, h.rootField, BTree.headBytes]
  obtain ⟨m, hm⟩ : ∃ m, t.stream.size = 16 + s.lastPageNum * p.nodePageSize + 4 +
      4 * s.stream.freePages.length + m := ⟨_, (Nat.add_sub_cancel' (by omega)).symm⟩
  have hcount : t.stream.bytesAt t.pagesEnd 4 = leBytes 4 s.stream.freePages.length := by
    rw [hfree.counterStored, List.length_map]
  have hlist := bytesAt_freePages hmarked hfree.entries
  have hpages := bytesAt_pages h (Nat.le_refl s.lastPageNum)
  rw [hend] at hcount hlist
  refine ⟨t.stream.bytesAt (20 + s.lastPageNum * p.nodePageSize + 4 * s.stream.freePages.length) m, ?_⟩
  rw [FileStream.content, hm]
  have hofs : 16 + s.lastPageNum * p.nodePageSize + 4 = 20 + s.lastPageNum * p.nodePageSize := by omega
  simp only [FileStream.bytesAt_add, Nat.zero_add]
  rw [hhead, hpages, hcount, hlist, hofs, BTree.fileBytes, BTree.freeListBytes]
  simp only [List.append_assoc]

/-- The header stays as it is. -/
theorem StorageCall.runAll_lasting {calls : List (StorageCall (Record p.recSize))}
    {s s' : BTree (Record p.recSize)} {rs : List (Option (PageWrapper (Record p.recSize)))}
    (hrun : runAll StorageCall.run calls s = .ok (rs, s')) : Lasting s s' := by
  refine (runAll_keeps (I := Lasting s) (A := fun _ => True) ?_ ⟨rfl, rfl, Nat.le_refl _⟩ hrun).1
  intro c s₁ r s₂ hs hc
  have hstep : StorageStep s₁ s₂ := ⟨c, r, hc⟩
  exact ⟨hs.trans hstep.change.lasting, trivial⟩

/-- Any sequence of storage calls on a new tree of any class, each of which can be made and leaves the file
below 4 GiB, returns on the bytes of the file the pages that it returns on the tree, and leaves a file
that begins with the bytes of the tree that is left. Opening that file gives this tree with its root page
read again, if the root page is one of its pages. -/
theorem storageCalls_bytes (pl : Platform) (uninit : UInt32) {treeType : TreeType} {order recSize : UInt16}
    (hrec : recSize ≠ 0) (hset : BTreesMods.setOrder treeType order recSize = .ok p) (noReturn : ℕ → Bool)
    (calls : List (StorageCall (Record p.recSize)))
    (hfits : MeetsEach StorageCall.run (StorageCall.Fits pl p) (BTree.created order recSize noReturn) calls)
    {rs : List (Option (PageWrapper (Record p.recSize)))} {s' : BTree (Record p.recSize)}
    (hrun : runAll StorageCall.run calls (BTree.created order recSize noReturn) = .ok (rs, s')) :
    ∃ u rest, StorageCall.execAll pl uninit p calls (StreamTree.created pl uninit treeType order recSize) =
        (.ok (rs.map (Option.map (PageWrapper.bytes p))), u) ∧
      u.stream.content = s'.fileBytes p ++ rest ∧
      (s'.rootPageNum ≤ s'.lastPageNum → ∃ v,
        FileBaseBTree.newOpen pl treeType (some u.stream.content) = (.ok (), v) ∧
          Stores p v { s' with rootPage := s'.wrapper s'.rootPageNum }) := by
  obtain ⟨u, hexec, hu⟩ := StorageCall.execAll_spec (setOrder_sizes hset)
    (created_stores pl uninit hset noReturn) hfits hrun
  obtain ⟨rest, hrest⟩ := hu.content_eq
  have hlasting := StorageCall.runAll_lasting hrun
  refine ⟨u, rest, hexec, hrest, ?_⟩
  apply hu.newOpen pl
  · rw [hlasting.order_eq, hlasting.recSize_eq]
    exact hset
  · rw [hlasting.recSize_eq]
    exact hrec

/-- A page is appended, marked free and taken again. -/
def StorageCall.onePage (κ : Type) : List (StorageCall κ) :=
  [allocPage 1 true, markPageFree 2, allocPage 0 true]

theorem storageCalls_bytes_onePage : ∃ p, BTreesMods.setOrder .bTree 2 1 = .ok p ∧ ∃ rs s',
    runAll StorageCall.run (StorageCall.onePage (Record p.recSize)) (BTree.created 2 1 fun _ => false) =
      .ok (rs, s') ∧
    ∃ u rest, StorageCall.execAll .windows 0 p (StorageCall.onePage (Record p.recSize))
        (StreamTree.created .windows 0 .bTree 2 1) = (.ok (rs.map (Option.map (PageWrapper.bytes p))), u) ∧
      u.stream.content = s'.fileBytes p ++ rest ∧
      (s'.rootPageNum ≤ s'.lastPageNum → ∃ v,
        FileBaseBTree.newOpen .windows .bTree (some u.stream.content) = (.ok (), v) ∧
          Stores p v { s' with rootPage := s'.wrapper s'.rootPageNum }) := by
  have hset : BTreesMods.setOrder .bTree 2 1 = .ok _ := rfl
  refine ⟨_, hset, _, _, rfl, ?_⟩
  refine storageCalls_bytes .windows 0 (by decide) hset (fun _ => false) (StorageCall.onePage _)
    ⟨⟨trivial, ?_⟩, ?_⟩ rfl
  · intro r s' h
    cases h
    decide
  · intro r s' h
    cases h
    refine ⟨⟨⟨by decide, Or.inl rfl⟩, ?_⟩, ?_⟩
    · intro r s' h
      cases h
      decide
    · intro r s' h
      cases h
      refine ⟨⟨trivial, ?_⟩, ?_⟩
      · intro r s' h
        cases h
        decide
      · intros
        trivial

end

end BTreesMods

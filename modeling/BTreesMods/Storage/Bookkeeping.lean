import BTreesMods.Storage.Steps
import BTreesMods.Tree.WellFormed

/-!
# What the storage calls keep

`StorageChange`: what one storage call does to the tree and its stream. `BTree.Booked`: the fields in
memory and in the stream belong together. Every run of a member function keeps it, whatever it does to
the pages (`Stepwise.booked`).
-/

namespace BTreesMods

variable {κ : Type}

/-! ## What one call does -/

/-- The ways in which a storage call changes the tree. -/
inductive StorageChange : BTree κ → BTree κ → Prop
  | same (s) : StorageChange s s
  | rootPage (s) (pw : PageWrapper κ) : StorageChange s { s with rootPage := pw }
  | noReturn (s) (f : ℕ → Bool) : StorageChange s { s with noReturn := f }
  | page (s) (p : ℕ) (data : Page κ) (hp : p ≠ 0) (hlast : p ≤ s.lastPageNum) :
      StorageChange s { s with stream := s.stream.setPage p data }
  | appended (s) (data : Page κ) (hcounter : s.freePagesCounter = 0) :
      StorageChange s { s with
        lastPageNum := s.lastPageNum + 1
        stream := { s.stream.setPage (s.lastPageNum + 1) data with
          pageCounter := s.lastPageNum + 1
          freePagesCounter := s.freePagesCounter } }
  | reused (s) (data : Page κ) (p : ℕ) (rest : List ℕ) (hcounter : s.freePagesCounter ≠ 0)
      (hfree : s.stream.freePages = p :: rest) :
      StorageChange s { s with
        freePagesCounter := s.freePagesCounter - 1
        stream := { s.stream.setPage p data with
          freePages := rest
          freePagesCounter := s.freePagesCounter - 1 } }
  | freed (s) (p : ℕ) (hlast : p ≤ s.lastPageNum) :
      StorageChange s { s with
        freePagesCounter := s.freePagesCounter + 1
        stream := { s.stream with
          freePages := p :: s.stream.freePages
          freePagesCounter := s.freePagesCounter + 1 } }
  | root (s) (p : ℕ) (hp : p ≠ 0) : StorageChange s (s.withRoot p)

section

variable {s s' : BTree κ}

theorem readPage_cases {pnum : ℕ} {pw : PageWrapper κ} (h : readPage pnum s = .ok (pw, s')) :
    s' = s ∧ pw = s.wrapper pnum ∧ pnum ≠ 0 ∧ pnum ≤ s.lastPageNum := by
  change (if pnum = 0 ∨ pnum > s.lastPageNum then _ else _ : TreeM κ _) s = _ at h
  split at h
  · cases h
  · rename_i hin
    cases h
    exact ⟨rfl, rfl, by omega, by omega⟩

theorem writePage_cases {pw : PageWrapper κ} (h : writePage pw s = .ok ((), s')) :
    s' = { s with stream := s.stream.setPage pw.pageNum pw.data } ∧ pw.pageNum ≠ 0 ∧
      pw.pageNum ≤ s.lastPageNum := by
  change (if pw.pageNum = 0 then _ else if pw.pageNum > s.lastPageNum then _ else _ : TreeM κ _) s = _ at h
  split at h
  · cases h
  · split at h
    · cases h
    · rename_i hzero hlast
      cases h
      exact ⟨rfl, hzero, Nat.not_lt.mp hlast⟩

/-- An allocation appends a page or takes one off the list. -/
theorem allocPage_cases [Inhabited κ] {n : ℕ} {leaf : Bool} {pw : PageWrapper κ}
    (h : allocPage n leaf s = .ok (pw, s')) :
    (s.freePagesCounter = 0 ∧ pw = ⟨s.lastPageNum + 1, Page.cleared n leaf⟩ ∧ s' = { s with
        lastPageNum := s.lastPageNum + 1
        stream := { s.stream.setPage (s.lastPageNum + 1) (Page.cleared n leaf) with
          pageCounter := s.lastPageNum + 1
          freePagesCounter := s.freePagesCounter } }) ∨
      ∃ q rest, s.freePagesCounter ≠ 0 ∧ s.stream.freePages = q :: rest ∧
        pw = ⟨q, Page.cleared n leaf⟩ ∧ s' = { s with
          freePagesCounter := s.freePagesCounter - 1
          stream := { s.stream.setPage q (Page.cleared n leaf) with
            freePages := rest
            freePagesCounter := s.freePagesCounter - 1 } } := by
  change (if s.freePagesCounter = 0 then _ else _ : TreeM κ _) s = _ at h
  by_cases hcounter : s.freePagesCounter = 0
  · rw [if_pos hcounter] at h
    cases h
    exact Or.inl ⟨hcounter, rfl, rfl⟩
  · rw [if_neg hcounter] at h
    cases hfree : s.stream.freePages with
    | nil =>
      rw [hfree] at h
      cases h
    | cons q rest =>
      rw [hfree] at h
      cases h
      exact Or.inr ⟨q, rest, hcounter, rfl, rfl, rfl⟩

theorem markPageFree_cases {p : ℕ} (h : markPageFree p s = .ok ((), s')) :
    p ≤ s.lastPageNum ∧ s' = { s with
      freePagesCounter := s.freePagesCounter + 1
      stream := { s.stream with
        freePages := p :: s.stream.freePages
        freePagesCounter := s.freePagesCounter + 1 } } := by
  change (if p > s.lastPageNum then _ else _ : TreeM κ _) s = _ at h
  split at h
  · cases h
  · rename_i hlast
    cases h
    exact ⟨Nat.not_lt.mp hlast, rfl⟩

theorem setAsRoot_cases {pw : PageWrapper κ} (h : setAsRoot pw s = .ok ((), s')) :
    s' = s.withRoot pw.pageNum ∧ pw.pageNum ≠ 0 := by
  by_cases hzero : pw.pageNum = 0
  · change (if pw.pageNum = 0 then _ else _ : TreeM κ Unit) _ = _ at h
    rw [if_pos hzero] at h
    cases h
  · rw [setAsRoot_run s hzero] at h
    cases h
    exact ⟨rfl, hzero⟩

/-- `loadRootPage` changes the member `_rootPage` only. -/
theorem loadRootPage_cases (h : loadRootPage s = .ok ((), s')) :
    s' = { s with rootPage := s.wrapper s.rootPageNum } ∧ s.rootPageNum ≠ 0 ∧
      s.rootPageNum ≤ s.lastPageNum := by
  change (if s.rootPageNum = 0 then _ else _ : TreeM κ _) s = _ at h
  split at h
  · cases h
  · rename_i hzero
    obtain ⟨pw, s₁, hread, hset⟩ := of_bind_run h
    obtain ⟨rfl, rfl, -, hlast⟩ := readPage_cases hread
    cases hset
    exact ⟨rfl, hzero, hlast⟩

theorem StorageStep.change [Inhabited κ] (h : StorageStep s s') : StorageChange s s' := by
  obtain ⟨c, r, hrun⟩ := h
  cases c with
  | endWithoutReturn =>
    cases hrun
    exact .noReturn s _
  | assignRootPage pw =>
    cases hrun
    exact .rootPage s pw
  | readPage pnum =>
    obtain ⟨pw, s₁, hread, hpure⟩ := of_bind_run hrun
    cases hpure
    rw [(readPage_cases hread).1]
    exact .same s
  | loadRootPage =>
    obtain ⟨_, s₁, hload, hpure⟩ := of_bind_run hrun
    cases hpure
    rw [(loadRootPage_cases hload).1]
    exact .rootPage s _
  | writePage pw =>
    obtain ⟨_, s₁, hwrite, hpure⟩ := of_bind_run hrun
    cases hpure
    obtain ⟨rfl, hzero, hlast⟩ := writePage_cases hwrite
    exact .page s pw.pageNum pw.data hzero hlast
  | allocPage n leaf =>
    obtain ⟨pw, s₁, halloc, hpure⟩ := of_bind_run hrun
    cases hpure
    rcases allocPage_cases halloc with ⟨hcounter, -, rfl⟩ | ⟨q, rest, hcounter, hfree, -, rfl⟩
    · exact .appended s _ hcounter
    · exact .reused s _ q rest hcounter hfree
  | markPageFree p =>
    obtain ⟨_, s₁, hmark, hpure⟩ := of_bind_run hrun
    cases hpure
    obtain ⟨hlast, rfl⟩ := markPageFree_cases hmark
    exact .freed s p hlast
  | setAsRoot pw =>
    obtain ⟨_, s₁, hset, hpure⟩ := of_bind_run hrun
    cases hpure
    obtain ⟨rfl, hzero⟩ := setAsRoot_cases hset
    exact .root s pw.pageNum hzero

/-! ## Bookkeeping -/

/-- The fields in memory and in the stream belong together: the counters in the stream are those in
memory, the counter of the free pages is the length of their list, and the list and the root page number
are numbers of pages. -/
structure BTree.Booked (s : BTree κ) : Prop extends s.Stored where
  counter : s.freePagesCounter = s.stream.freePages.length
  marked : ∀ p ∈ s.stream.freePages, p ≤ s.lastPageNum
  root : s.rootPageNum ≠ 0

theorem created_booked [Inhabited κ] (order recSize : UInt16) (noReturn : ℕ → Bool) :
    (BTree.created order recSize noReturn : BTree κ).Booked :=
  ⟨created_stored order recSize noReturn, rfl, fun _ hp => absurd hp List.not_mem_nil, Nat.one_ne_zero⟩

theorem StorageChange.booked (h : StorageChange s s') (hs : s.Booked) : s'.Booked := by
  cases h with
  | same | rootPage | noReturn | page =>
    exact ⟨⟨hs.pageCounter, hs.rootPageNum, hs.freePagesCounter⟩, hs.counter, hs.marked, hs.root⟩
  | appended data =>
    refine ⟨⟨rfl, hs.rootPageNum, rfl⟩, hs.counter, fun p hp => ?_, hs.root⟩
    exact Nat.le_succ_of_le (hs.marked p hp)
  | reused data p rest hcounter hfree =>
    have hlen : s.freePagesCounter = rest.length + 1 := by
      rw [hs.counter, hfree]
      rfl
    refine ⟨⟨hs.pageCounter, hs.rootPageNum, rfl⟩, ?_, fun q hq => ?_, hs.root⟩
    · show s.freePagesCounter - 1 = rest.length
      rw [hlen, Nat.add_sub_cancel]
    · exact hs.marked q (by rw [hfree]; exact List.mem_cons_of_mem p hq)
  | freed p hlast =>
    refine ⟨⟨hs.pageCounter, hs.rootPageNum, rfl⟩, ?_, fun q hq => ?_, hs.root⟩
    · show s.freePagesCounter + 1 = s.stream.freePages.length + 1
      rw [hs.counter]
    · rcases List.mem_cons.mp hq with rfl | hq
      · exact hlast
      · exact hs.marked q hq
  | root p hp => exact ⟨⟨hs.pageCounter, rfl, hs.freePagesCounter⟩, hs.counter, hs.marked, hp⟩

/-- What no storage call changes, and that pages are never taken away. -/
structure Lasting (s s' : BTree κ) : Prop where
  order_eq : s'.stream.order = s.stream.order
  recSize_eq : s'.stream.recSize = s.stream.recSize
  lastPageNum_le : s.lastPageNum ≤ s'.lastPageNum

theorem StorageChange.lasting (h : StorageChange s s') : Lasting s s' := by
  cases h with
  | appended => exact ⟨rfl, rfl, Nat.le_succ _⟩
  | same | rootPage | noReturn | page | reused | freed | root => exact ⟨rfl, rfl, Nat.le_refl _⟩

theorem Lasting.trans {s'' : BTree κ} (h : Lasting s s') (h' : Lasting s' s'') : Lasting s s'' where
  order_eq := h'.order_eq.trans h.order_eq
  recSize_eq := h'.recSize_eq.trans h.recSize_eq
  lastPageNum_le := h.lastPageNum_le.trans h'.lastPageNum_le

/-! ## What every run keeps -/

variable [Inhabited κ] {α : Type} {x : TreeM κ α} {a : α}

theorem Stepwise.booked [Stepwise StorageStep x] (h : x s = .ok (a, s')) (hs : s.Booked) : s'.Booked :=
  Stepwise.keeps (R := StorageStep) (fun _ _ hstep => hstep.change.booked) h hs

theorem Stepwise.lasting [Stepwise StorageStep x] (h : x s = .ok (a, s')) : Lasting s s' :=
  Stepwise.keeps (R := StorageStep) (I := Lasting s) (fun _ _ hstep hs => hs.trans hstep.change.lasting) h
    ⟨rfl, rfl, Nat.le_refl _⟩

end

end BTreesMods

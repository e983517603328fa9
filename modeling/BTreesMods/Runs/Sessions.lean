import BTreesMods.Runs.BStarTree
import BTreesMods.Storage.Bookkeeping
import BTreesMods.Lib.Machine

/-!
# Sessions

A session on a tree of any class: `insert`, `remove`, `search`, `searchAll` and `removeAll` calls, and in
between the tree is closed and loaded again (`btree.hpp`, lines 119–262, 302–353 and 741–789).

`session_booked`: whatever `remove` does to the pages, as long as no call runs out of the slots of a page, the
fields in memory and in the stream stay together, and loading the stream gives the tree in memory with its root
page read again.

The page storage is ideal, as for every tree model here: reads return what was written last, and the free pages
are a stack. This is so where `unsigned long` has 32 bits, or no page is marked free on an empty list, while the
file takes less than 4 GiB.
-/

namespace BTreesMods

variable {κ : Type}

/-! ## Calls -/

/-- A call of a session. `fuel` bounds the loop of `removeAll`. -/
inductive SessionCall (κ : Type)
  | call (c : TreeCall κ)
  | searchAll (k : κ) (keys : List κ)
  | removeAll (k : κ) (fuel : ℕ)
  | reopen

/-- What a call of a session returns. -/
inductive SessionAnswer (κ : Type)
  | answer (a : Answer κ)
  | found (keys : List κ) (amount : ℕ)
  | removedAll (amount : ℕ)
  | reopened (params : Params)

/-- Closes the stream and loads the tree from it again: the values of `setOrder`. -/
def reopen (T : Cfg κ) : TreeM κ Params := fun s => loadTree T.treeType s.noReturn s.rootPage s.stream

/-- The call on the tree. -/
def SessionCall.run [Inhabited κ] (T : Cfg κ) : SessionCall κ → TreeM κ (SessionAnswer κ)
  | call c => do return .answer (← c.run T)
  | searchAll k keys => do
    let (keys, amount) ← BTreesMods.searchAll T k keys
    return .found keys amount
  | removeAll k fuel => do return .removedAll (← BTreesMods.removeAll T k fuel)
  | reopen => do return .reopened (← BTreesMods.reopen T)

/-! ## Bookkeeping -/

section

variable {T : Cfg κ} {s s' : BTree κ}

theorem setOrder_pos {treeType : TreeType} {order recSize : UInt16} {params : Params}
    (hset : setOrder treeType order recSize = .ok params) : ¬order < 1 := by
  intro hlt
  obtain rfl : order = 0 := UInt16.lt_one_iff.mp hlt
  cases treeType <;> cases hset

theorem readPage_eq (s : BTree κ) (pnum : ℕ) : readPage pnum s =
    if pnum = 0 ∨ pnum > s.lastPageNum then .error (.invalidArgument "Can't read a non-existing page")
    else .ok (s.wrapper pnum, s) := by
  change (if pnum = 0 ∨ pnum > s.lastPageNum then _ else _ : TreeM κ _) s = _
  split <;> rfl

/-- `loadRootPage` reads the root page again. -/
theorem loadRootPage_eq (s : BTree κ) : loadRootPage s =
    if s.rootPageNum = 0 then .error (.runtimeError "Root page is not defined")
    else if s.rootPageNum > s.lastPageNum then .error (.invalidArgument "Can't read a non-existing page")
    else .ok ((), { s with rootPage := s.wrapper s.rootPageNum }) := by
  change (if s.rootPageNum = 0 then _ else (readPage s.rootPageNum >>= _) : TreeM κ Unit) s = _
  split
  · rfl
  · rename_i hzero
    change (readPage s.rootPageNum s >>= _ : Except Err (Unit × BTree κ)) = _
    rw [readPage_eq]
    by_cases hlast : s.rootPageNum > s.lastPageNum
    · rw [if_pos (Or.inr hlast), if_pos hlast]
      rfl
    · rw [if_neg (not_or.mpr ⟨hzero, hlast⟩), if_neg hlast]
      rfl

/-- Loading the stream of a tree does what `loadRootPage` does to it. -/
theorem reopen_eq (hs : s.Booked) (hrec : s.stream.recSize ≠ 0)
    (hset : setOrder T.treeType s.stream.order s.stream.recSize = .ok T.toParams) :
    reopen T s = (loadRootPage s).map fun r => (T.toParams, r.2) := by
  have hloaded : ({ rootPage := s.rootPage, lastPageNum := s.stream.pageCounter
                    rootPageNum := s.stream.rootPageNum, freePagesCounter := 0, stream := s.stream
                    noReturn := s.noReturn } : BTree κ) = { s with freePagesCounter := 0 } := by
    rw [hs.pageCounter, hs.rootPageNum]
  unfold reopen loadTree
  rw [if_neg (not_or.mpr ⟨setOrder_pos hset, hrec⟩), hset]
  show (loadRootPage _ >>= _ : Except Err (Params × BTree κ)) = _
  rw [hloaded, loadRootPage_eq, loadRootPage_eq]
  dsimp only
  split
  · rfl
  · split
    · rfl
    · show Except.ok (T.toParams, { s with
        rootPage := s.wrapper s.rootPageNum, freePagesCounter := s.stream.freePagesCounter }) = _
      rw [hs.freePagesCounter]
      rfl

variable [Inhabited κ]

instance (c : TreeCall κ) : Stepwise StorageStep (c.run T) := by
  cases c <;> (unfold TreeCall.run; infer_instance)

/-- The open tree whose stream has the given header, with its fields in order. -/
structure Opened (T : Cfg κ) (order recSize : UInt16) (s : BTree κ) : Prop where
  booked : s.Booked
  order_eq : s.stream.order = order
  recSize_eq : s.stream.recSize = recSize

/-- What a call of a session answers about the tree: loading it again finds the values of `setOrder`. -/
def SessionAnswer.Fits (T : Cfg κ) : SessionAnswer κ → Prop
  | reopened params => params = T.toParams
  | _ => True

theorem Opened.step {α : Type} {x : TreeM κ α} [Stepwise StorageStep x] {order recSize : UInt16} {a : α}
    (hs : Opened T order recSize s) (h : x s = .ok (a, s')) :
    Opened T order recSize s' ∧ s.lastPageNum ≤ s'.lastPageNum := by
  have hlasting := Stepwise.lasting h
  exact ⟨⟨Stepwise.booked h hs.booked, hlasting.order_eq.trans hs.order_eq,
    hlasting.recSize_eq.trans hs.recSize_eq⟩, hlasting.lastPageNum_le⟩

/-- One call of a session. -/
theorem SessionCall.opened {order recSize : UInt16} (hrec : recSize ≠ 0)
    (hset : setOrder T.treeType order recSize = .ok T.toParams) (c : SessionCall κ) {a : SessionAnswer κ}
    (hs : Opened T order recSize s) (h : c.run T s = .ok (a, s')) :
    (Opened T order recSize s' ∧ s.lastPageNum ≤ s'.lastPageNum) ∧ a.Fits T := by
  cases c with
  | call c =>
    obtain ⟨b, s₁, hrun, hpure⟩ := of_bind_run h
    cases hpure
    exact ⟨hs.step hrun, trivial⟩
  | searchAll k keys =>
    obtain ⟨b, s₁, hrun, hpure⟩ := of_bind_run h
    cases hpure
    exact ⟨hs.step hrun, trivial⟩
  | removeAll k fuel =>
    obtain ⟨b, s₁, hrun, hpure⟩ := of_bind_run h
    cases hpure
    exact ⟨hs.step hrun, trivial⟩
  | reopen =>
    obtain ⟨params, s₁, hrun, hpure⟩ := of_bind_run h
    cases hpure
    rw [reopen_eq hs.booked (by rw [hs.recSize_eq]; exact hrec)
      (by rw [hs.order_eq, hs.recSize_eq]; exact hset)] at hrun
    cases hload : loadRootPage s with
    | error e =>
      rw [hload] at hrun
      cases hrun
    | ok r =>
      rw [hload] at hrun
      cases hrun
      exact ⟨hs.step hload, rfl⟩

theorem created_opened (T : Cfg κ) (order recSize : UInt16) (noReturn : ℕ → Bool) :
    Opened T order recSize (BTree.created order recSize noReturn) :=
  ⟨created_booked order recSize noReturn, rfl, rfl⟩

/-- In every session on a new tree of any class, as far as its calls return, and also when `remove` goes
wrong: the counters and the root page number in the stream are those in memory, the counter of the free
pages is the length of their list, the header stays as it is, and loading the stream at any moment gives
the values of `setOrder` and the tree in memory with its root page read again. -/
theorem session_booked {order recSize : UInt16} (hrec : recSize ≠ 0)
    (hset : setOrder T.treeType order recSize = .ok T.toParams) (noReturn : ℕ → Bool)
    (calls : List (SessionCall κ)) {as : List (SessionAnswer κ)}
    (hrun : (do createTree; runAll (SessionCall.run T) calls : TreeM κ _) (BTree.fresh order recSize noReturn) =
      .ok (as, s')) :
    Opened T order recSize s' ∧ (∀ a ∈ as, a.Fits T) ∧
      reopen T s' = (loadRootPage s').map fun r => (T.toParams, r.2) := by
  obtain ⟨_, s, hcreate, hrun⟩ := of_bind_run hrun
  rw [createTree_run] at hcreate
  cases hcreate
  obtain ⟨hs', has⟩ := runAll_keeps (A := SessionAnswer.Fits T)
    (fun c s a s' hs hc => ⟨(c.opened hrec hset hs hc).1.1, (c.opened hrec hset hs hc).2⟩)
    (created_opened T order recSize noReturn) hrun
  refine ⟨hs', has, reopen_eq hs'.booked ?_ ?_⟩
  · rw [hs'.recSize_eq]
    exact hrec
  · rw [hs'.order_eq, hs'.recSize_eq]
    exact hset

/-- The insertions of 1 to 10, the removals of 10 and 5, loading the tree, the search for 4, the insertion of
11 and the search for every 5. -/
def SessionCall.elevenKeys : List (SessionCall ℕ) := (List.range' 1 10).map (fun k => call (.insert k)) ++
  [call (.remove 10), call (.remove 5), reopen, call (.search 4), call (.insert 11), searchAll 5 []]

/-- The removal of 5 takes out 4. -/
theorem session_booked_eleven :
    Returns (do createTree; runAll (SessionCall.run (natCfg .bStarTree 7)) SessionCall.elevenKeys)
      (BTree.fresh 7 4 fun _ => false) fun as s' => Opened (natCfg .bStarTree 7) 7 4 s' ∧
        (∀ a ∈ as, a.Fits (natCfg .bStarTree 7)) ∧
          reopen (natCfg .bStarTree 7) s' =
            (loadRootPage s').map fun r => ((natCfg .bStarTree 7).toParams, r.2) := by
  have hreturns : ((do createTree; runAll (SessionCall.run (natCfg .bStarTree 7)) SessionCall.elevenKeys :
      TreeM ℕ _) (BTree.fresh 7 4 fun _ => false)).isOk = true := by
    decide +kernel
  cases hrun : (do createTree; runAll (SessionCall.run (natCfg .bStarTree 7)) SessionCall.elevenKeys :
      TreeM ℕ _) (BTree.fresh 7 4 fun _ => false) with
  | error e =>
    rw [hrun] at hreturns
    cases hreturns
  | ok r => exact ⟨r.1, r.2, hrun, session_booked (by decide) rfl (fun _ => false) _ hrun⟩

end

end BTreesMods

import BTreesMods.Extension.KeyOrder
import BTreesMods.File.Format
import BTreesMods.Runs.SoundSessions

/-!
# Sessions and files

* `session_reads_back`: the tree that a session of sound calls leaves is read back from its file, as long
  as that is below 4 GiB.

During the session the page storage is ideal (`BTree.IdealStorage`), and on a B+-tree or B*+-tree no `remove`
is sound.
-/

namespace BTreesMods

/-- A tree whose keys are compared with `byteComparator`. -/
def byteCfg (p : Params) (treeType : TreeType) (firstPartBytes : ℕ) : Cfg (Record p.recSize) where
  toParams := p
  toComparator := byteComparator p.recSize firstPartBytes
  treeType := treeType

section

variable {p : Params} {treeType : TreeType} {order recSize : UInt16} {firstPartBytes : ℕ}

theorem Settled.filable {T : Cfg (Record p.recSize)} {s : BTree (Record p.recSize)} {h : ℕ}
    {t : Node (Record p.recSize)} (hw : Settled T order recSize s h t) (hfits : s.FileFits p) : s.Filable p where
  booked := hw.booked
  nonzero := by
    intro hzero
    have hmem : 0 ∈ t.pages h + (s.stream.freePages : Multiset ℕ) :=
      Multiset.mem_add.mpr (Or.inr (Multiset.mem_coe.mpr hzero))
    rw [hw.owned.all_pages, Multiset.mem_coe, List.mem_range'_1] at hmem
    omega
  root_le := by
    have hpage := hw.stands.store.mem_range (page_mem_add h t 0)
    rw [hw.page_eq] at hpage
    omega
  rootPage_eq := hw.rootPage_eq
  fits := hfits

/-- After a session of sound calls on a new tree of any class whose keys are bytes, in which the calls answer
as on a multiset of keys: opening any file that begins with the bytes of the tree that is left gives this
tree, whose keys are that multiset, if its file is below 4 GiB. -/
theorem session_reads_back (hrec : recSize ≠ 0) (hset : setOrder treeType order recSize = .ok p)
    (hfit : treeType.isStar = true → p.SplitBufferFits) (noReturn : ℕ → Bool)
    (calls : List (SessionCall (Record p.recSize)))
    (hsound : MeetsEach (SessionCall.run (byteCfg p treeType firstPartBytes))
      (SessionCall.Sound (byteCfg p treeType firstPartBytes)) (BTree.created order recSize noReturn) calls) :
    Returns (do createTree; runAll (SessionCall.run (byteCfg p treeType firstPartBytes)) calls)
      (BTree.fresh order recSize noReturn) fun as s' => ∃ M h t,
        RunsOn (SessionCall.OnMultiset (byteCfg p treeType firstPartBytes)) 0 calls as M ∧
          WellFormed (byteCfg p treeType firstPartBytes) s' h t ∧
          (t.records (byteCfg p treeType firstPartBytes) h : Multiset (Record p.recSize)) = M ∧
          (s'.FileFits p → ∀ pl rest, ∃ v,
            FileBaseBTree.newOpen pl treeType (some (s'.fileBytes p ++ rest)) = (.ok (), v) ∧
              Stores p v s') := by
  refine (session_settled (T := byteCfg p treeType firstPartBytes) byteComparator_strictWeak
    byteComparator_equates hrec hset hfit noReturn hsound).mono ?_
  rintro as s' ⟨h, t, hw, hruns⟩
  refine ⟨_, h, t, hruns, hw.toWellFormed, rfl, ?_⟩
  intro hfits pl rest
  apply fileBytes_opens pl (hw.filable hfits)
  · rw [hw.order_eq, hw.recSize_eq]
    exact hset
  · rw [hw.recSize_eq]
    exact hrec

/-- The insertions of the records of 1 to 6 and of a second 6, the search for every 6, the removal of 1,
loading the tree and the search for 2. -/
def SessionCall.sevenRecords (n : ℕ) : List (SessionCall (Record n)) :=
  [1, 2, 3, 4, 5, 6, 6].map (fun x => call (.insert (Record.ofByte n x))) ++
    [searchAll (Record.ofByte n 6) [], call (.remove (Record.ofByte n 1)), reopen,
      call (.search (Record.ofByte n 2))]

theorem session_reads_back_seven : ∃ p, setOrder .bStarTree 5 12 = .ok p ∧
    Returns (do createTree; runAll (SessionCall.run (byteCfg p .bStarTree 4)) (SessionCall.sevenRecords _))
      (BTree.fresh 5 12 fun _ => false) fun as s' => ∃ M h t,
        RunsOn (SessionCall.OnMultiset (byteCfg p .bStarTree 4)) 0 (SessionCall.sevenRecords _) as M ∧
          WellFormed (byteCfg p .bStarTree 4) s' h t ∧
          (t.records (byteCfg p .bStarTree 4) h : Multiset (Record p.recSize)) = M ∧
          (s'.FileFits p → ∀ pl rest, ∃ v,
            FileBaseBTree.newOpen pl .bStarTree (some (s'.fileBytes p ++ rest)) = (.ok (), v) ∧
              Stores p v s') := by
  obtain ⟨p, hp⟩ : ∃ p, p = (setOrder .bStarTree 5 12).toOption.getD default := ⟨_, rfl⟩
  have hset : setOrder .bStarTree 5 12 = .ok p := by
    rw [hp]
    rfl
  have hlow : MeetsEach (SessionCall.run (byteCfg p .bStarTree 4)) (fun c s => s.Low ∧ ∀ k ∈ c.removedKey,
      ∀ x ∈ (s.stream.page s.rootPageNum).keyList, (byteCfg p .bStarTree 4).isEqual k x = false)
      (BTree.created 5 12 fun _ => false) (SessionCall.sevenRecords _) := by
    subst hp
    decide +kernel
  refine ⟨p, hset, session_reads_back (by decide) hset
    (fun hstar => splitBufferFits_of_setOrder hset hstar (by decide)) _ _ (hlow.mono fun c hc s hs => ?_)⟩
  have hfits : 2 * p.minKeys + 1 ≤ p.maxKeys := by
    rw [hp]
    decide
  cases c with
  | call c => exact BaseBStarTree.removesWell_of_low hfits c hs.1 hs.2
  | removeAll k fuel => simp [SessionCall.sevenRecords] at hc
  | searchAll k keys => trivial
  | reopen => trivial

end

end BTreesMods

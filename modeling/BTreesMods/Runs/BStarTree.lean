import BTreesMods.Runs.BTree
import BTreesMods.File.PageStore
import BTreesMods.Insertion.InsertStar
import BTreesMods.Removal.RemoveStar

/-!
# A B*-tree against a multiset

Runs of `insert`, `remove` and `search` on a B*-tree (`btree.hpp`, lines 1438–1857 and 1859–2073). They
answer as the same calls on a multiset do, and keep the tree balanced and in order, as long as the way of
each `remove` avoids the steps that go wrong (`BaseBStarTree.RootRemovable`).

Main result: `bStarTree_keeps_multiset`.
-/

namespace BTreesMods

variable {κ : Type}

/-! ## Definitions -/

/-- The open B*-tree holds the records `M` in order, with all leaves at one depth. -/
def BaseBStarTree.StoresMultiset (T : Cfg κ) (s : BTree κ) (M : Multiset κ) : Prop :=
  ∃ h t, Reachable s h t ∧ (t.records T h : Multiset κ) = M ∧
    (t.records T h).Pairwise (fun x y => T.compare y x = false)

/-- What `remove` needs of the stored tree before the call. -/
def BaseBStarTree.CallRemovable (T : Cfg κ) : TreeCall κ → BTree κ → Prop
  | .remove k, s => ∀ h t, t.page = s.rootPageNum → Rep s.stream.page h t → RootRemovable T k h t
  | _, _ => True

/-- The same, and the buffer for the keys of three minimal pages when there can be three below a page that is
not the root page. -/
def BaseBStarTree.RemovesWell (T : Cfg κ) : TreeCall κ → BTree κ → Prop
  | .remove k, s => ∀ h t, t.page = s.rootPageNum → Rep s.stream.page h t →
      RootRemovable T k h t ∧ (2 ≤ h → T.MergeBufferFits)
  | _, _ => True

/-- What a call needs of the stored tree, and of the page storage that it leaves. -/
def BaseBStarTree.CallsWell [Inhabited κ] (pl : Platform) (T : Cfg κ) (c : TreeCall κ) (s : BTree κ) : Prop :=
  CallRemovable T c s ∧ ∀ a s', c.run T s = .ok (a, s') → s'.IdealStorage pl T.toParams

section

variable {T : Cfg κ} {s : BTree κ} {h : ℕ} {t : Node κ} {k : κ}

/-! ## A well-formed B*-tree -/

theorem WellFormed.storesMultiset_star (hw : WellFormed T s h t) (hk : T.treeType = .bStarTree) :
    BaseBStarTree.StoresMultiset T s (t.records T h) := by
  have hroot := hw.rootPage_eq
  refine ⟨h, t, ⟨?_, ?_, hw.rep.below⟩, rfl, hw.sorted.records (by rw [hk]; rfl)⟩
  · rw [hroot]
    exact hw.page_eq
  · rw [hroot, ← hw.page_eq]
    exact hw.rep.on

theorem BaseBStarTree.RemovesWell.removable {c : TreeCall κ} (hc : RemovesWell T c s) : CallRemovable T c s := by
  cases c with
  | remove k => exact fun h t hpage hrep => (hc h t hpage hrep).1
  | _ => trivial

theorem BaseBStarTree.CallRemovable.removesWell (hfit : T.MergeBufferFits) {c : TreeCall κ}
    (hc : CallRemovable T c s) : RemovesWell T c s := by
  cases c with
  | remove k => exact fun h t hpage hrep => ⟨hc h t hpage hrep, fun _ => hfit⟩
  | _ => trivial

/-- Every call finds what it needs in a tree of at most two levels, when a removed key is not in the root page
and merged children fit into a page. -/
theorem BaseBStarTree.removesWell_of_low (hfits : 2 * T.minKeys + 1 ≤ T.maxKeys) (c : TreeCall κ) (hlow : s.Low)
    (habsent : ∀ k ∈ c.removedKey, ∀ x ∈ (s.stream.page s.rootPageNum).keyList, T.isEqual k x = false) :
    BaseBStarTree.RemovesWell T c s := by
  cases c with
  | insert k => trivial
  | search k => trivial
  | remove k =>
    intro h t hpage hrep
    have hheight := hlow.height_le_one hpage hrep
    refine ⟨?_, fun htwo => absurd hheight (by omega)⟩
    cases h with
    | zero => trivial
    | succ h =>
      obtain rfl : h = 0 := by omega
      refine ⟨fun x hx hkx => ?_, fun f _ _ freed n _ => ⟨fun _ => trivial, fun _ _ =>
        ⟨fun _ hh => absurd rfl hh, fun _ => ⟨fun hh => absurd rfl hh, trivial⟩, fun _ => ⟨hfits, trivial⟩⟩⟩⟩
      have hmem : x ∈ (s.stream.page s.rootPageNum).keyList := by
        rw [← hpage, hrep.on.keys_eq]
        exact List.mem_of_getElem? hx
      rw [habsent k rfl x hmem] at hkx
      cases hkx

variable [Inhabited κ]

/-- A call on a well-formed B*-tree is the call on the multiset of its records. -/
theorem bStarTree_call_spec (hT : T.Valid) (hk : T.treeType = .bStarTree) (hlt : StrictWeak T.compare)
    (heq : T.Equates) (hfit : T.SplitBufferFits) (c : TreeCall κ) (hw : WellFormed T s h t)
    (hc : BaseBStarTree.RemovesWell T c s) :
    Returns (c.run T) s fun a s' => ∃ h' t',
      c.OnMultiset T.toComparator (t.records T h : Multiset κ) a (t'.records T h' : Multiset κ) ∧
        WellFormed T s' h' t' := by
  cases c with
  | insert k =>
    refine (star_insertsWell hT (by rw [hk]; rfl) hfit hlt s h t k hw).bind ?_
    rintro _ s' ⟨h', t', hw', hrecords, -⟩
    exact Returns.pure ⟨h', t', hrecords, hw'⟩
  | remove k =>
    obtain ⟨hat, hbuffer⟩ := hc h t hw.page_eq hw.rep
    refine (bStarTree_remove_spec hT hk hlt heq hw hat hbuffer).bind ?_
    rintro b s' ⟨h', t', hw', hdrops⟩
    exact Returns.pure ⟨h', t', hdrops.onMultiset, hw'⟩
  | search k =>
    refine (search_call_spec hT hlt heq hw k).mono ?_
    rintro a _ ⟨rfl, hM⟩
    exact ⟨h, t, hM, hw⟩

/-! ## Runs -/

/-- Any sequence of calls on a new B*-tree whose buffers can be allocated, whose `remove` calls find the tree
as they need it and whose page storage stays ideal: the calls return what they return on a multiset, and the
tree holds that multiset afterwards. -/
theorem bStarTree_keeps_multiset {order recSize : UInt16}
    (hset : setOrder .bStarTree order recSize = .ok T.toParams) (hk : T.treeType = .bStarTree)
    (hlt : StrictWeak T.compare) (heq : T.Equates) (hsize : (2 * order.toNat + 1) * recSize.toNat < 2 ^ 31)
    (pl : Platform) (noReturn : ℕ → Bool) (calls : List (TreeCall κ))
    (hcalls : EachCall T (BaseBStarTree.CallsWell pl T) (BTree.created order recSize noReturn) calls) :
    Returns (do createTree; runCalls T calls) (BTree.fresh order recSize noReturn) fun as s' => ∃ M,
      RunsOnMultiset T.toComparator 0 calls as M ∧ BaseBStarTree.StoresMultiset T s' M := by
  have hT : T.Valid := ⟨order, recSize, by rw [hk]; exact hset⟩
  have hfit := splitBufferFits_of_setOrder hset rfl hsize
  have hfit' := hfit.mergeBufferFits hT (by rw [hk]; rfl)
  refine Returns.step (createTree_run order recSize noReturn) ?_
  have hcreated : ∃ h t, WellFormed T (BTree.created order recSize noReturn) h t ∧
      (t.records T h : Multiset κ) = 0 :=
    ⟨0, _, created_wellFormed T order recSize noReturn, rfl⟩
  refine (runCalls_spec (I := fun s M => ∃ h t, WellFormed T s h t ∧ (t.records T h : Multiset κ) = M)
    ?_ hcreated hcalls).mono ?_
  · rintro s _ c ⟨h, t, hw, rfl⟩ hc
    refine (bStarTree_call_spec hT hk hlt heq hfit c hw (hc.1.removesWell hfit')).mono ?_
    rintro a s' ⟨h', t', hM, hw'⟩
    exact ⟨_, hM, h', t', hw', rfl⟩
  · rintro as s' ⟨_, hruns, h, t, hw, rfl⟩
    exact ⟨_, hruns, hw.storesMultiset_star hk⟩

end

/-! ## Trees of two levels -/

/-- The insertions of 1 to 6, the removal of 1 and the search for 2. -/
def TreeCall.sixKeys : List (TreeCall ℕ) := (List.range' 1 6).map insert ++ [remove 1, search 2]

theorem bStarTree_keeps_multiset_six :
    Returns (do createTree; runCalls (natCfg .bStarTree 5) TreeCall.sixKeys)
      (BTree.fresh 5 4 fun _ => false) fun as s' => ∃ M,
        RunsOnMultiset (natCfg .bStarTree 5).toComparator 0 TreeCall.sixKeys as M ∧
          BaseBStarTree.StoresMultiset (natCfg .bStarTree 5) s' M := by
  have hset : setOrder .bStarTree 5 4 = .ok (natCfg .bStarTree 5).toParams := rfl
  apply bStarTree_keeps_multiset hset rfl (natCfg_strictWeak _ _) (natCfg_equates _ _) (by decide) .linux
  have hmeets : MeetsEach (TreeCall.run (natCfg .bStarTree 5)) (fun c s => (s.Low ∧ ∀ k ∈ c.removedKey,
      ∀ x ∈ (s.stream.page s.rootPageNum).keyList, (natCfg .bStarTree 5).isEqual k x = false) ∧
        ∀ a s', c.run (natCfg .bStarTree 5) s = .ok (a, s') →
          s'.IdealStorage .linux (natCfg .bStarTree 5).toParams)
      (BTree.created 5 4 fun _ => false) TreeCall.sixKeys := by
    decide +kernel
  refine eachCall_of_meetsEach (hmeets.mono ?_)
  rintro c - s ⟨⟨hlow, habsent⟩, hideal⟩
  exact ⟨(BaseBStarTree.removesWell_of_low (by decide) c hlow habsent).removable, hideal⟩

/-- The insertions of 1 to 10, the removals of 10 and 5 and the search for 4. -/
def TreeCall.tenKeysStar : List (TreeCall ℕ) :=
  (List.range' 1 10).map insert ++ [remove 10, remove 5, search 4]

/-- The search for 4, which is stored, finds nothing. -/
theorem search_misses_four :
    ¬Returns (do createTree; runCalls (natCfg .bStarTree 7) TreeCall.tenKeysStar)
      (BTree.fresh 7 4 fun _ => false) fun as s' => ∃ M,
        RunsOnMultiset (natCfg .bStarTree 7).toComparator 0 TreeCall.tenKeysStar as M ∧
          BaseBStarTree.StoresMultiset (natCfg .bStarTree 7) s' M := by
  rintro ⟨as, s', hrun, M, hruns, -⟩
  have has : ((do createTree; runCalls (natCfg .bStarTree 7) TreeCall.tenKeysStar : TreeM ℕ _)
      (BTree.fresh 7 4 fun _ => false)).toOption.map Prod.fst = some ((List.range' 1 10).map
        (fun _ => .inserted) ++ [.removed true, .removed true, .searched none]) := by
    decide +kernel
  rw [hrun] at has
  obtain rfl : as = _ := Option.some.inj has
  obtain ⟨as', hruns, has'⟩ := runsOnMultiset_insert hruns
  obtain rfl := List.append_cancel_left has'
  obtain ⟨M₁, ⟨x, hx, hM₁⟩, M₂, ⟨y, hy, hM₂⟩, M₃, ⟨-, hnone⟩, -⟩ := hruns
  obtain rfl : 10 = x := by simpa [natCfg] using hx
  obtain rfl : 5 = y := by simpa [natCfg] using hy
  have hfour : 4 ∈ 10 ::ₘ (5 ::ₘ M₂) := by
    rw [← hM₂, ← hM₁]
    decide
  have hmem : 4 ∈ M₂ := by simpa using hfour
  have hequal := hnone 4 hmem
  simp [natCfg] at hequal

end BTreesMods

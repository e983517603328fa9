import BTreesMods.Tree.Stands

/-!
# Two adjacent children

Keys that move between two adjacent children and the key of the node between them, on the bytes of
the three pages (`PairStep`) and after the pages are written (`PairWritten`).
-/

namespace BTreesMods

variable {κ : Type} {s : BTree κ} {R : Multiset ℕ} {ref : PageRef κ} {h p : ℕ} {c d c' d' : Node κ}
  {K1 K2 : List κ} {P S : List (Node κ)} {x y : κ} {nd cd dd : Page κ}

/-- The bytes `nd`, `cd` and `dd` of a node and of two adjacent children after keys moved between
the children. -/
structure PairStep (h p : ℕ) (K1 K2 : List κ) (P S : List (Node κ)) (c d : Node κ)
    (nd cd dd : Page κ) (c' d' : Node κ) (y : κ) : Prop where
  node : (⟨p, K1 ++ y :: K2, P ++ ([c', d'] ++ S)⟩ : Node κ).On (h + 1) nd
  left : c'.On h cd
  right : d'.On h dd
  page_left : c'.page = c.page
  page_right : d'.page = d.page
  kids : c'.kids ++ d'.kids = c.kids ++ d.kids

/-- Two children of a node with other keys, after the writes. -/
structure PairWritten (s : BTree κ) (R : Multiset ℕ) (h p : ℕ) (K1 K2 : List κ)
    (P S : List (Node κ)) (c d : Node κ) (y : κ) (s1 : BTree κ) (ref : PageRef κ) : Prop where
  frame : Frame s s1 R
  stands : Stands s1 R ref (h + 1) ⟨p, K1 ++ y :: K2, P ++ ([c, d] ++ S)⟩

/-- The node and both children are written, the children in any order. -/
theorem PairStep.commit {l : List (ℕ × Page κ)}
    (hs : Held s R ref (h + 1) ⟨p, K1 ++ x :: K2, P ++ ([c, d] ++ S)⟩)
    (hpair : PairStep h p K1 K2 P S c d nd cd dd c' d' y)
    (hl : l.Perm [(c.page, cd), (d.page, dd)]) :
    PairWritten s R h p K1 K2 P S c' d' y (s.commit ref p nd l) (ref.assign ⟨p, nd⟩) ∧
      (s.commit ref p nd l).wrapper c.page = ⟨c.page, cd⟩ ∧
      (s.commit ref p nd l).wrapper d.page = ⟨d.page, dd⟩ := by
  have hlp : (l.map Prod.fst).Perm [c.page, d.page] := hl.map Prod.fst
  have hnd : (p :: l.map Prod.fst).Nodup := (hlp.cons p).nodup_iff.mpr hs.nodup_mid
  have hkids : [c', d'].flatMap Node.kids = [c, d].flatMap Node.kids := by
    simpa using hpair.kids
  have hpages : ([c', d'].map Node.page) = [c, d].map Node.page := by
    simp [hpair.page_left, hpair.page_right]
  have hstore : Store s ((⟨p, K1 ++ y :: K2, P ++ ([c', d'] ++ S)⟩ : Node κ).pages (h + 1) + R) := by
    rw [pages_mid, hkids, hpages, ← pages_mid]
    exact hs.store
  have hcl : (c.page, cd) ∈ l := hl.mem_iff.mpr (by simp)
  have hdl : (d.page, dd) ∈ l := hl.mem_iff.mpr (by simp)
  obtain ⟨hstands, hframe⟩ := hs.commit (Frame.refl s _) rfl hstore hnd
    (fun z hz => Or.inl (hlp.mem_iff.mp hz)) hpair.node
    (by
      simp only [List.mem_cons, List.not_mem_nil, or_false, forall_eq_or_imp, forall_eq]
      rw [hpair.page_left, hpair.page_right]
      exact ⟨⟨cd, hcl, hpair.left⟩, dd, hdl, hpair.right⟩)
    hkids
  exact ⟨⟨hframe, hstands⟩, commit_wrapper hnd hcl, commit_wrapper hnd hdl⟩

/-- The other pages stay as they are. -/
theorem commit_page_other {l : List (ℕ × Page κ)} (hl : l.Perm [(c.page, cd), (d.page, dd)]) {q : ℕ}
    (hp : q ≠ p) (hc : q ≠ c.page) (hd : q ≠ d.page) :
    (s.commit ref p nd l).stream.page q = s.stream.page q := by
  have hlp : (l.map Prod.fst).Perm [c.page, d.page] := hl.map Prod.fst
  have hq : q ∉ l.map Prod.fst := fun hmem => by simp [hlp.mem_iff, hc, hd] at hmem
  rw [BTree.commit, write_page, Function.update_of_ne hp, foldl_write_page _ _ hq, assign_stream]

theorem Stands.holds_pair (hs : Stands s R ref (h + 1) ⟨p, K1 ++ x :: K2, P ++ ([c, d] ++ S)⟩) :
    (s.wrapper p).data.Holds false (K1 ++ x :: K2) ((P ++ ([c, d] ++ S)).map Node.page) ∧
      Rep s.stream.page h c ∧ Rep s.stream.page h d := by
  refine ⟨hs.rep.on, hs.rep.2 c (by simp), hs.rep.2 d (by simp)⟩

end BTreesMods

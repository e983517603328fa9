import BTreesMods.Lookup.SearchAll

/-!
# Scanning a tree

`searchAll` with a comparator whose `isEqual` is always true (`SearchAllByteComparator`) does not stop at a
key that differs from `k`: from the first record that is not less than `k` it takes all of them.

* `searchAll_scans`: the records that are not less than `k`, each once.
-/

namespace BTreesMods

variable {κ : Type}

/-- The comparator with an `isEqual` that is always true. -/
def Cfg.scanning (T : Cfg κ) : Cfg κ := { T with isEqual := fun _ _ => true }

/-- The records of a sequence that are not less than `k`. -/
def notBelow (T : Cfg κ) (k : κ) (ts : List (Token κ)) : List κ :=
  (recordsOf ts).filter fun x => !T.compare x k

section

variable {T : Cfg κ} {s : BTree κ} {k : κ} {ts us : List (Token κ)}

@[simp] theorem notBelow_nil : notBelow T k [] = [] := rfl

@[simp] theorem notBelow_append : notBelow T k (ts ++ us) = notBelow T k ts ++ notBelow T k us := by
  simp [notBelow]

theorem notBelow_eq_nil (hlt : ∀ y ∈ ts, T.compare y.key k = true) : notBelow T k ts = [] := by
  rw [notBelow, List.filter_eq_nil_iff]
  intro x hx
  rw [show T.compare x k = true from hlt _ (mem_recordsOf.mp hx)]
  exact Bool.false_ne_true

/-- The keys that are not cut off are not less. -/
theorem LowerCut.not_lt {h : ℕ} {A B : List κ} {C : List (List (Token κ))} (hlt : StrictWeak T.compare)
    (hcut : LowerCut T.compare k A B) (hC : C.length = B.length + 1)
    (hs : Sorted T.compare (weave C (B.map (T.tokenAt h)))) : ∀ b ∈ B, T.compare b k = false := by
  intro b hb
  cases B with
  | nil => cases hb
  | cons b' B =>
    have hb' := hcut.not_lt_head b' (by simp)
    rcases List.mem_cons.mp hb with rfl | hb
    · exact hb'
    · obtain ⟨c, C, rfl⟩ := List.exists_cons_of_length_eq_add_one hC
      have hmem : T.tokenAt h b ∈ weave C (B.map (T.tokenAt h)) :=
        mem_weave (by simpa using hC) (List.mem_map_of_mem hb)
      have hbb := (sorted_cons.mp (sorted_append.mp hs).2.1).1 _ hmem
      rw [key_tokenAt, key_tokenAt] at hbb
      exact hlt.le_trans hb' hbb

/-- A key behind the first ones. -/
theorem Page.Holds.getKey_drop {pg : Page κ} {leaf : Bool} {A B : List κ} {cs : List ℕ} {slots j : ℕ} {b : κ}
    (h : pg.Holds leaf (A ++ B) cs) (hs : pg.keysNum ≤ slots) (hb : B[j]? = some b) :
    pg.getKey slots (A.length + j) = .ok b := by
  obtain ⟨hj, rfl⟩ := List.getElem?_eq_some_iff.mp hb
  rw [← List.take_append_drop j B, List.drop_eq_getElem_cons hj, ← List.append_assoc] at h
  have hget := h.getKey hs
  rwa [List.length_append, List.length_take, Nat.min_eq_left (Nat.le_of_lt hj)] at hget

/-! ### The comparator of a scan -/

theorem tokens_scanning (T : Cfg κ) (h : ℕ) (t : Node κ) : t.tokens T.scanning h = t.tokens T h := by
  induction h generalizing t with
  | zero => rfl
  | succ h ih =>
    have hmap : t.kids.map (Node.tokens T.scanning h) = t.kids.map (Node.tokens T h) :=
      List.map_congr_left fun c _ => ih c
    show weave (t.kids.map (Node.tokens T.scanning h)) (t.keys.map T.sep) = _
    rw [hmap]
    rfl

theorem routersFit_scanning {h : ℕ} {t : Node κ} (hfit : t.RoutersFit T h) :
    t.RoutersFit T.scanning h := by
  induction h generalizing t with
  | zero => trivial
  | succ h ih =>
    refine ⟨?_, fun c hc => ih (hfit.2 c hc)⟩
    intro i c d x hc hd hx
    obtain ⟨⟨m, hm, heq, hmax⟩, hright⟩ := hfit.1 i c d x hc hd hx
    refine ⟨⟨m, ?_, heq, ?_⟩, ?_⟩
    · rw [Node.records, tokens_scanning]
      exact hm
    · rw [tokens_scanning]
      exact hmax
    · rw [tokens_scanning]
      exact hright

/-! ## The loop -/

variable {visit : PageWrapper κ → List κ → TreeM κ (List κ × ℕ)} {pw : PageWrapper κ}

/-- A look into child `i` that takes the records of the run `c` that are not less than `k`. -/
def ScansRun (T : Cfg κ) (k : κ) (visit : PageWrapper κ → List κ → TreeM κ (List κ × ℕ))
    (pw : PageWrapper κ) (s : BTree κ) (i : ℕ) (c : List (Token κ)) : Prop :=
  ∀ keys, ∃ L, visitChild T visit pw i keys s = .ok ((keys ++ L, L.length), s) ∧ L.Perm (notBelow T k c)

/-- The loop of `searchAll` goes over all keys `B`, none of which is less than `k`: what it takes and what
is in the last of the runs `C` is all that there is. -/
theorem searchAllLoop_scans (hall : ∀ a b, T.isEqual a b = true) (countKeys : Bool) (first : ℕ)
    {f : κ → Token κ} (hf : ∀ x, f x = if countKeys then .record x else .router x) {B : List κ}
    {C : List (List (Token κ))} {i : ℕ} (hlen : C.length = B.length + 1)
    (hkey : ∀ j b, B[j]? = some b → pw.data.getKey T.slots (i + j) = .ok b)
    (hvisit : ∀ j c, C[j]? = some c → ScansRun T k visit pw s (i + j) c)
    (hge : ∀ b ∈ B, T.compare b k = false) (keys : List κ) (amount : ℕ) :
    ∃ L c, searchAllLoop T k visit pw countKeys first B.length i keys amount s =
        .ok ((i + B.length, keys ++ L, amount + L.length), s) ∧ C[B.length]? = some c ∧
      (L ++ notBelow T k c).Perm (notBelow T k (weave C (B.map f))) := by
  induction B generalizing C i keys amount with
  | nil =>
    obtain ⟨c, rfl⟩ := List.length_eq_one_iff.mp hlen
    exact ⟨[], c, by simp [searchAllLoop]; rfl, rfl, by simp⟩
  | cons b B ih =>
    obtain ⟨c, C, rfl⟩ := List.exists_cons_of_length_eq_add_one hlen
    have hb : pw.data.getKey T.slots i = .ok b := hkey 0 b rfl
    have hweave : weave (c :: C) (f b :: B.map f) = c ++ f b :: weave C (B.map f) := rfl
    let counted := if countKeys && T.isEqual k b then [b] else []
    obtain ⟨L1, hL1, hperm1⟩ := hvisit 0 c rfl (keys ++ counted)
    obtain ⟨L2, c', hloop, hc', hperm2⟩ := ih (i := i + 1) (C := C) (by simpa using hlen)
      (fun j x hx => by rw [Nat.add_right_comm]; exact hkey (j + 1) x (by simpa using hx))
      (fun j x hx => by rw [Nat.add_right_comm]; exact hvisit (j + 1) x (by simpa using hx))
      (fun x hx => hge x (by simp [hx])) (keys ++ counted ++ L1) (amount + counted.length + L1.length)
    have hcounted : notBelow T k [f b] = counted := by
      have hbk : T.compare b k = false := hge b (by simp)
      show notBelow T k [f b] = if countKeys && T.isEqual k b then [b] else []
      rw [hf, hall]
      cases countKeys <;> simp [notBelow, hbk]
    refine ⟨counted ++ L1 ++ L2, c', ?_, by simpa using hc', ?_⟩
    · rw [Nat.add_zero] at hL1
      rw [List.length_cons, searchAllLoop_succ, bind_run (onPages_run hb s), if_pos (Or.inr (hall k b))]
      dsimp only
      rw [bind_run hL1, hloop]
      simp only [List.length_append, List.append_assoc, Nat.add_assoc, Nat.add_comm 1 B.length]
    · rw [List.map_cons, hweave, List.append_cons, notBelow_append, notBelow_append, hcounted]
      calc counted ++ L1 ++ L2 ++ notBelow T k c'
          = (counted ++ L1) ++ (L2 ++ notBelow T k c') := by simp
        _ |>.Perm ((counted ++ notBelow T k c) ++ notBelow T k (weave C (B.map f))) :=
          ((hperm1.append_left _).append hperm2)
        _ |>.Perm _ := List.perm_append_comm.append_right _

end

/-! ## Pages -/

section

variable {T : Cfg κ} {s : BTree κ} {h fuel : ℕ} {t : Node κ} {pw : PageWrapper κ} {k : κ}

/-- The look into child `i` of a page. -/
theorem scansRun (hread : Readable T s h t pw)
    (ih : ∀ {g : ℕ} {c : Node κ} {pw : PageWrapper κ}, Readable T s g c pw → g < fuel →
      ∀ keys, ∃ L, searchAllPage T k fuel pw keys s = .ok ((keys ++ L, L.length), s) ∧
        L.Perm (notBelow T k (c.tokens T g)))
    (hfuel : h < fuel + 1) {i : ℕ} {c : List (Token κ)} (hc : (t.runs T h)[i]? = some c) :
    ScansRun T k (searchAllPage T k fuel) pw s i c := by
  intro keys
  have hleaf : pw.data.isLeaf = (h == 0) := hread.on.leaf_eq
  unfold visitChild
  cases h with
  | zero =>
    rw [if_neg (by simp [hleaf])]
    have hmem := List.mem_of_getElem? hc
    obtain rfl : c = [] := List.eq_of_mem_replicate hmem
    exact ⟨[], by rw [List.append_nil]; rfl, by simp⟩
  | succ h =>
    obtain ⟨p, K, C⟩ := t
    have hlen : C.length = K.length + 1 := hread.on.length_kids
    have hi : i < C.length := by
      have := (List.getElem?_eq_some_iff.mp hc).1
      rwa [Node.runs, List.length_map] at this
    obtain ⟨K1, K2, rfl, hK1⟩ : ∃ K1 K2, K = K1 ++ K2 ∧ K1.length = i :=
      ⟨K.take i, K.drop i, by simp, by rw [List.length_take]; omega⟩
    obtain ⟨P, d, S, rfl, hP⟩ := exists_kid hlen
    have hd : c = d.tokens T h := by
      simp only [Node.runs, List.getElem?_map] at hc
      rw [← hK1, ← hP] at hc
      simpa using hc.symm
    obtain ⟨L, hL, hperm⟩ := ih (hread.kid hP) (by omega) keys
    have hkid := hread.readKid hP
    rw [hK1] at hkid
    rw [if_pos (by simp [hleaf]), bind_run hkid, hd]
    exact ⟨L, hL, hperm⟩

/-- `searchAll` of a page. -/
theorem searchAllPage_scans (hlt : StrictWeak T.compare) (hall : ∀ a b, T.isEqual a b = true)
    (hread : Readable T s h t pw) (hfuel : h < fuel) (keys : List κ) :
    ∃ L, searchAllPage T k fuel pw keys s = .ok ((keys ++ L, L.length), s) ∧
      L.Perm (notBelow T k (t.tokens T h)) := by
  induction fuel generalizing h t pw keys with
  | zero => omega
  | succ fuel ih =>
    have hvisit := fun i c => scansRun (i := i) (c := c) hread (fun hr hg => ih hr hg) hfuel
    have hlen := length_runs (T := T) hread.on
    have hs := hread.sorted
    have hon := hread.on
    have hkn : pw.data.keysNum ≤ T.slots := by
      rw [hon.keysNum_eq]
      exact hread.fits.length_le
    have hleaf : pw.data.isLeaf = (h == 0) := hon.leaf_eq
    obtain ⟨A, B, hAB, hcut, hlower⟩ := Page.Holds.lowerBound T.compare k hon hkn
    rw [tokens_eq_weave] at hs ⊢
    obtain ⟨P, C, hPC, hP⟩ : ∃ P C, t.runs T h = P ++ C ∧ P.length = A.length := by
      refine ⟨(t.runs T h).take A.length, (t.runs T h).drop A.length, by simp, ?_⟩
      rw [List.length_take, hlen, hAB, List.length_append]
      omega
    have hC : C.length = B.length + 1 := by
      rw [hPC, hAB, List.length_append, List.length_append] at hlen
      omega
    have hP' : P.length = (A.map (T.tokenAt h)).length := by rw [List.length_map, hP]
    rw [hPC, hAB, List.map_append, weave_before (List.ne_nil_of_length_eq_add_one hC) hP'] at hs ⊢
    -- in front of the first key that is not less everything is less
    have hbefore : notBelow T k (before P (A.map (T.tokenAt h))) = [] :=
      notBelow_eq_nil (before_lt (f := T.tokenAt h) hlt (key_tokenAt T h) hcut hP hs)
    have hge := hcut.not_lt hlt hC (sorted_append.mp hs).2.1
    have hrun (j : ℕ) (c : List (Token κ)) (hc : C[j]? = some c) :
        ScansRun T k (searchAllPage T k fuel) pw s (A.length + j) c := by
      apply hvisit (A.length + j) c
      rw [hPC, List.getElem?_append_right (by omega), hP, Nat.add_sub_cancel_left]
      exact hc
    have hheld : pw.data.Holds (h == 0) (A ++ B) (t.kids.map Node.page) := by
      rw [← hAB]
      exact hon
    obtain ⟨L, c, hloop, hc, hperm⟩ := searchAllLoop_scans (i := A.length) (f := T.tokenAt h) hall
      (!T.treeType.hasRouters || pw.data.isLeaf) A.length
      (fun x => by
        rw [hleaf]
        cases h <;> cases hr : T.treeType.hasRouters <;> simp [Cfg.tokenAt, Cfg.sep, hr]) hC
      (fun j b hb => hheld.getKey_drop hkn hb) hrun hge keys 0
    obtain ⟨L', hL', hperm'⟩ := hrun B.length c hc (keys ++ L)
    refine ⟨L ++ L', ?_, ?_⟩
    · have hn : pw.data.keysNum - A.length = B.length := by
        rw [hon.keysNum_eq, hAB, List.length_append]
        omega
      rw [searchAllPage_succ, bind_run (onPages_run hlower s), hn, bind_run hloop]
      dsimp only
      rw [bind_run hL']
      simp
      rfl
    · rw [notBelow_append, hbefore, List.nil_append]
      exact (hperm'.append_left L).trans hperm

/-- `searchAll` with the scanning comparator on a tree sorted by `compare`. -/
theorem searchAll_scans (hlt : StrictWeak T.compare) (hread : Readable T s h t s.rootPage) (k : κ)
    (keys : List κ) : ∃ L, searchAll T.scanning k keys s = .ok ((keys ++ L, L.length), s) ∧
      L.Perm ((t.records T h).filter fun x => !T.compare x k) := by
  have hread' : Readable T.scanning s h t s.rootPage := by
    refine ⟨hread.on, hread.below, hread.store, hread.fits, ?_, ?_⟩
    · rw [tokens_scanning]
      exact hread.sorted
    · intro hrouters
      exact routersFit_scanning (hread.routers hrouters)
  have hscan := searchAllPage_scans (T := T.scanning) (k := k) hlt (fun _ _ => rfl) hread'
    hread.height_lt keys
  rwa [tokens_scanning] at hscan

end

end BTreesMods

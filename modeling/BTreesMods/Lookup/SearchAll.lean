import BTreesMods.Lookup.Search

/-!
# Lookup of all records

`searchAll` goes over the keys of a page from the first one that is not less than `k`, past that one
and on while they are equal to `k`, and looks into the child in front of each of them and into the
one where it stops. A leaf is looked at as a page with empty children.
-/

namespace BTreesMods

variable {κ : Type}

/-! ## Runs -/

/-- The records of a sequence that are equal to `k`. -/
def matching (T : Cfg κ) (k : κ) (ts : List (Token κ)) : List κ :=
  (recordsOf ts).filter (T.isEqual k)

/-- The sequences below the children of a node, which are empty for a leaf. -/
def Node.runs (T : Cfg κ) : ℕ → Node κ → List (List (Token κ))
  | 0, t => List.replicate (t.keys.length + 1) []
  | h + 1, t => t.kids.map (tokens T h)

section

variable {T : Cfg κ} {s : BTree κ} {h : ℕ} {t : Node κ} {k : κ} {ts us : List (Token κ)}

@[simp] theorem matching_nil : matching T k [] = [] := rfl

@[simp] theorem matching_append :
    matching T k (ts ++ us) = matching T k ts ++ matching T k us := by
  simp [matching]

theorem matching_eq_nil (hne : ∀ y ∈ ts, T.isEqual k y.key = false) : matching T k ts = [] := by
  rw [matching, List.filter_eq_nil_iff]
  intro x hx
  rw [show T.isEqual k x = false from hne _ (mem_recordsOf.mp hx)]
  exact Bool.false_ne_true

theorem tokens_eq_weave : t.tokens T h = weave (t.runs T h) (t.keys.map (T.tokenAt h)) := by
  cases h with
  | zero =>
    have := weave_replicate_nil (t.keys.map Token.record)
    rw [List.length_map] at this
    exact this.symm
  | succ h =>
    rw [show T.tokenAt (h + 1) = T.sep from funext fun x => if_neg (Nat.succ_ne_zero h)]
    rfl

theorem length_runs {pg : Page κ} (hon : t.On h pg) : (t.runs T h).length = t.keys.length + 1 := by
  cases h with
  | zero => simp [Node.runs]
  | succ h =>
    rw [Node.runs, List.length_map]
    exact hon.length_kids

end

/-! ## The loop -/

/-- The look into child `i`, if the page has children. -/
def visitChild (T : Cfg κ) (visit : PageWrapper κ → List κ → TreeM κ (List κ × ℕ))
    (currentPage : PageWrapper κ) (i : ℕ) (keys : List κ) : TreeM κ (List κ × ℕ) := do
  if !currentPage.data.isLeaf then do
    let nextPage ← readPageFromChild T currentPage i
    visit nextPage keys
  else return (keys, 0)

section

variable {T : Cfg κ} {s : BTree κ} {k : κ} {visit : PageWrapper κ → List κ → TreeM κ (List κ × ℕ)}
  {pw : PageWrapper κ} {countKeys : Bool} {first : ℕ}

theorem searchAllLoop_succ (n i : ℕ) (keys : List κ) (amount : ℕ) :
    searchAllLoop T k visit pw countKeys first (n + 1) i keys amount = (do
      let key ← onPages (pw.data.getKey T.slots i)
      if i = first ∨ T.isEqual k key then do
        let counted := if countKeys && T.isEqual k key then [key] else []
        let (keys, found) ← visitChild T visit pw i (keys ++ counted)
        searchAllLoop T k visit pw countKeys first n (i + 1) keys (amount + counted.length + found)
      else return (i, keys, amount)) := by
  conv_lhs => unfold searchAllLoop
  congr
  funext key
  congr
  cases countKeys && T.isEqual k key <;> cases hl : pw.data.isLeaf <;> simp [visitChild, hl]

/-- A look into child `i` that finds what is equal to `k` in the run `c`. -/
def VisitsRun (T : Cfg κ) (k : κ) (visit : PageWrapper κ → List κ → TreeM κ (List κ × ℕ))
    (pw : PageWrapper κ) (s : BTree κ) (i : ℕ) (c : List (Token κ)) : Prop :=
  ∀ keys, ∃ L, visitChild T visit pw i keys s = .ok ((keys ++ L, L.length), s) ∧
    L.Perm (matching T k c)

/-- The loop of `searchAll` over the keys `B`, none of which is less than `k`, and the runs `C`: what
it finds and what is in the run where it stops is all that there is. -/
theorem searchAllLoop_spec (hlt : StrictWeak T.compare) (heq : T.Equates) (countKeys : Bool)
    (first : ℕ) {f : κ → Token κ}
    (hf : ∀ x, f x = if countKeys then .record x else .router x) {B : List κ}
    {C : List (List (Token κ))} {i : ℕ} (hlen : C.length = B.length + 1)
    (hkey : ∀ j b, B[j]? = some b → pw.data.getKey T.slots (i + j) = .ok b)
    (hvisit : ∀ j c, C[j]? = some c → VisitsRun T k visit pw s (i + j) c)
    (hge : ∀ b ∈ B, T.compare b k = false) (hs : Sorted T.compare (weave C (B.map f)))
    (keys : List κ) (amount : ℕ) :
    ∃ j L c, searchAllLoop T k visit pw countKeys first B.length i keys amount s =
        .ok ((i + j, keys ++ L, amount + L.length), s) ∧ C[j]? = some c ∧
      (L ++ matching T k c).Perm (matching T k (weave C (B.map f))) := by
  have hkeyf : ∀ x, (f x).key = x := fun x => by
    rw [hf]
    split <;> rfl
  induction B generalizing C i keys amount with
  | nil =>
    obtain ⟨c, rfl⟩ := List.length_eq_one_iff.mp hlen
    exact ⟨0, [], c, by simp [searchAllLoop]; rfl, rfl, by simp⟩
  | cons b B ih =>
    obtain ⟨c, C, rfl⟩ := List.exists_cons_of_length_eq_add_one hlen
    have hb : pw.data.getKey T.slots i = .ok b := hkey 0 b rfl
    rw [List.map_cons] at hs ⊢
    change Sorted T.compare (c ++ f b :: weave C (B.map f)) at hs
    have hweave : weave (c :: C) (f b :: B.map f) = c ++ f b :: weave C (B.map f) := rfl
    rw [List.length_cons, searchAllLoop_succ, bind_run (onPages_run hb s), hweave]
    by_cases hon : i = first ∨ T.isEqual k b = true
    · -- one key and the child in front of it
      rw [if_pos hon]
      obtain ⟨L1, hL1, hperm1⟩ := hvisit 0 c rfl
        (keys ++ if countKeys && T.isEqual k b then [b] else [])
      obtain ⟨j, L2, c', hloop, hc', hperm2⟩ := ih (i := i + 1) (C := C) (by simpa using hlen)
        (fun j x hx => by rw [Nat.add_right_comm]; exact hkey (j + 1) x (by simpa using hx))
        (fun j x hx => by rw [Nat.add_right_comm]; exact hvisit (j + 1) x (by simpa using hx))
        (fun x hx => hge x (by simp [hx]))
        (sorted_cons.mp (sorted_append.mp hs).2.1).2
        (keys ++ (if countKeys && T.isEqual k b then [b] else []) ++ L1)
        (amount + (if countKeys && T.isEqual k b then [b] else []).length + L1.length)
      have hcounted : matching T k [f b] = if countKeys && T.isEqual k b then [b] else [] := by
        rw [hf]
        cases countKeys <;> by_cases hkb : T.isEqual k b = true <;> simp [matching, hkb]
      refine ⟨j + 1, matching T k [f b] ++ L1 ++ L2, c', ?_, by simpa using hc', ?_⟩
      · rw [Nat.add_zero] at hL1
        dsimp only
        rw [bind_run hL1, hloop, hcounted]
        simp only [List.length_append, List.append_assoc, Nat.add_assoc, Nat.add_comm 1 j]
      · rw [List.append_cons, matching_append, matching_append]
        calc matching T k [f b] ++ L1 ++ L2 ++ matching T k c'
            = (matching T k [f b] ++ L1) ++ (L2 ++ matching T k c') := by simp
          _ |>.Perm ((matching T k [f b] ++ matching T k c) ++ matching T k (weave C (B.map f))) :=
            ((hperm1.append_left _).append hperm2)
          _ |>.Perm _ := List.perm_append_comm.append_right _
    · -- everything from here on is greater than `k`
      rw [if_neg hon]
      have hkb : T.compare k b = true :=
        heq.lt_of_ne (hge b (by simp)) (by simpa using (not_or.mp hon).2)
      have hafter := after_gt (f := f) (B := B) (C := C) hlt hkeyf hkb
        (sorted_append.mp hs).2.1
      have hnil : matching T k (f b :: weave C (B.map f)) = [] :=
        matching_eq_nil fun y hy => heq.ne_of_gt (hafter y hy)
      exact ⟨0, [], c, by simp; rfl, rfl, by rw [matching_append, hnil]; simp⟩

end

/-! ## Pages -/

section

variable {T : Cfg κ} {s : BTree κ} {h fuel : ℕ} {t : Node κ} {pw : PageWrapper κ} {k : κ}

theorem searchAllPage_succ (T : Cfg κ) (k : κ) (fuel : ℕ) (pw : PageWrapper κ) (keys : List κ) :
    searchAllPage T k (fuel + 1) pw keys = (do
      let first ← onPages (pw.data.lowerBound T.slots T.compare k pw.data.keysNum 0)
      let (i, keys, amount) ← searchAllLoop T k (searchAllPage T k fuel) pw
        (!T.treeType.hasRouters || pw.data.isLeaf) first (pw.data.keysNum - first) first keys 0
      let (keys, found) ← visitChild T (searchAllPage T k fuel) pw i keys
      return (keys, amount + found)) := by
  conv_lhs => unfold searchAllPage
  funext first
  cases T.treeType <;> cases hl : pw.data.isLeaf <;> simp [visitChild, hl, TreeType.hasRouters]

/-- The look into child `i` of a page. -/
theorem visitsRun (hread : Readable T s h t pw)
    (ih : ∀ {g : ℕ} {c : Node κ} {pw : PageWrapper κ}, Readable T s g c pw → g < fuel →
      ∀ keys, ∃ L, searchAllPage T k fuel pw keys s = .ok ((keys ++ L, L.length), s) ∧
        L.Perm (matching T k (c.tokens T g)))
    (hfuel : h < fuel + 1) {i : ℕ} {c : List (Token κ)} (hc : (t.runs T h)[i]? = some c) :
    VisitsRun T k (searchAllPage T k fuel) pw s i c := by
  intro keys
  have hleaf : pw.data.isLeaf = (h == 0) := hread.on.leaf_eq
  unfold visitChild
  cases h with
  | zero =>
    rw [if_neg (by simp [hleaf])]
    have hmem := List.mem_of_getElem? hc
    obtain rfl : c = [] := List.eq_of_mem_replicate hmem
    exact ⟨[], by rw [List.append_nil]; rfl, by simp⟩
  | succ h =>
    obtain ⟨p, K, C⟩ := t
    have hlen : C.length = K.length + 1 := hread.on.length_kids
    have hi : i < C.length := by
      have := (List.getElem?_eq_some_iff.mp hc).1
      rwa [Node.runs, List.length_map] at this
    obtain ⟨K1, K2, rfl, hK1⟩ : ∃ K1 K2, K = K1 ++ K2 ∧ K1.length = i :=
      ⟨K.take i, K.drop i, by simp, by rw [List.length_take]; omega⟩
    obtain ⟨P, d, S, rfl, hP⟩ := exists_kid hlen
    have hd : c = d.tokens T h := by
      simp only [Node.runs, List.getElem?_map] at hc
      rw [← hK1, ← hP] at hc
      simpa using hc.symm
    obtain ⟨L, hL, hperm⟩ := ih (hread.kid hP) (by omega) keys
    have hkid := hread.readKid hP
    rw [hK1] at hkid
    rw [if_pos (by simp [hleaf]), bind_run hkid, hd]
    exact ⟨L, hL, hperm⟩

/-- `searchAll` of a page. -/
theorem searchAllPage_spec (hlt : StrictWeak T.compare) (heq : T.Equates)
    (hread : Readable T s h t pw) (hfuel : h < fuel) (keys : List κ) :
    ∃ L, searchAllPage T k fuel pw keys s = .ok ((keys ++ L, L.length), s) ∧
      L.Perm (matching T k (t.tokens T h)) := by
  induction fuel generalizing h t pw keys with
  | zero => omega
  | succ fuel ih =>
    have hvisit := fun i c => visitsRun (i := i) (c := c) hread (fun hr hg => ih hr hg) hfuel
    have hlen := length_runs (T := T) hread.on
    have hs := hread.sorted
    have hon := hread.on
    have hkn : pw.data.keysNum ≤ T.slots := by
      rw [hon.keysNum_eq]
      exact hread.fits.length_le
    have hleaf : pw.data.isLeaf = (h == 0) := hon.leaf_eq
    obtain ⟨A, B, hAB, hcut, hlower⟩ := Page.Holds.lowerBound T.compare k hon hkn
    rw [tokens_eq_weave] at hs ⊢
    obtain ⟨P, C, hPC, hP⟩ : ∃ P C, t.runs T h = P ++ C ∧ P.length = A.length := by
      refine ⟨(t.runs T h).take A.length, (t.runs T h).drop A.length, by simp, ?_⟩
      rw [List.length_take, hlen, hAB, List.length_append]
      omega
    have hC : C.length = B.length + 1 := by
      rw [hPC, hAB, List.length_append, List.length_append] at hlen
      omega
    have hP' : P.length = (A.map (T.tokenAt h)).length := by rw [List.length_map, hP]
    rw [hPC, hAB, List.map_append, weave_before (List.ne_nil_of_length_eq_add_one hC) hP'] at hs ⊢
    obtain ⟨-, hsC, -⟩ := sorted_append.mp hs
    have hge : ∀ b ∈ B, T.compare b k = false := by
      intro b hb
      cases B with
      | nil => cases hb
      | cons b' B =>
        have hb' := hcut.not_lt_head b' (by simp)
        rcases List.mem_cons.mp hb with rfl | hb
        · exact hb'
        · obtain ⟨c, C, rfl⟩ := List.exists_cons_of_length_eq_add_one hC
          have hmem : T.tokenAt h b ∈ weave C (B.map (T.tokenAt h)) :=
            mem_weave (by simpa using hC) (List.mem_map_of_mem hb)
          have hbb := (sorted_cons.mp (sorted_append.mp hsC).2.1).1 _ hmem
          rw [key_tokenAt, key_tokenAt] at hbb
          exact hlt.le_trans hb' hbb
    have hbefore : matching T k (before P (A.map (T.tokenAt h))) = [] := matching_eq_nil fun y hy =>
      heq.ne_of_lt (before_lt (f := T.tokenAt h) hlt (key_tokenAt T h) hcut hP hs y hy)
    obtain ⟨j, L, c, hloop, hc, hperm⟩ := searchAllLoop_spec (i := A.length) hlt heq
      (!T.treeType.hasRouters || pw.data.isLeaf) A.length (f := T.tokenAt h)
      (fun x => by
        rw [hleaf]
        cases h <;> cases hr : T.treeType.hasRouters <;> simp [Cfg.tokenAt, Cfg.sep, hr]) hC
      (fun j b hb => by
        obtain ⟨hj, rfl⟩ := List.getElem?_eq_some_iff.mp hb
        have hholds : pw.data.Holds (h == 0) t.keys (t.kids.map Node.page) := hon
        rw [hAB, ← List.take_append_drop j B, List.drop_eq_getElem_cons hj,
          ← List.append_assoc] at hholds
        have hget := hholds.getKey hkn
        rwa [List.length_append, List.length_take, Nat.min_eq_left (Nat.le_of_lt hj)] at hget)
      (fun j c hc => hvisit (A.length + j) c (by
        rw [hPC, List.getElem?_append_right (by omega), hP, Nat.add_sub_cancel_left]
        exact hc))
      hge hsC keys 0
    obtain ⟨L', hL', hperm'⟩ := hvisit (A.length + j) c (by
        rw [hPC, List.getElem?_append_right (by omega), hP, Nat.add_sub_cancel_left]
        exact hc) (keys ++ L)
    refine ⟨L ++ L', ?_, ?_⟩
    · have hn : pw.data.keysNum - A.length = B.length := by
        rw [hon.keysNum_eq, hAB, List.length_append]
        omega
      rw [searchAllPage_succ, bind_run (onPages_run hlower s), hn, bind_run hloop]
      dsimp only
      rw [bind_run hL']
      simp
      rfl
    · rw [matching_append, hbefore, List.nil_append]
      exact (hperm'.append_left L).trans hperm

/-- Lookup in a sorted tree whose routers fit: `searchAll` appends the records equal to `k`, each once,
and returns their number; `search` returns one of them, or null when there is none. -/
theorem lookup_correct (hlt : StrictWeak T.compare) (heq : T.Equates)
    (hread : Readable T s h t s.rootPage) (k : κ) (keys : List κ) :
    (∃ L, searchAll T k keys s = .ok ((keys ++ L, L.length), s) ∧
      L.Perm ((t.records T h).filter (T.isEqual k))) ∧
    ((∃ x ∈ t.records T h, T.isEqual k x = true ∧ search T k s = .ok (some x, s)) ∨
      ((∀ x ∈ t.records T h, T.isEqual k x = false) ∧ search T k s = .ok (none, s))) := by
  have hheight := hread.height_lt
  constructor
  · exact searchAllPage_spec hlt heq hread hheight keys
  · obtain ⟨r, -, -, hr, hfound, -⟩ := search_spec hlt heq hread k
    cases r with
    | some x => exact Or.inl ⟨x, hfound.1, hfound.2, hr⟩
    | none => exact Or.inr ⟨hfound, hr⟩

/-- A page with given keys and cursors. -/
def Page.ofLists (isLeaf : Bool) (ks cs : List ℕ) : Page ℕ :=
  { keysNum := ks.length, isLeaf := isLeaf
    key := fun j => ks.getD j 0, cursor := fun j => cs.getD j 0 }

/-- An open B+-tree with the leaves 1 2 and 2 3 below the router 2. -/
def twoLeaves : BTree ℕ where
  rootPage := ⟨3, Page.ofLists false [2] [1, 2]⟩
  lastPageNum := 3
  rootPageNum := 3
  freePagesCounter := 0
  stream :=
    { order := 2, recSize := 4, pageCounter := 3, rootPageNum := 3
      page := fun p => if p = 1 then Page.ofLists true [1, 2] [] else
        if p = 2 then Page.ofLists true [2, 3] [] else Page.ofLists false [2] [1, 2]
      freePagesCounter := 0, freePages := [] }
  noReturn := fun _ => false

theorem twoLeaves_readable : Readable (natCfg .bPlusTree 2) twoLeaves 1
    ⟨3, [2], [⟨1, [1, 2], []⟩, ⟨2, [2, 3], []⟩]⟩ twoLeaves.rootPage where
  on := ⟨rfl, rfl, rfl⟩
  below := by
    intro c hc
    simp only [List.mem_cons, List.not_mem_nil, or_false] at hc
    rcases hc with rfl | rfl
    · exact ⟨⟨rfl, rfl, rfl⟩, rfl⟩
    · exact ⟨⟨rfl, rfl, rfl⟩, rfl⟩
  store := ⟨0, by decide, rfl⟩
  fits := by
    refine ⟨by decide, fun c hc => ?_⟩
    simp only [List.mem_cons, List.not_mem_nil, or_false] at hc
    rcases hc with rfl | rfl
    · exact (by decide : 2 ≤ (natCfg .bPlusTree 2).slots)
    · exact (by decide : 2 ≤ (natCfg .bPlusTree 2).slots)
  sorted := by
    unfold Sorted
    decide
  routers := by
    intro _
    refine ⟨fun i c d x hc hd hx => ?_, fun c _ => trivial⟩
    obtain rfl : i = 0 := by
      have := (List.getElem?_eq_some_iff.mp hx).1
      simpa using this
    obtain rfl := Option.some.inj hc
    obtain rfl := Option.some.inj hd
    obtain rfl := Option.some.inj hx
    exact ⟨⟨2, by decide, by decide, by decide⟩, by decide⟩

/-- Looking for 2 in that tree, with a copy in each leaf. -/
theorem lookup_correct_twoLeaves :
    (∃ L, searchAll (natCfg .bPlusTree 2) 2 [] twoLeaves = .ok (([] ++ L, L.length), twoLeaves) ∧
      L.Perm [2, 2]) ∧
    ((∃ x ∈ [1, 2, 2, 3], (2 == x) = true ∧
        search (natCfg .bPlusTree 2) 2 twoLeaves = .ok (some x, twoLeaves)) ∨
      ((∀ x ∈ [1, 2, 2, 3], (2 == x) = false) ∧
        search (natCfg .bPlusTree 2) 2 twoLeaves = .ok (none, twoLeaves))) :=
  lookup_correct (natCfg_strictWeak _ _) (natCfg_equates _ _) twoLeaves_readable 2 []

end

end BTreesMods

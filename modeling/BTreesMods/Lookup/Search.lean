import BTreesMods.Tree.WellFormed

/-!
# Lookup of one record

`search` goes down from the root page, at each page to the child in front of the first key that is
not less than `k`. What stands in front of that child is less than `k`; what stands behind it is
greater, or equal to a router in front of it, and then the child has an equal record too.
-/

namespace BTreesMods

variable {κ : Type}

/-! ## Pages to look into -/

/-- `isEqual` is the equivalence of `compare`. -/
def Comparator.Equates (c : Comparator κ) : Prop :=
  ∀ a b, c.isEqual a b = true ↔ c.compare a b = false ∧ c.compare b a = false

theorem natCfg_equates (treeType : TreeType) (order : UInt16) :
    (natCfg treeType order).Equates := by
  intro a b
  simp only [natCfg, beq_iff_eq, decide_eq_false_iff_not]
  omega

/-- A wrapper `pw` of the topmost page of a sorted tree `t`, all of whose pages can be read. -/
structure Readable (T : Cfg κ) (s : BTree κ) (h : ℕ) (t : Node κ) (pw : PageWrapper κ) : Prop where
  on : t.On h pw.data
  below : RepBelow s.stream.page h t.kids
  store : ∃ R, Store s (t.pages h + R)
  fits : t.Fits T.slots h
  sorted : Sorted T.compare (t.tokens T h)
  routers : T.treeType.hasRouters = true → t.RoutersFit T h

section

variable {T : Cfg κ} {s : BTree κ} {h p : ℕ} {t c : Node κ} {pw : PageWrapper κ} {K1 K2 : List κ}
  {P S : List (Node κ)}

theorem WellFormed.readable (hT : T.Valid) (hw : WellFormed T s h t) :
    Readable T s h t s.rootPage := by
  obtain ⟨R, hs⟩ := hw.stands
  refine ⟨hs.on, hs.below, hw.store, ?_, hw.sorted, hw.routers⟩
  have hroot := hw.sized.le_max.trans (maxRootOf_le_slots hT h)
  cases h with
  | zero => exact hroot
  | succ h => exact ⟨hroot, fun c hc => (hw.sized.below c hc).fits hT⟩

/-- The topmost page of a tree is not deeper than the recursion goes. -/
theorem Readable.height_lt (hr : Readable T s h t pw) : h < s.lastPageNum + 1 := by
  obtain ⟨R, hst⟩ := hr.store
  exact hst.height_lt hr.on hr.below

/-- A child of a page to look into. -/
theorem Readable.kid (hr : Readable T s (h + 1) ⟨p, K1 ++ K2, P ++ c :: S⟩ pw)
    (hP : P.length = K1.length) : Readable T s h c (s.wrapper c.page) := by
  have hc : c ∈ P ++ c :: S := by simp
  obtain ⟨R, hst⟩ := hr.store
  refine ⟨(hr.below c hc).on, (hr.below c hc).below, ⟨around p h P S R, ?_⟩, hr.fits.2 c hc, ?_, ?_⟩
  · rw [← pages_around]
    exact hst
  · have hs := hr.sorted
    rw [tokens_around hP] at hs
    exact (sorted_append.mp (sorted_append.mp hs).2.1).1
  · exact fun hrouters => (hr.routers hrouters).2 c hc

/-- Reading the child in front of `K2`. -/
theorem Readable.readKid (hr : Readable T s (h + 1) ⟨p, K1 ++ K2, P ++ c :: S⟩ pw)
    (hP : P.length = K1.length) :
    readPageFromChild T pw K1.length s = .ok (s.wrapper c.page, s) := by
  obtain ⟨R, hst⟩ := hr.store
  rw [← hP]
  exact readPageFromChild_run hst (kid_page_mem (by simp)) hr.on rfl hr.fits.length_le

end

/-! ## What stands around the child -/

section

variable {lt : κ → κ → Bool} {k b : κ} {A B : List κ} {P C : List (List (Token κ))}
  {f : κ → Token κ} {X : List (Token κ)}

/-- What stands in front of the place where the scan of `search` stops is less than `k`. -/
theorem before_lt (hlt : StrictWeak lt) (hf : ∀ x, (f x).key = x) (hcut : LowerCut lt k A B)
    (hP : P.length = A.length) (hs : Sorted lt (before P (A.map f) ++ X)) :
    ∀ y ∈ before P (A.map f), lt y.key k = true := by
  rcases List.eq_nil_or_concat A with rfl | ⟨A, a, rfl⟩
  · obtain rfl := List.length_eq_zero_iff.mp hP
    intro y hy
    cases hy
  · obtain ⟨P, c, rfl⟩ : ∃ P' c, P = P' ++ [c] := by
      rcases List.eq_nil_or_concat P with rfl | ⟨P', c, rfl⟩
      · simp at hP
      · exact ⟨P', c, by simp⟩
    rw [List.concat_eq_append] at hP hcut hs ⊢
    have hak : lt a k = true := hcut.lt_left a (by simp)
    rw [List.map_append, List.map_singleton, before_concat _ _ (by simpa using hP),
      ← List.append_assoc] at hs ⊢
    intro y hy
    rcases List.mem_append.mp hy with hy | hy
    · have hya := (sorted_append.mp (sorted_append.mp hs).1).2.2 y hy (f a) (by simp)
      rw [hf] at hya
      exact hlt.lt_of_le_of_lt hya hak
    · rw [List.mem_singleton.mp hy, hf]
      exact hak

/-- What stands behind a key greater than `k` is greater than `k`. -/
theorem after_gt (hlt : StrictWeak lt) (hf : ∀ x, (f x).key = x) (hb : lt k b = true)
    (hs : Sorted lt (after ((b :: B).map f) C)) :
    ∀ y ∈ after ((b :: B).map f) C, lt k y.key = true := by
  rw [List.map_cons, after] at hs ⊢
  intro y hy
  rcases List.mem_cons.mp hy with rfl | hy
  · rwa [hf]
  · have hby := (sorted_cons.mp hs).1 y hy
    rw [hf] at hby
    exact hlt.lt_of_lt_of_le hb hby

end

/-! ## `search` -/

/-- The value of `search` for a sequence: an equal record if there is one. -/
def Found (T : Cfg κ) (k : κ) (ts : List (Token κ)) : Option κ → Prop
  | some x => x ∈ recordsOf ts ∧ T.isEqual k x = true
  | none => ∀ x ∈ recordsOf ts, T.isEqual k x = false

section

variable {T : Cfg κ} {s : BTree κ} {h fuel p : ℕ} {t c : Node κ} {pw : PageWrapper κ}
  {A B : List κ} {P S : List (Node κ)} {k x : κ} {ts F G : List (Token κ)} {r : Option κ}
  {pg : Page κ}

theorem Comparator.Equates.ne_of_lt {c : Comparator κ} (heq : c.Equates)
    (h : c.compare x k = true) : c.isEqual k x = false := by
  by_contra hne
  have := ((heq k x).mp (by simpa using hne)).2
  rw [h] at this
  exact Bool.false_ne_true this.symm

theorem Comparator.Equates.ne_of_gt {c : Comparator κ} (heq : c.Equates)
    (h : c.compare k x = true) : c.isEqual k x = false := by
  by_contra hne
  have := ((heq k x).mp (by simpa using hne)).1
  rw [h] at this
  exact Bool.false_ne_true this.symm

theorem Comparator.Equates.lt_of_ne {c : Comparator κ} (heq : c.Equates)
    (hge : c.compare x k = false) (hne : c.isEqual k x = false) : c.compare k x = true := by
  by_contra hlt
  rw [(heq k x).mpr ⟨by simpa using hlt, hge⟩] at hne
  exact Bool.false_ne_true hne.symm

/-- A sequence with nothing equal on the left, and on the right only if there is something equal in
the middle too. -/
theorem Found.context (hr : Found T k ts r) (hF : ∀ x ∈ recordsOf F, T.isEqual k x = false)
    (hG : (∀ x ∈ recordsOf ts, T.isEqual k x = false) → ∀ x ∈ recordsOf G, T.isEqual k x = false) :
    Found T k (F ++ (ts ++ G)) r := by
  cases r with
  | some x => exact ⟨by simp [hr.1], hr.2⟩
  | none =>
    intro x hx
    simp only [recordsOf_append, List.mem_append] at hx
    rcases hx with hx | hx | hx
    · exact hF x hx
    · exact hr x hx
    · exact hG hr x hx

/-- A leaf holds an equal record if the scan stops in front of one. -/
theorem found_leaf (hlt : StrictWeak T.compare) (heq : T.Equates) (hcut : LowerCut T.compare k A B)
    (hs : Sorted T.compare ((A ++ B).map .record)) (hb : B.head?.any (T.isEqual k) = false) :
    Found T k ((A ++ B).map .record) none := by
  intro x hx
  have hx : x ∈ A ∨ x ∈ B := by simpa [mem_recordsOf] using hx
  rcases hx with hx | hx
  · exact heq.ne_of_lt (hcut.lt_left x hx)
  · cases B with
    | nil => cases hx
    | cons b B =>
      have hkb : T.compare k b = true := heq.lt_of_ne (hcut.not_lt_head b (by simp)) (by simpa using hb)
      rcases List.mem_cons.mp hx with rfl | hx
      · exact heq.ne_of_gt hkb
      · rw [List.map_append, List.map_cons] at hs
        have hbx := (sorted_cons.mp (sorted_append.mp hs).2.1).1 (.record x) (by simpa using hx)
        exact heq.ne_of_gt (hlt.lt_of_lt_of_le hkb hbx)

/-- What is found below the child where the scan stops, when it does not stop in front of an equal
record. -/
theorem found_inner (hlt : StrictWeak T.compare) (heq : T.Equates)
    (hread : Readable T s (h + 1) ⟨p, A ++ B, P ++ c :: S⟩ pw) (hP : P.length = A.length)
    (hcut : LowerCut T.compare k A B)
    (hb : T.treeType.hasRouters = true ∨ B.head?.any (T.isEqual k) = false)
    (hr : Found T k (c.tokens T h) r) :
    Found T k ((⟨p, A ++ B, P ++ c :: S⟩ : Node κ).tokens T (h + 1)) r := by
  have hs := hread.sorted
  rw [tokens_around hP] at hs ⊢
  have hF := before_lt (f := T.sep) hlt (key_sep T) hcut (by simpa using hP) hs
  refine hr.context (fun x hx => heq.ne_of_lt (hF _ (mem_recordsOf.mp hx))) fun hc x hx => ?_
  cases B with
  | nil => cases hx
  | cons b B =>
    have hge : T.compare b k = false := hcut.not_lt_head b (by simp)
    by_cases hkb : T.isEqual k b = true
    · -- a router: its child has a record that is equal to it
      rcases hb with hrouters | hb
      · have hlen : (P ++ c :: S).length = (A ++ b :: B).length + 1 := by
          have := Page.Holds.length_cursors hread.on
          rwa [List.length_map] at this
        obtain ⟨d, S, rfl⟩ : ∃ d S', S = d :: S' :=
          List.exists_cons_of_length_pos (by simp [hP] at hlen; omega)
        have hfit := (hread.routers hrouters).1 P.length c d b (by simp)
          (by rw [List.getElem?_append_right (by omega)]; simp)
          (by rw [hP]; simp)
        obtain ⟨m, hm, ⟨hmb, hbm⟩, -⟩ := hfit.max_left
        have hkb' := (heq k b).mp hkb
        have hkm : T.isEqual k m = true :=
          (heq k m).mpr ⟨hlt.le_trans hbm hkb'.1, hlt.le_trans hkb'.2 hmb⟩
        rw [hc m hm] at hkm
        exact absurd hkm Bool.false_ne_true
      · simp [hkb] at hb
    · have hkb' : T.compare k b = true := heq.lt_of_ne hge (by simpa using hkb)
      have hG := after_gt (f := T.sep) hlt (key_sep T) hkb'
        (sorted_append.mp (sorted_append.mp hs).2.1).2.1
      exact heq.ne_of_gt (hG _ (mem_recordsOf.mp hx))

/-- A key of a page that holds records is found. -/
theorem found_key (hb : T.isEqual k x = true) (hx : T.tokenAt h x = .record x)
    (hon : (⟨p, A ++ x :: B, S⟩ : Node κ).On h pg) :
    Found T k ((⟨p, A ++ x :: B, S⟩ : Node κ).tokens T h) (some x) := by
  refine ⟨mem_recordsOf.mpr ?_, hb⟩
  rw [← hx]
  refine tokenAt_mem_tokens fun hh => ?_
  obtain ⟨h, rfl⟩ := Nat.exists_eq_succ_of_ne_zero hh
  exact hon.length_kids

/-- The step of `search` of a page: the derived classes with routers compare in leaves only. -/
theorem searchPage_succ (T : Cfg κ) (k : κ) (fuel : ℕ) (pw : PageWrapper κ) (depth m : ℕ) :
    searchPage T k (fuel + 1) pw depth m = (do
      let m := if depth > m then depth else m
      let i ← onPages (pw.data.lowerBound T.slots T.compare k pw.data.keysNum 0)
      if T.treeType.hasRouters && !pw.data.isLeaf then
        readPageFromChild T pw i >>= fun nextPage => searchPage T k fuel nextPage (depth + 1) m
      else do
        let found ← onPages (pw.data.isKeyAt T.slots T.isEqual k i)
        if found then return (some (← onPages (pw.data.getKey T.slots i)), m)
        else if pw.data.isLeaf then return (none, m)
        else readPageFromChild T pw i >>= fun nextPage => searchPage T k fuel nextPage (depth + 1) m) := by
  conv_lhs => unfold searchPage
  funext i
  cases T.treeType <;> cases pw.data.isLeaf <;> rfl

/-- `search` of a page goes down to a leaf at most. -/
theorem searchPage_spec (hlt : StrictWeak T.compare) (heq : T.Equates)
    (hread : Readable T s h t pw) (hfuel : h < fuel) (depth m : ℕ) :
    ∃ r d, searchPage T k fuel pw depth m s = .ok ((r, d), s) ∧ Found T k (t.tokens T h) r ∧
      d ≤ max m (depth + h) := by
  induction fuel generalizing h t pw depth m with
  | zero => omega
  | succ fuel ih =>
    obtain ⟨p, K, C⟩ := t
    have hon := hread.on
    have hkn : pw.data.keysNum ≤ T.slots := by
      rw [hon.keysNum_eq]
      exact hread.fits.length_le
    obtain ⟨A, B, hAB, hcut, hlower⟩ := Page.Holds.lowerBound T.compare k hon hkn
    obtain rfl : K = A ++ B := hAB
    have hkey : pw.data.isKeyAt T.slots T.isEqual k A.length = .ok (B.head?.any (T.isEqual k)) :=
      Page.Holds.isKeyAt hon hkn
    have hleaf : pw.data.isLeaf = (h == 0) := hon.leaf_eq
    obtain ⟨m', hm'⟩ : ∃ m', m' = if depth > m then depth else m := ⟨_, rfl⟩
    have hdepth : m' ≤ max m (depth + h) := by
      rw [hm']
      split <;> omega
    -- the three ways on from here
    have hfound : B.head?.any (T.isEqual k) = true → (∀ x, T.tokenAt h x = .record x) →
        ∃ x, onPages (pw.data.getKey T.slots A.length) s = .ok (x, s) ∧
          Found T k ((⟨p, A ++ B, C⟩ : Node κ).tokens T h) (some x) := by
      intro hb htok
      cases B with
      | nil => simp at hb
      | cons b B => exact ⟨b, onPages_run (hon.getKey hkn) s, found_key (by simpa using hb) (htok b) hon⟩
    have hnone : h = 0 → B.head?.any (T.isEqual k) = false →
        Found T k ((⟨p, A ++ B, C⟩ : Node κ).tokens T h) none := by
      rintro rfl hb
      exact found_leaf hlt heq hcut hread.sorted hb
    have hdown : h ≠ 0 → T.treeType.hasRouters = true ∨ B.head?.any (T.isEqual k) = false →
        ∃ r d, (readPageFromChild T pw A.length >>= fun nextPage =>
            searchPage T k fuel nextPage (depth + 1) m') s = .ok ((r, d), s) ∧
          Found T k ((⟨p, A ++ B, C⟩ : Node κ).tokens T h) r ∧ d ≤ max m (depth + h) := by
      intro hh hb
      obtain ⟨h, rfl⟩ := Nat.exists_eq_succ_of_ne_zero hh
      obtain ⟨P, c, S, rfl, hP⟩ := exists_kid (Node.On.length_kids hread.on)
      obtain ⟨r, d, hr, hfound, hd⟩ := ih (hread.kid hP) (by omega) (depth + 1) m'
      refine ⟨r, d, (bind_run (hread.readKid hP)).trans hr, found_inner hlt heq hread hP hcut hb hfound, ?_⟩
      omega
    rw [searchPage_succ, ← hm', bind_run (onPages_run hlower s)]
    by_cases hinner : T.treeType.hasRouters = true ∧ h ≠ 0
    · rw [if_pos (by simpa [hleaf] using hinner)]
      exact hdown hinner.2 (Or.inl hinner.1)
    · have htok : ∀ x, T.tokenAt h x = .record x := fun x => by
        by_cases hh : h = 0
        · simp [Cfg.tokenAt, hh]
        · have : T.treeType.hasRouters = false := by simpa [hh] using hinner
          simp [Cfg.tokenAt, Cfg.sep, this]
      rw [if_neg (by simpa [hleaf] using hinner), bind_run (onPages_run hkey s)]
      by_cases hb : B.head?.any (T.isEqual k) = true
      · obtain ⟨x, hx, hfx⟩ := hfound hb htok
        rw [if_pos hb, bind_run hx]
        exact ⟨some x, m', rfl, hfx, hdepth⟩
      · have hb : B.head?.any (T.isEqual k) = false := by simpa using hb
        rw [if_neg (by simp [hb])]
        by_cases hh : h = 0
        · rw [if_pos (by simpa [hleaf] using hh)]
          exact ⟨none, m', rfl, hnone hh hb, hdepth⟩
        · rw [if_neg (by simpa [hleaf] using hh)]
          exact hdown hh (Or.inr hb)

/-- `search` of a tree of height `h` looks into `h + 1` pages at most. -/
theorem search_spec (hlt : StrictWeak T.compare) (heq : T.Equates) (hread : Readable T s h t s.rootPage)
    (k : κ) : ∃ r d, searchDepth T k s = .ok ((r, d), s) ∧ search T k s = .ok (r, s) ∧
      Found T k (t.tokens T h) r ∧ d ≤ h + 1 := by
  obtain ⟨r, d, hr, hfound, hd⟩ := searchPage_spec (k := k) hlt heq hread hread.height_lt 1 0
  have hdepth : searchDepth T k s = .ok ((r, d), s) := hr
  refine ⟨r, d, hdepth, ?_, hfound, by omega⟩
  unfold search
  rw [bind_run hdepth]
  rfl

end

end BTreesMods

import BTreesMods.Removal.Focus
import BTreesMods.Tree.WellFormed

/-!
# A page of a tree and the pages above it

A list of foci is the way from the root page down to a page. `plug` puts a tree at the end of the way;
a step of that tree is a step of the whole tree, because it leaves the pages beside the way alone
(`Stands.descend`, `Stands.refill`).
-/

namespace BTreesMods

variable {κ : Type}

/-! ## Ways -/

/-- The tree with `t` at the end of the way; each page of the way comes with its number. -/
def plug : List (ℕ × Focus κ) → Node κ → Node κ
  | [], t => t
  | (p, f) :: Z, t => (f.put (plug Z t)).node p

/-- The pages that are in use beside a tree `h` high at the end of the way. -/
def beside (h : ℕ) : List (ℕ × Focus κ) → Multiset ℕ → Multiset ℕ
  | [], R => R
  | (p, f) :: Z, R => beside h Z (around p (h + Z.length) f.kidsL f.kidsR R)

/-- The wrapper of the page `p` at the end of the way: the member `_rootPage`, or a local one. -/
def pageAt (s : BTree κ) (p : ℕ) : List (ℕ × Focus κ) → PageRef κ
  | [] => .rootPage
  | _ :: _ => .local (s.wrapper p)

section

variable {T : Cfg κ} {s s' : BTree κ} {R : Multiset ℕ} {ref ref' : PageRef κ} {h H : ℕ} {t t' : Node κ}
  {Z : List (ℕ × Focus κ)} {k : κ}

theorem plug_page (ht : t'.page = t.page) : (plug Z t').page = (plug Z t).page := by
  cases Z with
  | nil => exact ht
  | cons q Z => rfl

/-- The topmost page of the tree at the end of a way that has pages. -/
theorem Stands.descend_local (hs : Stands s R ref H t) (hH : H = h + Z.length) (ht : t = plug Z t')
    (hZ : Z ≠ []) : Stands s (beside h Z R) (.local (s.wrapper t'.page)) h t' := by
  induction Z generalizing R ref H t with
  | nil => exact absurd rfl hZ
  | cons q Z ih =>
    obtain ⟨p, f⟩ := q
    rw [List.length_cons, ← add_assoc] at hH
    subst hH ht
    have hkid : Stands s (around p (h + Z.length) f.kidsL f.kidsR R)
        (.local (s.wrapper (plug Z t').page)) (h + Z.length) (plug Z t') := hs.toHeld.kid
    cases Z with
    | nil => exact hkid
    | cons q Z => exact ih hkid rfl rfl (by simp)

theorem Stands.descend (hs : Stands s R .rootPage (h + Z.length) (plug Z t)) :
    Stands s (beside h Z R) (pageAt s t.page Z) h t := by
  cases Z with
  | nil => exact hs
  | cons q Z => exact hs.descend_local rfl rfl (by simp)

/-- A page below others is not the root page. -/
theorem Stands.not_root (hs : Stands s R (pageAt s t.page Z) h t) (hZ : Z ≠ []) :
    s.rootPageNum ≠ t.page := by
  intro hroot
  have href := hs.ref_eq hroot
  cases Z with
  | nil => exact hZ rfl
  | cons q Z => cases href

theorem mem_beside {x : ℕ} (hx : x ∈ R) : x ∈ beside h Z R := by
  induction Z generalizing R with
  | nil => exact hx
  | cons q Z ih => exact ih (mem_around_rest hx)

/-- A step of the tree at the end of the way leaves the pages beside the whole tree alone. -/
theorem Frame.of_beside (hf : Frame s s' (beside h Z R)) : Frame s s' R :=
  hf.mono fun _ hx => mem_beside hx

/-- A step of the tree at the end of a way that has pages, as a step of the whole tree. -/
theorem Stands.refill_local (hs : Stands s R ref H t) (hH : H = h + Z.length)
    {u u' : Node κ} (ht : t = plug Z u) (hZ : Z ≠ []) (hf : Frame s s' (beside h Z R))
    (hu : Stands s' (beside h Z R) ref' h u') (hpage : u'.page = u.page) :
    Stands s' R ref H (plug Z u') := by
  induction Z generalizing R ref H t with
  | nil => exact absurd rfl hZ
  | cons q Z ih =>
    obtain ⟨p, f⟩ := q
    rw [List.length_cons, ← add_assoc] at hH
    subst hH ht
    have hkid : Stands s (around p (h + Z.length) f.kidsL f.kidsR R)
        (.local (s.wrapper (plug Z u).page)) (h + Z.length) (plug Z u) := hs.toHeld.kid
    have hnew : ∃ ref1, Stands s' (around p (h + Z.length) f.kidsL f.kidsR R) ref1 (h + Z.length)
        (plug Z u') := by
      cases Z with
      | nil => exact ⟨_, hu⟩
      | cons q Z => exact ⟨_, ih hkid rfl rfl (by simp) hf hu⟩
    obtain ⟨ref1, hnew⟩ := hnew
    exact hs.putBack (c := plug Z u) (hf.of_beside (R := around p (h + Z.length) f.kidsL f.kidsR R))
      hnew (plug_page hpage)

theorem Stands.refill (hs : Stands s R .rootPage (h + Z.length) (plug Z t))
    (hf : Frame s s' (beside h Z R)) (ht : Stands s' (beside h Z R) ref' h t')
    (hpage : t'.page = t.page) : Stands s' R .rootPage (h + Z.length) (plug Z t') := by
  cases Z with
  | nil =>
    have hroot : s'.rootPageNum = t'.page := by
      rw [hpage, hf.rootPageNum_eq]
      exact hs.at_page.root
    rwa [ht.ref_eq hroot] at ht
  | cons q Z => exact hs.refill_local rfl rfl (by simp) hf ht hpage

/-! ## What is kept beside the way -/

theorem tokens_plug (T : Cfg κ) (h : ℕ) (Z : List (ℕ × Focus κ)) : ∃ F G, ∀ t : Node κ,
    (plug Z t).tokens T (h + Z.length) = F ++ (t.tokens T h ++ G) := by
  induction Z with
  | nil => exact ⟨[], [], fun t => by simp [plug]⟩
  | cons q Z ih =>
    obtain ⟨p, f⟩ := q
    obtain ⟨F, G, hFG⟩ := ih
    refine ⟨tokensBefore T (h + Z.length) f.kidsL f.keysL ++ F,
      G ++ tokensAfter T (h + Z.length) f.keysR f.kidsR, fun t => ?_⟩
    have hnode := Focus.tokens_node T (h + Z.length) p (f.put (plug Z t))
    rw [List.length_cons, ← add_assoc]
    refine hnode.trans ?_
    change _ ++ ((plug Z t).tokens T (h + Z.length) ++ _) = _
    rw [hFG]
    simp [Focus.put]

theorem sorted_of_plug (hs : Sorted T.compare ((plug Z t).tokens T (h + Z.length))) :
    Sorted T.compare (t.tokens T h) := by
  obtain ⟨F, G, hFG⟩ := tokens_plug T h Z
  rw [hFG] at hs
  exact (sorted_append.mp (sorted_append.mp hs).2.1).1

/-- The records beside the way are not equal to `k` when the way is that of `k`. -/
theorem plug_outside (hlt : StrictWeak T.compare) (heq : T.Equates)
    (hs : Sorted T.compare ((plug Z t).tokens T (h + Z.length)))
    (hk : ∀ q ∈ Z, q.2.Splits T.compare k) :
    ((plug Z t).records T (h + Z.length)).filter (T.isEqual k) =
      (t.records T h).filter (T.isEqual k) := by
  induction Z with
  | nil => rfl
  | cons q Z ih =>
    obtain ⟨p, f⟩ := q
    have hnode : (plug ((p, f) :: Z) t).tokens T (h + ((p, f) :: Z).length) =
        tokensBefore T (h + Z.length) f.kidsL f.keysL ++ ((plug Z t).tokens T
          (h + Z.length) ++ tokensAfter T (h + Z.length) f.keysR f.kidsR) :=
      Focus.tokens_node T (h + Z.length) p (f.put (plug Z t))
    have hsplits : (f.put (plug Z t)).Splits T.compare k :=
      ⟨(hk (p, f) (by simp)).lt_left, (hk (p, f) (by simp)).lt_right⟩
    obtain ⟨hF, hG⟩ := hsplits.outside hlt heq (p := p) (h := h + Z.length) hs
    have hF' : (recordsOf (tokensBefore T (h + Z.length) f.kidsL f.keysL)).filter (T.isEqual k) = [] :=
      List.filter_eq_nil_iff.mpr fun x hx => by simpa using hF x hx
    have hG' : (recordsOf (tokensAfter T (h + Z.length) f.keysR f.kidsR)).filter (T.isEqual k) = [] :=
      List.filter_eq_nil_iff.mpr fun x hx => by simpa using hG x hx
    rw [hnode] at hs
    rw [Node.records, hnode, recordsOf_append, recordsOf_append, List.filter_append, List.filter_append,
      hF', hG', List.nil_append, List.append_nil]
    exact ih (sorted_append.mp (sorted_append.mp hs).2.1).1 fun q hq => hk q (by simp [hq])

theorem sized_of_plug (hsz : SizedBelow T (h + Z.length) (plug Z t).kids) (hZ : Z ≠ []) :
    t.Sized T h := by
  induction Z with
  | nil => exact absurd rfl hZ
  | cons q Z ih =>
    obtain ⟨p, f⟩ := q
    have hsz' : SizedBelow T (h + Z.length + 1) (f.kidsL ++ plug Z t :: f.kidsR) := hsz
    have hkid : (plug Z t).Sized T (h + Z.length) := hsz' _ (by simp)
    cases Z with
    | nil => exact hkid
    | cons q Z => exact ih (sized_iff.mp hkid).2 (by simp)

/-- The children of the tree at the end of the way. -/
theorem sizedBelow_of_plug (hsz : SizedBelow T (h + Z.length) (plug Z t).kids) :
    SizedBelow T h t.kids := by
  cases Z with
  | nil => exact hsz
  | cons q Z => exact (sized_iff.mp (sized_of_plug hsz (by simp))).2

/-- A tree of the right size at the end of a way that has pages. -/
theorem sizedBelow_plug (hsz : SizedBelow T (h + Z.length) (plug Z t).kids) (hZ : Z ≠ [])
    (ht : t'.Sized T h) : SizedBelow T (h + Z.length) (plug Z t').kids := by
  induction Z with
  | nil => exact absurd rfl hZ
  | cons q Z ih =>
    obtain ⟨p, f⟩ := q
    have hsz' : SizedBelow T (h + Z.length + 1) (f.kidsL ++ plug Z t :: f.kidsR) := hsz
    obtain ⟨hleft, hkid⟩ := sizedBelow_append.mp hsz'
    obtain ⟨hkid, hright⟩ := sizedBelow_cons.mp hkid
    have hnew : (plug Z t').Sized T (h + Z.length) := by
      cases Z with
      | nil => exact ht
      | cons q Z =>
        obtain ⟨hlen, hbelow⟩ := sized_iff.mp hkid
        exact sized_iff.mpr ⟨hlen, ih hbelow (by simp)⟩
    exact (sizedBelow_append.mpr ⟨hleft, sizedBelow_cons.mpr ⟨hnew, hright⟩⟩ :
      SizedBelow T (h + Z.length + 1) (f.kidsL ++ plug Z t' :: f.kidsR))

/-- The keys of the page at the end of the way fit into its buffer. -/
theorem length_keys_of_plug (hT : T.Valid) (hsz : (plug Z t).RootSized T (h + Z.length)) :
    t.keys.length ≤ T.slots := by
  cases Z with
  | nil => exact hsz.le_max.trans (capacity_le_slots hT h .rootPage)
  | cons q Z =>
    have ht := sized_of_plug (h := h) hsz.below (by simp)
    exact (sized_iff.mp ht).1.2.trans (maxOf_le_slots hT h)

theorem plug_keys (hZ : Z ≠ []) : (plug Z t').keys = (plug Z t).keys := by
  cases Z with
  | nil => exact absurd rfl hZ
  | cons q Z => rfl

theorem plug_concat (Z : List (ℕ × Focus κ)) (p : ℕ) (f : Focus κ) :
    plug (Z ++ [(p, f)]) f.kid = plug Z (f.node p) := by
  induction Z with
  | nil => rfl
  | cons q Z ih =>
    change (q.2.put (plug (Z ++ [(p, f)]) f.kid)).node q.1 = _
    rw [ih]
    rfl

/-! ## The whole tree -/

/-- What stands on the member `_rootPage` is the whole tree. -/
theorem Stands.wellFormed (hrouters : T.treeType.hasRouters = false) (hs : Stands s R .rootPage h t)
    (hsz : t.RootSized T h) (hsorted : Sorted T.compare (t.tokens T h)) : WellFormed T s h t where
  page_eq := hs.at_page.root.symm
  rootPage_eq := by
    rw [show s.rootPageNum = t.page from hs.at_page.root]
    exact hs.value_eq
  rep := hs.rep
  store := ⟨R, hs.store⟩
  sized := hsz
  sorted := hsorted
  routers := fun h => by rw [hrouters] at h; cases h

/-- A step of the tree at the end of the way that keeps what is left of its sequence in order. -/
theorem WellFormed.refill (hrouters : T.treeType.hasRouters = false)
    (hw : WellFormed T s (h + Z.length) (plug Z t))
    (hs : Stands s R .rootPage (h + Z.length) (plug Z t)) (hf : Frame s s' (beside h Z R))
    (ht : Stands s' (beside h Z R) ref' h t') (hpage : t'.page = t.page)
    (hsub : (t'.tokens T h).Sublist (t.tokens T h)) (hsz : Z ≠ [] → t'.Sized T h)
    (hroot : Z = [] → t'.RootSized T h) : WellFormed T s' (h + Z.length) (plug Z t') := by
  obtain ⟨F, G, hFG⟩ := tokens_plug T h Z
  have hwhole : ((plug Z t').tokens T (h + Z.length)).Sublist ((plug Z t).tokens T (h + Z.length)) := by
    rw [hFG, hFG]
    exact (List.Sublist.refl F).append (hsub.append (List.Sublist.refl G))
  refine (hs.refill hf ht hpage).wellFormed hrouters ?_ (List.Pairwise.sublist hwhole hw.sorted)
  by_cases hZ : Z = []
  · subst hZ
    exact hroot rfl
  · have hkeys : (plug Z t').keys = (plug Z t).keys := plug_keys hZ
    refine ⟨by rw [hkeys]; exact hw.sized.le_max, fun hh => by rw [hkeys]; exact hw.sized.pos hh, ?_⟩
    exact sizedBelow_plug hw.sized.below hZ (hsz hZ)

theorem records_plug (h : ℕ) (Z : List (ℕ × Focus κ)) (hrecords : t'.records T h = t.records T h) :
    (plug Z t').records T (h + Z.length) = (plug Z t).records T (h + Z.length) := by
  obtain ⟨F, G, hFG⟩ := tokens_plug T h Z
  rw [Node.records, Node.records] at hrecords
  rw [Node.records, Node.records, hFG, hFG]
  simp only [recordsOf_append, hrecords]

end

end BTreesMods

import BTreesMods.Removal.InnerKey
import Mathlib.Data.List.TakeWhile

/-!
# A search for a record to remove

What the functions `remove` of the trees without routers (`btree.hpp`, lines 310–335 and 1829–1857) have
in common: the scan of a page, and what a search for `k` leaves of a page that is not the root page
(`Searched`) and of the whole tree (`SearchedTree`).
-/

namespace BTreesMods

variable {κ : Type}

/-! ## Definitions -/

/-- The place in a page where the scan of `remove` for `k` stops. -/
def Node.scan (T : Cfg κ) (k : κ) (t : Node κ) : ℕ := (t.keys.takeWhile fun x => T.compare x k).length

/-- The search for `k` below the page of the tree `t` returned `b`; an inner page keeps a key. -/
def Searched (T : Cfg κ) (k : κ) (s : BTree κ) (R : Multiset ℕ) (h : ℕ) (t : Node κ) (b : Bool)
    (s' : BTree κ) : Prop :=
  ∃ t', Removed T s R h t s' t' ∧ Drops T k b (t.tokens T h) (t'.tokens T h) ∧ (h ≠ 0 → t'.keys ≠ [])

/-- The search for `k` in the whole tree `t` returned `b` and left the tree `n` of height `H`. -/
structure SearchedTree (T : Cfg κ) (k : κ) (R : Multiset ℕ) (h : ℕ) (t : Node κ) (b : Bool) (s' : BTree κ)
    (H : ℕ) (n : Node κ) : Prop where
  stands : Stands s' R .rootPage H n
  sized : n.RootSized T H
  drops : Drops T k b (t.tokens T h) (n.tokens T H)

section

variable {T : Cfg κ} {s s' : BTree κ} {R : Multiset ℕ} {h h' : ℕ} {t t' l r : Node κ} {A B : List κ}
  {x k : κ} {b : Bool}

/-! ## The scan -/

theorem LowerCut.takeWhile_eq (hcut : LowerCut T.compare k A B) :
    (A ++ B).takeWhile (fun x => T.compare x k) = A := by
  rw [List.takeWhile_append_of_pos hcut.lt_left]
  cases B with
  | nil => simp
  | cons b B => simp [hcut.not_lt_head b (by simp)]

theorem LowerCut.scan_eq (hcut : LowerCut T.compare k A B) (ht : t.keys = A ++ B) :
    t.scan T k = A.length := by
  rw [Node.scan, ht, hcut.takeWhile_eq]

/-- Where the scan stops. -/
theorem exists_cut (lt : κ → κ → Bool) (k : κ) (K : List κ) : ∃ A B, K = A ++ B ∧ LowerCut lt k A B := by
  refine ⟨K.takeWhile fun x => lt x k, K.dropWhile fun x => lt x k, (List.takeWhile_append_dropWhile ..).symm,
    fun x hx => List.mem_takeWhile_imp (p := fun x => lt x k) hx, fun x hx => ?_⟩
  have := List.head?_dropWhile_not (fun x => lt x k) K
  rw [Option.mem_def.mp hx] at this
  exact this

/-- A scan that does not stop in front of a key equal to `k`. -/
theorem head_ne (hne : ¬B.head?.any (T.isEqual k) = true) : ∀ x ∈ B.head?, T.isEqual k x = false := by
  cases B with
  | nil => simp
  | cons y B => simpa using hne

/-- The scan of a page. -/
theorem Node.On.scan_run {pg : Page κ} (hon : t.On h pg) (hslots : t.keys.length ≤ T.slots)
    (ht : t.keys = A ++ B) (hcut : LowerCut T.compare k A B) :
    pg.lowerBound T.slots T.compare k pg.keysNum 0 = .ok A.length ∧
      pg.isKeyAt T.slots T.isEqual k A.length = .ok (B.head?.any (T.isEqual k)) ∧
        pg.isLeaf = (h == 0) := by
  have hholds : pg.Holds (h == 0) (A ++ B) (t.kids.map Node.page) := by
    rw [← ht]
    exact hon
  have hle : pg.keysNum ≤ T.slots := by
    rw [hholds.keysNum_eq, ← ht]
    exact hslots
  obtain ⟨A', B', hAB, hcut', hrun⟩ := hholds.lowerBound T.compare k hle
  obtain rfl : A = A' := hcut.unique hcut' hAB
  exact ⟨hrun, hholds.isKeyAt hle, hholds.leaf_eq⟩

/-- The child that a search goes on with is read, when the scan does not stop in front of a key equal to
`k` but at a child with a key to spare. -/
theorem Stands.read_rich {ref : PageRef κ} (hs : Stands s R ref (h + 1) t) (hslots : t.keys.length ≤ T.slots)
    (ht : t.keys = A ++ B) (hcut : LowerCut T.compare k A B) (hne : ¬B.head?.any (T.isEqual k) = true)
    (hkeeps : (∃ y, t.keys[t.scan T k]? = some y ∧ T.isEqual k y = true) ∨
      ∃ e, t.kids[t.scan T k]? = some e ∧ T.minKeys < e.keys.length) :
    ∃ w, readPageFromChild T (s.wrapper t.page) A.length s = .ok (w, s) ∧ T.minKeys < w.data.keysNum := by
  obtain ⟨q, K, C⟩ := t
  obtain rfl : K = A ++ B := ht
  obtain ⟨P, e, S, rfl, hP⟩ := exists_kid hs.rep.length_kids
  have hscan : (⟨q, A ++ B, P ++ e :: S⟩ : Node κ).scan T k = A.length := hcut.scan_eq rfl
  have hrich : T.minKeys < e.keys.length := by
    rcases hkeeps with ⟨y, hy, hky⟩ | ⟨e', he', hrich⟩
    · rw [hscan] at hy
      cases B with
      | nil => simp at hy
      | cons b B =>
        obtain rfl : b = y := by simpa using hy
        simp [hky] at hne
    · rw [hscan] at he'
      obtain rfl : e = e' := by simpa [← hP] using he'
      exact hrich
  have hread := readPageFromChild_run (T := T) (w := s.wrapper q) (P := P) (c := e) (S := S) hs.store
    (kid_page_mem (by simp)) hs.rep.on rfl hslots
  rw [hP] at hread
  have hrep : Rep s.stream.page h e := hs.rep.2 e (by simp)
  have hen : (s.wrapper e.page).data.keysNum = e.keys.length := hrep.on.keysNum_eq
  exact ⟨_, hread, by rwa [hen]⟩

/-! ## The sequence -/

theorem TakenFrom.drops (hrouters : T.treeType.hasRouters = false)
    (hx : TakenFrom T k (t.records T h) (t'.records T h')) :
    Drops T k true (t.tokens T h) (t'.tokens T h') := by
  obtain ⟨A, x, B, hA, hB, hkx⟩ := hx
  rw [← map_records hrouters t, ← map_records hrouters t', hA, hB, List.map_append, List.map_append,
    List.map_cons]
  exact Drops.record hkx _ _

/-! ## The root page -/

/-- A removal from the root page. -/
theorem Searched.tree (hs : Stands s R .rootPage h t) (hmax : t.keys.length ≤ T.maxRootOf h)
    (hsearched : Searched T k s R h t b s') : ∃ n, SearchedTree T k R h t b s' h n := by
  obtain ⟨n, hremoved, hdrops, hkeeps⟩ := hsearched
  exact ⟨n, hremoved.stands_root hs, ⟨hremoved.keys_le.trans hmax, fun hh => List.length_pos_iff.mpr (hkeeps hh),
    hremoved.sized⟩, hdrops⟩

/-- The merged children of a root page that shrinks away. -/
theorem sized_join_kids (hsz : SizedBelow T (h + 1) [l, r]) : SizedBelow T h (l.join x r).kids :=
  sizedBelow_append.mpr ⟨(sized_iff.mp (hsz l (by simp))).2, (sized_iff.mp (hsz r (by simp))).2⟩

end

end BTreesMods

import BTreesMods.Lookup.Search
import Mathlib.Data.Nat.Log

/-!
# How deep a search goes

`search` keeps the depth of the deepest page that it looks into in `_maxSearchDepth` (`btree.hpp`, lines
178–211, 1180–1206 and 2112–2129). In a well-formed tree it is at most logarithmic in the number of
records.

Main result: `searchDepth_le_log`.
-/

namespace BTreesMods

variable {κ : Type}

/-! ## The number of records -/

section

variable {T : Cfg κ} {page : ℕ → Page κ} {h : ℕ} {t : Node κ}

/-- The records of the runs of an interleaving are among its records. -/
theorem mul_le_length_records {n : ℕ} {cs : List (List (Token κ))} {ks : List (Token κ)}
    (hlen : cs.length = ks.length + 1) (hcs : ∀ c ∈ cs, n ≤ (recordsOf c).length) :
    cs.length * n ≤ (recordsOf (weave cs ks)).length := by
  induction cs generalizing ks with
  | nil => simp at hlen
  | cons c cs ih =>
    have hc := hcs c List.mem_cons_self
    cases ks with
    | nil =>
      obtain rfl : cs = [] := List.length_eq_zero_iff.mp (by simpa using hlen)
      rw [weave_singleton, List.length_singleton, Nat.one_mul]
      exact hc
    | cons k ks =>
      have hlen' : cs.length = ks.length + 1 := by simpa using hlen
      have hrest := ih hlen' fun d hd => hcs d (List.mem_cons_of_mem c hd)
      have hsep : (recordsOf (weave cs ks)).length ≤ (recordsOf (k :: weave cs ks)).length := by
        cases k <;> simp
      show _ ≤ (recordsOf (c ++ k :: weave cs ks)).length
      rw [recordsOf_append, List.length_append, List.length_cons, Nat.succ_mul]
      omega

/-- The records of a node whose children have at least `n` records each. -/
theorem mul_le_records {n : ℕ} (hlen : t.kids.length = t.keys.length + 1)
    (hkids : ∀ c ∈ t.kids, n ≤ (c.records T h).length) :
    t.kids.length * n ≤ (t.records T (h + 1)).length := by
  have hcs : ∀ ts ∈ t.kids.map (Node.tokens T h), n ≤ (recordsOf ts).length := by
    intro ts hts
    obtain ⟨c, hc, rfl⟩ := List.mem_map.mp hts
    exact hkids c hc
  have hlen' : (t.kids.map (Node.tokens T h)).length = (t.keys.map T.sep).length + 1 := by
    simpa using hlen
  have := mul_le_length_records hlen' hcs
  rwa [List.length_map] at this

/-- A tree that is not the whole tree has at least so many records, by its height. -/
theorem pow_le_length_records (hr : Rep page h t) (hsz : t.Sized T h) :
    (T.minKeys + 1) ^ h * T.minOf 0 ≤ (t.records T h).length := by
  induction h generalizing t with
  | zero =>
    rw [Nat.pow_zero, Nat.one_mul]
    show T.minOf 0 ≤ (recordsOf (t.keys.map Token.record)).length
    rw [recordsOf_map_record]
    exact hsz.1
  | succ h ih =>
    have hlen : t.kids.length = t.keys.length + 1 := hr.length_kids
    have hmin : T.minKeys ≤ t.keys.length := hsz.1.1
    calc (T.minKeys + 1) ^ (h + 1) * T.minOf 0
        = (T.minKeys + 1) * ((T.minKeys + 1) ^ h * T.minOf 0) := by rw [Nat.pow_succ']; ring
      _ ≤ t.kids.length * ((T.minKeys + 1) ^ h * T.minOf 0) := by
        apply Nat.mul_le_mul_right
        omega
      _ ≤ (t.records T (h + 1)).length := mul_le_records hlen fun c hc => ih (hr.2 c hc) (hsz.2 c hc)

/-- A well-formed tree of height `h + 1` has at least so many records. -/
theorem WellFormed.pow_le {s : BTree κ} (hw : WellFormed T s (h + 1) t) :
    (T.minKeys + 1) ^ h * (2 * T.minOf 0) ≤ (t.records T (h + 1)).length := by
  have hlen : t.kids.length = t.keys.length + 1 := hw.rep.length_kids
  have hpos : 1 ≤ t.keys.length := hw.sized.pos (Nat.succ_ne_zero h)
  calc (T.minKeys + 1) ^ h * (2 * T.minOf 0) = 2 * ((T.minKeys + 1) ^ h * T.minOf 0) := by ring
    _ ≤ t.kids.length * ((T.minKeys + 1) ^ h * T.minOf 0) := by
      apply Nat.mul_le_mul_right
      omega
    _ ≤ (t.records T (h + 1)).length :=
      mul_le_records hlen fun c hc => pow_le_length_records (hw.rep.2 c hc) (hw.sized.below c hc)

end

/-! ## The depth of a search -/

/-- In a well-formed tree of any class with `n` records, `search` finds what it finds within
`2 + log (n / (2 * l))` levels, to the base of one more than the least number of keys of an inner page,
`l` being the least number of keys of a leaf. -/
theorem searchDepth_le_log {T : Cfg κ} {s : BTree κ} {h : ℕ} {t : Node κ} (hT : T.Valid)
    (hlt : StrictWeak T.compare) (heq : T.Equates) (hw : WellFormed T s h t) (k : κ) :
    ∃ r d, searchDepth T k s = .ok ((r, d), s) ∧ search T k s = .ok (r, s) ∧
      d ≤ 2 + Nat.log (T.minKeys + 1) ((t.records T h).length / (2 * T.minOf 0)) := by
  obtain ⟨r, d, hdeep, hrun, -, hle⟩ := search_spec hlt heq (hw.readable hT) k
  refine ⟨r, d, hdeep, hrun, ?_⟩
  cases h with
  | zero => omega
  | succ h =>
    have hbase : 1 < T.minKeys + 1 := by
      have := one_le_minOf hT 1
      simp [Cfg.minOf] at this
      omega
    have hpos : 0 < 2 * T.minOf 0 := by
      have := one_le_minOf hT 0
      omega
    have hpow := (Nat.le_div_iff_mul_le hpos).mpr hw.pow_le
    have := Nat.le_log_of_pow_le hbase hpow
    omega

/-- The search for 7 goes down to a leaf on the third level. -/
theorem searchDepth_le_log_threeLevels : ∃ r d,
    searchDepth (natCfg .bTree 2) 7 BTree.threeLevels = .ok ((r, d), BTree.threeLevels) ∧
      search (natCfg .bTree 2) 7 BTree.threeLevels = .ok (r, BTree.threeLevels) ∧ d ≤ 2 + Nat.log 2 (7 / 2) :=
  searchDepth_le_log ⟨2, 4, rfl⟩ (natCfg_strictWeak _ _) (natCfg_equates _ _) threeLevels_wellFormed 7

example : (searchDepth (natCfg .bTree 2) 7 BTree.threeLevels).toOption.map Prod.fst = some (some 7, 3) := by
  decide +kernel

end BTreesMods

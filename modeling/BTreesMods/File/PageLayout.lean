import BTreesMods.File.Layout
import Mathlib.Algebra.Order.Ring.Int
import Mathlib.Data.Int.ConditionallyCompleteOrder
import Mathlib.Order.Interval.Set.Disjoint

/-!
# Where the fields of a page lie

Model of the accessors of `PageWrapper` that compute with machine integers (`btree.hpp`, lines 935–974
and 1051–1065), and of the sizes of the buffers that `splitChildren` and `mergeChildren` allocate
(lines 1580–1581, 2010–2011, 2349–2350 and 2416–2417).

An `int` has 32 bits. The sum of a `UInt` and an `int` is a `UInt`, and the conversion of a `UInt` to
the `int` that a function returns keeps the bits. The product of two `UShort`s is one of `int`s; where
it overflows, the code is undefined, and the model keeps the low 32 bits.

* `laidOut_iff`: the offsets are the intended ones, no two fields of a page overlap, and the buffers
  have the intended sizes, exactly for the orders and record sizes of `LayoutFits`.
* `getCursorOfs_negative`: the largest B-tree pages have a cursor with a negative offset.
-/

namespace BTreesMods

/-! ## The node info -/

/-- The number that the first two bytes of a page stand for. -/
abbrev NodeInfo := UInt16

/-- `LEAF_NODE_MASK`. -/
def LEAF_NODE_MASK : UInt16 := 0x8000

namespace NodeInfo

variable (info : NodeInfo) (keysNum : UInt16)

/-- `setKeyNumLeaf` (lines 935–941). -/
def setKeyNumLeaf (isLeaf : Bool) : NodeInfo :=
  if isLeaf then keysNum ||| LEAF_NODE_MASK else keysNum

/-- `setKeyNum` (lines 943–950). -/
def setKeyNum : NodeInfo := info &&& LEAF_NODE_MASK ||| keysNum

/-- `setLeaf` (lines 952–960). -/
def setLeaf (isLeaf : Bool) : NodeInfo :=
  let kldata := info &&& ~~~LEAF_NODE_MASK
  if isLeaf then kldata ||| LEAF_NODE_MASK else kldata

/-- `isLeaf` (lines 962–967). -/
def isLeaf : Bool := info &&& LEAF_NODE_MASK != 0

/-- `getKeysNum` (lines 969–974). -/
def getKeysNum : UInt16 := info &&& ~~~LEAF_NODE_MASK

variable {info keysNum}

theorem and_or_distrib_right (a b c : UInt16) : (a ||| b) &&& c = a &&& c ||| b &&& c :=
  UInt16.toBitVec_inj.mp BitVec.and_or_distrib_right

theorem and_not_mask (h : keysNum.toNat ≤ 32767) : keysNum &&& ~~~LEAF_NODE_MASK = keysNum := by
  apply UInt16.toNat_inj.mp
  have hmask : (~~~LEAF_NODE_MASK).toNat = 2 ^ 15 - 1 := by decide
  rw [UInt16.toNat_and, hmask]
  exact Nat.and_two_pow_sub_one_of_lt_two_pow (by omega)

theorem and_mask (h : keysNum.toNat ≤ 32767) : keysNum &&& LEAF_NODE_MASK = 0 := by
  rw [← and_not_mask h, UInt16.and_assoc, UInt16.not_and_self, UInt16.and_zero]

theorem getKeysNum_setKeyNum (h : keysNum.toNat ≤ 32767) :
    (info.setKeyNum keysNum).getKeysNum = keysNum := by
  rw [getKeysNum, setKeyNum, and_or_distrib_right, UInt16.and_assoc, UInt16.and_not_self,
    UInt16.and_zero, UInt16.zero_or, and_not_mask h]

theorem isLeaf_setKeyNum (h : keysNum.toNat ≤ 32767) :
    (info.setKeyNum keysNum).isLeaf = info.isLeaf := by
  rw [isLeaf, isLeaf, setKeyNum, and_or_distrib_right, UInt16.and_assoc, UInt16.and_self, and_mask h,
    UInt16.or_zero]

theorem getKeysNum_setLeaf (isLeaf : Bool) : (info.setLeaf isLeaf).getKeysNum = info.getKeysNum := by
  cases isLeaf with
  | false =>
    show info &&& ~~~LEAF_NODE_MASK &&& ~~~LEAF_NODE_MASK = _
    rw [UInt16.and_assoc, UInt16.and_self, getKeysNum]
  | true =>
    show (info &&& ~~~LEAF_NODE_MASK ||| LEAF_NODE_MASK) &&& ~~~LEAF_NODE_MASK = _
    rw [and_or_distrib_right, UInt16.and_assoc, UInt16.and_self, UInt16.and_not_self, UInt16.or_zero,
      getKeysNum]

theorem isLeaf_setLeaf (isLeaf : Bool) : (info.setLeaf isLeaf).isLeaf = isLeaf := by
  cases isLeaf with
  | false =>
    show (info &&& ~~~LEAF_NODE_MASK &&& LEAF_NODE_MASK != 0) = false
    rw [UInt16.and_assoc, UInt16.not_and_self, UInt16.and_zero]
    rfl
  | true =>
    show ((info &&& ~~~LEAF_NODE_MASK ||| LEAF_NODE_MASK) &&& LEAF_NODE_MASK != 0) = true
    rw [and_or_distrib_right, UInt16.and_assoc, UInt16.not_and_self, UInt16.and_zero, UInt16.zero_or,
      UInt16.and_self]
    rfl

theorem getKeysNum_setKeyNumLeaf (h : keysNum.toNat ≤ 32767) (isLeaf : Bool) :
    (setKeyNumLeaf keysNum isLeaf).getKeysNum = keysNum := by
  cases isLeaf with
  | false => exact and_not_mask h
  | true =>
    show (keysNum ||| LEAF_NODE_MASK) &&& ~~~LEAF_NODE_MASK = keysNum
    rw [and_or_distrib_right, UInt16.and_not_self, UInt16.or_zero, and_not_mask h]

theorem isLeaf_setKeyNumLeaf (h : keysNum.toNat ≤ 32767) (isLeaf : Bool) :
    (setKeyNumLeaf keysNum isLeaf).isLeaf = isLeaf := by
  cases isLeaf with
  | false =>
    show (keysNum &&& LEAF_NODE_MASK != 0) = false
    rw [and_mask h]
    rfl
  | true =>
    show ((keysNum ||| LEAF_NODE_MASK) &&& LEAF_NODE_MASK != 0) = true
    rw [and_or_distrib_right, and_mask h, UInt16.zero_or, UInt16.and_self]
    rfl

end NodeInfo

/-! ## Offsets -/

namespace Params

variable (p : Params) (info : NodeInfo)

/-- `getKeyOfs` (lines 1059–1065): the product is one of `int`s, the sum one of `UInt`s. -/
def getKeyOfs (num : UInt16) : Int32 :=
  if num ≥ info.getKeysNum then -1
  else (UInt32.ofNat KEYS_OFS +
    (Int32.ofNat p.recSize * Int32.ofNat num.toNat).toUInt32).toInt32

/-- `getCursorOfs` (lines 1051–1057), computed in `UInt`s. -/
def getCursorOfs (cnum : UInt16) : Int32 :=
  if cnum > info.getKeysNum then -1
  else (UInt32.ofNat p.cursorsOfs + UInt32.ofNat CURSOR_SZ * UInt32.ofNat cnum.toNat).toInt32

/-- The number `keysNum * _recSize` of bytes of a buffer. -/
def bufferSize (keysNum : UInt16) : Int32 := Int32.ofNat keysNum.toNat * Int32.ofNat p.recSize

end Params

/-- A field of a page. -/
inductive PageField
  | nodeInfo
  | key (num : UInt16)
  | cursor (cnum : UInt16)

namespace PageField

variable (p : Params) (info : NodeInfo)

/-- A page with this node info has the field. -/
def Present : PageField → Prop
  | nodeInfo => True
  | key num => num < info.getKeysNum
  | cursor cnum => cnum ≤ info.getKeysNum

instance (f : PageField) : Decidable (f.Present info) :=
  match f with
  | nodeInfo => inferInstanceAs (Decidable True)
  | key num => inferInstanceAs (Decidable (num < info.getKeysNum))
  | cursor cnum => inferInstanceAs (Decidable (cnum ≤ info.getKeysNum))

/-- The intended offset of the field. -/
def ofs : PageField → ℕ
  | nodeInfo => 0
  | key num => KEYS_OFS + p.recSize * num.toNat
  | cursor cnum => KEYS_OFS + p.recSize * p.slots + CURSOR_SZ * cnum.toNat

/-- The offset that the code computes for the field. -/
def address : PageField → ℤ
  | nodeInfo => 0
  | key num => (p.getKeyOfs info num).toInt
  | cursor cnum => (p.getCursorOfs info cnum).toInt

/-- The number of bytes of the field. -/
def size : PageField → ℕ
  | nodeInfo => KEYS_OFS
  | key _ => p.recSize
  | cursor _ => CURSOR_SZ

/-- The bytes that the code accesses for the field, counted from the beginning of the page. -/
def area (f : PageField) : Set ℤ := Set.Ico (f.address p info) (f.address p info + f.size p)

end PageField

/-! ## Buffers -/

/-- A buffer for the keys of children, with the numbers of their keys: two full or almost full children
before they become three, or three children before they become two. B*+-trees leave out the separators
of leaves. -/
inductive KeysBuffer
  | splitChildren (left right : UInt16)
  | splitLeaves (left right : UInt16)
  | mergeChildren (left middle right : UInt16)
  | mergeLeaves (left middle right : UInt16)

namespace KeysBuffer

/-- The value of the `UShort` variable `keysNum` (lines 1580, 2416, 2010 and 2349). -/
def keysNum : KeysBuffer → UInt16
  | splitChildren left right => left + right + 1
  | splitLeaves left right => left + right
  | mergeChildren left middle right => left + middle + right + 2
  | mergeLeaves left middle right => left + middle + right

/-- The number of keys that go into the buffer. -/
def keys : KeysBuffer → ℕ
  | splitChildren left right => left.toNat + right.toNat + 1
  | splitLeaves left right => left.toNat + right.toNat
  | mergeChildren left middle right => left.toNat + middle.toNat + right.toNat + 2
  | mergeLeaves left middle right => left.toNat + middle.toNat + right.toNat

/-- The functions of the class allocate the buffer. -/
def UsedBy : TreeType → KeysBuffer → Prop
  | .bTree, _ | .bPlusTree, _ => False
  | .bStarTree, splitChildren _ _ | .bStarTree, mergeChildren _ _ _ => True
  | .bStarTree, splitLeaves _ _ | .bStarTree, mergeLeaves _ _ _ => False
  | .bStarPlusTree, _ => True

/-- The children can have these numbers of keys: no more than `_maxKeys` before a split, and before a
merge, which the code only does to children with at most `_minKeys` keys, together no more than
two children and a separator hold. -/
def Fits (p : Params) : KeysBuffer → Prop
  | splitChildren left right | splitLeaves left right =>
    left.toNat ≤ p.maxKeys ∧ right.toNat ≤ p.maxKeys
  | mergeChildren left middle right | mergeLeaves left middle right =>
    left.toNat + middle.toNat + right.toNat + 2 ≤ 2 * p.maxKeys + 1

end KeysBuffer

/-! ## The layout as a whole -/

/-- The node info is that of a page with no more keys than the largest page. -/
def Params.Holds (p : Params) (info : NodeInfo) : Prop := info.getKeysNum.toNat ≤ p.slots

instance (p : Params) (info : NodeInfo) : Decidable (p.Holds info) :=
  inferInstanceAs (Decidable (info.getKeysNum.toNat ≤ p.slots))

/-- On every page up to the largest one the machine computes what is intended. -/
structure Params.LaidOut (treeType : TreeType) (p : Params) : Prop where
  offsets : ∀ info, ∀ f : PageField, p.Holds info → f.Present info → f.address p info = f.ofs p
  disjoint : ∀ info, ∀ f g : PageField, p.Holds info → f.Present info → g.Present info →
    f ≠ g → Disjoint (f.area p info) (g.area p info)
  inside : ∀ info, ∀ f : PageField, p.Holds info → f.Present info →
    f.area p info ⊆ Set.Ico 0 (p.nodePageSize : ℤ)
  keysNum : ∀ keysNum : UInt16, keysNum.toNat ≤ p.slots → ∀ (info : NodeInfo) (isLeaf : Bool),
    (info.setKeyNum keysNum).getKeysNum = keysNum ∧
      (NodeInfo.setKeyNumLeaf keysNum isLeaf).getKeysNum = keysNum ∧
      (info.setLeaf isLeaf).getKeysNum = info.getKeysNum
  isLeaf : ∀ keysNum : UInt16, keysNum.toNat ≤ p.slots → ∀ (info : NodeInfo) (isLeaf : Bool),
    (info.setKeyNum keysNum).isLeaf = info.isLeaf ∧
      (NodeInfo.setKeyNumLeaf keysNum isLeaf).isLeaf = isLeaf ∧ (info.setLeaf isLeaf).isLeaf = isLeaf
  buffers : ∀ b : KeysBuffer, b.UsedBy treeType → b.Fits p →
    (p.bufferSize b.keysNum).toInt = (b.keys * p.recSize : ℕ)

/-- The orders and record sizes whose pages and buffers an `int` can measure. -/
def LayoutFits (order recSize : ℕ) : TreeType → Prop
  | .bTree => (recSize + 4) * (2 * order - 1) + 2 < 2 ^ 31
  | .bPlusTree => True
  | .bStarTree | .bStarPlusTree => (2 * order + 1) * recSize < 2 ^ 31

instance (order recSize : ℕ) (treeType : TreeType) : Decidable (LayoutFits order recSize treeType) :=
  match treeType with
  | .bTree => inferInstanceAs (Decidable (_ < _))
  | .bPlusTree => inferInstanceAs (Decidable True)
  | .bStarTree | .bStarPlusTree => inferInstanceAs (Decidable (_ < _))

/-! ## What `setOrder` computes -/

/-- The number of keys of the largest page. -/
def TreeType.slots (order : ℕ) : TreeType → ℕ
  | .bTree => 2 * order - 1
  | .bPlusTree => 2 * order - 1 + 1
  | .bStarTree | .bStarPlusTree => max order (2 * ((2 * order - 2) / 3) + 1)

/-- The bounds of the numbers of keys of a page that is not the root, in the trees that split two pages
into three. -/
def TreeType.KeyBounds (order : ℕ) (p : Params) : TreeType → Prop
  | .bTree | .bPlusTree => True
  | .bStarTree | .bStarPlusTree => p.minKeys = (2 * order - 2) / 3 ∧ p.maxKeys = order

/-- The sizes for an accepted order and record size: nothing wraps around. -/
structure Params.Sizes (treeType : TreeType) (order recSize : ℕ) (p : Params) : Prop where
  two_le : 2 ≤ order
  recSize_eq : p.recSize = recSize
  recSize_le : p.recSize ≤ 65535
  slots_eq : p.slots = treeType.slots order
  slots_le : p.slots ≤ 32767
  keyBounds : treeType.KeyBounds order p
  cursorsOfs_eq : p.cursorsOfs = 2 + p.recSize * p.slots
  nodePageSize_eq : p.nodePageSize = 2 + p.recSize * p.slots + 4 * (p.slots + 1)

theorem withLayout_sizes {treeType : TreeType} {order recSize : ℕ} {q : Params} (htwo : 2 ≤ order)
    (hrec : q.recSize = recSize) (hle : recSize ≤ 65535) (hslots : q.slots = treeType.slots order)
    (hmax : q.slots ≤ 32767) (hkeys : treeType.KeyBounds order q.withLayout) :
    q.withLayout.Sizes treeType order recSize := by
  have hmul : q.recSize * q.slots ≤ 65535 * 32767 := Nat.mul_le_mul (hrec ▸ hle) hmax
  refine ⟨htwo, hrec, hrec ▸ hle, hslots, hmax, hkeys, ?_, ?_⟩
  · show toUInt (toUInt (q.recSize * q.slots) + KEYS_OFS) = 2 + q.recSize * q.slots
    simp only [toUInt, KEYS_OFS]
    omega
  · show toUInt (toUInt (toUInt (q.recSize * q.slots) + KEYS_OFS) + CURSOR_SZ * (q.slots + 1)) =
      2 + q.recSize * q.slots + 4 * (q.slots + 1)
    simp only [toUInt, KEYS_OFS, CURSOR_SZ]
    omega

theorem BaseBStarTree.setOrder_sizes {order recSize : UInt16} {p : Params}
    (h : BaseBStarTree.setOrder order recSize = .ok p) :
    p.Sizes .bStarTree order.toNat recSize.toNat := by
  simp only [BaseBStarTree.setOrder] at h
  split_ifs at h with hlo hhi
  rw [← Except.ok.inj h]
  have hfour := four_le_order hlo
  exact withLayout_sizes (by omega) rfl (recSize_le recSize) rfl (Nat.not_lt.mp hhi) ⟨rfl, rfl⟩

theorem setOrder_sizes {treeType : TreeType} {order recSize : UInt16} {p : Params}
    (h : setOrder treeType order recSize = .ok p) :
    p.Sizes treeType order.toNat recSize.toNat := by
  cases treeType with
  | bTree =>
    simp only [setOrder, BaseBTree.setOrder] at h
    split_ifs at h with hlo hhi
    rw [← Except.ok.inj h]
    exact withLayout_sizes (two_le_order hlo) rfl (recSize_le recSize) rfl (Nat.not_lt.mp hhi) trivial
  | bPlusTree =>
    simp only [setOrder, BaseBPlusTree.setOrder] at h
    split_ifs at h with hlo hhi
    rw [← Except.ok.inj h]
    exact withLayout_sizes (two_le_order hlo) rfl (recSize_le recSize) rfl (Nat.not_lt.mp hhi) trivial
  | bStarTree => exact BaseBStarTree.setOrder_sizes h
  | bStarPlusTree =>
    change (BaseBStarTree.setOrder order recSize).bind _ = .ok p at h
    cases hstar : BaseBStarTree.setOrder order recSize with
    | error e =>
      rw [hstar] at h
      cases h
    | ok q =>
      -- the layout is the one of a B*-tree
      rw [hstar] at h
      obtain ⟨htwo, hrec, hle, hslots, hmax, hkeys, hcursors, hpage⟩ :=
        BaseBStarTree.setOrder_sizes hstar
      cases h
      exact ⟨htwo, hrec, hle, hslots, hmax, hkeys, hcursors, hpage⟩

/-! ## Offsets that come out right -/

section

variable {treeType : TreeType} {order recSize : ℕ} {p : Params} {info : NodeInfo}

/-- The offset of the last cursor of the largest page is an `int`. -/
theorem LayoutFits.lastCursor_lt (hfit : LayoutFits order recSize treeType)
    (h : p.Sizes treeType order recSize) : 2 + p.recSize * p.slots + 4 * p.slots < 2 ^ 31 := by
  have hrec := h.recSize_le
  have hmax := h.slots_le
  have hslots := h.slots_eq
  have htwo := h.two_le
  cases treeType with
  | bTree =>
    have hlt : (recSize + 4) * (2 * order - 1) + 2 < 2 ^ 31 := hfit
    have hslots : p.slots = 2 * order - 1 := hslots
    rw [← hslots, ← h.recSize_eq, Nat.add_mul] at hlt
    omega
  | bPlusTree =>
    -- an even number of slots, so not the largest number
    have hslots : p.slots = 2 * order - 1 + 1 := hslots
    have hmul : p.recSize * p.slots ≤ 65535 * 32766 := Nat.mul_le_mul hrec (by omega)
    omega
  | bStarTree | bStarPlusTree =>
    have hlt : (2 * order + 1) * recSize < 2 ^ 31 := hfit
    have hslots : p.slots = max order (2 * ((2 * order - 2) / 3) + 1) := hslots
    have hthree : 3 * p.slots ≤ 2 * (2 * order + 1) := by omega
    have hmul := Nat.mul_le_mul_right p.recSize hthree
    rw [Nat.mul_assoc, Nat.mul_assoc, h.recSize_eq, Nat.mul_comm p.slots] at hmul
    rw [h.recSize_eq]
    omega

/-- The end of a key slot. -/
theorem Params.mul_add_le (p : Params) {n : ℕ} (hn : n < p.slots) :
    p.recSize * n + p.recSize ≤ p.recSize * p.slots := by
  rw [← Nat.mul_succ]
  exact Nat.mul_le_mul_left p.recSize hn

theorem toInt_getKeyOfs (h : p.Sizes treeType order recSize) (hholds : p.Holds info) {num : UInt16}
    (hnum : num < info.getKeysNum) :
    (p.getKeyOfs info num).toInt = (KEYS_OFS + p.recSize * num.toNat : ℕ) := by
  have hn : num.toNat < p.slots := Nat.lt_of_lt_of_le (UInt16.lt_iff_toNat_lt.mp hnum) hholds
  have hlt : KEYS_OFS + p.recSize * num.toNat < 2 ^ 31 := by
    have hmul : p.recSize * p.slots ≤ 65535 * 32767 := Nat.mul_le_mul h.recSize_le h.slots_le
    have hend := p.mul_add_le hn
    simp only [KEYS_OFS]
    omega
  rw [Params.getKeyOfs, if_neg (UInt16.not_le.mpr hnum), UInt32.toInt32_add, UInt32.toInt32_ofNat',
    Int32.toInt32_toUInt32, ← Int32.ofNat_mul, ← Int32.ofNat_add, Int32.toInt_ofNat_of_lt hlt]

theorem toInt_getCursorOfs (h : p.Sizes treeType order recSize)
    (hlast : 2 + p.recSize * p.slots + 4 * p.slots < 2 ^ 31) (hholds : p.Holds info) {cnum : UInt16}
    (hcnum : cnum ≤ info.getKeysNum) : (p.getCursorOfs info cnum).toInt =
      (KEYS_OFS + p.recSize * p.slots + CURSOR_SZ * cnum.toNat : ℕ) := by
  have hc : cnum.toNat ≤ p.slots := (UInt16.le_iff_toNat_le.mp hcnum).trans hholds
  have hlt : p.cursorsOfs + CURSOR_SZ * cnum.toNat < 2 ^ 31 := by
    rw [h.cursorsOfs_eq]
    simp only [CURSOR_SZ]
    omega
  rw [Params.getCursorOfs, if_neg (UInt16.not_lt.mpr hcnum), UInt32.toInt32_add, UInt32.toInt32_mul,
    UInt32.toInt32_ofNat', UInt32.toInt32_ofNat', UInt32.toInt32_ofNat', ← Int32.ofNat_mul,
    ← Int32.ofNat_add, Int32.toInt_ofNat_of_lt hlt, h.cursorsOfs_eq]
  rfl

/-! ## Fields that are apart -/

namespace PageField

theorem address_eq (h : p.Sizes treeType order recSize)
    (hlast : 2 + p.recSize * p.slots + 4 * p.slots < 2 ^ 31) (hholds : p.Holds info) {f : PageField}
    (hf : f.Present info) : f.address p info = f.ofs p := by
  cases f with
  | nodeInfo => rfl
  | key num => exact toInt_getKeyOfs h hholds hf
  | cursor cnum => exact toInt_getCursorOfs h hlast hholds hf

/-- The bytes of a field that stands at its intended offset. -/
def place (p : Params) (f : PageField) : Set ℤ := Set.Ico (f.ofs p : ℤ) (f.ofs p + f.size p)

theorem place_disjoint_of_le {f g : PageField} (h : f.ofs p + f.size p ≤ g.ofs p) :
    Disjoint (f.place p) (g.place p) := by
  apply Set.Ico_disjoint_Ico.mpr
  have hle : (f.ofs p + f.size p : ℤ) ≤ g.ofs p := by exact_mod_cast h
  exact (min_le_left _ _).trans (hle.trans (le_max_right _ _))

theorem nodeInfo_before {f : PageField} (hne : f ≠ nodeInfo) :
    nodeInfo.ofs p + nodeInfo.size p ≤ f.ofs p := by
  cases f with
  | nodeInfo => exact absurd rfl hne
  | key num => exact Nat.le_add_right 2 _
  | cursor cnum => exact (Nat.le_add_right 2 _).trans (Nat.le_add_right _ _)

theorem key_before_cursor (hholds : p.Holds info) {num : UInt16} (hnum : num < info.getKeysNum)
    (cnum : UInt16) : (key num).ofs p + (key num).size p ≤ (cursor cnum).ofs p := by
  have hn : num.toNat < p.slots := Nat.lt_of_lt_of_le (UInt16.lt_iff_toNat_lt.mp hnum) hholds
  have hend := p.mul_add_le hn
  simp only [ofs, size]
  omega

theorem key_disjoint {m n : UInt16} (hne : m ≠ n) :
    Disjoint ((key m).place p) ((key n).place p) := by
  have hidx : m.toNat ≠ n.toNat := fun h => hne (UInt16.toNat_inj.mp h)
  have hdisj := slots_disjoint (2 : ℤ) (Int.natCast_nonneg p.recSize) hidx
  simpa only [place, ofs, size, KEYS_OFS, Nat.cast_add, Nat.cast_mul, Nat.cast_ofNat,
    mul_comm (p.recSize : ℤ)] using hdisj

theorem cursor_disjoint {m n : UInt16} (hne : m ≠ n) :
    Disjoint ((cursor m).place p) ((cursor n).place p) := by
  have hidx : m.toNat ≠ n.toNat := fun h => hne (UInt16.toNat_inj.mp h)
  have hdisj := slots_disjoint (2 + p.recSize * p.slots : ℤ) (by decide : (0 : ℤ) ≤ 4) hidx
  simpa only [place, ofs, size, KEYS_OFS, CURSOR_SZ, Nat.cast_add, Nat.cast_mul, Nat.cast_ofNat,
    mul_comm (4 : ℤ)] using hdisj

theorem place_disjoint (hholds : p.Holds info) {f g : PageField} (hf : f.Present info)
    (hg : g.Present info) (hne : f ≠ g) : Disjoint (f.place p) (g.place p) := by
  cases f with
  | nodeInfo => exact place_disjoint_of_le (nodeInfo_before hne.symm)
  | key m =>
    cases g with
    | nodeInfo => exact (place_disjoint_of_le (nodeInfo_before hne)).symm
    | key n => exact key_disjoint fun h => hne (congrArg key h)
    | cursor n => exact place_disjoint_of_le (key_before_cursor hholds hf n)
  | cursor m =>
    cases g with
    | nodeInfo => exact (place_disjoint_of_le (nodeInfo_before hne)).symm
    | key n => exact (place_disjoint_of_le (key_before_cursor hholds hg m)).symm
    | cursor n => exact cursor_disjoint fun h => hne (congrArg cursor h)

theorem place_subset (h : p.Sizes treeType order recSize) (hholds : p.Holds info) {f : PageField}
    (hf : f.Present info) : f.place p ⊆ Set.Ico 0 (p.nodePageSize : ℤ) := by
  apply Set.Ico_subset_Ico (Int.natCast_nonneg _)
  have hle : f.ofs p + f.size p ≤ p.nodePageSize := by
    rw [h.nodePageSize_eq]
    cases f with
    | nodeInfo =>
      simp only [ofs, size, KEYS_OFS]
      omega
    | key num =>
      have hend := key_before_cursor hholds hf 0
      simp only [ofs, KEYS_OFS, CURSOR_SZ] at hend ⊢
      simp only [UInt16.toNat_zero] at hend
      omega
    | cursor cnum =>
      have hc : cnum.toNat ≤ p.slots := (UInt16.le_iff_toNat_le.mp hf).trans hholds
      simp only [ofs, size, KEYS_OFS, CURSOR_SZ]
      omega
  exact_mod_cast hle

end PageField

/-! ## Buffers that have the right size -/

/-- In a tree that splits two pages into three. -/
theorem Params.Sizes.maxKeys_eq (h : p.Sizes treeType order recSize) {b : KeysBuffer}
    (hused : b.UsedBy treeType) : p.maxKeys = order := by
  have hkeys := h.keyBounds
  cases treeType with
  | bTree => exact hused.elim
  | bPlusTree => exact hused.elim
  | bStarTree => exact hkeys.2
  | bStarPlusTree => exact hkeys.2

theorem order_le_slots (h : p.Sizes treeType order recSize) : order ≤ p.slots := by
  have htwo := h.two_le
  rw [h.slots_eq]
  cases treeType with
  | bTree =>
    show order ≤ 2 * order - 1
    omega
  | bPlusTree =>
    show order ≤ 2 * order - 1 + 1
    omega
  | bStarTree | bStarPlusTree => exact Nat.le_max_left _ _

/-- The three children that the code merges have at most `_minKeys` keys each. -/
theorem KeysBuffer.fits_of_minKeys (h : p.Sizes treeType order recSize)
    {left middle right : UInt16} (hused : (mergeChildren left middle right).UsedBy treeType)
    (hleft : left.toNat ≤ p.minKeys) (hmiddle : middle.toNat ≤ p.minKeys)
    (hright : right.toNat ≤ p.minKeys) :
    (mergeChildren left middle right).Fits p ∧ (mergeLeaves left middle right).Fits p := by
  have hmax := h.maxKeys_eq hused
  have htwo := h.two_le
  have hmin : p.minKeys = (2 * order - 2) / 3 := by
    have hkeys := h.keyBounds
    cases treeType with
    | bTree => exact hused.elim
    | bPlusTree => exact hused.elim
    | bStarTree => exact hkeys.1
    | bStarPlusTree => exact hkeys.1
  have hle : left.toNat + middle.toNat + right.toNat + 2 ≤ 2 * p.maxKeys + 1 := by omega
  exact ⟨hle, hle⟩

theorem KeysBuffer.keys_le {b : KeysBuffer} (hfits : b.Fits p) : b.keys ≤ 2 * p.maxKeys + 1 := by
  cases b with
  | splitChildren left right | splitLeaves left right =>
    obtain ⟨hleft, hright⟩ := hfits
    simp only [keys]
    omega
  | mergeChildren left middle right | mergeLeaves left middle right =>
    have hle : left.toNat + middle.toNat + right.toNat + 2 ≤ 2 * p.maxKeys + 1 := hfits
    simp only [keys]
    omega

/-- The variable `keysNum` of the code does not wrap around. -/
theorem KeysBuffer.toNat_keysNum {b : KeysBuffer} (h : b.keys < 2 ^ 16) :
    b.keysNum.toNat = b.keys := by
  cases b with
  | splitChildren left right | splitLeaves left right
  | mergeChildren left middle right | mergeLeaves left middle right =>
    simp only [keys] at h
    simp only [keysNum, keys, UInt16.toNat_add, UInt16.toNat_one, UInt16.reduceToNat]
    omega

theorem toInt_bufferSize (h : p.Sizes treeType order recSize)
    (hfit : LayoutFits order recSize treeType) {b : KeysBuffer} (hused : b.UsedBy treeType)
    (hfits : b.Fits p) : (p.bufferSize b.keysNum).toInt = (b.keys * p.recSize : ℕ) := by
  have hkeys := b.keys_le hfits
  rw [h.maxKeys_eq hused] at hkeys
  have horder := order_le_slots h
  have hmax := h.slots_le
  have hlt : (2 * order + 1) * recSize < 2 ^ 31 := by
    cases treeType with
    | bTree => exact hused.elim
    | bPlusTree => exact hused.elim
    | bStarTree => exact hfit
    | bStarPlusTree => exact hfit
  have hmul : b.keys * p.recSize ≤ (2 * order + 1) * recSize := by
    rw [h.recSize_eq]
    exact Nat.mul_le_mul_right recSize hkeys
  rw [Params.bufferSize, KeysBuffer.toNat_keysNum (by omega), ← Int32.ofNat_mul,
    Int32.toInt_ofNat_of_lt (hmul.trans_lt hlt)]

/-! ## The exact condition -/

theorem LayoutFits.laidOut (h : p.Sizes treeType order recSize)
    (hfit : LayoutFits order recSize treeType) : p.LaidOut treeType := by
  have hlast := hfit.lastCursor_lt h
  have harea {info : NodeInfo} (hholds : p.Holds info) {f : PageField} (hf : f.Present info) :
      f.area p info = f.place p := by
    rw [PageField.area, PageField.address_eq h hlast hholds hf]
    rfl
  constructor
  · intro info f hholds hf
    exact PageField.address_eq h hlast hholds hf
  · intro info f g hholds hf hg hne
    rw [harea hholds hf, harea hholds hg]
    exact PageField.place_disjoint hholds hf hg hne
  · intro info f hholds hf
    rw [harea hholds hf]
    exact PageField.place_subset h hholds hf
  · intro keysNum hle info isLeaf
    have hle := hle.trans h.slots_le
    exact ⟨NodeInfo.getKeysNum_setKeyNum hle, NodeInfo.getKeysNum_setKeyNumLeaf hle isLeaf,
      NodeInfo.getKeysNum_setLeaf isLeaf⟩
  · intro keysNum hle info isLeaf
    have hle := hle.trans h.slots_le
    exact ⟨NodeInfo.isLeaf_setKeyNum hle, NodeInfo.isLeaf_setKeyNumLeaf hle isLeaf,
      NodeInfo.isLeaf_setLeaf isLeaf⟩
  · intro b hused hfits
    exact toInt_bufferSize h hfit hused hfits

/-- The last cursor of the largest page has an offset that is an `int`. -/
theorem Params.LaidOut.lastCursor_lt (h : p.Sizes treeType order recSize)
    (hlaid : p.LaidOut treeType) : 2 + p.recSize * p.slots + 4 * p.slots < 2 ^ 31 := by
  have hof : (UInt16.ofNat p.slots).toNat = p.slots :=
    UInt16.toNat_ofNat_of_lt' (Nat.lt_of_le_of_lt h.slots_le (by decide))
  have hkeys : NodeInfo.getKeysNum (UInt16.ofNat p.slots) = UInt16.ofNat p.slots :=
    NodeInfo.and_not_mask (by rw [hof]; exact h.slots_le)
  have hholds : p.Holds (UInt16.ofNat p.slots) := by
    rw [Params.Holds, hkeys, hof]
  have hpresent : (PageField.cursor (UInt16.ofNat p.slots)).Present (UInt16.ofNat p.slots) := by
    show UInt16.ofNat p.slots ≤ NodeInfo.getKeysNum (UInt16.ofNat p.slots)
    rw [hkeys]
    exact UInt16.le_refl _
  have haddress := hlaid.offsets _ _ hholds hpresent
  simp only [PageField.address, PageField.ofs, hof, KEYS_OFS, CURSOR_SZ] at haddress
  have hlt := Int32.toInt_lt (p.getCursorOfs (UInt16.ofNat p.slots) (UInt16.ofNat p.slots))
  omega

/-- Two full children have a buffer whose size is an `int`. -/
theorem Params.LaidOut.fullChildren_lt (h : p.Sizes treeType order recSize)
    (hlaid : p.LaidOut treeType)
    (hused : ∀ left right, (KeysBuffer.splitChildren left right).UsedBy treeType) :
    (2 * order + 1) * recSize < 2 ^ 31 := by
  have hmax : p.maxKeys = order := h.maxKeys_eq (hused 0 0)
  have hlt : order < 2 ^ 16 := by
    have := order_le_slots h
    have := h.slots_le
    omega
  have hof : (UInt16.ofNat order).toNat = order := UInt16.toNat_ofNat_of_lt' hlt
  have hfits : (KeysBuffer.splitChildren (UInt16.ofNat order) (UInt16.ofNat order)).Fits p := by
    show (UInt16.ofNat order).toNat ≤ p.maxKeys ∧ (UInt16.ofNat order).toNat ≤ p.maxKeys
    rw [hof, hmax]
    exact ⟨Nat.le_refl _, Nat.le_refl _⟩
  have hsize := hlaid.buffers _ (hused _ _) hfits
  simp only [KeysBuffer.keys, hof, h.recSize_eq] at hsize
  have hint := Int32.toInt_lt
    (p.bufferSize (KeysBuffer.splitChildren (UInt16.ofNat order) (UInt16.ofNat order)).keysNum)
  rw [hsize] at hint
  rw [Nat.two_mul]
  exact_mod_cast hint

/-- For every order and record size that `setOrder` accepts, the layout of the pages and of the buffers
is the intended one exactly when it fits into an `int`. -/
theorem laidOut_iff (treeType : TreeType) (order recSize : UInt16) (p : Params)
    (hset : setOrder treeType order recSize = .ok p) :
    p.LaidOut treeType ↔ LayoutFits order.toNat recSize.toNat treeType := by
  have h := setOrder_sizes hset
  constructor
  · intro hlaid
    cases treeType with
    | bTree =>
      have hlt := hlaid.lastCursor_lt h
      have hslots : p.slots = 2 * order.toNat - 1 := h.slots_eq
      show (recSize.toNat + 4) * (2 * order.toNat - 1) + 2 < 2 ^ 31
      rw [← hslots, ← h.recSize_eq, Nat.add_mul]
      omega
    | bPlusTree => trivial
    | bStarTree => exact hlaid.fullChildren_lt h fun _ _ => trivial
    | bStarPlusTree => exact hlaid.fullChildren_lt h fun _ _ => trivial
  · intro hfit
    exact hfit.laidOut h

theorem laidOut_iff_two_one :
    ∃ p, setOrder .bTree 2 1 = .ok p ∧ (p.LaidOut .bTree ↔ LayoutFits 2 1 .bTree) :=
  ⟨_, rfl, laidOut_iff .bTree 2 1 _ rfl⟩

/-- The last cursor of the largest B-tree page has a negative offset: the code looks for it in front of
the page. -/
theorem getCursorOfs_negative :
    ∃ p, setOrder .bTree 16384 65535 = .ok p ∧ p.Holds 32767 ∧
      (PageField.cursor 32767).Present 32767 ∧
      (p.getCursorOfs 32767 32767).toInt = -2147450881 ∧ ¬ p.LaidOut .bTree := by
  refine ⟨_, rfl, by decide, by decide, by decide, ?_⟩
  intro hlaid
  exact absurd ((laidOut_iff .bTree 16384 65535 _ rfl).mp hlaid) (by decide)

/-- Two full children of a B*-tree of the same order and record size get a buffer of a negative size. -/
theorem bufferSize_negative :
    ∃ p, setOrder .bStarTree 16384 65535 = .ok p ∧
      (KeysBuffer.splitChildren 16384 16384).Fits p ∧
      (p.bufferSize (KeysBuffer.splitChildren 16384 16384).keysNum).toInt = -2147450881 := by
  refine ⟨_, rfl, ?_, by decide⟩
  exact ⟨by decide, by decide⟩

end

end BTreesMods

import BTreesMods.File.PageLayout
import BTreesMods.Lib.Bytes
import BTreesMods.Lib.Machine
import BTreesMods.Lib.Words

/-!
# Pages as bytes

Model of the accessors of `BaseBTree::PageWrapper` on the bytes `_data` (`btree.hpp`, lines 927–1065):
the node info, the pointers that `getKey` and `getCursorPtr` compute, and the copies through them.
A copy that leaves the `_nodePageSize` bytes of `_data` is undefined behaviour of the C++ code; the
model stops there with `Err.overrun`.

`Page.bytes` are the bytes of a page. `pageRun_bytes`: for the orders and record sizes of `LayoutFits`,
any sequence of calls on the bytes copies out, throws and leaves behind what the same sequence does on
the page.
-/

namespace BTreesMods

/-! ## The bytes of a page -/

/-- A record of `n` bytes. -/
abbrev Record (n : ℕ) := { bs : List UInt8 // bs.length = n }

instance (n : ℕ) : Inhabited (Record n) := ⟨List.replicate n 0, List.length_replicate⟩

/-- Records, one behind the other. -/
def recordCodec (n : ℕ) : WordCodec (Record n) UInt8 := ⟨n, Subtype.val, Subtype.property⟩

/-- Cursors, one behind the other. -/
def cursorCodec : WordCodec ℕ UInt8 := ⟨CURSOR_SZ, leBytes CURSOR_SZ, length_leBytes CURSOR_SZ⟩

namespace Page

variable (p : Params) (pg : Page (Record p.recSize))

/-- The node info of the page. -/
def nodeInfo : NodeInfo := NodeInfo.setKeyNumLeaf (UInt16.ofNat pg.keysNum) pg.isLeaf

/-- The bytes of the page: the node info, the key slots and the cursor slots. -/
def bytes : List UInt8 :=
  leBytes KEYS_OFS (pg.nodeInfo p).toNat ++ ((recordCodec p.recSize).words (slice pg.key 0 p.slots) ++
    cursorCodec.words (slice pg.cursor 0 (p.slots + 1)))

/-- The page has at most as many keys as slots, and its cursors are of the type `UInt`. -/
structure Fits : Prop where
  keysNum_le : pg.keysNum ≤ p.slots
  cursor_lt : ∀ c ≤ p.slots, pg.cursor c < 2 ^ 32

end Page

/-! ## Accessors -/

/-- `_data`. -/
abbrev PageData := List UInt8

namespace PageData

/-- `clear` (lines 927–933). -/
def clear (p : Params) : PageData := List.replicate p.nodePageSize 0

variable (data : PageData)

/-- The first two bytes. -/
def nodeInfo : NodeInfo := UInt16.ofNat (leNat (peek data 0 KEYS_OFS))

/-- An assignment to the first two bytes. -/
def setNodeInfo (info : NodeInfo) : PageData := poke data 0 (leBytes KEYS_OFS info.toNat)

/-- `setKeyNumLeaf` (lines 935–941). -/
def setKeyNumLeaf (keysNum : UInt16) (isLeaf : Bool) : PageData :=
  data.setNodeInfo (NodeInfo.setKeyNumLeaf keysNum isLeaf)

/-- `setKeyNum` (lines 943–950). -/
def setKeyNum (keysNum : UInt16) : PageData := data.setNodeInfo (data.nodeInfo.setKeyNum keysNum)

/-- `isLeaf` (lines 962–967). -/
def isLeaf : Bool := data.nodeInfo.isLeaf

/-- `getKeysNum` (lines 969–974). -/
def getKeysNum : UInt16 := data.nodeInfo.getKeysNum

/-- `memcpy` of `n` bytes from the offset `ofs` on. -/
def load (ofs n : ℤ) : Except Err (List UInt8) :=
  if 0 ≤ ofs ∧ 0 ≤ n ∧ ofs + n ≤ data.length then .ok (peek data ofs.toNat n.toNat)
  else .error .overrun

/-- `memcpy` of `n` bytes to the offset `ofs`. -/
def store (ofs n : ℤ) (bs : List UInt8) : Except Err PageData :=
  if 0 ≤ ofs ∧ 0 ≤ n ∧ ofs + n ≤ data.length ∧ n ≤ bs.length then
    .ok (poke data ofs.toNat (bs.take n.toNat))
  else .error .overrun

variable (p : Params)

/-- `getKey(num)` (lines 976–992), as an offset from `_data`, used as a pointer. -/
def keyPtr (num : UInt16) : Except Err ℤ :=
  let kofst := p.getKeyOfs data.nodeInfo num
  if kofst = -1 then .error .nullPointer else .ok kofst.toInt

/-- `getCursorPtr(cnum)` (lines 1032–1040), as an offset from `_data`. -/
def cursorPtr (cnum : UInt16) : Except Err ℤ :=
  let curOfs := p.getCursorOfs data.nodeInfo cnum
  if curOfs = -1 then .error (.invalidArgument "Wrong cursor number") else .ok curOfs.toInt

/-- The number of bytes that `copyCursors` copies (lines 1014–1021), a product of `UInt`s. -/
def cursorsSize (num : UInt16) : ℕ := (UInt32.ofNat num.toNat * UInt32.ofNat CURSOR_SZ).toNat

/-- `copyKeys` (lines 1004–1012) from `getKey(num)` on. -/
def readKeys (num n : UInt16) : Except Err (List UInt8) :=
  if n = 0 then .ok []
  else do data.load (← data.keyPtr p num) (p.bufferSize n).toInt

/-- `copyKeys` (lines 1004–1012) to `getKey(num)`. -/
def copyKeys (num n : UInt16) (src : List UInt8) : Except Err PageData :=
  if n = 0 then .ok data
  else do data.store (← data.keyPtr p num) (p.bufferSize n).toInt src

/-- `copyKey` (lines 996–1002) from `getKey(num)`. -/
def readKey (num : UInt16) : Except Err (List UInt8) := do
  data.load (← data.keyPtr p num) p.recSize

/-- `copyKey` (lines 996–1002) to `getKey(num)`. -/
def copyKey (num : UInt16) (src : List UInt8) : Except Err PageData := do
  data.store (← data.keyPtr p num) p.recSize src

/-- `copyCursors` (lines 1014–1021) from `getCursorPtr(cnum)` on. -/
def readCursors (cnum n : UInt16) : Except Err (List UInt8) := do
  data.load (← data.cursorPtr p cnum) (cursorsSize n)

/-- `copyCursors` (lines 1014–1021) to `getCursorPtr(cnum)`. -/
def copyCursors (cnum n : UInt16) (src : List UInt8) : Except Err PageData := do
  data.store (← data.cursorPtr p cnum) (cursorsSize n) src

/-- `getCursor` (lines 1023–1030). -/
def getCursor (cnum : UInt16) : Except Err UInt32 := do
  return UInt32.ofNat (leNat (← data.load (← data.cursorPtr p cnum) CURSOR_SZ))

/-- `setCursor` (lines 1042–1049). -/
def setCursor (cnum : UInt16) (cval : UInt32) : Except Err PageData := do
  data.store (← data.cursorPtr p cnum) CURSOR_SZ (leBytes CURSOR_SZ cval.toNat)

end PageData

/-! ## Calls -/

/-- A call on a page. Copies go to or come from a buffer outside of the page. -/
inductive PageCall (recSize : ℕ)
  | getKeysNum
  | isLeaf
  | setKeyNum (keysNum : UInt16)
  | readKey (num : UInt16)
  | copyKey (num : UInt16) (src : Record recSize)
  | readKeys (num n : UInt16)
  | copyKeys (num n : UInt16) (src : ℕ → Record recSize)
  | getCursor (cnum : UInt16)
  | setCursor (cnum : UInt16) (cval : UInt32)
  | readCursors (cnum n : UInt16)
  | copyCursors (cnum n : UInt16) (src : ℕ → UInt32)

/-- What a call returns, or the bytes that it copies out. -/
inductive PageAnswer
  | done
  | number (n : ℕ)
  | flag (b : Bool)
  | copied (bs : List UInt8)

namespace PageCall

variable (p : Params)

/-- The call on the page. -/
def run : PageCall p.recSize → StateT (Page (Record p.recSize)) (Except Err) PageAnswer
  | getKeysNum => fun pg => .ok (.number pg.keysNum, pg)
  | isLeaf => fun pg => .ok (.flag pg.isLeaf, pg)
  | setKeyNum keysNum => fun pg => .ok (.done, pg.setKeyNum keysNum.toNat)
  | readKey num => fun pg => (pg.getKey p.slots num.toNat).map fun k => (.copied k.1, pg)
  | copyKey num src => fun pg => (pg.copyKey p.slots num.toNat src).map fun pg => (.done, pg)
  | readKeys num n => fun pg => (pg.readKeys p.slots num.toNat n.toNat).map fun ks =>
    (.copied ((recordCodec p.recSize).words (slice ks 0 n.toNat)), pg)
  | copyKeys num n src => fun pg =>
    (pg.copyKeys p.slots num.toNat src n.toNat).map fun pg => (.done, pg)
  | getCursor cnum => fun pg => (pg.getCursor p.slots cnum.toNat).map fun c => (.number c, pg)
  | setCursor cnum cval => fun pg =>
    (pg.setCursor p.slots cnum.toNat cval.toNat).map fun pg => (.done, pg)
  | readCursors cnum n => fun pg => (pg.readCursors p.slots cnum.toNat n.toNat).map fun cs =>
    (.copied (cursorCodec.words (slice cs 0 n.toNat)), pg)
  | copyCursors cnum n src => fun pg =>
    (pg.copyCursors p.slots cnum.toNat (fun j => (src j).toNat) n.toNat).map fun pg => (.done, pg)

/-- The call on the bytes. -/
def exec : PageCall p.recSize → StateT PageData (Except Err) PageAnswer
  | getKeysNum => fun data => .ok (.number data.getKeysNum.toNat, data)
  | isLeaf => fun data => .ok (.flag data.isLeaf, data)
  | setKeyNum keysNum => fun data => .ok (.done, data.setKeyNum keysNum)
  | readKey num => fun data => (data.readKey p num).map fun bs => (.copied bs, data)
  | copyKey num src => fun data => (data.copyKey p num src.1).map fun data => (.done, data)
  | readKeys num n => fun data => (data.readKeys p num n).map fun bs => (.copied bs, data)
  | copyKeys num n src => fun data =>
    (data.copyKeys p num n ((recordCodec p.recSize).words (slice src 0 n.toNat))).map fun data => (.done, data)
  | getCursor cnum => fun data => (data.getCursor p cnum).map fun c => (.number c.toNat, data)
  | setCursor cnum cval => fun data => (data.setCursor p cnum cval).map fun data => (.done, data)
  | readCursors cnum n => fun data => (data.readCursors p cnum n).map fun bs => (.copied bs, data)
  | copyCursors cnum n src => fun data =>
    (data.copyCursors p cnum n (cursorCodec.words (slice (fun j => (src j).toNat) 0 n.toNat))).map
      fun data => (.done, data)

/-- The call sets no number of keys beyond the slots. -/
def InRange : PageCall p.recSize → Prop
  | setKeyNum keysNum => keysNum.toNat ≤ p.slots
  | _ => True

end PageCall

/-- What the bytes do that the page does: the same answer and the bytes of the page, or the same
exception. Nothing is said where the page runs out of a slot area. -/
def Page.Refined (p : Params) {α : Type} (x : Except Err (α × Page (Record p.recSize)))
    (y : Except Err (α × PageData)) : Prop :=
  x = .error .overrun ∨ y = x.map fun r => (r.1, r.2.bytes p)

/-! ## Reading the bytes of a page -/

section

variable {treeType : TreeType} {order recSize : ℕ} {p : Params} {pg : Page (Record p.recSize)}

theorem length_bytes (h : p.Sizes treeType order recSize) : (pg.bytes p).length = p.nodePageSize := by
  rw [h.nodePageSize_eq]
  simp only [Page.bytes, List.length_append, length_leBytes, WordCodec.length_words, length_slice, KEYS_OFS]
  show 2 + (p.recSize * p.slots + 4 * (p.slots + 1)) = _
  omega

theorem Page.Fits.toNat_keysNum (hp : pg.Fits p) (h : p.Sizes treeType order recSize) :
    (UInt16.ofNat pg.keysNum).toNat = pg.keysNum := by
  have hle := hp.keysNum_le
  have hslots := h.slots_le
  exact UInt16.toNat_ofNat_of_lt' (show pg.keysNum < 65536 by omega)

theorem Page.Fits.keysNum_nodeInfo (hp : pg.Fits p) (h : p.Sizes treeType order recSize) :
    (pg.nodeInfo p).getKeysNum = UInt16.ofNat pg.keysNum := by
  apply NodeInfo.getKeysNum_setKeyNumLeaf
  rw [hp.toNat_keysNum h]
  exact hp.keysNum_le.trans h.slots_le

theorem Page.Fits.isLeaf_nodeInfo (hp : pg.Fits p) (h : p.Sizes treeType order recSize) :
    (pg.nodeInfo p).isLeaf = pg.isLeaf := by
  apply NodeInfo.isLeaf_setKeyNumLeaf
  rw [hp.toNat_keysNum h]
  exact hp.keysNum_le.trans h.slots_le

theorem Page.Fits.holds (hp : pg.Fits p) (h : p.Sizes treeType order recSize) : p.Holds (pg.nodeInfo p) := by
  rw [Params.Holds, hp.keysNum_nodeInfo h, hp.toNat_keysNum h]
  exact hp.keysNum_le

/-- Changing the number of keys keeps the leaf flag. -/
theorem Page.Fits.setKeyNum_nodeInfo (hp : pg.Fits p) (h : p.Sizes treeType order recSize) (keysNum : UInt16) :
    (pg.nodeInfo p).setKeyNum keysNum = Page.nodeInfo p (pg.setKeyNum keysNum.toNat) := by
  have hle : (UInt16.ofNat pg.keysNum).toNat ≤ 32767 := by
    rw [hp.toNat_keysNum h]
    exact hp.keysNum_le.trans h.slots_le
  have hmask : (pg.nodeInfo p) &&& LEAF_NODE_MASK = if pg.isLeaf then LEAF_NODE_MASK else 0 := by
    unfold Page.nodeInfo NodeInfo.setKeyNumLeaf
    cases pg.isLeaf with
    | false => exact NodeInfo.and_mask hle
    | true =>
      show (UInt16.ofNat pg.keysNum ||| LEAF_NODE_MASK) &&& LEAF_NODE_MASK = LEAF_NODE_MASK
      rw [NodeInfo.and_or_distrib_right, NodeInfo.and_mask hle, UInt16.zero_or, UInt16.and_self]
  rw [NodeInfo.setKeyNum, hmask]
  show _ = NodeInfo.setKeyNumLeaf (UInt16.ofNat keysNum.toNat) pg.isLeaf
  rw [UInt16.ofNat_toNat, NodeInfo.setKeyNumLeaf]
  cases pg.isLeaf with
  | false => exact UInt16.zero_or
  | true => exact UInt16.or_comm _ _

theorem nodeInfo_bytes : PageData.nodeInfo (pg.bytes p) = pg.nodeInfo p := by
  have hpeek : peek (pg.bytes p) 0 KEYS_OFS = leBytes KEYS_OFS (pg.nodeInfo p).toNat := by
    have hall := peek_all (leBytes KEYS_OFS (pg.nodeInfo p).toNat)
    rw [length_leBytes] at hall
    rw [Page.bytes, peek_append_left (by simp), hall]
  have hlt : (pg.nodeInfo p).toNat % 256 ^ KEYS_OFS = (pg.nodeInfo p).toNat :=
    Nat.mod_eq_of_lt (UInt16.toNat_lt _)
  rw [PageData.nodeInfo, hpeek, leNat_leBytes, hlt]
  exact UInt16.ofNat_toNat

theorem setNodeInfo_bytes (info : NodeInfo) : PageData.setNodeInfo (pg.bytes p) info =
    leBytes KEYS_OFS info.toNat ++ ((recordCodec p.recSize).words (slice pg.key 0 p.slots) ++
      cursorCodec.words (slice pg.cursor 0 (p.slots + 1))) := by
  rw [PageData.setNodeInfo, Page.bytes, poke_append_left (by simp), poke_all (by simp)]

/-! ## Copies -/

namespace PageData

variable {data : PageData}

theorem load_of_le {o n : ℕ} (hle : o + n ≤ data.length) : data.load o n = .ok (peek data o n) := by
  rw [load, if_pos ⟨by omega, by omega, by omega⟩]
  rfl

theorem store_of_le {o : ℕ} {bs : List UInt8} (hle : o + bs.length ≤ data.length) :
    data.store o bs.length bs = .ok (poke data o bs) := by
  rw [store, if_pos ⟨by omega, by omega, by omega, by omega⟩, Int.toNat_natCast,
    Int.toNat_natCast, List.take_length]

end PageData

/-- A run of key slots begins behind the node info. -/
theorem peek_keys {num n : ℕ} (hn : num + n ≤ p.slots) :
    peek (pg.bytes p) (KEYS_OFS + p.recSize * num) (p.recSize * n) =
      (recordCodec p.recSize).words (slice pg.key num n) := by
  have hle : p.recSize * num + p.recSize * n ≤ p.recSize * p.slots := by
    rw [← Nat.mul_add]
    exact Nat.mul_le_mul_left _ hn
  have hright := peek_append_right (leBytes KEYS_OFS (pg.nodeInfo p).toNat)
    ((recordCodec p.recSize).words (slice pg.key 0 p.slots) ++
      cursorCodec.words (slice pg.cursor 0 (p.slots + 1))) (p.recSize * num) (p.recSize * n)
  rw [length_leBytes] at hright
  rw [Page.bytes, hright, peek_append_left]
  · exact ((recordCodec p.recSize).peek_words _ num n).trans (by rw [peek_slice _ hn])
  · rw [WordCodec.length_words, length_slice]
    exact hle

/-- A run of cursor slots begins behind the key slots. -/
theorem peek_cursors {cnum n : ℕ} (hn : cnum + n ≤ p.slots + 1) :
    peek (pg.bytes p) (KEYS_OFS + p.recSize * p.slots + CURSOR_SZ * cnum) (CURSOR_SZ * n) =
      cursorCodec.words (slice pg.cursor cnum n) := by
  have hright := peek_append_right
    (leBytes KEYS_OFS (pg.nodeInfo p).toNat ++ (recordCodec p.recSize).words (slice pg.key 0 p.slots))
    (cursorCodec.words (slice pg.cursor 0 (p.slots + 1))) (CURSOR_SZ * cnum) (CURSOR_SZ * n)
  rw [List.length_append, length_leBytes, WordCodec.length_words, length_slice] at hright
  rw [Page.bytes, ← List.append_assoc]
  exact hright.trans ((cursorCodec.peek_words _ cnum n).trans (by rw [peek_slice _ hn]))

theorem poke_keys {num n : ℕ} (hn : num + n ≤ p.slots) (src : ℕ → Record p.recSize) :
    poke (pg.bytes p) (KEYS_OFS + p.recSize * num) ((recordCodec p.recSize).words (slice src 0 n)) =
      Page.bytes p { pg with key := blit pg.key num src 0 n } := by
  have hle : p.recSize * num + p.recSize * n ≤ p.recSize * p.slots := by
    rw [← Nat.mul_add]
    exact Nat.mul_le_mul_left _ hn
  have hright := poke_append_right (leBytes KEYS_OFS (pg.nodeInfo p).toNat)
    ((recordCodec p.recSize).words (slice pg.key 0 p.slots) ++
      cursorCodec.words (slice pg.cursor 0 (p.slots + 1))) (p.recSize * num)
    ((recordCodec p.recSize).words (slice src 0 n))
  rw [length_leBytes] at hright
  rw [Page.bytes, hright, poke_append_left]
  · have hwords := (recordCodec p.recSize).poke_words (slice pg.key 0 p.slots) num (slice src 0 n)
    rw [poke_slice _ _ hn] at hwords
    show _ ++ (poke _ ((recordCodec p.recSize).width * num) _ ++ _) = _
    rw [hwords]
    rfl
  · rw [WordCodec.length_words, WordCodec.length_words, length_slice, length_slice]
    exact hle

theorem poke_cursors {cnum n : ℕ} (hn : cnum + n ≤ p.slots + 1) (src : ℕ → ℕ) :
    poke (pg.bytes p) (KEYS_OFS + p.recSize * p.slots + CURSOR_SZ * cnum)
        (cursorCodec.words (slice src 0 n)) =
      Page.bytes p { pg with cursor := blit pg.cursor cnum src 0 n } := by
  have hright := poke_append_right
    (leBytes KEYS_OFS (pg.nodeInfo p).toNat ++ (recordCodec p.recSize).words (slice pg.key 0 p.slots))
    (cursorCodec.words (slice pg.cursor 0 (p.slots + 1))) (CURSOR_SZ * cnum)
    (cursorCodec.words (slice src 0 n))
  rw [List.length_append, length_leBytes, WordCodec.length_words, length_slice] at hright
  have hwords := cursorCodec.poke_words (slice pg.cursor 0 (p.slots + 1)) cnum (slice src 0 n)
  rw [poke_slice _ _ hn] at hwords
  rw [Page.bytes, ← List.append_assoc]
  refine hright.trans ?_
  show _ ++ poke _ (cursorCodec.width * cnum) _ = _
  rw [hwords, List.append_assoc]
  rfl

/-! ## Pointers -/

/-- A pointer that is not the null pointer is the offset of the key slot. -/
theorem keyPtr_bytes (h : p.Sizes treeType order recSize) (hp : pg.Fits p) (num : UInt16) :
    PageData.keyPtr (pg.bytes p) p num =
      if num.toNat < pg.keysNum then .ok ((KEYS_OFS + p.recSize * num.toNat : ℕ) : ℤ)
      else .error .nullPointer := by
  have hinfo := hp.keysNum_nodeInfo h
  unfold PageData.keyPtr
  rw [nodeInfo_bytes]
  by_cases hnum : num.toNat < pg.keysNum
  · have hlt : num < (pg.nodeInfo p).getKeysNum := by
      rw [hinfo, UInt16.lt_iff_toNat_lt, hp.toNat_keysNum h]
      exact hnum
    have hofs := toInt_getKeyOfs h (hp.holds h) hlt
    have hne : p.getKeyOfs (pg.nodeInfo p) num ≠ -1 := by
      intro heq
      rw [heq] at hofs
      have hneg : (-1 : Int32).toInt = -1 := by decide
      omega
    rw [if_neg hne, if_pos hnum, hofs]
  · have hge : num ≥ (pg.nodeInfo p).getKeysNum := by
      rw [ge_iff_le, hinfo, UInt16.le_iff_toNat_le, hp.toNat_keysNum h]
      exact Nat.not_lt.mp hnum
    rw [Params.getKeyOfs, if_pos hge, if_pos rfl, if_neg hnum]

theorem cursorPtr_bytes (h : p.Sizes treeType order recSize)
    (hlast : 2 + p.recSize * p.slots + 4 * p.slots < 2 ^ 31) (hp : pg.Fits p) (cnum : UInt16) :
    PageData.cursorPtr (pg.bytes p) p cnum =
      if cnum.toNat > pg.keysNum then .error (.invalidArgument "Wrong cursor number")
      else .ok ((KEYS_OFS + p.recSize * p.slots + CURSOR_SZ * cnum.toNat : ℕ) : ℤ) := by
  have hinfo := hp.keysNum_nodeInfo h
  unfold PageData.cursorPtr
  rw [nodeInfo_bytes]
  by_cases hcnum : cnum.toNat > pg.keysNum
  · have hgt : cnum > (pg.nodeInfo p).getKeysNum := by
      rw [gt_iff_lt, hinfo, UInt16.lt_iff_toNat_lt, hp.toNat_keysNum h]
      exact hcnum
    rw [Params.getCursorOfs, if_pos hgt, if_pos rfl, if_pos hcnum]
  · have hle : cnum ≤ (pg.nodeInfo p).getKeysNum := by
      rw [hinfo, UInt16.le_iff_toNat_le, hp.toNat_keysNum h]
      exact Nat.not_lt.mp hcnum
    have hofs := toInt_getCursorOfs h hlast (hp.holds h) hle
    have hne : p.getCursorOfs (pg.nodeInfo p) cnum ≠ -1 := by
      intro heq
      rw [heq] at hofs
      have hneg : (-1 : Int32).toInt = -1 := by decide
      omega
    rw [if_neg hne, if_neg hcnum, hofs]

/-- The size that `copyKeys` computes for a number of keys that fits. -/
theorem toInt_bufferSize_of_le (h : p.Sizes treeType order recSize) {n : UInt16} (hn : n.toNat ≤ p.slots) :
    (p.bufferSize n).toInt = (p.recSize * n.toNat : ℕ) := by
  have hmul : n.toNat * p.recSize ≤ 32767 * 65535 := Nat.mul_le_mul (hn.trans h.slots_le) h.recSize_le
  rw [Params.bufferSize, ← Int32.ofNat_mul, Int32.toInt_ofNat_of_lt (by omega), Nat.mul_comm]

theorem cursorsSize_of_le {n : UInt16} (hn : n.toNat ≤ 32768) :
    PageData.cursorsSize n = CURSOR_SZ * n.toNat := by
  have hfour : (UInt32.ofNat CURSOR_SZ).toNat = 4 := rfl
  have hlt : n.toNat < 2 ^ 32 := by omega
  rw [PageData.cursorsSize, UInt32.toNat_mul, UInt32.toNat_ofNat_of_lt' hlt, hfour, Nat.mul_comm]
  exact Nat.mod_eq_of_lt (by omega)

/-! ## Copies through pointers -/

/-- The end of a run of key slots lies in the page. -/
theorem keys_inside (h : p.Sizes treeType order recSize) {num n : ℕ} (hn : num + n ≤ p.slots) :
    KEYS_OFS + p.recSize * num + p.recSize * n ≤ (pg.bytes p).length := by
  have hle : p.recSize * num + p.recSize * n ≤ p.recSize * p.slots := by
    rw [← Nat.mul_add]
    exact Nat.mul_le_mul_left _ hn
  rw [length_bytes h, h.nodePageSize_eq]
  simp only [KEYS_OFS]
  omega

theorem cursors_inside (h : p.Sizes treeType order recSize) {cnum n : ℕ} (hn : cnum + n ≤ p.slots + 1) :
    KEYS_OFS + p.recSize * p.slots + CURSOR_SZ * cnum + CURSOR_SZ * n ≤ (pg.bytes p).length := by
  rw [length_bytes h, h.nodePageSize_eq]
  simp only [KEYS_OFS, CURSOR_SZ]
  omega

theorem load_keys (pg : Page (Record p.recSize)) (h : p.Sizes treeType order recSize)
    {num n : ℕ} (hn : num + n ≤ p.slots) :
    PageData.load (pg.bytes p) ((KEYS_OFS + p.recSize * num : ℕ) : ℤ) ((p.recSize * n : ℕ) : ℤ) =
      .ok ((recordCodec p.recSize).words (slice pg.key num n)) := by
  rw [PageData.load_of_le (keys_inside h hn), peek_keys hn]

theorem load_cursors (pg : Page (Record p.recSize)) (h : p.Sizes treeType order recSize)
    {cnum n : ℕ} (hn : cnum + n ≤ p.slots + 1) :
    PageData.load (pg.bytes p) ((KEYS_OFS + p.recSize * p.slots + CURSOR_SZ * cnum : ℕ) : ℤ)
        ((CURSOR_SZ * n : ℕ) : ℤ) = .ok (cursorCodec.words (slice pg.cursor cnum n)) := by
  rw [PageData.load_of_le (cursors_inside h hn), peek_cursors hn]

theorem store_keys (pg : Page (Record p.recSize)) (h : p.Sizes treeType order recSize)
    {num n : ℕ} (hn : num + n ≤ p.slots)
    (src : ℕ → Record p.recSize) :
    PageData.store (pg.bytes p) ((KEYS_OFS + p.recSize * num : ℕ) : ℤ) ((p.recSize * n : ℕ) : ℤ)
        ((recordCodec p.recSize).words (slice src 0 n)) =
      .ok (Page.bytes p { pg with key := blit pg.key num src 0 n }) := by
  have hlen : ((recordCodec p.recSize).words (slice src 0 n)).length = p.recSize * n := by
    rw [WordCodec.length_words, length_slice]
    rfl
  rw [← hlen, PageData.store_of_le (by rw [hlen]; exact keys_inside h hn), poke_keys hn]

theorem store_cursors (pg : Page (Record p.recSize)) (h : p.Sizes treeType order recSize)
    {cnum n : ℕ} (hn : cnum + n ≤ p.slots + 1)
    (src : ℕ → ℕ) :
    PageData.store (pg.bytes p) ((KEYS_OFS + p.recSize * p.slots + CURSOR_SZ * cnum : ℕ) : ℤ)
        ((CURSOR_SZ * n : ℕ) : ℤ) (cursorCodec.words (slice src 0 n)) =
      .ok (Page.bytes p { pg with cursor := blit pg.cursor cnum src 0 n }) := by
  have hlen : (cursorCodec.words (slice src 0 n)).length = CURSOR_SZ * n := by
    rw [WordCodec.length_words, length_slice]
    rfl
  rw [← hlen, PageData.store_of_le (by rw [hlen]; exact cursors_inside h hn), poke_cursors hn]

/-- A pointer to `n` keys: the null pointer, a run that leaves the key slots, or a run of slots. -/
theorem keyPtr_cases (pg : Page (Record p.recSize)) (num n : ℕ) :
    (¬num < pg.keysNum ∧ pg.keyPtr p.slots num n = .error .nullPointer) ∨
      pg.keyPtr p.slots num n = .error .overrun ∨
        num < pg.keysNum ∧ num + n ≤ p.slots ∧ pg.keyPtr p.slots num n = .ok () := by
  unfold Page.keyPtr
  by_cases hnum : num < pg.keysNum
  · right
    by_cases hn : num + n ≤ p.slots
    · exact Or.inr ⟨hnum, hn, by rw [if_pos hnum, if_pos hn]⟩
    · left
      rw [if_pos hnum, if_neg hn]
  · exact Or.inl ⟨hnum, if_neg hnum⟩

theorem cursorPtr_cases (pg : Page (Record p.recSize)) (cnum n : ℕ) :
    (cnum > pg.keysNum ∧
        pg.cursorPtr p.slots cnum n = .error (.invalidArgument "Wrong cursor number")) ∨
      pg.cursorPtr p.slots cnum n = .error .overrun ∨
        ¬cnum > pg.keysNum ∧ cnum + n ≤ p.slots + 1 ∧ pg.cursorPtr p.slots cnum n = .ok () := by
  unfold Page.cursorPtr
  by_cases hcnum : cnum > pg.keysNum
  · exact Or.inl ⟨hcnum, if_pos hcnum⟩
  · right
    by_cases hn : cnum + n ≤ p.slots + 1
    · exact Or.inr ⟨hcnum, hn, by rw [if_neg hcnum, if_pos hn]⟩
    · left
      rw [if_neg hcnum, if_neg hn]

theorem readKey_bytes (h : p.Sizes treeType order recSize) (hp : pg.Fits p) (num : UInt16) :
    pg.getKey p.slots num.toNat = .error .overrun ∨ PageData.readKey (pg.bytes p) p num =
      (pg.getKey p.slots num.toNat).map Subtype.val := by
  unfold Page.getKey PageData.readKey
  rw [keyPtr_bytes h hp]
  rcases keyPtr_cases pg num.toNat 1 with ⟨hnum, hptr⟩ | hptr | ⟨hnum, hn, hptr⟩
  · right
    rw [if_neg hnum, hptr]
    rfl
  · left
    rw [hptr]
    rfl
  · right
    have hload := load_keys pg h hn
    rw [slice_one, WordCodec.words_singleton, Nat.mul_one] at hload
    rw [if_pos hnum, hptr]
    exact hload

theorem copyKey_bytes (h : p.Sizes treeType order recSize) (hp : pg.Fits p) (num : UInt16)
    (src : Record p.recSize) : pg.copyKey p.slots num.toNat src = .error .overrun ∨
      PageData.copyKey (pg.bytes p) p num src.1 =
        (pg.copyKey p.slots num.toNat src).map (Page.bytes p) := by
  unfold Page.copyKey PageData.copyKey
  rw [keyPtr_bytes h hp]
  rcases keyPtr_cases pg num.toNat 1 with ⟨hnum, hptr⟩ | hptr | ⟨hnum, hn, hptr⟩
  · right
    rw [if_neg hnum, hptr]
    rfl
  · left
    rw [hptr]
    rfl
  · right
    have hstore := store_keys pg h hn fun _ => src
    rw [slice_one, WordCodec.words_singleton, blit_one, Nat.mul_one] at hstore
    rw [if_pos hnum, hptr]
    exact hstore

theorem readKeys_bytes (h : p.Sizes treeType order recSize) (hp : pg.Fits p) (num n : UInt16) :
    pg.readKeys p.slots num.toNat n.toNat = .error .overrun ∨
      PageData.readKeys (pg.bytes p) p num n = (pg.readKeys p.slots num.toNat n.toNat).map fun ks =>
        (recordCodec p.recSize).words (slice ks 0 n.toNat) := by
  unfold Page.readKeys PageData.readKeys
  by_cases hzero : n = 0
  · right
    subst hzero
    rfl
  have hne : n.toNat ≠ 0 := fun h0 => hzero (UInt16.toNat_inj.mp h0)
  rw [if_neg hzero, if_pos hne, keyPtr_bytes h hp]
  rcases keyPtr_cases pg num.toNat n.toNat with ⟨hnum, hptr⟩ | hptr | ⟨hnum, hn, hptr⟩
  · right
    rw [if_neg hnum, hptr]
    rfl
  · left
    rw [hptr]
    rfl
  · right
    rw [if_pos hnum, hptr, toInt_bufferSize_of_le h (by omega)]
    refine (load_keys pg h hn).trans ?_
    show _ = Except.ok ((recordCodec p.recSize).words (slice (fun j => pg.key (num.toNat + j)) 0 n.toNat))
    rw [slice_add_left]

theorem copyKeys_bytes (h : p.Sizes treeType order recSize) (hp : pg.Fits p) (num n : UInt16)
    (src : ℕ → Record p.recSize) : pg.copyKeys p.slots num.toNat src n.toNat = .error .overrun ∨
      PageData.copyKeys (pg.bytes p) p num n ((recordCodec p.recSize).words (slice src 0 n.toNat)) =
        (pg.copyKeys p.slots num.toNat src n.toNat).map (Page.bytes p) := by
  unfold Page.copyKeys PageData.copyKeys
  by_cases hzero : n = 0
  · right
    subst hzero
    show Except.ok (pg.bytes p) = Except.ok (Page.bytes p { pg with key := blit pg.key num.toNat src 0 0 })
    rw [blit_none]
  have hne : n.toNat ≠ 0 := fun h0 => hzero (UInt16.toNat_inj.mp h0)
  rw [if_neg hzero, if_pos hne, keyPtr_bytes h hp]
  rcases keyPtr_cases pg num.toNat n.toNat with ⟨hnum, hptr⟩ | hptr | ⟨hnum, hn, hptr⟩
  · right
    rw [if_neg hnum, hptr]
    rfl
  · left
    rw [hptr]
    rfl
  · right
    rw [if_pos hnum, hptr, toInt_bufferSize_of_le h (by omega)]
    exact store_keys pg h hn src

theorem getCursor_bytes (h : p.Sizes treeType order recSize)
    (hlast : 2 + p.recSize * p.slots + 4 * p.slots < 2 ^ 31) (hp : pg.Fits p) (cnum : UInt16) :
    pg.getCursor p.slots cnum.toNat = .error .overrun ∨
      (PageData.getCursor (pg.bytes p) p cnum).map UInt32.toNat = pg.getCursor p.slots cnum.toNat := by
  unfold Page.getCursor PageData.getCursor
  rw [cursorPtr_bytes h hlast hp]
  rcases cursorPtr_cases pg cnum.toNat 1 with ⟨hcnum, hptr⟩ | hptr | ⟨hcnum, hn, hptr⟩
  · right
    rw [if_pos hcnum, hptr]
    rfl
  · left
    rw [hptr]
    rfl
  · right
    have hload := load_cursors pg h hn
    rw [slice_one, WordCodec.words_singleton, Nat.mul_one] at hload
    have hlt := hp.cursor_lt cnum.toNat (by omega)
    rw [if_neg hcnum, hptr]
    show (((PageData.load _ _ CURSOR_SZ : Except Err _) >>= _ : Except Err _).map _) = _
    rw [hload]
    show Except.ok (UInt32.ofNat (leNat (leBytes CURSOR_SZ (pg.cursor cnum.toNat)))).toNat = _
    rw [leNat_leBytes, Nat.mod_eq_of_lt (b := 256 ^ CURSOR_SZ) hlt, UInt32.toNat_ofNat_of_lt' hlt]
    rfl

theorem setCursor_bytes (h : p.Sizes treeType order recSize)
    (hlast : 2 + p.recSize * p.slots + 4 * p.slots < 2 ^ 31) (hp : pg.Fits p) (cnum : UInt16)
    (cval : UInt32) : pg.setCursor p.slots cnum.toNat cval.toNat = .error .overrun ∨
      PageData.setCursor (pg.bytes p) p cnum cval =
        (pg.setCursor p.slots cnum.toNat cval.toNat).map (Page.bytes p) := by
  unfold Page.setCursor PageData.setCursor
  rw [cursorPtr_bytes h hlast hp]
  rcases cursorPtr_cases pg cnum.toNat 1 with ⟨hcnum, hptr⟩ | hptr | ⟨hcnum, hn, hptr⟩
  · right
    rw [if_pos hcnum, hptr]
    rfl
  · left
    rw [hptr]
    rfl
  · right
    have hstore := store_cursors pg h hn fun _ => cval.toNat
    rw [slice_one, WordCodec.words_singleton, blit_one, Nat.mul_one] at hstore
    rw [if_neg hcnum, hptr]
    exact hstore

theorem readCursors_bytes (h : p.Sizes treeType order recSize)
    (hlast : 2 + p.recSize * p.slots + 4 * p.slots < 2 ^ 31) (hp : pg.Fits p) (cnum n : UInt16) :
    pg.readCursors p.slots cnum.toNat n.toNat = .error .overrun ∨
      PageData.readCursors (pg.bytes p) p cnum n =
        (pg.readCursors p.slots cnum.toNat n.toNat).map fun cs =>
          cursorCodec.words (slice cs 0 n.toNat) := by
  have hslots := h.slots_le
  unfold Page.readCursors PageData.readCursors
  rw [cursorPtr_bytes h hlast hp]
  rcases cursorPtr_cases pg cnum.toNat n.toNat with ⟨hcnum, hptr⟩ | hptr | ⟨hcnum, hn, hptr⟩
  · right
    rw [if_pos hcnum, hptr]
    rfl
  · left
    rw [hptr]
    rfl
  · right
    rw [if_neg hcnum, hptr, cursorsSize_of_le (by omega)]
    refine (load_cursors pg h hn).trans ?_
    show _ = Except.ok (cursorCodec.words (slice (fun j => pg.cursor (cnum.toNat + j)) 0 n.toNat))
    rw [slice_add_left]

theorem copyCursors_bytes (h : p.Sizes treeType order recSize)
    (hlast : 2 + p.recSize * p.slots + 4 * p.slots < 2 ^ 31) (hp : pg.Fits p) (cnum n : UInt16)
    (src : ℕ → ℕ) : pg.copyCursors p.slots cnum.toNat src n.toNat = .error .overrun ∨
      PageData.copyCursors (pg.bytes p) p cnum n (cursorCodec.words (slice src 0 n.toNat)) =
        (pg.copyCursors p.slots cnum.toNat src n.toNat).map (Page.bytes p) := by
  have hslots := h.slots_le
  unfold Page.copyCursors PageData.copyCursors
  rw [cursorPtr_bytes h hlast hp]
  rcases cursorPtr_cases pg cnum.toNat n.toNat with ⟨hcnum, hptr⟩ | hptr | ⟨hcnum, hn, hptr⟩
  · right
    rw [if_pos hcnum, hptr]
    rfl
  · left
    rw [hptr]
    rfl
  · right
    rw [if_neg hcnum, hptr, cursorsSize_of_le (by omega)]
    exact store_cursors pg h hn src

/-! ## Sequences of calls -/

/-- What a page refines that changes nothing and copies something out. -/
theorem refined_of_reads {α β : Type} {x : Except Err α} {y : Except Err β} {f : α → β} {g : β → PageAnswer}
    (h : x = .error .overrun ∨ y = x.map f) : Page.Refined p (x.map fun a => (g (f a), pg))
      (y.map fun b => (g b, pg.bytes p)) := by
  rcases h with rfl | rfl
  · exact Or.inl rfl
  · right
    cases x <;> rfl

/-- What a page refines that something is copied to. -/
theorem refined_of_copies {x : Except Err (Page (Record p.recSize))} {y : Except Err PageData}
    (h : x = .error .overrun ∨ y = x.map (Page.bytes p)) :
    Page.Refined p (x.map fun pg => (PageAnswer.done, pg)) (y.map fun data => (PageAnswer.done, data)) := by
  rcases h with rfl | rfl
  · exact Or.inl rfl
  · right
    cases x <;> rfl

/-- One call. -/
theorem PageCall.refined (h : p.Sizes treeType order recSize)
    (hlast : 2 + p.recSize * p.slots + 4 * p.slots < 2 ^ 31) (hp : pg.Fits p) (c : PageCall p.recSize)
    (hc : c.InRange p) : Page.Refined p (c.run p pg) (c.exec p (pg.bytes p)) := by
  cases c with
  | getKeysNum =>
    right
    show Except.ok (PageAnswer.number (PageData.nodeInfo (pg.bytes p)).getKeysNum.toNat, pg.bytes p) = _
    rw [nodeInfo_bytes, hp.keysNum_nodeInfo h, hp.toNat_keysNum h]
    rfl
  | isLeaf =>
    right
    show Except.ok (PageAnswer.flag (PageData.nodeInfo (pg.bytes p)).isLeaf, pg.bytes p) = _
    rw [nodeInfo_bytes, hp.isLeaf_nodeInfo h]
    rfl
  | setKeyNum keysNum =>
    right
    show Except.ok (PageAnswer.done,
      PageData.setNodeInfo (pg.bytes p) ((PageData.nodeInfo (pg.bytes p)).setKeyNum keysNum)) = _
    rw [nodeInfo_bytes, setNodeInfo_bytes, hp.setKeyNum_nodeInfo h]
    rfl
  | readKey num => exact refined_of_reads (readKey_bytes h hp num)
  | copyKey num src => exact refined_of_copies (copyKey_bytes h hp num src)
  | readKeys num n => exact refined_of_reads (readKeys_bytes h hp num n)
  | copyKeys num n src => exact refined_of_copies (copyKeys_bytes h hp num n src)
  | getCursor cnum =>
    rcases getCursor_bytes h hlast hp cnum with hbad | hread
    · left
      show (pg.getCursor p.slots cnum.toNat).map _ = _
      rw [hbad]
      rfl
    · right
      show (PageData.getCursor (pg.bytes p) p cnum).map _ = ((pg.getCursor p.slots cnum.toNat).map _).map _
      rw [← hread]
      cases PageData.getCursor (pg.bytes p) p cnum <;> rfl
  | setCursor cnum cval => exact refined_of_copies (setCursor_bytes h hlast hp cnum cval)
  | readCursors cnum n => exact refined_of_reads (readCursors_bytes h hlast hp cnum n)
  | copyCursors cnum n src => exact refined_of_copies (copyCursors_bytes h hlast hp cnum n _)

theorem fits_of_key (hp : pg.Fits p) (key : ℕ → Record p.recSize) : Page.Fits p { pg with key := key } :=
  ⟨hp.keysNum_le, hp.cursor_lt⟩

theorem fits_of_blit (hp : pg.Fits p) (cnum n : ℕ) (src : ℕ → UInt32) :
    Page.Fits p { pg with cursor := blit pg.cursor cnum (fun j => (src j).toNat) 0 n } := by
  refine ⟨hp.keysNum_le, ?_⟩
  intro c hc
  show blit pg.cursor cnum (fun j => (src j).toNat) 0 n c < 2 ^ 32
  unfold blit
  split
  · exact UInt32.toNat_lt _
  · exact hp.cursor_lt c hc

theorem of_map_ok {ε α β : Type} {x : Except ε α} {f : α → β} {b : β} (h : x.map f = .ok b) :
    ∃ a, x = .ok a ∧ f a = b := by
  cases x with
  | error e => cases h
  | ok a =>
    cases h
    exact ⟨a, rfl, rfl⟩

theorem of_then_ok {ε α β : Type} {x : Except ε α} {b c : β}
    (h : (x >>= fun _ => Except.ok b : Except ε β) = .ok c) : c = b := by
  cases x with
  | error e => cases h
  | ok a =>
    cases h
    rfl

/-- A call leaves a page whose keys and cursors fit. -/
theorem PageCall.fits (hp : pg.Fits p) (c : PageCall p.recSize) (hc : c.InRange p) {a : PageAnswer}
    {pg' : Page (Record p.recSize)} (hrun : c.run p pg = .ok (a, pg')) : pg'.Fits p := by
  cases c with
  | getKeysNum | isLeaf =>
    cases hrun
    exact hp
  | setKeyNum keysNum =>
    cases hrun
    exact ⟨hc, hp.cursor_lt⟩
  | readKey num | readKeys num n | getCursor cnum | readCursors cnum n =>
    obtain ⟨_, -, hpure⟩ := of_map_ok hrun
    cases hpure
    exact hp
  | copyKey num src =>
    obtain ⟨_, hcopy, hpure⟩ := of_map_ok hrun
    cases hpure
    rw [of_then_ok hcopy]
    exact fits_of_key hp _
  | copyKeys num n src =>
    obtain ⟨_, hcopy, hpure⟩ := of_map_ok hrun
    cases hpure
    unfold Page.copyKeys at hcopy
    split at hcopy
    · rw [of_then_ok hcopy]
      exact fits_of_key hp _
    · cases hcopy
      exact fits_of_key hp _
  | setCursor cnum cval =>
    obtain ⟨_, hcopy, hpure⟩ := of_map_ok hrun
    cases hpure
    rw [of_then_ok hcopy, ← blit_one pg.cursor cnum.toNat (fun _ => cval.toNat) 0]
    exact fits_of_blit hp _ 1 fun _ => cval
  | copyCursors cnum n src =>
    obtain ⟨_, hcopy, hpure⟩ := of_map_ok hrun
    cases hpure
    rw [of_then_ok hcopy]
    exact fits_of_blit hp _ _ src

end

/-! ## The run on the bytes -/

theorem bytes_cleared {treeType : TreeType} {order recSize : ℕ} {p : Params}
    (h : p.Sizes treeType order recSize) (keysNum : ℕ) (isLeaf : Bool) :
    (Page.cleared keysNum isLeaf).bytes p =
      leBytes KEYS_OFS (NodeInfo.setKeyNumLeaf (UInt16.ofNat keysNum) isLeaf).toNat ++
        List.replicate (p.nodePageSize - KEYS_OFS) 0 := by
  have hkeys : (recordCodec p.recSize).words (slice (fun _ => default) 0 p.slots) =
      List.replicate (p.recSize * p.slots) 0 := WordCodec.words_replicate _ rfl 0 p.slots
  have hcursors : cursorCodec.words (slice (fun _ => 0) 0 (p.slots + 1)) =
      List.replicate (CURSOR_SZ * (p.slots + 1)) 0 := WordCodec.words_replicate _ rfl 0 (p.slots + 1)
  have hsize : p.nodePageSize - KEYS_OFS = p.recSize * p.slots + CURSOR_SZ * (p.slots + 1) := by
    rw [h.nodePageSize_eq]
    simp only [KEYS_OFS, CURSOR_SZ]
    omega
  show _ ++ ((recordCodec p.recSize).words (slice (fun _ => default) 0 p.slots) ++
    cursorCodec.words (slice (fun _ => 0) 0 (p.slots + 1))) = _
  rw [hkeys, hcursors, List.replicate_append_replicate, hsize]
  rfl

/-- For every class, order and record size whose pages and buffers an `int` can measure, any sequence of
calls on the bytes of a page answers and throws as the sequence does on the page, and leaves the bytes of
the page that is left; unless the sequence runs out of a slot area. -/
theorem pageRun_bytes {treeType : TreeType} {order recSize : UInt16} {p : Params}
    (hset : setOrder treeType order recSize = .ok p) (hfit : LayoutFits order.toNat recSize.toNat treeType)
    {pg : Page (Record p.recSize)} (hp : pg.Fits p) {calls : List (PageCall p.recSize)}
    (hcalls : ∀ c ∈ calls, c.InRange p) :
    Page.Refined p (runAll (PageCall.run p) calls pg) (runAll (PageCall.exec p) calls (pg.bytes p)) := by
  have h := setOrder_sizes hset
  have hlast := hfit.lastCursor_lt h
  apply runAll_encodes (I := Page.Fits p) _ _ hp
  · intro c hc pg a pg' hp hrun
    exact c.fits hp (hcalls c hc) hrun
  · intro c hc pg hp
    exact c.refined h hlast hp (hcalls c hc)

/-- A key of sevens, put into an empty page, read back and read as a cursor of a page that has too few. -/
def PageCall.oneKey (p : Params) : List (PageCall p.recSize) :=
  [setKeyNum 1, copyKey 0 ⟨List.replicate p.recSize 7, List.length_replicate⟩, readKey 0, getCursor 2]

theorem pageRun_bytes_oneKey : ∃ p, setOrder .bTree 2 1 = .ok p ∧
    Page.Refined p (runAll (PageCall.run p) (PageCall.oneKey p) (Page.cleared 0 true))
      (runAll (PageCall.exec p) (PageCall.oneKey p) ((Page.cleared 0 true).bytes p)) := by
  have hset : setOrder .bTree 2 1 = .ok _ := rfl
  refine ⟨_, hset, pageRun_bytes hset (by decide) ⟨Nat.zero_le _, ?_⟩ ?_⟩
  · intro c _
    show 0 < 2 ^ 32
    decide
  · intro c hc
    simp only [PageCall.oneKey, List.mem_cons, List.not_mem_nil, or_false] at hc
    rcases hc with rfl | rfl | rfl | rfl
    · show 1 ≤ 3
      decide
    · trivial
    · trivial
    · trivial

end BTreesMods

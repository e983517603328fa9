import BTreesMods.Lib.Slots

/-!
# Pages

Model of the byte image of a node page and of the accessors of `BaseBTree::PageWrapper`
(`btree.hpp`, lines 927–1065). A page holds the 2-byte node info (number of keys and leaf flag), an
area of key slots and an area of cursor slots; `slots` is the number of key slots that `setOrder`
reserved, and the cursor area has one slot more. A record is a value of the type `κ`, so that
`recSize` bytes are one slot.

Slots at or above the number of keys keep their old contents, as the bytes do. Using the null
pointer that `getKey` returns for such a slot is undefined behaviour of the C++ code; the model stops
there with `Err.nullPointer`. The code does not check the end of a slot area: behind the keys it reads
and writes bytes of cursors, and behind the cursors it leaves the page. The model says nothing about
such a call: it stops with `Err.overrun`.
-/

namespace BTreesMods

/-- What ends a call early: an exception of the code with its text, the exception of a `new` with a
negative size, undefined behaviour, or (in the model only) the end of a slot area and a recursion deeper
than the number of pages. -/
inductive Err
  | invalidArgument (what : String)
  | domainError (what : String)
  | runtimeError (what : String)
  | badArrayNewLength
  | nullPointer
  | overrun
  | outOfFuel
deriving DecidableEq, Repr

/-- The contents of a page (`PageWrapper::_data`). -/
structure Page (κ : Type) where
  keysNum : ℕ
  isLeaf : Bool
  key : ℕ → κ
  cursor : ℕ → ℕ

namespace Page

variable {κ : Type} (slots : ℕ) (pg : Page κ)

/-- `clear()` and `setKeyNumLeaf` (lines 927–941): zeroes, a number of keys and the leaf flag. -/
def cleared [Inhabited κ] (keysNum : ℕ) (isLeaf : Bool) : Page κ :=
  { keysNum := keysNum, isLeaf := isLeaf, key := fun _ => default, cursor := fun _ => 0 }

/-- `setKeyNum` (lines 943–950). -/
def setKeyNum (keysNum : ℕ) : Page κ := { pg with keysNum := keysNum }

/-- `getKey(num)` (lines 976–994 and 1059–1065), used as a pointer to `n` keys. -/
def keyPtr (num n : ℕ) : Except Err Unit :=
  if num < pg.keysNum then if num + n ≤ slots then .ok () else .error .overrun
  else .error .nullPointer

/-- The key that `getKey(num)` points to. -/
def getKey (num : ℕ) : Except Err κ := do
  pg.keyPtr slots num 1
  return pg.key num

/-- `copyKey(getKey(num), k)` (lines 996–1002). -/
def copyKey (num : ℕ) (k : κ) : Except Err (Page κ) := do
  pg.keyPtr slots num 1
  return { pg with key := Function.update pg.key num k }

/-- The `n` keys from `getKey(num)` on, as the source of a `copyKeys`. -/
def readKeys (num n : ℕ) : Except Err (ℕ → κ) := do
  if n ≠ 0 then pg.keyPtr slots num n
  return fun j => pg.key (num + j)

/-- `copyKeys(getKey(num), src, n)` (lines 1004–1012). -/
def copyKeys (num : ℕ) (src : ℕ → κ) (n : ℕ) : Except Err (Page κ) := do
  if n ≠ 0 then pg.keyPtr slots num n
  return { pg with key := blit pg.key num src 0 n }

/-- `getCursorPtr(cnum)` (lines 1032–1040 and 1051–1057), used as a pointer to `n` cursors. -/
def cursorPtr (cnum n : ℕ) : Except Err Unit :=
  if cnum > pg.keysNum then .error (.invalidArgument "Wrong cursor number")
  else if cnum + n ≤ slots + 1 then .ok () else .error .overrun

/-- `getCursor(cnum)` (lines 1023–1030). -/
def getCursor (cnum : ℕ) : Except Err ℕ := do
  pg.cursorPtr slots cnum 1
  return pg.cursor cnum

/-- `setCursor(cnum, cval)` (lines 1042–1049). -/
def setCursor (cnum cval : ℕ) : Except Err (Page κ) := do
  pg.cursorPtr slots cnum 1
  return { pg with cursor := Function.update pg.cursor cnum cval }

/-- The `n` cursors from `getCursorPtr(cnum)` on, as the source of a `copyCursors`. -/
def readCursors (cnum n : ℕ) : Except Err (ℕ → ℕ) := do
  pg.cursorPtr slots cnum n
  return fun j => pg.cursor (cnum + j)

/-- `copyCursors(getCursorPtr(cnum), src, n)` (lines 1014–1021). -/
def copyCursors (cnum : ℕ) (src : ℕ → ℕ) (n : ℕ) : Except Err (Page κ) := do
  pg.cursorPtr slots cnum n
  return { pg with cursor := blit pg.cursor cnum src 0 n }

/-- `copyKey(getKey(dst), getKey(src))` within one page. -/
def moveKey (dst src : ℕ) : Except Err (Page κ) := do
  pg.copyKey slots dst (← pg.getKey slots src)

/-- `copyCursors(getCursorPtr(dst), getCursorPtr(src), 1)` within one page. -/
def moveCursor (dst src : ℕ) : Except Err (Page κ) := do
  pg.copyCursors slots dst (← pg.readCursors slots src 1) 1

/-! ## What a page holds -/

/-- The keys of a page, in slot order. -/
def keyList : List κ := slice pg.key 0 pg.keysNum

/-- The cursors of a non-leaf page, in slot order. -/
def cursorList : List ℕ := slice pg.cursor 0 (pg.keysNum + 1)

/-- The page is a leaf or not, holds the keys `ks` and, when it is not a leaf, the cursors `cs`. -/
structure Holds (isLeaf : Bool) (ks : List κ) (cs : List ℕ) : Prop where
  leaf_eq : pg.isLeaf = isLeaf
  keys_eq : pg.keyList = ks
  cursors_eq : if isLeaf then cs = [] else pg.cursorList = cs

end Page

end BTreesMods

import BTreesMods.File.StreamTree

/-!
# `FileBaseBTree` and the C interface

Model of `FileBaseBTree` (`btree.hpp`, lines 2640–2771) and of `create` and `open` of the C interface
(`btree_c.hpp`, lines 64–96). An object is a `StreamTree` whose stream is `_fileStream`; the file name
and the comparator are left out.

The file that `create` names can be opened for writing or not; the file that `open` names is its
contents, or `none` if it cannot be opened.
-/

namespace BTreesMods

/-- An exception that leaves a function: one that the code threw, or the `std::exception` that
`throw e` makes of it in the handler of `loadInternal`. -/
inductive Exn
  | thrown (e : Err)
  | exception
deriving DecidableEq, Repr

namespace FileBaseBTree

variable (pl : Platform) (uninit : UInt32) (t : StreamTree)

/-- `checkTreeParams` (lines 2761–2766). -/
def checkTreeParams (order recSize : UInt16) : Except Exn Unit :=
  if order < 1 ∨ recSize = 0 then .error (.thrown (.invalidArgument
    "Tree order can't be less than 1 and record siaze can't be 0"))
  else .ok ()

/-- `createInternal` (lines 2688–2706). -/
def createInternal (order recSize : UInt16) (openable : Bool) : Except Exn Unit × StreamTree :=
  if openable then
    let t := { t with stream := FileStream.openTrunc, hasStream := true }
    match StreamTree.createTree pl uninit order recSize t with
    | (.ok (), t) => (.ok (), t)
    | (.error e, t) => (.error (.thrown e), t)
  else (.error (.thrown (.runtimeError "Can't open file for writing")),
    { t with stream := t.stream.openFailed.close })

/-- `loadInternal` (lines 2716–2745): every exception of `loadTree` is caught by the handler for
`std::exception&`. -/
def loadInternal (file : Option (List UInt8)) : Except Exn Unit × StreamTree :=
  match file with
  | some content =>
    let t := { t with stream := FileStream.openExisting content, hasStream := true }
    match StreamTree.loadTree pl t with
    | (.ok (), t) => (.ok (), t)
    | (.error _, t) => (.error .exception, { t with stream := t.stream.close })
  | none => (.error (.thrown (.runtimeError "Can't open file for reading")),
    { t with stream := t.stream.openFailed.close })

/-- `create` (lines 2678–2686). -/
def create (order recSize : UInt16) (openable : Bool) : Except Exn Unit × StreamTree :=
  if t.stream.isOpen then
    (.error (.thrown (.runtimeError "B-tree file is already open")), t)
  else match checkTreeParams order recSize with
    | .error e => (.error e, t)
    | .ok () => createInternal pl uninit t order recSize openable

/-- `open` (lines 2708–2714). -/
def openFile (file : Option (List UInt8)) : Except Exn Unit × StreamTree :=
  if t.stream.isOpen then (.error (.thrown (.runtimeError "Tree file is already open")), t)
  else loadInternal pl t file

/-- `close` and `closeInternal` (lines 2747–2759). -/
def close : StreamTree :=
  if t.stream.isOpen then { t with stream := t.stream.close }.resetBTree else t

/-- The constructor that creates a file (lines 2640–2648). -/
def newCreate (treeType : TreeType) (order recSize : UInt16) (openable : Bool) :
    Except Exn Unit × StreamTree :=
  match checkTreeParams order recSize with
  | .error e => (.error e, StreamTree.fresh treeType)
  | .ok () => createInternal pl uninit (StreamTree.fresh treeType) order recSize openable

/-- The constructor that opens a file (lines 2650–2655). -/
def newOpen (treeType : TreeType) (file : Option (List UInt8)) : Except Exn Unit × StreamTree :=
  loadInternal pl (StreamTree.fresh treeType) file

end FileBaseBTree

/-! ## The C interface -/

namespace CApi

/-- How `create` or `open` ends: it returns, with `*pTree` null or a tree, or an exception gets out
of it. -/
inductive Outcome
  | returned (tree : Option StreamTree)
  | escaped (e : Exn)

/-- `catch (std::runtime_error&)` around a constructor; `close(pTree)` has left a null pointer. -/
def guarded : Except Exn Unit × StreamTree → Outcome
  | (.ok (), t) => .returned (some t)
  | (.error (.thrown (.runtimeError _)), _) => .returned none
  | (.error e, _) => .escaped e

variable (pl : Platform)

/-- `create` (lines 64–77). -/
def create (uninit : UInt32) (treeType : TreeType) (order keySize : UInt16) (openable : Bool) :
    Outcome :=
  guarded (FileBaseBTree.newCreate pl uninit treeType order keySize openable)

/-- `open` (lines 84–96). -/
def openTree (treeType : TreeType) (file : Option (List UInt8)) : Outcome :=
  guarded (FileBaseBTree.newOpen pl treeType file)

end CApi

end BTreesMods

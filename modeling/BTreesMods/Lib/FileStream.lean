import Mathlib.Data.List.Basic
import Mathlib.Data.List.GetD
import Mathlib.Tactic.SplitIfs

/-!
# File streams

A stream over a file, in the manner of `std::fstream`: a file of bytes, one position for reading and
writing, and a fail state. Once the fail state is set, seeks, reads and writes do nothing, until the
stream is opened again. A read that meets the end of the file takes what there is and sets the fail
state. A write beyond the end leaves a gap of zero bytes. Writes to an open file succeed.
-/

namespace BTreesMods

structure FileStream where
  byte : ℕ → UInt8
  size : ℕ
  pos : ℕ
  isOpen : Bool
  failed : Bool

namespace FileStream

variable (s : FileStream)

/-- A stream that no file has been attached to. -/
def closed : FileStream := { byte := fun _ => 0, size := 0, pos := 0, isOpen := false, failed := false }

/-- Opening clears the fail state and starts at the first byte; `trunc` empties the file. -/
def openTrunc : FileStream :=
  { byte := fun _ => 0, size := 0, pos := 0, isOpen := true, failed := false }

/-- Opening a file with contents. -/
def openExisting (content : List UInt8) : FileStream :=
  { byte := fun o => content.getD o 0, size := content.length, pos := 0, isOpen := true,
    failed := false }

/-- Opening a file that cannot be opened. -/
def openFailed : FileStream := { s with failed := true }

def close : FileStream := { s with isOpen := false }

/-- The stream takes part in input and output. -/
def Good : Prop := s.isOpen = true ∧ s.failed = false

instance : Decidable s.Good := inferInstanceAs (Decidable (_ ∧ _))

/-- The `n` bytes at `ofs`. -/
def bytesAt (ofs n : ℕ) : List UInt8 := (List.range n).map fun i => s.byte (ofs + i)

def seek (ofs : ℕ) : FileStream :=
  if s.Good then { s with pos := ofs } else { s with failed := true }

/-- Reads `n` bytes. -/
def read (n : ℕ) : List UInt8 × FileStream :=
  if s.Good then
    if s.pos + n ≤ s.size then (s.bytesAt s.pos n, { s with pos := s.pos + n })
    else (s.bytesAt s.pos (s.size - s.pos), { s with pos := max s.pos s.size, failed := true })
  else ([], { s with failed := true })

/-- Writes the bytes `bs`, at least one. -/
def write (bs : List UInt8) : FileStream :=
  if s.Good then
    { s with
      byte := fun o => if s.pos ≤ o ∧ o < s.pos + bs.length then bs.getD (o - s.pos) 0 else s.byte o
      size := max s.size (s.pos + bs.length)
      pos := s.pos + bs.length }
  else { s with failed := true }

/-! ## One seek and one write -/

variable {s} {bs : List UInt8} {ofs : ℕ}

@[simp]
theorem length_bytesAt (n : ℕ) : (s.bytesAt ofs n).length = n := by
  simp [bytesAt]

theorem bytesAt_congr {t : FileStream} {n : ℕ} (h : ∀ o, ofs ≤ o → o < ofs + n → s.byte o = t.byte o) :
    s.bytesAt ofs n = t.bytesAt ofs n := by
  apply List.map_congr_left
  intro i hi
  have hi : i < n := List.mem_range.mp hi
  exact h (ofs + i) (by omega) (by omega)

theorem seek_write (hs : s.Good) (ofs : ℕ) (bs : List UInt8) :
    (s.seek ofs).write bs =
      { s with
        byte := fun o => if ofs ≤ o ∧ o < ofs + bs.length then bs.getD (o - ofs) 0 else s.byte o
        size := max s.size (ofs + bs.length)
        pos := ofs + bs.length } := by
  have hs' : ({ s with pos := ofs } : FileStream).Good := hs
  rw [seek, if_pos hs, write, if_pos hs']

theorem good_seek_write (hs : s.Good) : ((s.seek ofs).write bs).Good := by
  rw [seek_write hs]
  exact hs

theorem size_seek_write (hs : s.Good) :
    ((s.seek ofs).write bs).size = max s.size (ofs + bs.length) := by
  rw [seek_write hs]

theorem byte_seek_write (hs : s.Good) (o : ℕ) :
    ((s.seek ofs).write bs).byte o =
      if ofs ≤ o ∧ o < ofs + bs.length then bs.getD (o - ofs) 0 else s.byte o := by
  rw [seek_write hs]

/-- The bytes written. -/
theorem bytesAt_seek_write_self (hs : s.Good) (ofs : ℕ) (bs : List UInt8) :
    ((s.seek ofs).write bs).bytesAt ofs bs.length = bs := by
  apply List.ext_getElem (by simp)
  intro i hi hi'
  have hin : ofs ≤ ofs + i ∧ ofs + i < ofs + bs.length := ⟨by omega, by omega⟩
  simp only [bytesAt, List.getElem_map, List.getElem_range, byte_seek_write hs, if_pos hin]
  simp [List.getD_eq_getElem?_getD, List.getElem?_eq_getElem hi']

/-- A write leaves every other byte alone. -/
theorem byte_seek_write_of_not_mem (hs : s.Good) {o : ℕ} (ho : o < ofs ∨ ofs + bs.length ≤ o) :
    ((s.seek ofs).write bs).byte o = s.byte o := by
  rw [byte_seek_write hs, if_neg (by omega)]

theorem bytesAt_seek_write_of_disjoint (hs : s.Good) {o n : ℕ}
    (h : o + n ≤ ofs ∨ ofs + bs.length ≤ o) :
    ((s.seek ofs).write bs).bytesAt o n = s.bytesAt o n := by
  apply bytesAt_congr
  intro o' hlo hhi
  exact byte_seek_write_of_not_mem hs (by omega)

/-- A read within the file returns its bytes. -/
theorem read_seek (hs : s.Good) {n : ℕ} (h : ofs + n ≤ s.size) :
    (s.seek ofs).read n = (s.bytesAt ofs n, { s with pos := ofs + n }) := by
  have hs' : ({ s with pos := ofs } : FileStream).Good := hs
  simp [seek, hs, read, hs', h, bytesAt]

/-- A read over the end of the file sets the fail state. -/
theorem failed_read_seek (hs : s.Good) {n : ℕ} (h : s.size < ofs + n) :
    ((s.seek ofs).read n).2.failed = true := by
  have hs' : ({ s with pos := ofs } : FileStream).Good := hs
  simp [seek, hs, read, hs', Nat.not_le.mpr h]

/-- A read changes no byte. -/
theorem byte_read_seek (n : ℕ) : ((s.seek ofs).read n).2.byte = s.byte := by
  have hseek : (s.seek ofs).byte = s.byte := by
    unfold seek
    split_ifs <;> rfl
  rw [← hseek]
  unfold read
  split_ifs <;> rfl

theorem failed_seek (h : s.failed = true) : (s.seek ofs).failed = true := by
  simp [seek, Good, h]

theorem failed_read (h : s.failed = true) (n : ℕ) : (s.read n).2.failed = true := by
  simp [read, Good, h]

theorem failed_write (h : s.failed = true) : (s.write bs).failed = true := by
  simp [write, Good, h]

/-! ## Streams that differ in one field of the file -/

/-- The streams are the same but for the bytes from `lo` to `hi`. -/
structure AgreeOff (lo hi : ℕ) (s u : FileStream) : Prop where
  size : s.size = u.size
  pos : s.pos = u.pos
  isOpen : s.isOpen = u.isOpen
  failed : s.failed = u.failed
  byte : ∀ o, o < lo ∨ hi ≤ o → s.byte o = u.byte o

variable {lo hi : ℕ} {u : FileStream}

theorem AgreeOff.good (h : AgreeOff lo hi s u) (hs : s.Good) : u.Good :=
  ⟨h.isOpen.symm.trans hs.1, h.failed.symm.trans hs.2⟩

theorem AgreeOff.seek_write (h : AgreeOff lo hi s u) (hs : s.Good) (ofs : ℕ) (bs : List UInt8) :
    AgreeOff lo hi ((s.seek ofs).write bs) ((u.seek ofs).write bs) := by
  have hu : u.Good := h.good hs
  rw [FileStream.seek_write hs, FileStream.seek_write hu]
  constructor
  · show max s.size _ = max u.size _
    rw [h.size]
  · rfl
  · exact h.isOpen
  · exact h.failed
  · intro o ho
    show (if _ then _ else s.byte o) = if _ then _ else u.byte o
    rw [h.byte o ho]

/-- Writing the field makes the streams equal. -/
theorem AgreeOff.eq_of_overwrite (h : AgreeOff lo hi s u) (hs : s.Good)
    (hlen : hi ≤ lo + bs.length) : (s.seek lo).write bs = (u.seek lo).write bs := by
  have hu : u.Good := h.good hs
  have hbyte : (fun o => if lo ≤ o ∧ o < lo + bs.length then bs.getD (o - lo) 0 else s.byte o) =
      fun o => if lo ≤ o ∧ o < lo + bs.length then bs.getD (o - lo) 0 else u.byte o := by
    funext o
    by_cases ho : lo ≤ o ∧ o < lo + bs.length
    · rw [if_pos ho, if_pos ho]
    · rw [if_neg ho, if_neg ho]
      exact h.byte o (by omega)
  rw [FileStream.seek_write hs, FileStream.seek_write hu, hbyte, h.size, h.isOpen, h.failed]

/-- Two values of the field. -/
theorem agreeOff_of_write (hs : s.Good) (ofs : ℕ) (bs cs : List UInt8) (hlen : bs.length = cs.length) :
    AgreeOff ofs (ofs + bs.length) ((s.seek ofs).write bs) ((s.seek ofs).write cs) := by
  rw [FileStream.seek_write hs, FileStream.seek_write hs, hlen]
  refine ⟨rfl, rfl, rfl, rfl, ?_⟩
  intro o ho
  have hout : ¬ (ofs ≤ o ∧ o < ofs + cs.length) := by omega
  show (if _ then _ else s.byte o) = if _ then _ else s.byte o
  rw [if_neg hout, if_neg hout]

end FileStream

end BTreesMods

/-
  Pieces of text in a buffer that does not grow.

  1. **Slices** (`Checked`) — the writer again, as it goes by slices of its buffer and of the piece:
     a slice fails if it ends before it begins or behind what it is cut from, and a slice of the
     buffer takes only a source of its own length.  Nothing fails (`checkedWriteAll_eq`): a writer
     never counts more bytes than its buffer has, and that bounds every slice.

  2. **One piece after the other is one piece** (`write_write`), whether the first one ends before
     the end of the buffer, at it or behind it.  So a list of pieces writes what the text writes
     that they make up (`writeAll_eq`).

  3. **The result** (`pieces_written`) — as much of that text as fits, and the bytes behind it as
     they were.
-/
import IambicKeyer.Log.Buffer
import Mathlib.Algebra.GroupWithZero.Nat

namespace IambicKeyer

/-! ## Slices -/

namespace Checked

/-- A difference, unless it is negative. -/
def sub (a b : Nat) : Option Nat := if b ≤ a then some (a - b) else none

/-- The items from place `start` up to place `stop`, if there are such places. -/
def slice {α : Type} (xs : Array α) (start stop : Nat) : Option (Array α) :=
  if start ≤ stop ∧ stop ≤ xs.size then some (xs.extract start stop) else none

theorem sub_eq {a b : Nat} (h : b ≤ a) : sub a b = some (a - b) := if_pos h

theorem slice_eq {α : Type} (xs : Array α) {stop : Nat} (h : stop ≤ xs.size) :
    slice xs 0 stop = some (xs.extract 0 stop) := if_pos ⟨Nat.zero_le stop, h⟩

end Checked

namespace Buffer

variable {size : Nat} {b : Buffer size} {start : Nat} {src : Array UInt8}

/-- Copies `src` into the slice from `start` up to `stop`, if it is one and has that length. -/
def copyTo (b : Buffer size) (start stop : Nat) (src : Array UInt8) : Option (Buffer size) :=
  if start ≤ stop ∧ stop ≤ size ∧ src.size = stop - start then some (b.overwrite start src)
  else none

/-- What lies behind the end of the buffer makes no difference. -/
theorem overwrite_extract :
    b.overwrite start (src.extract 0 (min src.size (size - start))) = b.overwrite start src := by
  apply Vector.ext
  intro i hi
  rw [getElem_overwrite _ _ _ _ hi, getElem_overwrite _ _ _ _ hi]
  by_cases hstart : start ≤ i
  · rw [if_pos hstart, if_pos hstart, Array.getElem?_extract]
    rcases Nat.lt_or_ge (i - start) src.size with hin | hout
    · rw [if_pos (by omega), Nat.zero_add]
    · rw [if_neg (by omega), Array.getElem?_eq_none hout]
  · rw [if_neg hstart, if_neg hstart]

theorem copyTo_eq (b : Buffer size) (src : Array UInt8) (h : start ≤ size) :
    b.copyTo start (start + min src.size (size - start))
      (src.extract 0 (min src.size (size - start))) = some (b.overwrite start src) := by
  have hsize : (src.extract 0 (min src.size (size - start))).size
      = start + min src.size (size - start) - start := by
    rw [Array.size_extract]
    omega
  rw [copyTo, if_pos ⟨Nat.le_add_right _ _, by omega, hsize⟩, overwrite_extract]

/-- **Two texts, one behind the other, are one text**, wherever the first one meets the end. -/
theorem overwrite_overwrite (more : Array UInt8) :
    (b.overwrite start src).overwrite (min (start + src.size) size) more
      = b.overwrite start (src ++ more) := by
  apply Vector.ext
  intro i hi
  rw [getElem_overwrite _ _ _ _ hi, getElem_overwrite _ _ _ _ hi, getElem_overwrite _ _ _ _ hi]
  rcases Nat.lt_or_ge i start with hbefore | hstart
  · rw [if_neg (by omega), if_neg (by omega), if_neg (by omega)]
  · rw [if_pos hstart, if_pos hstart]
    rcases Nat.lt_or_ge (i - start) src.size with hfirst | hmore
    · rw [if_neg (by omega), Array.getElem?_append_left hfirst]
    · -- the second text is reached only if the first one ends before the buffer does
      have hend : min (start + src.size) size = start + src.size := by omega
      rw [hend, if_pos (by omega), Array.getElem?_append_right hmore,
        Array.getElem?_eq_none hmore, Option.getD_none, Nat.sub_add_eq]

end Buffer

namespace Writer

variable {size : Nat} {w : Writer size}

/-- A piece, written by slices. -/
def checkedWrite (w : Writer size) (piece : String) : Option (Writer size) := do
  let bytes := piece.toUTF8.data
  let n := min bytes.size (← Checked.sub size w.used)
  let buffer ← w.buffer.copyTo w.used (w.used + n) (← Checked.slice bytes 0 n)
  return ⟨buffer, w.used + n⟩

/-- The pieces one after the other, written by slices. -/
def checkedWriteAll (w : Writer size) (pieces : List String) : Option (Writer size) :=
  pieces.foldlM checkedWrite w

/-- No writer counts more bytes than its buffer has. -/
theorem used_write_le (w : Writer size) (piece : String) : (w.write piece).used ≤ size :=
  Nat.min_le_right _ _

/-- **No slice fails**, -/
theorem checkedWrite_eq (h : w.used ≤ size) (piece : String) :
    w.checkedWrite piece = some (w.write piece) := by
  have hroom : Checked.sub size w.used = some (size - w.used) := Checked.sub_eq h
  have hslice := Checked.slice_eq piece.toUTF8.data (Nat.min_le_left _ (size - w.used))
  have hcopy := w.buffer.copyTo_eq piece.toUTF8.data h
  have hused : w.used + min piece.toUTF8.data.size (size - w.used)
      = min (w.used + piece.toUTF8.data.size) size := by omega
  simp only [checkedWrite, hroom, hslice, hcopy, Option.bind_eq_bind, Option.bind_some]
  exact congrArg (fun used => some (Writer.mk (w.buffer.overwrite w.used _) used)) hused

/-- however many pieces there are. -/
theorem checkedWriteAll_eq (h : w.used ≤ size) (pieces : List String) :
    w.checkedWriteAll pieces = some (w.writeAll pieces) := by
  induction pieces generalizing w with
  | nil => rfl
  | cons piece pieces ih =>
    rw [checkedWriteAll, List.foldlM_cons, checkedWrite_eq h]
    exact ih (used_write_le w piece)

/-! ## Pieces and their text -/

theorem write_empty (h : w.used ≤ size) : w.write "" = w := by
  have hbuffer : w.buffer.overwrite w.used #[] = w.buffer := by
    apply Vector.ext
    intro i hi
    rw [Buffer.getElem_overwrite _ _ _ _ hi]
    split <;> rfl
  have hused : min (w.used + 0) size = w.used := Nat.min_eq_left h
  show Writer.mk (w.buffer.overwrite w.used #[]) (min (w.used + 0) size) = w
  rw [hbuffer, hused]

theorem write_write (w : Writer size) (piece more : String) :
    (w.write piece).write more = w.write (piece ++ more) := by
  have hbytes : (piece ++ more).toUTF8.data = piece.toUTF8.data ++ more.toUTF8.data :=
    (congrArg ByteArray.data String.toByteArray_append).trans ByteArray.data_append
  have hused : min (min (w.used + piece.toUTF8.data.size) size + more.toUTF8.data.size) size
      = min (w.used + (piece.toUTF8.data.size + more.toUTF8.data.size)) size := by omega
  rw [write, write, write, hbytes, Array.size_append]
  show Writer.mk (Buffer.overwrite _ (min (w.used + _) size) _) _ = Writer.mk _ _
  rw [Buffer.overwrite_overwrite, hused]

/-- **A list of pieces counts only as the text that it makes up.** -/
theorem writeAll_eq (h : w.used ≤ size) (pieces : List String) :
    w.writeAll pieces = w.write (String.join pieces) := by
  induction pieces generalizing w with
  | nil => exact (write_empty h).symm
  | cons piece pieces ih =>
    rw [String.join_cons, ← write_write]
    exact ih (used_write_le w piece)

/-- **The buffer holds as much of the pieces as fits**, and else what it held before. -/
structure Filled (w : Writer size) (before : Buffer size) (pieces : List String) : Prop where
  used : w.used = min size (pieces.map String.utf8ByteSize).sum
  written : w.written = (String.join pieces).toUTF8.data.extract 0 w.used
  rest : ∀ (i : Nat) (hi : i < size), w.used ≤ i → w.buffer[i] = before[i]

theorem utf8ByteSize_join (pieces : List String) :
    (String.join pieces).utf8ByteSize = (pieces.map String.utf8ByteSize).sum := by
  induction pieces with
  | nil => rfl
  | cons piece pieces ih =>
    rw [String.join_cons, String.utf8ByteSize_append, ih, List.map_cons, List.sum_cons]

theorem filled_writeAll (before : Buffer size) (pieces : List String) :
    (writeAll ⟨before, 0⟩ pieces).Filled before pieces := by
  have hsize : (String.join pieces).toUTF8.data.size = (pieces.map String.utf8ByteSize).sum :=
    utf8ByteSize_join pieces
  have hused : min (0 + (String.join pieces).toUTF8.data.size) size
      = min size (pieces.map String.utf8ByteSize).sum := by omega
  rw [writeAll_eq (Nat.zero_le size)]
  refine ⟨hused, ?_, ?_⟩
  · have hread := before.extract_overwrite (String.join pieces).toUTF8.data
    show (before.overwrite 0 _).toArray.extract 0 (min (0 + _) size)
      = Array.extract _ 0 (min (0 + _) size)
    rw [Nat.zero_add, hread, Array.extract_eq_extract_right]
    omega
  · intro i hi (hle : min (0 + _) size ≤ i)
    show (before.overwrite 0 _)[i] = before[i]
    rw [Buffer.getElem_overwrite _ _ _ _ hi, if_pos (Nat.zero_le i), Nat.sub_zero,
      Array.getElem?_eq_none (by omega), Option.getD_none]

/-- **Writing pieces fills the buffer with a prefix of their text.**  No slice is ever out of
    bounds, the bytes behind the prefix are as they were, and pieces that make up the same text
    leave the same behind. -/
theorem pieces_written (before : Buffer size) (pieces : List String) :
    let w := writeAll ⟨before, 0⟩ pieces
    checkedWriteAll ⟨before, 0⟩ pieces = some w ∧ w.Filled before pieces ∧
      ∀ others, String.join others = String.join pieces → writeAll ⟨before, 0⟩ others = w := by
  intro w
  have hempty : (⟨before, 0⟩ : Writer size).used ≤ size := Nat.zero_le size
  refine ⟨checkedWriteAll_eq hempty pieces, filled_writeAll before pieces, ?_⟩
  intro others hjoin
  rw [writeAll_eq hempty, hjoin, ← writeAll_eq hempty]

/-- Six bytes for a buffer of four: it ends within the last piece but one, and the last piece begins
    behind it.  The same text in other pieces, one of which ends where the buffer does. -/
theorem pieces_written_cut :
    let before : Buffer 4 := #v[9, 8, 7, 6]
    let w := writeAll ⟨before, 0⟩ ["a", "é", "", "bc", "d"]
    let others := ["aé", "b", "cd"]
    String.join others = String.join ["a", "é", "", "bc", "d"] ∧
      writeAll ⟨before, 0⟩ others = w ∧
      checkedWriteAll ⟨before, 0⟩ ["a", "é", "", "bc", "d"] = some w ∧
      w.used = 4 ∧ w.written = #[0x61, 0xc3, 0xa9, 0x62] := by
  intro before w others
  obtain ⟨hchecked, hfilled, hsame⟩ := pieces_written before ["a", "é", "", "bc", "d"]
  have hjoin : String.join others = String.join ["a", "é", "", "bc", "d"] := by decide +kernel
  have hused : w.used = 4 := hfilled.used.trans (by decide +kernel)
  refine ⟨hjoin, hsame others hjoin, hchecked, hused, ?_⟩
  rw [hfilled.written, hused]
  decide +kernel

end Writer

end IambicKeyer

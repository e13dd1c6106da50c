/-
  Writing text into a buffer that does not grow.

  Pieces of text are written one behind the other.  What does not fit is cut off, byte by byte,
  and the bytes behind the text stay as they were.  The number of bytes written is the smaller
  of the buffer's size and the size of all pieces together.
-/

namespace IambicKeyer

/-- A buffer of `size` bytes. -/
abbrev Buffer (size : Nat) := Vector UInt8 size

namespace Buffer

variable {size : Nat}

/-- Copies `src` into the buffer from byte `start` on, as far as there is room. -/
def overwrite (b : Buffer size) (start : Nat) (src : Array UInt8) : Buffer size :=
  b.mapIdx fun i old => if start ≤ i then (src[i - start]?).getD old else old

theorem getElem_overwrite (b : Buffer size) (start : Nat) (src : Array UInt8) (i : Nat)
    (h : i < size) :
    (b.overwrite start src)[i] = if start ≤ i then (src[i - start]?).getD b[i] else b[i] := by
  simp [overwrite]

/-- Of a text at the beginning as much can be read back as there is room for. -/
theorem extract_overwrite (b : Buffer size) (src : Array UInt8) :
    (b.overwrite 0 src).toArray.extract 0 (min src.size size) = src.extract 0 size := by
  apply Array.ext
  · rw [Array.size_extract, Array.size_extract, Vector.size_toArray]
    omega
  · intro i hi hi'
    rw [Array.size_extract] at hi hi'
    rw [Array.getElem_extract, Array.getElem_extract, Vector.getElem_toArray,
      getElem_overwrite _ _ _ _ (by omega), if_pos (Nat.zero_le _), Nat.sub_zero,
      Array.getElem?_eq_getElem (by omega), Option.getD_some]

end Buffer

/-- A buffer and the number of bytes written to it so far. -/
structure Writer (size : Nat) where
  buffer : Buffer size
  used : Nat := 0

namespace Writer

variable {size : Nat}

/-- Writes one piece behind the last one. -/
def write (w : Writer size) (piece : String) : Writer size :=
  let bytes := piece.toUTF8.data
  ⟨w.buffer.overwrite w.used bytes, min (w.used + bytes.size) size⟩

/-- Writes the pieces one after the other. -/
def writeAll (w : Writer size) (pieces : List String) : Writer size :=
  pieces.foldl write w

/-- The bytes written. -/
def written (w : Writer size) : Array UInt8 := w.buffer.toArray.extract 0 w.used

end Writer

example :
    let w := Writer.writeAll ⟨(Vector.replicate 4 7 : Buffer 4), 0⟩ ["a", "", "bc"]
    w.used = 3 ∧ w.buffer = #v[0x61, 0x62, 0x63, 7] := by decide +kernel

end IambicKeyer

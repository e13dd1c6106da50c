/-
  What is left of a text that was cut at a byte.

  1. **Decoding** (`leadingChars_split`) — the characters read from a byte string, encoded again, are
     the start of it, and no character begins behind them.  Encodings do not overlap, so any
     characters whose encoding is a start of the bytes are among the first of these
     (`isPrefix_leadingText`).

  2. **`Leads`** — hence the text that is read is the longest start of the bytes that is well-formed,
     whatever the bytes are: `leads_leadingText`.

  3. **`LongestWithin`** — and if the bytes are those of a text that was cut, it is that text up to the
     character that was cut: `longestWithin_leadingText`.
-/
import IambicKeyer.Text.Leading

namespace IambicKeyer

namespace Text

/-! ## Decoding -/

/-- The characters that are read, and a rest that begins with none. -/
theorem leadingChars_split (bytes : ByteArray) (i : Nat) :
    ∃ rest : ByteArray, bytes.extract i bytes.size = (leadingChars bytes i).utf8Encode ++ rest ∧
      rest.utf8DecodeChar? 0 = none := by
  fun_induction leadingChars bytes i with
  | case1 i c hchar ih =>
    obtain ⟨rest, hbytes, hrest⟩ := ih
    have hfits := ByteArray.le_size_of_utf8DecodeChar?_eq_some hchar
    have hfirst : bytes.extract i (i + c.utf8Size) = [c].utf8Encode := by
      rw [ByteArray.utf8DecodeChar?_eq_utf8DecodeChar?_extract] at hchar
      rw [List.utf8Encode_singleton,
        String.toByteArray_utf8EncodeChar_of_utf8DecodeChar?_eq_some hchar,
        ByteArray.extract_extract, Nat.add_zero, Nat.min_eq_left hfits]
    refine ⟨rest, ?_, hrest⟩
    rw [ByteArray.extract_eq_extract_append_extract _ (Nat.le_add_right i _) hfits, hfirst, hbytes,
      ← ByteArray.append_assoc, ← List.utf8Encode_cons]
  | case2 i hnone =>
    refine ⟨bytes.extract i bytes.size, ?_, ?_⟩
    · rw [List.utf8Encode_nil, ByteArray.empty_append]
    · rw [← ByteArray.utf8DecodeChar?_eq_utf8DecodeChar?_extract]
      exact hnone

/-- What begins with the encoding of a character. -/
theorem utf8Encode_cons_append (c : Char) (l : List Char) (more : ByteArray) :
    (c :: l).utf8Encode ++ more = [c].utf8Encode ++ (l.utf8Encode ++ more) := by
  rw [List.utf8Encode_cons, ByteArray.append_assoc]

/-- Encodings do not overlap: if no character begins where `l` ends, then what is decoded from the
    same bytes is a start of `l`. -/
theorem isPrefix_of_utf8Encode {l m : List Char} {rest more : ByteArray}
    (hrest : rest.utf8DecodeChar? 0 = none) (h : m.utf8Encode ++ more = l.utf8Encode ++ rest) :
    m <+: l := by
  induction m generalizing l with
  | nil => exact List.nil_prefix
  | cons c m ih =>
    rw [utf8Encode_cons_append] at h
    have hchar : (l.utf8Encode ++ rest).utf8DecodeChar? 0 = some c := by
      rw [← h]
      exact List.utf8DecodeChar?_utf8Encode_singleton_append
    cases l with
    | nil =>
      rw [List.utf8Encode_nil, ByteArray.empty_append, hrest] at hchar
      nomatch hchar
    | cons d l =>
      rw [utf8Encode_cons_append d l] at h hchar
      obtain rfl : d = c := Option.some.inj
        (List.utf8DecodeChar?_utf8Encode_singleton_append.symm.trans hchar)
      exact List.cons_prefix_cons.mpr ⟨rfl, ih ((ByteArray.append_right_inj _).mp h)⟩

theorem toByteArray_eq_utf8Encode (s : String) : s.toByteArray = s.toList.utf8Encode := by
  rw [← String.toByteArray_ofList, String.ofList_toList]

/-- The bytes begin with the text that is read from them. -/
theorem leadingText_split (bytes : ByteArray) :
    ∃ rest : ByteArray, bytes = (leadingText bytes).toByteArray ++ rest ∧
      rest.utf8DecodeChar? 0 = none := by
  obtain ⟨rest, hbytes, hrest⟩ := leadingChars_split bytes 0
  rw [ByteArray.extract_zero_size] at hbytes
  refine ⟨rest, ?_, hrest⟩
  rw [leadingText, String.toByteArray_ofList]
  exact hbytes

/-- **Every text that the bytes begin with is a start of the one that is read.** -/
theorem isPrefix_leadingText {s : String} {bytes more : ByteArray}
    (h : bytes = s.toByteArray ++ more) : s.toList <+: (leadingText bytes).toList := by
  obtain ⟨rest, hbytes, hrest⟩ := leadingText_split bytes
  rw [toByteArray_eq_utf8Encode] at h hbytes
  exact isPrefix_of_utf8Encode hrest (h.symm.trans hbytes)

/-! ## The longest well-formed start -/

/-- **`s` is the longest start of the bytes that is well-formed text.** -/
structure Leads (s : String) (bytes : ByteArray) : Prop where
  start : bytes.extract 0 s.utf8ByteSize = s.toByteArray
  longest : ∀ n ≤ bytes.size, (bytes.extract 0 n).IsValidUTF8 → n ≤ s.utf8ByteSize

/-- A start of a text takes no more bytes. -/
theorem utf8ByteSize_le_of_isPrefix {s t : String} (h : s.toList <+: t.toList) :
    s.utf8ByteSize ≤ t.utf8ByteSize := by
  obtain ⟨more, hmore⟩ := h
  have ht : t = s ++ String.ofList more := by
    rw [← String.toList_inj, String.toList_append, String.toList_ofList, hmore]
  rw [ht, String.utf8ByteSize_append]
  exact Nat.le_add_right _ _

/-- **The text that is read leads the bytes**, whatever they are. -/
theorem leads_leadingText (bytes : ByteArray) : Leads (leadingText bytes) bytes where
  start := by
    obtain ⟨rest, hbytes, -⟩ := leadingText_split bytes
    have hextract := ByteArray.extract_append_eq_left
      (a := (leadingText bytes).toByteArray) (b := rest) rfl
    rw [← hbytes] at hextract
    exact hextract
  longest := by
    intro n hn hvalid
    have hbytes : bytes
        = (String.ofByteArray (bytes.extract 0 n) hvalid).toByteArray ++ bytes.extract n bytes.size := by
      show bytes = bytes.extract 0 n ++ bytes.extract n bytes.size
      rw [← ByteArray.extract_eq_extract_append_extract n (Nat.zero_le n) hn,
        ByteArray.extract_zero_size]
    have hle := utf8ByteSize_le_of_isPrefix (isPrefix_leadingText hbytes)
    have hsize : (bytes.extract 0 n).size = n := by
      rw [ByteArray.size_extract]
      omega
    rwa [String.utf8ByteSize_ofByteArray, hsize] at hle

/-! ## A text that was cut -/

/-- **`s` is the longest start of a text**, in whole characters, **that takes at most `room` bytes.** -/
structure LongestWithin (room : Nat) (text s : String) : Prop where
  start : s.toList <+: text.toList
  fits : s.utf8ByteSize ≤ room
  longest : ∀ t : String, t.toList <+: text.toList → t.utf8ByteSize ≤ room → t.toList <+: s.toList

/-- A start of a text that fits is a start of what is left of its bytes. -/
theorem extract_append_of_le {a more : ByteArray} {room : Nat} (h : a.size ≤ room) :
    (a ++ more).extract 0 room = a ++ more.extract 0 (room - a.size) := by
  have hwhole : a.extract 0 room = a := by
    rw [← Nat.max_eq_left h]
    exact ByteArray.extract_zero_max_size
  rw [ByteArray.extract_append, hwhole, Nat.zero_sub]

/-- **What is read from a text cut at a byte** is as much of it, in whole characters, as fits. -/
theorem longestWithin_leadingText (room : Nat) (text : String) :
    LongestWithin room text (leadingText (text.toByteArray.extract 0 room)) := by
  obtain ⟨rest, hbytes, -⟩ := leadingText_split (text.toByteArray.extract 0 room)
  constructor
  · -- the text itself ends where no character begins
    have hnone : ByteArray.empty.utf8DecodeChar? 0 = none := rfl
    have hwhole : (leadingText (text.toByteArray.extract 0 room)).toByteArray
        ++ (rest ++ text.toByteArray.extract room text.utf8ByteSize) = text.toByteArray := by
      rw [← ByteArray.append_assoc, ← hbytes, ByteArray.extract_append_extract, Nat.zero_min]
      exact ByteArray.extract_zero_max_size
    have htext : text.toByteArray = text.toList.utf8Encode ++ ByteArray.empty := by
      rw [ByteArray.append_empty, toByteArray_eq_utf8Encode]
    rw [toByteArray_eq_utf8Encode] at hwhole
    exact isPrefix_of_utf8Encode hnone (hwhole.trans htext)
  · have hsize := congrArg ByteArray.size hbytes
    rw [ByteArray.size_append, ByteArray.size_extract] at hsize
    show (leadingText _).toByteArray.size ≤ room
    omega
  · intro t ⟨more, hmore⟩ hfits
    have htext : text.toByteArray = t.toByteArray ++ (String.ofList more).toByteArray := by
      rw [← String.toByteArray_append, String.toByteArray_inj, ← String.toList_inj,
        String.toList_append, String.toList_ofList, hmore]
    rw [htext]
    exact isPrefix_leadingText (extract_append_of_le hfits)

end Text

end IambicKeyer

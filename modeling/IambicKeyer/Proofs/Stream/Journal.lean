/-
  The event stream against an append-only log.

  1. **Requests** — writing, registering, unregistering and polling, in any order and by any number
     of clients, with the answers that the stream gives (`serve`).

  2. **The journal** — what a bystander writes down who sees only the requests and the answers: the
     list of all events ever written, and for each cursor in use where it has started, how far it
     has come and how many events it was given.  The journal knows nothing of rings, stamps and
     loss counters: a cursor that is given an event has moved just past it, and the event a cursor
     is due (`Reader.due`) is the first one it has not passed that is at most a ring behind the end.

  3. **The invariant** (`Agrees`) — the ring retains the end of the log, and the record of each
     cursor in use counts as lost what its reader has passed without being given it.  One step
     lemma per request, and `agrees_observe` for all runs with fewer than `2 ^ 32` events.

  4. **The result** (`observe_serves`) — at every moment the stream answers each cursor in use out
     of the log.
-/
import IambicKeyer.Proofs.Stream.Retained
import IambicKeyer.Proofs.Stream.Table

namespace IambicKeyer

namespace EventStream

variable {k C : Nat}

/-! ## Requests -/

/-- What the clients ask of a stream. -/
inductive Request where
  | push (e : TimedEvent)
  | register
  | unregister (c : Cursor)
  | poll (c : Cursor)
  deriving DecidableEq

/-- What the stream answers. -/
inductive Reply where
  | done
  | granted (c : Cursor)
  | refused (err : StreamError)
  | polled (e : Option TimedEvent)
  deriving DecidableEq

/-- Serves one request. -/
def serve (s : EventStream k C) : Request → Reply × EventStream k C
  | .push e => (.done, s.push e)
  | .register =>
    match s.register with
    | .ok (c, t) => (.granted c, t)
    | .error err => (.refused err, s)
  | .unregister c =>
    match s.unregister c with
    | .ok (t, _) => (.done, t)
    | .error err => (.refused err, s)
  | .poll c =>
    let (e, t) := s.poll c
    (.polled e, t)

/-- The events written by a list of requests. -/
def written (rs : List Request) : List TimedEvent :=
  rs.filterMap fun
    | .push e => some e
    | _ => none

/-- The number of the event that a poll looks at first. -/
def firstLook (s : EventStream k C) (y : Consumer) : UInt32 :=
  y.next + UInt32.ofNat (s.pending y - s.capacity)

/-! ## The journal -/

/-- A cursor in use: the length of the log when it was given out, the position it has come to, and
    the number of events it was given. -/
structure Reader where
  since : Nat
  next : Nat
  delivered : Nat := 0
  deriving DecidableEq

/-- The position of the event that a reader is due from a log of length `w`, when at most `window`
    events are kept. -/
def Reader.due (x : Reader) (window w : Nat) : Nat := max x.next (w - window)

/-- The reader after it was given the event it is due. -/
def Reader.read (x : Reader) (window w : Nat) : Reader :=
  { x with next := x.due window w + 1, delivered := x.delivered + 1 }

/-- The record of the reader's cursor after that, if it was `y` before. -/
def Reader.record (x : Reader) (window w : Nat) (y : Consumer) : Consumer :=
  { y with next := UInt32.ofNat (x.due window w + 1), lost := y.lost + (x.due window w - x.next) }

/-- The log of all events and the cursors in use. -/
structure Journal where
  log : List TimedEvent := []
  readers : Cursor → Option Reader := fun _ => none

/-- The journal with another entry for a cursor. -/
def Journal.assign (j : Journal) (c : Cursor) (x : Option Reader) : Journal :=
  { j with readers := fun d => if d = c then x else j.readers d }

/-- Enters a request and its answer. -/
def Journal.enter (window : Nat) (j : Journal) : Request → Reply → Journal
  | .push e, .done => { j with log := j.log ++ [e] }
  | .register, .granted c =>
    j.assign c (some { since := j.log.length, next := j.log.length })
  | .unregister c, .done => j.assign c none
  | .poll c, .polled (some _) =>
    j.assign c ((j.readers c).map fun x => x.read window j.log.length)
  | _, _ => j

/-- A stream and the journal kept of it. -/
structure Observed (k C : Nat) where
  stream : EventStream k C := empty
  journal : Journal := {}

/-- Serves a request and enters it. -/
def Observed.serve (o : Observed k C) (r : Request) : Observed k C :=
  ⟨(o.stream.serve r).2, o.journal.enter (Ring.size k) r (o.stream.serve r).1⟩

/-- Serves the requests in order. -/
def Observed.serveAll (o : Observed k C) (rs : List Request) : Observed k C := rs.foldl serve o

/-- A new stream after a list of requests. -/
def observe (k C : Nat) (rs : List Request) : Observed k C := Observed.serveAll {} rs

/-! ## The invariant -/

/-- The record of a cursor stands where its reader stands, and what the reader has passed was
    either given to it or counted as lost. -/
structure Tracks (w : Nat) (x : Reader) (y : Consumer) : Prop where
  next : y.next = UInt32.ofNat x.next
  le : x.next ≤ w
  account : x.since + (x.delivered + y.lost) = x.next

/-- **The stream agrees with the journal.** -/
structure Observed.Agrees (o : Observed k C) : Prop where
  retains : o.stream.Retains o.journal.log
  fits : ∀ e ∈ o.journal.log, e.Fits
  readers : ∀ c, Option.Rel (Tracks o.journal.log.length) (o.journal.readers c)
    (o.stream.consumer? c)

/-- The consumer table is no part of what the ring retains. -/
theorem Retains.seat {s : EventStream k C} {log : List TimedEvent} (h : s.Retains log) (i : Nat)
    (y : Consumer) : (s.seat i y).Retains log := ⟨h.head, h.slot⟩

theorem agrees_new : ({} : Observed k C).Agrees := by
  refine ⟨retains_empty, fun e he => (nomatch he), fun c => ?_⟩
  rw [consumer?_empty]
  exact .none

namespace Tracks

variable {w : Nat} {x : Reader} {y : Consumer}

theorem mono (h : Tracks w x y) {v : Nat} (hle : w ≤ v) : Tracks v x y :=
  ⟨h.next, Nat.le_trans h.le hle, h.account⟩

/-- What is pending for the record is what the reader has not come to. -/
theorem pending {s : EventStream k C} (h : Tracks w x y) (hhead : s.head = UInt32.ofNat w)
    (hw : w < 4294967296) : s.pending y = w - x.next := by
  unfold EventStream.pending
  rw [hhead, h.next]
  exact Ring.toNat_sub_ofNat h.le (by omega)

theorem lag {s : EventStream k C} {c : Cursor} (h : Tracks w x y)
    (hhead : s.head = UInt32.ofNat w) (hw : w < 4294967296) (hy : s.consumer? c = some y) :
    s.lag c = w - x.next := by
  unfold EventStream.lag
  rw [hy]
  exact h.pending hhead hw

/-- The losses counted so far, and those still to be counted when the cursor jumps. -/
theorem lostBy {s : EventStream k C} {c : Cursor} (h : Tracks w x y)
    (hhead : s.head = UInt32.ofNat w) (hw : w < 4294967296) (hy : s.consumer? c = some y) :
    s.lostBy c = y.lost + (w - x.next - Ring.size k) := by
  unfold EventStream.lostBy
  rw [hy, ← h.pending hhead hw]
  rfl

end Tracks

namespace Observed.Agrees

variable {o : Observed k C}

/-- A reader in the journal has a record in the stream. -/
theorem consumer (h : o.Agrees) {c : Cursor} {x : Reader} (hx : o.journal.readers c = some x) :
    ∃ y, o.stream.consumer? c = some y ∧ Tracks o.journal.log.length x y := by
  have hrel := h.readers c
  rw [hx] at hrel
  generalize o.stream.consumer? c = y? at hrel
  cases hrel with
  | some htracks => exact ⟨_, rfl, htracks⟩

/-- A record in the stream has a reader in the journal. -/
theorem reader (h : o.Agrees) {c : Cursor} {y : Consumer} (hy : o.stream.consumer? c = some y) :
    ∃ x, o.journal.readers c = some x ∧ Tracks o.journal.log.length x y := by
  have hrel := h.readers c
  rw [hy] at hrel
  generalize o.journal.readers c = x? at hrel
  cases hrel with
  | some htracks => exact ⟨_, rfl, htracks⟩

/-- Changing one entry on both sides keeps the correspondence of all of them. -/
theorem assign (h : o.Agrees) {c : Cursor} {t : EventStream k C} {x : Option Reader}
    {y : Option Consumer} (ht : t.Retains o.journal.log)
    (hcons : ∀ d, t.consumer? d = if d = c then y else o.stream.consumer? d)
    (hxy : Option.Rel (Tracks o.journal.log.length) x y) :
    Observed.Agrees ⟨t, o.journal.assign c x⟩ := by
  refine ⟨ht, h.fits, fun d => ?_⟩
  show Option.Rel _ (if d = c then x else o.journal.readers d) (t.consumer? d)
  rw [hcons d]
  by_cases hdc : d = c
  · rw [if_pos hdc, if_pos hdc]
    exact hxy
  · rw [if_neg hdc, if_neg hdc]
    exact h.readers d

/-! ## Polling -/

section Poll

variable {c : Cursor} {x : Reader} {y : Consumer}

/-- A reader that has come to the end is given nothing. -/
theorem poll_caughtUp (h : o.Agrees) (hfew : o.journal.log.length < 4294967296)
    (hx : o.journal.readers c = some x) (hend : x.next = o.journal.log.length) :
    o.stream.poll c = (none, o.stream) := by
  obtain ⟨y, hy, htracks⟩ := h.consumer hx
  have hpending : o.stream.pending y = 0 := by
    rw [htracks.pending h.retains.head hfew, hend, Nat.sub_self]
  have hread : o.stream.firstReadable (min (o.stream.pending y) o.stream.capacity)
      (y.next + UInt32.ofNat (o.stream.pending y - o.stream.capacity))
      (y.lost + (o.stream.pending y - o.stream.capacity)) = (none, y.next, y.lost) := by
    rw [hpending, Nat.zero_min, Nat.zero_sub]
    show (none, y.next + 0, y.lost + 0) = _
    rw [UInt32.add_zero, Nat.add_zero]
  rw [poll_live hy hread]
  obtain ⟨hget, -, -⟩ := consumer?_eq_some.mp hy
  obtain ⟨hlt, hat⟩ := Vector.getElem?_eq_some_iff.mp hget
  -- the record that is written back is the one that was there
  have hsame : o.stream.consumers.setIfInBounds c.slot y = o.stream.consumers := by
    refine Vector.ext fun i hi => ?_
    rw [Vector.getElem_setIfInBounds]
    split
    · next heq =>
      subst heq
      exact hat.symm
    · rfl
  unfold seat
  rw [hsame]

/-- The first look of a poll is at the event that the reader is due. -/
theorem firstLook_eq (h : o.Agrees) (hfew : o.journal.log.length < 4294967296)
    (htracks : Tracks o.journal.log.length x y) :
    o.stream.firstLook y = UInt32.ofNat (x.due (Ring.size k) o.journal.log.length) := by
  have hdue : x.due (Ring.size k) o.journal.log.length
      = x.next + (o.journal.log.length - x.next - Ring.size k) := by
    have hle := htracks.le
    unfold Reader.due
    omega
  unfold firstLook
  rw [htracks.pending h.retains.head hfew, htracks.next, hdue, UInt32.ofNat_add]
  rfl

/-- **The first look succeeds**: the event is there, under its own number. -/
theorem read?_firstLook (h : o.Agrees) (hfew : o.journal.log.length < 4294967296)
    (htracks : Tracks o.journal.log.length x y) (hbehind : x.next < o.journal.log.length) :
    ∃ e, o.journal.log[x.due (Ring.size k) o.journal.log.length]? = some e ∧
      (o.stream.slotOf (o.stream.firstLook y)).read? (o.stream.firstLook y) = some e := by
  have hsize := Ring.size_pos k
  have hdue : x.due (Ring.size k) o.journal.log.length < o.journal.log.length := by
    unfold Reader.due
    omega
  refine ⟨_, List.getElem?_eq_getElem hdue, ?_⟩
  rw [h.firstLook_eq hfew htracks]
  refine h.retains.read?_slotOf h.fits hdue ?_
  unfold Reader.due
  omega

/-- **A reader that is behind is given the event it is due** and moves just past it; what lies
    between its old position and this event is counted as lost. -/
theorem poll_behind (h : o.Agrees) (hfew : o.journal.log.length < 4294967296)
    (hy : o.stream.consumer? c = some y) (htracks : Tracks o.journal.log.length x y)
    (hbehind : x.next < o.journal.log.length) :
    ∃ e, o.journal.log[x.due (Ring.size k) o.journal.log.length]? = some e ∧
      o.stream.poll c
        = (some e, o.stream.seat c.slot (x.record (Ring.size k) o.journal.log.length y)) := by
  obtain ⟨e, hlog, hfirst⟩ := h.read?_firstLook hfew htracks hbehind
  refine ⟨e, hlog, poll_live hy ?_⟩
  have hpending := htracks.pending h.retains.head hfew
  -- at least one event is looked at, and the first one is readable
  obtain ⟨n, hn⟩ : ∃ n, min (o.stream.pending y) o.stream.capacity = n + 1 := by
    have hsize : 0 < o.stream.capacity := Ring.size_pos k
    exact Nat.exists_eq_succ_of_ne_zero (by omega)
  have hskipped : o.stream.pending y - o.stream.capacity
      = x.due (Ring.size k) o.journal.log.length - x.next := by
    have hle := htracks.le
    rw [hpending]
    unfold Reader.due capacity
    omega
  show o.stream.firstReadable _ (o.stream.firstLook y) _ = _
  rw [hn, hskipped, firstReadable, hfirst, h.firstLook_eq hfew htracks, UInt32.ofNat_add]
  rfl

/-- The reader that was given its event, and the record of the cursor after that poll. -/
theorem tracks_read (htracks : Tracks o.journal.log.length x y)
    (hbehind : x.next < o.journal.log.length) :
    Tracks o.journal.log.length (x.read (Ring.size k) o.journal.log.length)
      (x.record (Ring.size k) o.journal.log.length y) := by
  have hsize := Ring.size_pos k
  have haccount := htracks.account
  refine ⟨rfl, ?_, ?_⟩
  · show x.due (Ring.size k) o.journal.log.length + 1 ≤ o.journal.log.length
    unfold Reader.due
    omega
  · show x.since + (x.delivered + 1 +
        (y.lost + (x.due (Ring.size k) o.journal.log.length - x.next)))
      = x.due (Ring.size k) o.journal.log.length + 1
    unfold Reader.due
    omega

/-- The consumers after a poll that has given an event. -/
theorem consumer?_poll_behind (h : o.Agrees) (hfew : o.journal.log.length < 4294967296)
    (hy : o.stream.consumer? c = some y) (htracks : Tracks o.journal.log.length x y)
    (hbehind : x.next < o.journal.log.length) (d : Cursor) :
    (o.stream.poll c).2.consumer? d
      = if d = c then some (x.record (Ring.size k) o.journal.log.length y)
        else o.stream.consumer? d := by
  obtain ⟨e, -, hpoll⟩ := h.poll_behind hfew hy htracks hbehind
  obtain ⟨-, hactive, hticket⟩ := consumer?_eq_some.mp hy
  have hrecord : (x.record (Ring.size k) o.journal.log.length y).active = true := hactive
  have hseat := consumer?_seat_live o.stream hy
    (y := x.record (Ring.size k) o.journal.log.length y) (fun _ => hticket) d
  rw [if_pos hrecord] at hseat
  rw [hpoll]
  exact hseat

end Poll

/-! ## Every request keeps the invariant -/

theorem push (h : o.Agrees) (hfew : o.journal.log.length < 4294967296) {e : TimedEvent}
    (he : e.Fits) : (o.serve (.push e)).Agrees := by
  refine ⟨h.retains.push e (.inr hfew), fun x hx => ?_, fun c => ?_⟩
  · rcases List.mem_append.mp hx with hx | hx
    · exact h.fits x hx
    · rwa [List.mem_singleton.mp hx]
  · have hlonger : o.journal.log.length ≤ (o.journal.log ++ [e]).length := by
      rw [List.length_append]
      exact Nat.le_add_right _ _
    show Option.Rel (Tracks (o.journal.log ++ [e]).length) (o.journal.readers c)
      (o.stream.consumer? c)
    have hrel := h.readers c
    generalize o.journal.readers c = x?, o.stream.consumer? c = y? at hrel
    -- no reader moves: each is one event further behind the end
    cases hrel with
    | none => exact .none
    | some htracks => exact .some (htracks.mono hlonger)

theorem register (h : o.Agrees) : (o.serve .register).Agrees := by
  cases hreg : o.stream.register with
  | error err =>
    have hserve : o.stream.serve .register = (.refused err, o.stream) := by
      simp only [EventStream.serve, hreg]
    rw [Observed.serve, hserve]
    exact h
  | ok granted =>
    obtain ⟨c, t⟩ := granted
    have hserve : o.stream.serve .register = (.granted c, t) := by
      simp only [EventStream.serve, hreg]
    rw [Observed.serve, hserve]
    obtain ⟨-, rfl, hcons⟩ := register_ok hreg
    -- the new reader stands at the end of the log, and nothing is counted yet
    refine h.assign (h.retains.seat _ _) hcons (.some ?_)
    exact ⟨h.retains.head, Nat.le_refl _, rfl⟩

theorem unregister (h : o.Agrees) (c : Cursor) : (o.serve (.unregister c)).Agrees := by
  cases hunreg : o.stream.unregister c with
  | error err =>
    have hserve : o.stream.serve (.unregister c) = (.refused err, o.stream) := by
      simp only [EventStream.serve, hunreg]
    rw [Observed.serve, hserve]
    exact h
  | ok freed =>
    obtain ⟨t, report⟩ := freed
    have hserve : o.stream.serve (.unregister c) = (.done, t) := by
      simp only [EventStream.serve, hunreg]
    rw [Observed.serve, hserve]
    obtain ⟨y, rfl, hcons⟩ := unregister_ok hunreg
    exact h.assign (h.retains.seat _ _) hcons .none

theorem poll (h : o.Agrees) (hfew : o.journal.log.length < 4294967296) (c : Cursor) :
    (o.serve (.poll c)).Agrees := by
  show Observed.Agrees
    ⟨(o.stream.poll c).2, o.journal.enter _ (.poll c) (.polled (o.stream.poll c).1)⟩
  cases hlive : o.stream.consumer? c with
  | none =>
    -- the journal has no reader for the cursor either, and the answer is not entered
    rw [poll_stale hlive]
    exact h
  | some y =>
    obtain ⟨x, hx, htracks⟩ := h.reader hlive
    rcases Nat.eq_or_lt_of_le htracks.le with hend | hbehind
    · rw [h.poll_caughtUp hfew hx hend]
      exact h
    · have hcons := h.consumer?_poll_behind hfew hlive htracks hbehind
      obtain ⟨e, -, hpoll⟩ := h.poll_behind hfew hlive htracks hbehind
      rw [hpoll] at hcons ⊢
      show Observed.Agrees ⟨_, o.journal.assign c ((o.journal.readers c).map _)⟩
      rw [hx]
      exact h.assign (h.retains.seat _ _) hcons
        (.some (tracks_read htracks hbehind))

/-- **Serving a request keeps the agreement.** -/
theorem serve (h : o.Agrees) (hfew : o.journal.log.length < 4294967296) {r : Request}
    (hfits : ∀ e ∈ written [r], e.Fits) : (o.serve r).Agrees := by
  cases r with
  | push e => exact h.push hfew (hfits e (List.mem_singleton_self e))
  | register => exact h.register
  | unregister c => exact h.unregister c
  | poll c => exact h.poll hfew c

end Observed.Agrees

/-! ## Runs -/

/-- The log of the journal grows by what is written. -/
theorem log_serve (o : Observed k C) (r : Request) :
    (o.serve r).journal.log = o.journal.log ++ written [r] := by
  cases r with
  | push e => rfl
  | _ =>
    -- no other entry touches the log, whatever the answer
    rw [Observed.serve]
    generalize (o.stream.serve _).1 = reply
    cases reply with
    | polled e => cases e <;> exact (List.append_nil _).symm
    | _ => exact (List.append_nil _).symm

theorem written_cons (r : Request) (rs : List Request) :
    written (r :: rs) = written [r] ++ written rs :=
  List.filterMap_append (l := [r])

theorem log_serveAll (o : Observed k C) (rs : List Request) :
    (o.serveAll rs).journal.log = o.journal.log ++ written rs := by
  induction rs generalizing o with
  | nil => exact (List.append_nil _).symm
  | cons r rs ih =>
    show ((o.serve r).serveAll rs).journal.log = _
    rw [ih, log_serve, List.append_assoc, ← written_cons]

/-- **The agreement holds along every run** that writes fewer than `2 ^ 32` events in all. -/
theorem Observed.Agrees.serveAll {o : Observed k C} (h : o.Agrees) {rs : List Request}
    (hfew : (o.journal.log ++ written rs).length < 4294967296)
    (hfits : ∀ e ∈ written rs, e.Fits) : (o.serveAll rs).Agrees := by
  induction rs generalizing o with
  | nil => exact h
  | cons r rs ih =>
    rw [written_cons] at hfew hfits
    have hnow : o.journal.log.length < 4294967296 := by
      rw [List.length_append] at hfew
      exact Nat.lt_of_le_of_lt (Nat.le_add_right _ _) hfew
    refine ih (h.serve hnow fun e he => hfits e (List.mem_append_left _ he)) ?_
      (fun e he => hfits e (List.mem_append_right _ he))
    rwa [log_serve, List.append_assoc]

theorem agrees_observe (k C : Nat) {rs : List Request} (hfew : (written rs).length < 4294967296)
    (hfits : ∀ e ∈ written rs, e.Fits) : (observe k C rs).Agrees :=
  agrees_new.serveAll hfew hfits

/-! ## The stream serves its cursors out of the log -/

/-- What a cursor sees of a stream that stands for the log: `x` says where it started, where it
    stands and how many events it was given. -/
structure Serves (s : EventStream k C) (log : List TimedEvent) (c : Cursor) (x : Reader) :
    Prop where
  /-- The position lies between the cursor's start and the end of the log. -/
  since_le : x.since ≤ x.next
  next_le : x.next ≤ log.length
  /-- The lag is the distance to the end. -/
  lag : s.lag c = log.length - x.next
  /-- At the end a poll gives nothing and changes nothing. -/
  caughtUp : x.next = log.length → s.poll c = (none, s)
  /-- Before the end a poll gives the event that is due, and is just past it then. -/
  behind : x.next < log.length →
    ∃ e, log[max x.next (log.length - Ring.size k)]? = some e ∧ (s.poll c).1 = some e ∧
      (s.poll c).2.lag c = log.length - (max x.next (log.length - Ring.size k) + 1)
  /-- No poll meets a slot that is stamped for another event. -/
  firstLook : ∃ y, s.consumer? c = some y ∧ (x.next < log.length →
    ((s.slotOf (s.firstLook y)).read? (s.firstLook y)).isSome = true)
  /-- The losses do not change when this or another cursor is polled. -/
  lost_poll : ∀ d, (s.poll d).2.lostBy c = s.lostBy c
  /-- They do not become fewer when another event is written. -/
  lost_push : ∀ e, log.length + 1 < 4294967296 → s.lostBy c ≤ (s.push e).lostBy c
  /-- Every event since the start was given out, or is lost, or is still waiting. -/
  account : x.delivered + s.lostBy c + min (s.lag c) (Ring.size k) = log.length - x.since

/-- **The losses of a cursor do not change by polling**: a poll counts the events that it jumps
    over, and these were the ones that lay out of the ring's reach. -/
theorem Observed.Agrees.lostBy_poll {o : Observed k C} (h : o.Agrees)
    (hfew : o.journal.log.length < 4294967296) {c : Cursor} {x : Reader}
    (hx : o.journal.readers c = some x) (d : Cursor) :
    (o.stream.poll d).2.lostBy c = o.stream.lostBy c := by
  obtain ⟨y, hy, htracks⟩ := h.consumer hx
  cases hlive : o.stream.consumer? d with
  | none => rw [poll_stale hlive]
  | some z =>
    obtain ⟨v, hv, hvz⟩ := h.reader hlive
    rcases Nat.eq_or_lt_of_le hvz.le with hend | hbehind
    · rw [h.poll_caughtUp hfew hv hend]
    · have hhead : (o.stream.poll d).2.head = UInt32.ofNat o.journal.log.length := by
        rw [poll_head, h.retains.head]
      have hcons := h.consumer?_poll_behind hfew hlive hvz hbehind c
      rw [htracks.lostBy h.retains.head hfew hy]
      by_cases hcd : c = d
      · subst hcd
        obtain rfl : v = x := Option.some.inj (hv.symm.trans hx)
        obtain rfl : z = y := Option.some.inj (hlive.symm.trans hy)
        rw [if_pos rfl] at hcons
        rw [(tracks_read hvz hbehind).lostBy hhead hfew hcons]
        -- behind the event that was given out, the rest of the log fits into the ring
        show z.lost + (v.due (Ring.size k) o.journal.log.length - v.next)
            + (o.journal.log.length - (v.due (Ring.size k) o.journal.log.length + 1) - Ring.size k)
          = z.lost + (o.journal.log.length - v.next - Ring.size k)
        unfold Reader.due
        omega
      · rw [if_neg hcd, hy] at hcons
        rw [htracks.lostBy hhead hfew hcons]

/-- An agreeing stream serves each cursor in use out of the log. -/
theorem Observed.Agrees.serves {o : Observed k C} (h : o.Agrees)
    (hfew : o.journal.log.length < 4294967296) {c : Cursor} {x : Reader}
    (hx : o.journal.readers c = some x) : Serves o.stream o.journal.log c x := by
  obtain ⟨y, hy, htracks⟩ := h.consumer hx
  have hlag := htracks.lag h.retains.head hfew hy
  have hlost := htracks.lostBy h.retains.head hfew hy
  have haccount := htracks.account
  refine {
    since_le := by omega
    next_le := htracks.le
    lag := hlag
    caughtUp := h.poll_caughtUp hfew hx
    behind := fun hbehind => ?_
    firstLook := ⟨y, hy, fun hbehind => ?_⟩
    lost_poll := h.lostBy_poll hfew hx
    lost_push := fun e hmore => ?_
    account := ?_ }
  · obtain ⟨e, hlog, hpoll⟩ := h.poll_behind hfew hy htracks hbehind
    have hcons := h.consumer?_poll_behind hfew hy htracks hbehind c
    rw [if_pos rfl] at hcons
    refine ⟨e, hlog, by rw [hpoll], ?_⟩
    exact (tracks_read htracks hbehind).lag (by rw [poll_head, h.retains.head]) hfew hcons
  · obtain ⟨e, -, hread⟩ := h.read?_firstLook hfew htracks hbehind
    rw [hread]
    rfl
  · have hhead : (o.stream.push e).head = UInt32.ofNat (o.journal.log.length + 1) := by
      have hafter := (h.retains.push e (.inr hfew)).head
      rwa [List.length_append] at hafter
    have hcons : (o.stream.push e).consumer? c = some y := hy
    rw [hlost, (htracks.mono (Nat.le_succ _)).lostBy hhead hmore hcons]
    omega
  · have hle := htracks.le
    rw [hlost, hlag]
    omega

/-- **The event stream refines an append-only log.**  After every list of requests that writes
    fewer than `2 ^ 32` events, the log is the list of these events, the live cursors are those the
    journal has a reader for, and the stream serves each of them out of the log, whatever the
    others do. -/
theorem observe_serves (k C : Nat) (rs : List Request) (hfew : (written rs).length < 4294967296)
    (hfits : ∀ e ∈ written rs, e.Fits) :
    (observe k C rs).journal.log = written rs ∧
      (∀ c, ((observe k C rs).stream.consumer? c).isSome
        = ((observe k C rs).journal.readers c).isSome) ∧
      ∀ c x, (observe k C rs).journal.readers c = some x →
        Serves (observe k C rs).stream (written rs) c x := by
  have hlog : (observe k C rs).journal.log = written rs := log_serveAll {} rs
  have hagrees := agrees_observe k C hfew hfits
  refine ⟨hlog, fun c => ?_, fun c x hx => ?_⟩
  · have hrel := hagrees.readers c
    generalize (observe k C rs).journal.readers c = x?, (observe k C rs).stream.consumer? c = y?
      at hrel
    cases hrel with
    | none => rfl
    | some htracks => rfl
  · rw [← hlog] at hfew ⊢
    exact hagrees.serves hfew hx

/-- A reader that is overtaken: it reads the first of four events, and then the ring of two holds
    only the last two of them. -/
def overtaken : List Request :=
  [.register, .push ⟨10, .keyDown .dit⟩, .poll ⟨0, 0⟩, .push ⟨20, .keyUp .dit⟩,
    .push ⟨30, .gap .character⟩, .push ⟨-40, .keyDown .dah⟩]

theorem overtaken_served :
    (written overtaken).length < 4294967296 ∧ (∀ e ∈ written overtaken, e.Fits) ∧
      (observe 1 1 overtaken).journal.readers ⟨0, 0⟩ = some ⟨0, 1, 1⟩ ∧
      Serves (observe 1 1 overtaken).stream (written overtaken) ⟨0, 0⟩ ⟨0, 1, 1⟩ := by
  have hfew : (written overtaken).length < 4294967296 := by decide
  have hfits : ∀ e ∈ written overtaken, e.Fits := by decide
  have hreader : (observe 1 1 overtaken).journal.readers ⟨0, 0⟩ = some ⟨0, 1, 1⟩ := by
    decide +kernel
  exact ⟨hfew, hfits, hreader, (observe_serves 1 1 overtaken hfew hfits).2.2 ⟨0, 0⟩ _ hreader⟩

end EventStream

end IambicKeyer

/-
  What a consumer is told when it goes.

      start        place               oldest event left      end of the log
        |────────────|──────────────────────|──────────────────────|
        | given, or  | lost, but not yet    | still waiting
        | counted as | counted              |
        | lost       |

  1. **Two counts** — the losses of a cursor are those that its polls have counted, and those events
     that have been overwritten since the last poll.  The report that a consumer is gone tells the
     first count alone (`Observed.Agrees.parting`).

  2. **The result** — so it tells all losses exactly if the cursor lags no more than a ring behind
     (`parting_report`), which is so whenever it has just been polled.  A consumer that is overtaken
     and then goes is told too few (`loss_untold`).
-/
import IambicKeyer.Proofs.Stream.Draining

namespace IambicKeyer

namespace EventStream

variable {k C : Nat}

/-- **What a consumer is told**, when the journal has the reader `x` for its cursor. -/
structure Parting (s : EventStream k C) (c : Cursor) (x : Reader) (counted : Nat) : Prop where
  /-- Unregistering a cursor and dropping its handle end in the same report. -/
  told : ∃ t, s.unregister c = .ok (t, goneReport c.slot counted) ∧
    s.close c = ([goneReport c.slot counted], t)
  /-- It tells how many events the reader has passed without being given them, -/
  passed : x.since + x.delivered + counted = x.next
  /-- and not those that have been overwritten since. -/
  lostBy : s.lostBy c = counted + (s.lag c - s.capacity)

namespace Observed.Agrees

variable {o : Observed k C} {c : Cursor} {x : Reader}

/-- What is entered for a poll that gives an event. -/
theorem serve_poll (h : o.Agrees) (hfew : o.journal.log.length < 4294967296)
    (hx : o.journal.readers c = some x) (hbehind : x.next < o.journal.log.length) :
    (o.serve (.poll c)).journal.log = o.journal.log ∧
      (o.serve (.poll c)).journal.readers c
        = some (x.read (Ring.size k) o.journal.log.length) := by
  obtain ⟨y, hy, htracks⟩ := h.consumer hx
  obtain ⟨e, -, hpoll⟩ := h.poll_behind hfew hy htracks hbehind
  have hjournal : (o.serve (.poll c)).journal
      = o.journal.assign c (some (x.read (Ring.size k) o.journal.log.length)) := by
    show o.journal.enter _ (.poll c) (.polled (o.stream.poll c).1) = _
    rw [hpoll]
    show o.journal.assign c ((o.journal.readers c).map _) = _
    rw [hx]
    rfl
  rw [hjournal]
  exact ⟨rfl, if_pos rfl⟩

/-- **The report tells what is counted in the record.** -/
theorem parting (h : o.Agrees) (hfew : o.journal.log.length < 4294967296)
    (hx : o.journal.readers c = some x) : ∃ counted, Parting o.stream c x counted := by
  obtain ⟨y, hy, htracks⟩ := h.consumer hx
  refine ⟨y.lost, ?_, ?_, ?_⟩
  · rw [close, EventStream.unregister, hy]
    exact ⟨_, rfl, rfl⟩
  · rw [Nat.add_assoc]
    exact htracks.account
  · rw [htracks.lostBy h.retains.head hfew hy, htracks.lag h.retains.head hfew hy]
    rfl

/-- A cursor that has been polled lags no more than a ring behind. -/
theorem lag_poll_le (h : o.Agrees) (hfew : o.journal.log.length < 4294967296)
    (hx : o.journal.readers c = some x) :
    ∃ x', (o.serve (.poll c)).journal.readers c = some x' ∧
      (o.stream.poll c).2.lag c ≤ o.stream.capacity := by
  obtain ⟨y, hy, htracks⟩ := h.consumer hx
  rcases Nat.eq_or_lt_of_le htracks.le with hend | hbehind
  · have hpoll := h.poll_caughtUp hfew hx hend
    refine ⟨x, ?_, ?_⟩
    · show (o.journal.enter _ (.poll c) (.polled (o.stream.poll c).1)).readers c = _
      rw [hpoll]
      exact hx
    · rw [hpoll, htracks.lag h.retains.head hfew hy, hend, Nat.sub_self]
      exact Nat.zero_le _
  · obtain ⟨hsame, hnext⟩ := h.serve_poll hfew hx hbehind
    refine ⟨_, hnext, ?_⟩
    have hserved := h.poll hfew c
    obtain ⟨z, hz, hread⟩ := hserved.consumer hnext
    have hlag : (o.stream.poll c).2.lag c = _ :=
      hread.lag hserved.retains.head (by rw [hsame]; exact hfew) hz
    rw [hlag, hsame]
    show o.journal.log.length - (x.due (Ring.size k) o.journal.log.length + 1) ≤ Ring.size k
    rw [Reader.due]
    omega

end Observed.Agrees

/-- **What a consumer is told when it goes.**  After every list of requests that writes fewer than
    `2 ^ 32` events, a live cursor that is unregistered, or whose handle is dropped, is told how many
    events its polls have jumped over.  These are all its losses exactly if it lags no more than a
    ring behind, and so they are if it was polled just before. -/
theorem parting_report (k C : Nat) (rs : List Request) (hfew : (written rs).length < 4294967296)
    (hfits : ∀ e ∈ written rs, e.Fits) (c : Cursor) (x : Reader)
    (hx : (observe k C rs).journal.readers c = some x) :
    let s := (observe k C rs).stream
    (∃ counted, Parting s c x counted ∧ (counted = s.lostBy c ↔ s.lag c ≤ s.capacity)) ∧
      ((s.poll c).2.close c).1 = [goneReport c.slot (s.lostBy c)] := by
  intro s
  have hlog : (observe k C rs).journal.log = written rs := log_serveAll {} rs
  have hagrees := agrees_observe k C hfew hfits
  rw [← hlog] at hfew
  constructor
  · obtain ⟨counted, hparting⟩ := hagrees.parting hfew hx
    have hlost : s.lostBy c = counted + (s.lag c - s.capacity) := hparting.lostBy
    refine ⟨counted, hparting, ?_⟩
    omega
  · obtain ⟨x', hx', hlag⟩ := hagrees.lag_poll_le hfew hx
    have hsame := log_serve (observe k C rs) (.poll c)
    have hstill : ((observe k C rs).serve (.poll c)).journal.log.length < 4294967296 := by
      rw [hsame, show written [Request.poll c] = [] from rfl, List.append_nil]
      exact hfew
    obtain ⟨counted, ⟨t, -, hclose⟩, -, hlost⟩ := (hagrees.poll hfew c).parting hstill hx'
    have hkept : (s.poll c).2.lostBy c = s.lostBy c := hagrees.lostBy_poll hfew hx c
    have hlost : (s.poll c).2.lostBy c = counted + ((s.poll c).2.lag c - s.capacity) := hlost
    have hcounted : counted = s.lostBy c := by
      have hlag : (s.poll c).2.lag c ≤ s.capacity := hlag
      omega
    have hclose : (s.poll c).2.close c = ([goneReport c.slot counted], t) := hclose
    rw [hclose, hcounted]

/-- A consumer on a ring of two reads nothing until three events have been written. -/
def latecomer : List Request :=
  [.register, .push ⟨1, .keyDown .dit⟩, .push ⟨2, .keyUp .dit⟩, .push ⟨3, .gap .character⟩]

/-- Once it has read the second event it lags one behind, and is told that it has lost the first. -/
theorem parting_report_latecomer :
    let rs := latecomer ++ [.poll ⟨0, 0⟩]
    let s := (observe 1 1 rs).stream
    (written rs).length < 4294967296 ∧ (∀ e ∈ written rs, e.Fits) ∧
      (observe 1 1 rs).journal.readers ⟨0, 0⟩ = some ⟨0, 2, 1⟩ ∧ s.lostBy ⟨0, 0⟩ = 1 ∧
      ∃ t, s.unregister ⟨0, 0⟩ = .ok (t, goneReport 0 1) := by
  intro rs s
  have hfew : (written rs).length < 4294967296 := by decide
  have hfits : ∀ e ∈ written rs, e.Fits := by decide
  have hreader : (observe 1 1 rs).journal.readers ⟨0, 0⟩ = some ⟨0, 2, 1⟩ := by decide +kernel
  have hlost : s.lostBy ⟨0, 0⟩ = 1 := by decide +kernel
  have hlag : s.lag ⟨0, 0⟩ ≤ s.capacity := by decide +kernel
  obtain ⟨⟨counted, hparting, hall⟩, -⟩ := parting_report 1 1 rs hfew hfits ⟨0, 0⟩ _ hreader
  obtain ⟨t, htold, -⟩ := hparting.told
  have hcounted : counted = 1 := (hall.mpr hlag).trans hlost
  rw [hcounted] at htold
  exact ⟨hfew, hfits, hreader, hlost, t, htold⟩

/-- **A loss is not told**: the consumer goes without having polled, when its first event has been
    overwritten.  It has lost one event and is told that it has lost none. -/
theorem loss_untold :
    let s := (observe 1 1 latecomer).stream
    s.lostBy ⟨0, 0⟩ = 1 ∧ (∃ t, s.unregister ⟨0, 0⟩ = .ok (t, goneReport 0 0)) ∧
      (s.close ⟨0, 0⟩).1 = [goneReport 0 0] ∧
      (goneReport 0 0).text = "stream: consumer slot 0 unregistered (0 events lost)" ∧
      ∀ t, s.unregister ⟨0, 0⟩ ≠ .ok (t, goneReport 0 (s.lostBy ⟨0, 0⟩)) := by
  intro s
  have hlost : s.lostBy ⟨0, 0⟩ = 1 := by decide +kernel
  have htold : ∃ t, s.unregister ⟨0, 0⟩ = .ok (t, goneReport 0 0) := ⟨_, rfl⟩
  refine ⟨hlost, htold, rfl, by decide, fun t ht => ?_⟩
  obtain ⟨t', ht'⟩ := htold
  rw [ht', hlost] at ht
  have hreports : goneReport 0 0 = goneReport 0 1 := congrArg Prod.snd (Except.ok.inj ht)
  revert hreports
  decide

end EventStream

end IambicKeyer

/-
  Ticks on a clock that goes back.

      clock   5000   1000   3000   6000
      tick    5000   5000   5000   6000
      fault     ─    4000   2000     ─

  1. **The latest time** — the time that a keyer keeps is not the last one that it was given but the
     last one that it went by, and by induction that is the latest of all (`time_after`).  So every
     regression is measured from there, however many have come before it.

  2. **Faults** — a tick raises the fault of its regression and no other one (`tick_faults`).

  3. **Times do not matter** — a tick gives out what the machine gives out once it has looked at the
     store, and neither machine nor store knows the time (`outputs_untimed`).
-/
import IambicKeyer.Proofs.Keyer.Coherence
import IambicKeyer.Proofs.Keyer.Timestamps

namespace IambicKeyer

/-! ## Times of ticks -/

namespace Operation

/-- The time that a tick is given. -/
def tickTime? : Operation → Option Int
  | tick now _ => some now
  | _ => none

/-- The same operation at time zero. -/
def untimed : Operation → Operation
  | tick _ p => tick 0 p
  | reset _ => reset 0
  | write w => write w

end Operation

/-- The latest time that the ticks among the operations are given. -/
def latest (ops : List Operation) : Option Int := (ops.filterMap Operation.tickTime?).max?

/-- **What a tick at `now` says**, when it comes after the operations `ops`. -/
structure Effects.Clamped (ops : List Operation) (now : Int) (p : Paddles) (e : Effects) :
    Prop where
  /-- All that is published bears the latest time so far, and so does all that is keyed. -/
  events : ∀ x ∈ e.events, latest (ops ++ [.tick now p]) = some x.time
  keying : ∀ x ∈ e.keying, latest (ops ++ [.tick now p]) = some x.time
  /-- A time before the latest is a fault that tells how far it lies back, -/
  regression : ∀ t, latest ops = some t → now < t →
    e.faults = [⟨.clockBackwards, min (t - now).toNat 4294967295⟩]
  /-- and any other time is none. -/
  progress : (∀ t, latest ops = some t → t ≤ now) → e.faults = []

namespace Session

/-- What the machine gives out on the ticks among the operations. -/
def outputs : Session → List Operation → List Output
  | _, [] => []
  | s, .tick now p :: ops =>
    (s.keyer.tick s.store now p).1 :: (s.perform (.tick now p)).2.outputs ops
  | s, .reset now :: ops => (s.perform (.reset now)).2.outputs ops
  | s, .write w :: ops => (s.perform (.write w)).2.outputs ops

end Session

/-! ## The latest time -/

/-- **The keyer keeps the latest time of all**: the one that it had, and those of the ticks. -/
theorem Session.time_after (s : Session) (ops : List Operation) :
    (s.after ops).keyer.time
      = (s.keyer.time.toList ++ ops.filterMap Operation.tickTime?).max? := by
  induction ops generalizing s with
  | nil =>
    rw [List.filterMap_nil, List.append_nil]
    show s.keyer.time = _
    cases s.keyer.time <;> rfl
  | cons op ops ih =>
    show ((s.perform op).2.after ops).keyer.time = _
    rw [ih]
    cases op with
    | tick now p =>
      have htick : (s.perform (.tick now p)).2.keyer.time
          = some (max now (s.keyer.time.getD now)) := by
        rw [← Keyer.checkClock_time]
        exact s.keyer.tick_time s.store now p
      rw [htick]
      cases s.keyer.time with
      | none =>
        rw [Option.getD_none, Int.max_self]
        rfl
      | some last =>
        -- the fold on the right takes both times in its first step
        exact congrArg (fun t => some ((ops.filterMap Operation.tickTime?).foldl max t))
          (Int.max_comm now last)
    | reset now => rfl
    | write w =>
      rw [(s.perform_write w).2]
      rfl

/-- A keyer that has just been made has no time of its own. -/
theorem Session.time_eq_latest (store : Store) (ops : List Operation) :
    ((ofStore store).after ops).keyer.time = latest ops := (ofStore store).time_after ops

/-! ## Faults -/

namespace Keyer

/-- **A regression** is a fault. -/
theorem checkClock_faults_of_lt {now last : Int} {k : Keyer} (htime : k.time = some last)
    (hback : now < last) :
    (k.checkClock now).2.faults = [⟨.clockBackwards, Counter.ofSpan (last - now)⟩] := by
  simp only [checkClock, htime, if_pos hback]

/-- Nothing else is. -/
theorem checkClock_faults_of_le {now : Int} {k : Keyer}
    (h : ∀ last, k.time = some last → last ≤ now) : (k.checkClock now).2.faults = [] := by
  cases htime : k.time with
  | none => simp only [checkClock, htime]
  | some last =>
    have hon : ¬ now < last := Int.not_lt.mpr (h last htime)
    simp only [checkClock, htime, if_neg hon]

/-- Only the look at the clock raises faults. -/
theorem tick_faults (store : Store) (now : Int) (p : Paddles) (k : Keyer) :
    (k.tick store now p).2.1.faults = (k.checkClock now).2.faults := by
  have hsync : ∀ (time : Int) (k : Keyer), (k.sync store time).1.faults = [] := by
    intro time k
    rw [sync]
    rcases k.machine.sync store with ⟨_ | _, m⟩ <;> rfl
  have hkeying : ∀ (time : Int) (t : Option Transition),
      ((t.map (Effects.ofTransition time)).getD {}).faults = [] := by
    intro time t
    cases t <;> rfl
  have hadvance : ∀ (time : Int) (k : Keyer), (k.advance time p).2.1.faults = [] := by
    intro time k
    show [] ++ Effects.faults ((_ : Option Effects).getD {}) ++ [] ++ [] = []
    rw [List.nil_append, List.append_nil, List.append_nil]
    exact hkeying time (k.machine.tick p).1.transition
  show (k.checkClock now).2.faults ++ (sync store _ _).1.faults
    ++ (advance _ p (sync store _ _).2).2.1.faults = _
  rw [hsync, hadvance, List.append_nil, List.append_nil]

/-- A tick gives out what the machine gives out once it has looked at the store, -/
theorem tick_output (store : Store) (now : Int) (p : Paddles) (k : Keyer) :
    (k.tick store now p).1 = ((k.machine.sync store).2.tick p).1 := by
  rw [← k.ready_machine store now]
  rfl

/-- and leaves the machine that it leaves. -/
theorem tick_machine (store : Store) (now : Int) (p : Paddles) (k : Keyer) :
    (k.tick store now p).2.2.machine = ((k.machine.sync store).2.tick p).2 := by
  rw [← k.ready_machine store now]
  rfl

end Keyer

/-! ## Times do not matter -/

/-- **Two sessions with one store and one machine** give out the same on the same samples, whatever
    the time is. -/
theorem Session.outputs_untimed_of_eq {s s' : Session} (hstore : s.store = s'.store)
    (hmachine : s.keyer.machine = s'.keyer.machine) (ops : List Operation) :
    s.outputs (ops.map Operation.untimed) = s'.outputs ops := by
  induction ops generalizing s s' with
  | nil => rfl
  | cons op ops ih =>
    cases op with
    | tick now p =>
      show (s.keyer.tick s.store 0 p).1 :: (s.perform (.tick 0 p)).2.outputs _ = _ :: _
      rw [s.keyer.tick_output, s'.keyer.tick_output, hstore, hmachine, List.cons.injEq]
      refine ⟨rfl, ih hstore ?_⟩
      show (s.keyer.tick s.store 0 p).2.2.machine = (s'.keyer.tick s'.store now p).2.2.machine
      rw [s.keyer.tick_machine, s'.keyer.tick_machine, hstore, hmachine]
    | reset now => exact ih hstore (congrArg Machine.reset hmachine)
    | write w =>
      apply ih
      · rw [store_write, store_write, hstore]
      · rw [(s.perform_write w).2, (s'.perform_write w).2]
        exact hmachine

/-! ## Whole runs -/

/-- **A tick after any operations is clamped** to the latest time. -/
theorem clamped_tick (store : Store) (ops : List Operation) (now : Int) (p : Paddles) :
    Effects.Clamped ops now p (((Session.ofStore store).after ops).perform (.tick now p)).1 := by
  have htime := Session.time_eq_latest store ops
  have hnext := Session.time_eq_latest store (ops ++ [.tick now p])
  rw [Session.after_append] at hnext
  generalize (Session.ofStore store).after ops = s at htime hnext
  have hclock : latest (ops ++ [.tick now p]) = some (s.keyer.checkClock now).1 := by
    rw [← hnext]
    exact s.keyer.tick_time s.store now p
  have hfaults := s.keyer.tick_faults s.store now p
  constructor
  · intro x hx
    rw [← hnext]
    exact (Session.time_of_tick hx).1
  · intro x hx
    have hx : x ∈ (s.keyer.tick s.store now p).2.1.keying := hx
    rw [Keyer.tick_keying, Keyer.advance_keying] at hx
    obtain ⟨t, -, rfl⟩ := List.mem_map.mp hx
    exact hclock
  · intro t ht hback
    exact hfaults.trans (Keyer.checkClock_faults_of_lt (htime.trans ht) hback)
  · intro hon
    refine hfaults.trans (Keyer.checkClock_faults_of_le ?_)
    rw [htime]
    exact hon

/-- **Regressions of the clock are clamped and counted.**  Whatever is done to a keyer and its store:
    each tick goes by the latest time that a tick has been given so far, and raises a fault exactly
    if its own is an earlier one; and what the ticks give out has nothing to do with the times. -/
theorem regressions_clamped (store : Store) (ops : List Operation) :
    (∀ now p, Effects.Clamped ops now p
      (((Session.ofStore store).after ops).perform (.tick now p)).1) ∧
    (Session.ofStore store).outputs (ops.map Operation.untimed)
      = (Session.ofStore store).outputs ops :=
  ⟨clamped_tick store ops, Session.outputs_untimed_of_eq rfl rfl ops⟩

/-- Two regressions in a row, and a reset at a time of its own: the second is measured from the
    latest time, though it comes after the first. -/
theorem regressions_clamped_twice :
    let ops : List Operation := [.tick 5000 ⟨true, false⟩, .tick 1000 .squeezed, .reset 100]
    let e := (((Session.ofStore {}).after ops).perform (.tick 3000 .idle)).1
    latest ops = some 5000 ∧ e.faults = [⟨.clockBackwards, 2000⟩] ∧
      (∀ x ∈ e.events, latest (ops ++ [.tick 3000 .idle]) = some x.time) ∧
      e.events = [⟨5000, .paddles .idle⟩] := by
  intro ops e
  have hlatest : latest ops = some 5000 := by decide
  have hclamped := (regressions_clamped {} ops).1 3000 .idle
  exact ⟨hlatest, hclamped.regression 5000 hlatest (by decide), hclamped.events,
    by decide +kernel⟩

end IambicKeyer

/-
  The same bench run at another time of day.

  1. **Shifts** — everything that holds a time can be moved by `T` microseconds: effects, the keyer,
     the pacer, the script, the clock.  A clock is `Movable` if reading it and sleeping on it do not
     depend on where it stands; the bench's clock is, with its steps and its delays, and whether it
     spins or not.

  2. **One round** (`round_shift`) — a round of the moved loop is the moved round, provided that both
     loops find the script over, or neither does.  Once the script is anchored that goes without
     saying, for then its end moves along.  BEFORE the first sample the end is counted from time zero.

  3. **The result** (`run?_shift`) — so a whole run moves with the clock if the first tick lies before
     the script's length on both clocks, or on neither.  A run whose first tick does not, plays
     nothing, however long its script is (`run_lost`).
-/
import IambicKeyer.Proofs.Bench.Rounds

namespace IambicKeyer

/-! ## Moving what holds a time -/

/-- The event, `T` later. -/
def TimedEvent.shift (T : Int) (e : TimedEvent) : TimedEvent := { e with time := e.time + T }

/-- The change of the key line, `T` later. -/
def KeyChange.shift (T : Int) (c : KeyChange) : KeyChange := { c with time := c.time + T }

/-- The note, `T` later. -/
def Note.shift (T : Int) (n : Note) : Note := { n with time := n.time + T }

/-- The effects, `T` later.  Faults bear no time. -/
def Effects.shift (T : Int) (e : Effects) : Effects :=
  ⟨e.faults, e.notes.map (Note.shift T), e.events.map (TimedEvent.shift T),
    e.keying.map (KeyChange.shift T)⟩

/-- The keyer, its last tick `T` later. -/
def Keyer.shift (T : Int) (k : Keyer) : Keyer := { k with time := k.time.map (· + T) }

/-- The schedule, its next deadline `T` later. -/
def Pacer.shift (T : Int) (p : Pacer) : Pacer := { p with deadline := p.deadline.map (· + T) }

/-- The script, its anchor `T` later. -/
def Script.shift (T : Int) (s : Script) : Script := { s with anchor := s.anchor.map (· + T) }

/-- A clock that can be set going at another time. -/
class Movable (κ : Type) [Clock κ] where
  /-- The same clock, `T` later. -/
  shift : Int → κ → κ
  read_shift (T : Int) (clock : κ) :
    Clock.read (shift T clock) = ((Clock.read clock).1 + T, shift T (Clock.read clock).2)
  sleepUntil_shift (T deadline : Int) (clock : κ) :
    Clock.sleepUntil (deadline + T) (shift T clock) = shift T (Clock.sleepUntil deadline clock)

namespace BenchClock

/-- The bench's clock, `T` later. -/
def shift (T : Int) (c : BenchClock) : BenchClock := { c with now := c.now + T }

theorem read_shift (T : Int) (c : BenchClock) :
    (c.shift T).read = (c.read.1 + T, c.read.2.shift T) := by
  have hstep : c.now + T + c.step = c.now + c.step + T := by omega
  exact congrArg (fun now => (c.now + T, { c with now := now })) hstep

/-- A clock that spins goes on reading until it shows the deadline. -/
theorem spinUntil_before {deadline : Int} {c : BenchClock} (h : c.now < deadline ∧ 0 < c.step) :
    c.spinUntil deadline = c.read.2.spinUntil deadline := by
  rw [spinUntil, if_pos h]

/-- The last reading shows it. -/
theorem spinUntil_reached {deadline : Int} {c : BenchClock}
    (h : ¬ (c.now < deadline ∧ 0 < c.step)) : c.spinUntil deadline = c.read.2 := by
  rw [spinUntil, if_neg h]

theorem spinUntil_shift (T deadline : Int) (c : BenchClock) :
    (c.shift T).spinUntil (deadline + T) = (c.spinUntil deadline).shift T := by
  have hsame : ∀ c : BenchClock,
      (c.shift T).now < deadline + T ∧ 0 < (c.shift T).step ↔ c.now < deadline ∧ 0 < c.step :=
    fun c => and_congr_left' (Int.add_lt_add_iff_right T)
  induction c using spinUntil.induct deadline with
  | case1 c hbefore ih =>
    rw [spinUntil_before hbefore, spinUntil_before ((hsame c).mpr hbefore), read_shift, ih]
  | case2 c hreached =>
    have hreached' := fun h => hreached ((hsame c).mp h)
    rw [spinUntil_reached hreached, spinUntil_reached hreached', read_shift]

theorem sleepUntil_shift (T deadline : Int) (c : BenchClock) :
    (c.shift T).sleepUntil (deadline + T) = (c.sleepUntil deadline).shift T := by
  by_cases hspins : c.spins = true
  · have hspins' : (c.shift T).spins = true := hspins
    rw [sleepUntil, if_pos hspins', sleepUntil, if_pos hspins, spinUntil_shift]
  · have hspins' : ¬ (c.shift T).spins = true := hspins
    have hnow : max (c.now + T) (deadline + T) + delay c.sleeps c.delays
        = max c.now deadline + delay c.sleeps c.delays + T := by omega
    rw [sleepUntil, if_neg hspins', sleepUntil, if_neg hspins]
    exact congrArg (fun now => { c with now := now, sleeps := c.sleeps + 1 }) hnow

instance : Movable BenchClock := ⟨shift, read_shift, sleepUntil_shift⟩

end BenchClock

/-! ## Effects -/

namespace Effects

theorem shift_append (T : Int) (a b : Effects) :
    (a ++ b).shift T = a.shift T ++ b.shift T := by
  show Effects.mk _ _ _ _ = Effects.mk _ _ _ _
  simp only [Effects.mk.injEq]
  exact ⟨rfl, List.map_append, List.map_append, List.map_append⟩

theorem keyed_shift (T : Int) (es : List Effects) :
    keyed (es.map (shift T)) = (keyed es).map (KeyChange.shift T) := by
  unfold keyed
  rw [List.flatMap_map, List.map_flatMap]
  rfl

theorem published_shift (T : Int) (es : List Effects) :
    published (es.map (shift T)) = (published es).map (TimedEvent.shift T) := by
  unfold published
  rw [List.flatMap_map, List.map_flatMap]
  rfl

end Effects

/-! ## The keyer -/

namespace Keyer

variable (T : Int)

/-- A clock that goes back goes back by the same span. -/
theorem checkClock_shift (now : Int) (k : Keyer) :
    (k.shift T).checkClock (now + T)
      = ((k.checkClock now).1 + T, (k.checkClock now).2.shift T) := by
  rcases hlast : k.time with _ | last
  · have hlast' : (k.shift T).time = none := congrArg (Option.map (· + T)) hlast
    simp only [checkClock, hlast, hlast']
    rfl
  · have hlast' : (k.shift T).time = some (last + T) := congrArg (Option.map (· + T)) hlast
    have hspan : last + T - (now + T) = last - now := by omega
    simp only [checkClock, hlast, hlast', Int.add_lt_add_iff_right, hspan]
    split <;> rfl

theorem sync_shift (store : Store) (time : Int) (k : Keyer) :
    (k.shift T).sync store (time + T)
      = ((k.sync store time).1.shift T, (k.sync store time).2.shift T) := by
  have hmachine : (k.shift T).machine = k.machine := rfl
  unfold sync
  rw [hmachine]
  rcases k.machine.sync store with ⟨_ | _, m⟩ <;> rfl

theorem advance_shift (time : Int) (p : Paddles) (k : Keyer) :
    (k.shift T).advance (time + T) p
      = ((k.advance time p).1, (k.advance time p).2.1.shift T, (k.advance time p).2.2.shift T) := by
  have hcontacts : (k.shift T).contactEvents (time + T) p
      = (k.contactEvents time p).map (TimedEvent.shift T) := by
    show (if p = k.paddles then _ else _) = List.map _ (if p = k.paddles then _ else _)
    split <;> rfl
  have hkeying : ∀ t : Option Transition,
      (t.map (Effects.ofTransition (time + T))).getD {}
        = ((t.map (Effects.ofTransition time)).getD {}).shift T := fun t => by cases t <;> rfl
  have hqueued : ∀ q : Option Element,
      (q.map (⟨time + T, .queued ·⟩ : Element → TimedEvent)).toList
        = (q.map (⟨time, .queued ·⟩ : Element → TimedEvent)).toList.map (TimedEvent.shift T) :=
    fun q => by cases q <;> rfl
  have hgap : ∀ g : Option Gap,
      (g.map (⟨time + T, .gap ·⟩ : Gap → TimedEvent)).toList
        = (g.map (⟨time, .gap ·⟩ : Gap → TimedEvent)).toList.map (TimedEvent.shift T) :=
    fun g => by cases g <;> rfl
  have hmachine : (k.shift T).machine = k.machine := rfl
  have hgaps : (k.shift T).gaps = k.gaps := rfl
  simp only [advance, hmachine, hgaps, hcontacts, hkeying, hqueued, hgap, Effects.shift_append]
  rfl

/-- **A tick of the moved keyer** is the moved tick. -/
theorem tick_shift (store : Store) (now : Int) (p : Paddles) (k : Keyer) :
    (k.shift T).tick store (now + T) p
      = ((k.tick store now p).1, (k.tick store now p).2.1.shift T,
          (k.tick store now p).2.2.shift T) := by
  have hnow : { k.shift T with time := some ((k.checkClock now).1 + T) }
      = ({ k with time := some (k.checkClock now).1 } : Keyer).shift T := rfl
  simp only [tick, checkClock_shift, hnow, sync_shift, advance_shift, Effects.shift_append]

theorem reset_shift (now : Int) (k : Keyer) :
    (k.shift T).reset (now + T) = ((k.reset now).1.shift T, (k.reset now).2.shift T) := by
  have hmachine : (k.shift T).machine = k.machine := rfl
  unfold reset
  rw [hmachine]
  rcases k.machine.sending with _ | ⟨e, phase, length, left, squeezed⟩
  · rfl
  · cases phase <;> rfl

end Keyer

/-! ## Pacer and script -/

namespace Pacer

variable (T : Int)

theorem arrive_shift (deadline now : Int) (p : Pacer) :
    (p.shift T).arrive (deadline + T) (now + T)
      = ((p.arrive deadline now).1, (p.arrive deadline now).2.shift T) := by
  have hspan : now + T - (deadline + T) = now - deadline := by omega
  have hperiod : (p.shift T).period = p.period := rfl
  have hnext : ∀ t : Int, some (t + T + p.period) = (some (t + p.period)).map (· + T) := by
    intro t
    rw [Option.map_some]
    congr 1
    omega
  simp only [arrive, hspan, hperiod, hnext]
  split <;> rfl

/-- What a wait gives, `T` later. -/
def Wake.shift {κ : Type} [Clock κ] [Movable κ] (w : Wake κ) : Wake κ :=
  ⟨w.now + T, w.fault, w.pacer.shift T, Movable.shift T w.clock⟩

theorem wait_shift {κ : Type} [Clock κ] [Movable κ] (clock : κ) (p : Pacer) :
    (p.shift T).wait (Movable.shift T clock) = (p.wait clock).shift T := by
  rcases hdue : p.deadline with _ | d
  · have hdue' : (p.shift T).deadline = none := congrArg (Option.map (· + T)) hdue
    simp only [wait, hdue, hdue', Movable.read_shift, Movable.sleepUntil_shift, arrive_shift]
    rfl
  · have hdue' : (p.shift T).deadline = some (d + T) := congrArg (Option.map (· + T)) hdue
    simp only [wait, hdue, hdue', Movable.read_shift, Movable.sleepUntil_shift, arrive_shift]
    rfl

end Pacer

namespace Script

variable (T : Int)

theorem sample_shift (now : Int) (s : Script) :
    (s.shift T).sample (now + T) = ((s.sample now).1, (s.sample now).2.shift T) := by
  have hanchor : (s.shift T).anchor.getD (now + T) = s.anchor.getD now + T := by
    unfold shift
    cases s.anchor <;> rfl
  have hoffset : now + T - (s.anchor.getD now + T) = now - s.anchor.getD now := by omega
  simp only [sample, hanchor, hoffset]
  rfl

/-- The end of an anchored script moves along. -/
theorem finish_shift {s : Script} (h : s.anchor.isSome = true) :
    (s.shift T).finish = s.finish + T := by
  obtain ⟨anchor, hanchor⟩ := Option.isSome_iff_exists.mp h
  have hanchor' : (s.shift T).anchor = some (anchor + T) := congrArg (Option.map (· + T)) hanchor
  have hlength : (s.shift T).length = s.length := rfl
  rw [finish, finish, hanchor, hanchor', hlength, Option.getD_some, Option.getD_some]
  omega

end Script

/-! ## The loop -/

namespace Loop

variable {κ : Type} [Clock κ] [Movable κ] (T : Int) {store : Store} {l : Loop κ}

/-- The loop, `T` later. -/
def shift (l : Loop κ) : Loop κ :=
  ⟨l.keyer.shift T, l.pacer.shift T, l.script.shift T, Movable.shift T l.clock⟩

/-- How a round ends, `T` later. -/
def Round.shift : Round κ → Round κ
  | .next l => .next (l.shift T)
  | .last l => .last (l.shift T)

theorem now_shift (l : Loop κ) : (l.shift T).now = l.now + T :=
  congrArg Pacer.Wake.now (Pacer.wait_shift T l.clock l.pacer)

theorem following_shift (store : Store) (l : Loop κ) :
    (l.shift T).following store = (l.following store).shift T := by
  have hwait := Pacer.wait_shift T l.clock l.pacer
  have hsample := Script.sample_shift T l.now l.script
  have htick := Keyer.tick_shift T store l.now (l.script.sample l.now).1 l.keyer
  have hkeyer : (l.shift T).keyer = l.keyer.shift T := rfl
  have hpacer : (l.shift T).pacer = l.pacer.shift T := rfl
  have hscript : (l.shift T).script = l.script.shift T := rfl
  have hclock : (l.shift T).clock = Movable.shift T l.clock := rfl
  unfold following
  rw [now_shift, hkeyer, hpacer, hscript, hclock, hsample, htick, hwait]
  rfl

/-- **A round of the moved loop** is the moved round, if both find the script over, or neither. -/
theorem round_shift
    (h : l.now < l.script.finish ↔ l.now + T < (l.script.shift T).finish) :
    (l.shift T).round store = ((l.round store).1.shift T, (l.round store).2.shift T) := by
  have hscript : (l.shift T).script = l.script.shift T := rfl
  have hwait : (l.shift T).pacer.wait (l.shift T).clock = (l.pacer.wait l.clock).shift T :=
    Pacer.wait_shift T l.clock l.pacer
  by_cases hnow : l.now < l.script.finish
  · have hnow' : (l.shift T).now < (l.shift T).script.finish := by
      rw [now_shift, hscript]
      exact h.mp hnow
    have hkeyer : (l.shift T).keyer = l.keyer.shift T := rfl
    rw [round_next store hnow, round_next store hnow', following_shift, hwait, now_shift, hscript,
      hkeyer, Script.sample_shift, Keyer.tick_shift, Effects.shift_append]
    rfl
  · have hnow' : ¬ (l.shift T).now < (l.shift T).script.finish := by
      rw [now_shift, hscript]
      exact fun hgoes => hnow (h.mpr hgoes)
    rw [round_last store hnow, round_last store hnow', hwait]
    rfl

theorem stop_shift (l : Loop κ) :
    (l.shift T).stop = (l.stop.1.map (Effects.shift T), Movable.shift T l.stop.2) := by
  have hclock : (l.shift T).clock = Movable.shift T l.clock := rfl
  have hkeyer : (l.shift T).keyer = l.keyer.shift T := rfl
  have hlate : (l.shift T).pacer.late = l.pacer.late := rfl
  unfold stop
  simp only [hclock, hkeyer, hlate, Movable.read_shift, Keyer.reset_shift]
  split <;> rfl

/-- What a run gives, `T` later. -/
def shiftRun (r : List Effects × κ) : List Effects × κ :=
  (r.1.map (Effects.shift T), Movable.shift T r.2)

/-- The rounds after the first go the same way if it does. -/
theorem runFrom?_succ_shift {n : Nat} {before : List Effects}
    (h : l.now < l.script.finish ↔ l.now + T < (l.script.shift T).finish)
    (hlater : l.now < l.script.finish → ∀ before,
      ((l.following store).shift T).runFrom? store n (before.map (Effects.shift T))
        = ((l.following store).runFrom? store n before).map (shiftRun T)) :
    (l.shift T).runFrom? store (n + 1) (before.map (Effects.shift T))
      = (l.runFrom? store (n + 1) before).map (shiftRun T) := by
  rw [runFrom?, runFrom?, round_shift T h]
  by_cases hnow : l.now < l.script.finish
  · rw [round_next store hnow]
    exact hlater hnow (_ :: before)
  · rw [round_last store hnow]
    simp only [Round.shift, stop_shift, Option.map_some, shiftRun, List.map_append, List.map_reverse,
      List.map_cons]

/-- **A run moves with the clock**, once the script is anchored. -/
theorem runFrom?_shift (hanchor : l.script.anchor.isSome = true) (n : Nat) (before : List Effects) :
    (l.shift T).runFrom? store n (before.map (Effects.shift T))
      = (l.runFrom? store n before).map (shiftRun T) := by
  induction n generalizing l before with
  | zero => rfl
  | succ n ih =>
    have hsame : l.now < l.script.finish ↔ l.now + T < (l.script.shift T).finish := by
      rw [Script.finish_shift T hanchor]
      omega
    apply runFrom?_succ_shift T hsame
    intro _ before
    -- the anchor stays when the next round has sampled
    exact ih rfl before

/-- The first round decides whether the rest goes the same way. -/
theorem run?_shift_of_iff (store : Store) (steps : List ScriptStep) (clock : κ) (n : Nat)
    (h : (ofScript store steps clock).now < Script.totalSpan steps ↔
      (ofScript store steps clock).now + T < Script.totalSpan steps) :
    (ofScript store steps (Movable.shift T clock)).run? store n
      = ((ofScript store steps clock).run? store n).map (shiftRun T) := by
  -- a loop that has not begun holds no time but its clock's
  have hfresh : ofScript store steps (Movable.shift T clock) = (ofScript store steps clock).shift T :=
    rfl
  have hfinish : (ofScript store steps clock).script.finish = Script.totalSpan steps :=
    Int.zero_add _
  rw [hfresh]
  cases n with
  | zero => rfl
  | succ n =>
    show ((ofScript store steps clock).shift T).runFrom? store (n + 1) ([].map (Effects.shift T)) = _
    apply runFrom?_succ_shift T
    · show _ ↔ _ < (ofScript store steps clock).script.finish
      rw [hfinish]
      exact h
    · intro _ before
      exact runFrom?_shift T rfl n before

omit [Movable κ] in
/-- Stopping a keyer at rest changes nothing. -/
theorem stop_idle (hidle : l.keyer.machine.sending = none) :
    Effects.keyed l.stop.1 = [] ∧ Effects.published l.stop.1 = [] := by
  have hreset : ∀ now, (l.keyer.reset now).1 = {} := by
    intro now
    rw [Keyer.reset, hidle]
  unfold stop
  by_cases hlate : l.pacer.late = 0
  · simp only [if_pos hlate, hreset]
    exact ⟨rfl, rfl⟩
  · simp only [if_neg hlate, hreset]
    exact ⟨rfl, rfl⟩

omit [Movable κ] in
/-- **A first tick that does not lie before the script's length** ends the run: nothing is played. -/
theorem run_lost (store : Store) (steps : List ScriptStep) (clock : κ)
    (h : Script.totalSpan steps ≤ (ofScript store steps clock).now) (n : Nat) :
    ∃ es clock', (ofScript store steps clock).run? store (n + 1) = some (es, clock') ∧
      Effects.keyed es = [] ∧ Effects.published es = [] := by
  have hfinish : (ofScript store steps clock).script.finish = Script.totalSpan steps :=
    Int.zero_add _
  have hover : ¬ (ofScript store steps clock).now < (ofScript store steps clock).script.finish := by
    rw [hfinish]
    omega
  rw [run?, runFrom?, round_last store hover]
  refine ⟨_, _, rfl, ?_⟩
  -- the one wait keys nothing, and the keyer has not begun
  apply stop_idle
  rfl

/-- **The bench does not mind where its clock starts**, as far as it goes: if the first tick lies
    before the length of the script on both clocks, or on neither, the run on the moved clock is the
    moved run.  A run whose first tick does not lie before it plays nothing at all. -/
theorem run?_shift (store : Store) (steps : List ScriptStep) (clock : κ) (T : Int) (n : Nat) :
    let l := ofScript store steps clock
    let l' := ofScript store steps (Movable.shift T clock)
    ((l.now < Script.totalSpan steps ↔ l.now + T < Script.totalSpan steps) →
      (l.run? store n = none → l'.run? store n = none) ∧
      ∀ es clock', l.run? store n = some (es, clock') →
        ∃ es', l'.run? store n = some (es', Movable.shift T clock') ∧
          es' = es.map (Effects.shift T) ∧
          Effects.keyed es' = (Effects.keyed es).map (KeyChange.shift T) ∧
          Effects.published es' = (Effects.published es).map (TimedEvent.shift T)) ∧
    (Script.totalSpan steps ≤ l.now → 0 < n →
      ∃ es clock', l.run? store n = some (es, clock') ∧
        Effects.keyed es = [] ∧ Effects.published es = []) := by
  intro l l'
  refine ⟨fun hfirst => ⟨fun hnone => ?_, fun es clock' hrun => ?_⟩, fun hlate hn => ?_⟩
  · rw [run?_shift_of_iff T store steps clock n hfirst, hnone]
    rfl
  · refine ⟨es.map (Effects.shift T), ?_, rfl, Effects.keyed_shift T es,
      Effects.published_shift T es⟩
    rw [run?_shift_of_iff T store steps clock n hfirst, hrun]
    rfl
  · obtain ⟨rounds, rfl⟩ := Nat.exists_eq_succ_of_ne_zero (Nat.ne_of_gt hn)
    exact run_lost store steps clock hlate rounds

/-- A dit that is woken late, on a clock three milliseconds before zero and on one two milliseconds
    after: both first ticks lie before the 15 milliseconds of the script. -/
theorem run?_shift_dit :
    let store : Store := { settings := { wpm := 100, tickRate := 1000 } }
    let steps : List ScriptStep := [⟨⟨true, false⟩, 1⟩, ⟨.idle, 14⟩]
    let clock : BenchClock := { now := -3000, delays := [(2, 2500)] }
    let l := ofScript store steps clock
    let l' := ofScript store steps (Movable.shift 5000 clock)
    (l.now < Script.totalSpan steps ↔ l.now + 5000 < Script.totalSpan steps) ∧
      ∃ es clock', l.run? store 30 = some (es, clock') ∧
        Effects.keyed es = [⟨true, -3000⟩, ⟨false, 11500⟩] ∧
        ∃ es', l'.run? store 30 = some (es', Movable.shift 5000 clock') ∧
          Effects.keyed es' = [⟨true, 2000⟩, ⟨false, 16500⟩] := by
  intro store steps clock l l'
  have hfirst : l.now < Script.totalSpan steps ↔ l.now + 5000 < Script.totalSpan steps := by
    decide +kernel
  have hkeyed : (l.run? store 30).map (Effects.keyed ·.1) = some [⟨true, -3000⟩, ⟨false, 11500⟩] := by
    decide +kernel
  obtain ⟨⟨es, clock'⟩, hrun, hes⟩ := Option.map_eq_some_iff.mp hkeyed
  obtain ⟨es', hrun', -, hes', -⟩ :=
    ((run?_shift store steps clock 5000 30).1 hfirst).2 es clock' hrun
  refine ⟨hfirst, es, clock', hrun, hes, es', hrun', ?_⟩
  rw [hes', hes]
  rfl

/-- **A late clock loses the script**: the same dit, played from time 0, is not played at all on a
    clock that stands at 20 milliseconds when the bench starts. -/
theorem run_lost_dit :
    let store : Store := { settings := { wpm := 100, tickRate := 1000 } }
    let steps : List ScriptStep := [⟨⟨true, false⟩, 1⟩, ⟨.idle, 14⟩]
    let clock : BenchClock := {}
    let keyed := fun c : BenchClock =>
      ((ofScript store steps c).run? store 30).map (Effects.keyed ·.1)
    store.settings.check = .ok () ∧
      keyed clock = some [⟨true, 0⟩, ⟨false, 12000⟩] ∧
      keyed (Movable.shift 20000 clock) = some [] ∧
      keyed (Movable.shift 20000 clock) ≠ (keyed clock).map (List.map (KeyChange.shift 20000)) := by
  intro store steps clock keyed
  have hearly : keyed clock = some [⟨true, 0⟩, ⟨false, 12000⟩] := by decide +kernel
  have hlate : keyed (Movable.shift 20000 clock) = some [] := by decide +kernel
  refine ⟨rfl, hearly, hlate, ?_⟩
  rw [hearly, hlate]
  decide

end Loop

end IambicKeyer

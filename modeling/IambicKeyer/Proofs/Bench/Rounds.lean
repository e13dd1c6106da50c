/-
  The rounds of a keying loop.

      wait ──▶ script over? ──no──▶ sample, tick ──▶ wait ──▶ …
                     │
                     └──yes──▶ stop

  1. **`played`** — what the rounds give out before the script is over.  A loop that ends has given
     out these, its last wait, and the stop (`run?_eq_some`).

  2. **A session of ticks** — but for the faults of the waits the rounds are the ticks of a session
     whose store stays as it is: `ticks` lists them, and `played_keying` and `played_events` say so.

  3. **A punctual clock** stands still but for the sleeps, and these end at the deadline.  On it
     the ticks come one period after the other (`OnTime.round`), and the loop ends within
     `Loop.rounds` (`OnTime.run?_isSome`).
-/
import IambicKeyer.Bench
import IambicKeyer.Proofs.Keyer.Beats
import IambicKeyer.Proofs.Keyer.Timestamps

namespace IambicKeyer

namespace Loop

/-! ## What the rounds give out -/

section

variable {κ : Type} [Clock κ] {store : Store} {l : Loop κ}

/-- The time that a round goes by. -/
def now (l : Loop κ) : Int := (l.pacer.wait l.clock).now

/-- The loop after a round that ticks. -/
def following (store : Store) (l : Loop κ) : Loop κ :=
  let keyer := (l.keyer.tick store l.now (l.script.sample l.now).1).2.2
  ⟨keyer, (l.pacer.wait l.clock).pacer.setRate keyer.rate, (l.script.sample l.now).2,
    (l.pacer.wait l.clock).clock⟩

/-- A round before the script is over: the wait, then a tick. -/
theorem round_next (store : Store) (h : l.now < l.script.finish) :
    l.round store
      = ({ faults := (l.pacer.wait l.clock).fault.toList }
          ++ (l.keyer.tick store l.now (l.script.sample l.now).1).2.1,
        .next (l.following store)) := by
  have hnow : (l.pacer.wait l.clock).now < l.script.finish := h
  simp only [round, if_pos hnow]
  rfl

/-- The last round only waits. -/
theorem round_last (store : Store) (h : ¬ l.now < l.script.finish) :
    l.round store
      = ({ faults := (l.pacer.wait l.clock).fault.toList },
        .last { l with pacer := (l.pacer.wait l.clock).pacer,
                       clock := (l.pacer.wait l.clock).clock }) := by
  have hnow : ¬ (l.pacer.wait l.clock).now < l.script.finish := h
  simp only [round, if_neg hnow]

/-- What up to `n` rounds give out before the script is over. -/
def played (store : Store) : Nat → Loop κ → List Effects
  | 0, _ => []
  | n + 1, l =>
    match l.round store with
    | (effects, .next l') => effects :: played store n l'
    | (_, .last _) => []

/-- The ticks of these rounds. -/
def ticks (store : Store) : Nat → Loop κ → List Operation
  | 0, _ => []
  | n + 1, l =>
    if l.now < l.script.finish then
      .tick l.now (l.script.sample l.now).1 :: ticks store n (l.following store)
    else []

/-- **A loop that ends** has played its rounds, waited once more without keying, and stopped. -/
theorem runFrom?_eq_some {n : Nat} {before es : List Effects} {clock' : κ}
    (hrun : l.runFrom? store n before = some (es, clock')) :
    ∃ (waited : Effects) (l' : Loop κ), waited.keying = [] ∧
      es = before.reverse ++ (l.played store n ++ waited :: l'.stop.1) := by
  induction n generalizing l before with
  | zero => nomatch hrun
  | succ n ih =>
    rw [runFrom?] at hrun
    rw [played]
    by_cases hnow : l.now < l.script.finish
    · rw [round_next store hnow] at hrun ⊢
      obtain ⟨waited, last, hnone, hes⟩ := ih hrun
      refine ⟨waited, last, hnone, ?_⟩
      rw [hes, List.reverse_cons, List.append_assoc]
      rfl
    · rw [round_last store hnow] at hrun ⊢
      obtain ⟨rfl, -⟩ := Prod.mk.inj (Option.some.inj hrun)
      refine ⟨{ faults := (l.pacer.wait l.clock).fault.toList },
        { l with pacer := (l.pacer.wait l.clock).pacer, clock := (l.pacer.wait l.clock).clock },
        rfl, ?_⟩
      rw [List.reverse_cons, List.append_assoc]
      rfl

/-! ## A session of ticks -/

/-- The session that the rounds are ticks of. -/
def session (store : Store) (l : Loop κ) : Session := ⟨store, l.keyer⟩

/-- **The rounds key and publish what the ticks of the session do**; waits raise faults only. -/
theorem played_session (store : Store) (n : Nat) (l : Loop κ) :
    (l.played store n).map (fun e => (e.events, e.keying))
      = ((l.session store).beats (l.ticks store n)).map
          fun b => (b.effects.events, b.effects.keying) := by
  induction n generalizing l with
  | zero => rfl
  | succ n ih =>
    rw [played, ticks]
    by_cases hnow : l.now < l.script.finish
    · rw [round_next store hnow, if_pos hnow, List.map_cons, ih]
      rfl
    · rw [round_last store hnow, if_neg hnow]
      rfl

/-- There is no reset among them. -/
theorem reset_not_mem_ticks (n : Nat) (l : Loop κ) (now : Int) : .reset now ∉ l.ticks store n := by
  induction n generalizing l with
  | zero => exact List.not_mem_nil
  | succ n ih =>
    rw [ticks]
    split
    · intro hmem
      rcases List.mem_cons.mp hmem with htick | hlater
      · nomatch htick
      · exact ih _ hlater
    · exact List.not_mem_nil

end

end Loop

/-! ## A punctual clock -/

/-- A tick that comes when it is due raises no fault, and the next one is due a period later. -/
theorem Pacer.arrive_due (p : Pacer) (t : Int) :
    p.arrive t t = (none, { p with deadline := some (t + p.period) }) := by
  have hontime : ¬ (p.period : Int) < t - t := by
    rw [Int.sub_self]
    exact Int.not_lt.mpr (Int.natCast_nonneg _)
  rw [arrive, if_neg hontime]

namespace BenchClock

/-- No reading moves the clock and no sleep is disturbed. -/
structure Punctual (c : BenchClock) : Prop where
  step : c.step = 0
  delays : c.delays = []
  spins : c.spins = false

variable {c : BenchClock}

theorem Punctual.read (h : c.Punctual) : Clock.read c = (c.now, c) := by
  obtain ⟨now, step, delays, spins, sleeps⟩ := c
  obtain rfl : step = 0 := h.step
  exact congrArg (fun later => (now, BenchClock.mk later 0 delays spins sleeps)) (Int.add_zero now)

/-- A sleep ends at the deadline, or at once if that has passed. -/
theorem Punctual.sleepUntil (h : c.Punctual) (deadline : Int) :
    Clock.sleepUntil deadline c = { c with now := max c.now deadline, sleeps := c.sleeps + 1 } := by
  obtain ⟨now, step, delays, spins, sleeps⟩ := c
  obtain rfl : delays = [] := h.delays
  obtain rfl : spins = false := h.spins
  exact congrArg (fun later => BenchClock.mk later step [] false (sleeps + 1)) (Int.add_zero _)

/-- Sleeping leaves the clock punctual. -/
theorem Punctual.slept (h : c.Punctual) (now : Int) (sleeps : Nat) :
    ({ c with now := now, sleeps := sleeps } : BenchClock).Punctual := ⟨h.step, h.delays, h.spins⟩

end BenchClock

namespace Loop

/-- The next tick is due at `t` on a punctual clock, and the keyer goes by the settings of the
    store. -/
structure OnTime (store : Store) (t : Int) (l : Loop BenchClock) : Prop where
  clock : l.clock.Punctual
  due : l.pacer.deadline.getD l.clock.now = t
  early : l.clock.now ≤ t
  rate : l.pacer.rate = store.settings.timing.rate
  time : ∀ last, l.keyer.time = some last → last ≤ t
  settings : l.keyer.machine.settings = store.settings
  timing : l.keyer.machine.timing = store.settings.timing

variable {store : Store} {t : Int} {l : Loop BenchClock}

theorem onTime_ofScript (store : Store) (steps : List ScriptStep) (start : Int) :
    (ofScript store steps ({ now := start } : BenchClock)).OnTime store start where
  clock := ⟨rfl, rfl, rfl⟩
  due := rfl
  early := Int.le_refl start
  rate := by
    show max (max store.settings.tickRate 1) 1 = max store.settings.tickRate 1
    omega
  time := nofun
  settings := rfl
  timing := rfl

/-- **A wait** ends when the tick is due, and the next one is due a period later. -/
theorem OnTime.wait (h : l.OnTime store t) :
    l.pacer.wait l.clock
      = ⟨t, none, { l.pacer with deadline := some (t + store.settings.timing.tickMicros) },
          { l.clock with now := t, sleeps := l.clock.sleeps + 1 }⟩ := by
  have hperiod : l.pacer.period = store.settings.timing.tickMicros := by
    rw [Pacer.period, h.rate]
    rfl
  have hslept : Clock.read (Clock.sleepUntil t l.clock)
      = (t, { l.clock with now := t, sleeps := l.clock.sleeps + 1 }) := by
    rw [h.clock.sleepUntil, Int.max_eq_right h.early, (h.clock.slept _ _).read]
  have hdue := h.due
  rcases hdeadline : l.pacer.deadline with _ | d
  · -- the first tick is due at once
    rw [hdeadline] at hdue
    have hnow : l.clock.now = t := hdue
    simp only [Pacer.wait, hdeadline, h.clock.read, hnow, hslept, Pacer.arrive_due, hperiod]
  · rw [hdeadline] at hdue
    obtain rfl : d = t := hdue
    simp only [Pacer.wait, hdeadline, hslept, Pacer.arrive_due, hperiod]

theorem OnTime.now_eq (h : l.OnTime store t) : l.now = t := congrArg Pacer.Wake.now h.wait

/-- The tick goes by the time at which it is due. -/
theorem OnTime.checkClock (h : l.OnTime store t) : (l.keyer.checkClock t).1 = t := by
  rw [Keyer.checkClock_time]
  rcases hlast : l.keyer.time with _ | last
  · exact Int.max_self t
  · exact Int.max_eq_left (h.time last hlast)

/-- It goes by the settings of the store, taken over or not. -/
theorem OnTime.ready (h : l.OnTime store t) (now : Int) :
    (l.keyer.ready store now).machine.settings = store.settings ∧
      (l.keyer.ready store now).machine.timing = store.settings.timing := by
  have hcopy : (l.keyer.ready store now).copy.settings = store.settings ∧
      (l.keyer.ready store now).copy.timing = store.settings.timing := by
    rw [Keyer.ready_copy]
    split
    · exact ⟨rfl, rfl⟩
    · exact ⟨h.settings, h.timing⟩
  exact hcopy

/-- **A round** that ticks leaves the next tick due a period later. -/
theorem OnTime.following (h : l.OnTime store t) :
    (l.following store).OnTime store (t + store.settings.timing.tickMicros) := by
  have hperiod : (0 : Int) ≤ store.settings.timing.tickMicros := Int.natCast_nonneg _
  have hkeyer : (l.following store).keyer
      = (l.keyer.tick store t (l.script.sample t).1).2.2 := by
    rw [Loop.following, h.now_eq]
  have hsettings : (l.following store).keyer.machine.settings = store.settings := by
    rw [hkeyer, Keyer.tick_keyer]
    exact (Machine.tick_settings _ _).trans (h.ready t).1
  have htiming : (l.following store).keyer.machine.timing = store.settings.timing := by
    rw [hkeyer, Keyer.tick_keyer]
    exact (Machine.tick_timing _ _).trans (h.ready t).2
  have hclock : (l.following store).clock
      = { l.clock with now := t, sleeps := l.clock.sleeps + 1 } := congrArg Pacer.Wake.clock h.wait
  have hpacer : (l.following store).pacer
      = ({ l.pacer with deadline := some (t + store.settings.timing.tickMicros) } : Pacer).setRate
          (l.following store).keyer.rate :=
    congrArg (fun w => w.pacer.setRate (l.following store).keyer.rate) h.wait
  exact {
    clock := by
      rw [hclock]
      exact h.clock.slept _ _
    due := by
      rw [hpacer]
      rfl
    early := by
      rw [hclock]
      show t ≤ _
      omega
    rate := by
      rw [hpacer]
      show max (l.following store).keyer.machine.timing.rate 1 = _
      rw [htiming]
      show max (max store.settings.tickRate 1) 1 = max store.settings.tickRate 1
      omega
    time := by
      intro last hlast
      rw [hkeyer, Keyer.tick_time, h.checkClock] at hlast
      obtain rfl := Option.some.inj hlast
      omega
    settings := hsettings
    timing := htiming }

/-- **On a punctual clock tick number `i` comes `i` periods after the first**, and all of them go
    by the settings of the store. -/
theorem OnTime.beat (h : l.OnTime store t) {n i : Nat} {x : Beat}
    (hx : ((l.session store).beats (l.ticks store n))[i]? = some x) :
    x.time = t + i * store.settings.timing.tickMicros ∧
      x.moment.timing = store.settings.timing := by
  induction n generalizing l t i with
  | zero => nomatch hx
  | succ n ih =>
    rw [ticks] at hx
    split at hx
    · cases i with
      | zero =>
        obtain rfl := Option.some.inj hx
        rw [h.now_eq]
        refine ⟨?_, (h.ready t).2⟩
        rw [Int.natCast_zero, Int.zero_mul, Int.add_zero]
        exact h.checkClock
      | succ i =>
        obtain ⟨htime, htiming⟩ := ih h.following hx
        refine ⟨?_, htiming⟩
        rw [htime, Int.natCast_succ, Int.add_mul, Int.one_mul]
        omega
    · nomatch hx

/-- A tick within the limits takes some time. -/
theorem tickMicros_pos (h : store.settings.InLimits) : 0 < store.settings.timing.tickMicros := by
  obtain ⟨-, -, -, -, hrate⟩ := h
  show 0 < 1000000 / max store.settings.tickRate 1
  exact Nat.div_pos (by omega) (by omega)

/-- Once the script is anchored, every round takes the loop a period nearer to the end of it. -/
theorem OnTime.runFrom?_isSome (h : l.OnTime store t) (hlimits : store.settings.InLimits)
    {anchor : Int} (hanchor : l.script.anchor = some anchor) {n : Nat}
    (hn : (l.script.finish - t).toNat < n) (before : List Effects) :
    (l.runFrom? store n before).isSome := by
  induction n generalizing l t before with
  | zero => nomatch hn
  | succ n ih =>
    have hperiod := tickMicros_pos hlimits
    rw [runFrom?]
    by_cases hnow : l.now < l.script.finish
    · have hscript : (l.following store).script = l.script := by
        show { l.script with anchor := some (l.script.anchor.getD l.now) } = l.script
        rw [hanchor, Option.getD_some, ← hanchor]
      rw [round_next store hnow]
      rw [h.now_eq] at hnow
      refine ih h.following ?_ ?_ _
      · rw [hscript]
        exact hanchor
      · rw [hscript]
        omega
    · rw [round_last store hnow]
      rfl

/-- **On a punctual clock the loop ends**, whatever the script. -/
theorem run?_isSome (hlimits : store.settings.InLimits) (steps : List ScriptStep) (start : Int) :
    let l := ofScript store steps ({ now := start } : BenchClock)
    (l.run? store l.rounds).isSome := by
  intro l
  have hontime : l.OnTime store start := onTime_ofScript store steps start
  have hrounds : l.rounds = l.script.length.toNat + 2 + 1 := rfl
  rw [hrounds, run?, runFrom?]
  by_cases hnow : l.now < l.script.finish
  · -- the first sample anchors the script
    have hfinish : (l.following store).script.finish = start + l.script.length := by
      show l.now + l.script.length = _
      rw [hontime.now_eq]
    have hperiod := tickMicros_pos hlimits
    rw [round_next store hnow]
    refine hontime.following.runFrom?_isSome hlimits rfl ?_ _
    rw [hfinish]
    omega
  · rw [round_last store hnow]
    rfl

end Loop

end IambicKeyer

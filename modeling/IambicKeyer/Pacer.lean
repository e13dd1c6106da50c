/-
  The pacer: one tick per period.

  Each deadline lies exactly one period after the one before, however late the ticks themselves
  come, so small delays do not add up.  A tick that comes MORE than one period after its
  deadline is late: it is counted, a fault is raised, and the next deadline is one period after
  that tick.  Ticks that were missed are left out and not made up for.
-/
import IambicKeyer.Clock
import IambicKeyer.Counter
import IambicKeyer.Fault

namespace IambicKeyer

/-- The schedule of the ticks. -/
structure Pacer where
  /-- Ticks per second. -/
  rate : Nat
  /-- The next deadline; `none` before the first tick, which is due at once. -/
  deadline : Option Int := none
  /-- The number of late ticks. -/
  late : Nat := 0
  deriving DecidableEq, Inhabited

namespace Pacer

/-- A schedule that has not begun; a rate of zero counts as one. -/
def ofRate (rate : Nat) : Pacer := { rate := max rate 1 }

/-- Follows a change of rate; the deadline that is already set stands. -/
def setRate (rate : Nat) (p : Pacer) : Pacer := { p with rate := max rate 1 }

/-- Microseconds per tick, rounded down. -/
def period (p : Pacer) : Nat := 1000000 / p.rate

/-- The schedule after a tick at `now` that was due at `deadline`, and the fault it raises. -/
def arrive (deadline now : Int) (p : Pacer) : Option Fault × Pacer :=
  if p.period < now - deadline then
    (some ⟨.tickOverrun, Counter.ofSpan (now - deadline)⟩,
      { p with late := Counter.saturating p.late, deadline := some (now + p.period) })
  else (none, { p with deadline := some (deadline + p.period) })

/-- What a wait gives: the time of the tick, the fault it raised, and what comes after. -/
structure Wake (κ : Type) where
  now : Int
  fault : Option Fault
  pacer : Pacer
  clock : κ

/-- Waits for the next tick. -/
def wait {κ : Type} [Clock κ] (clock : κ) (p : Pacer) : Wake κ :=
  let (deadline, clock) :=
    match p.deadline with
    | some d => (d, clock)
    | none => Clock.read clock
  let (now, clock) := Clock.read (Clock.sleepUntil deadline clock)
  let (fault, p) := p.arrive deadline now
  ⟨now, fault, p, clock⟩

end Pacer

/-! ## Ticks at 1000 a second on a clock at time 5; the second sleep ends 2.5 periods late -/

example :
    let first := (Pacer.ofRate 1000).wait ({ now := 5, delays := [(1, 2500)] } : BenchClock)
    let second := first.pacer.wait first.clock
    let third := second.pacer.wait second.clock
    [first.now, second.now, third.now] = [5, 3505, 4505] ∧
      second.fault = some ⟨.tickOverrun, 2500⟩ ∧ third.fault = none := by decide

end IambicKeyer

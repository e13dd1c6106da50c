/-
  Clocks.

  A clock can be read, and it can be slept on until a deadline; both may change it.  Times are
  whole microseconds from an origin that means nothing.

  `BenchClock` is the clock of the bench.  It moves only when it is used: every reading moves it
  on by `step`, and every sleep takes it to the deadline if it is not there yet.  Sleeps may be
  disturbed: the `k`-th sleep ends late by all the `delays` listed for `k`.  A SPINNING clock
  sleeps by reading itself until it shows the deadline; it has no delays.
-/

namespace IambicKeyer

/-- Something that tells the time and can be waited on. -/
class Clock (κ : Type) where
  /-- The time, and the clock after it has been read. -/
  read : κ → Int × κ
  /-- The clock after waiting for the deadline. -/
  sleepUntil : Int → κ → κ

/-- The simulated clock of the bench. -/
structure BenchClock where
  now : Int := 0
  /-- How far a reading moves the clock on. -/
  step : Int := 0
  /-- Numbers of sleeps, each with the time by which that sleep ends late. -/
  delays : List (Nat × Int) := []
  spins : Bool := false
  /-- The number of sleeps so far. -/
  sleeps : Nat := 0
  deriving DecidableEq, Inhabited

namespace BenchClock

/-- The time by which sleep number `k` ends late, by a list of delays. -/
def delay (k : Nat) : List (Nat × Int) → Int
  | [] => 0
  | (j, late) :: rest => (if j = k then late else 0) + delay k rest

/-- The total of a list of delays, each taken as late. -/
def totalDelay : List (Nat × Int) → Nat
  | [] => 0
  | (_, late) :: rest => late.natAbs + totalDelay rest

/-- The number of the last sleep in a list of delays. -/
def lastDelayed : List (Nat × Int) → Nat
  | [] => 0
  | (j, _) :: rest => max j (lastDelayed rest)

/-- Tells the time, then moves on. -/
def read (c : BenchClock) : Int × BenchClock := (c.now, { c with now := c.now + c.step })

/-- Reads the clock until it shows the deadline.  A clock that does not move while it is read
    is given up on. -/
def spinUntil (deadline : Int) (c : BenchClock) : BenchClock :=
  if c.now < deadline ∧ 0 < c.step then spinUntil deadline c.read.2
  else c.read.2
termination_by (deadline - c.now).toNat
decreasing_by simp only [read]; omega

/-- Waits for the deadline and then for the delay of this sleep. -/
def sleepUntil (deadline : Int) (c : BenchClock) : BenchClock :=
  if c.spins then c.spinUntil deadline
  else { c with now := max c.now deadline + delay c.sleeps c.delays, sleeps := c.sleeps + 1 }

instance : Clock BenchClock := ⟨read, sleepUntil⟩

/-- The first tick comes no later than this after it was due. -/
def slack (c : BenchClock) : Nat := totalDelay c.delays + c.step.natAbs

end BenchClock

end IambicKeyer

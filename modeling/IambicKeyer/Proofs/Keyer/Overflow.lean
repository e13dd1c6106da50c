/-
  Nothing that a keyer computes overflows 32 bits.

      speed, rate, weight ──▶ durations ──▶ place in the phase, in percent
                                  └───────▶ ticks of a gap

  1. **Checked arithmetic** (`Checked`) — sums, products and quotients that fail where 32-bit words
     do: on a value that is too large, and on a zero divisor.  The formulas of the keyer are written
     down again with it.  Where the checked formula has a result, it is that of the plain one.

  2. **Settings within the limits** keep the durations small: no phase has more than
     `longestPhase` ticks.

  3. **A phase under way** was begun under settings that may have been replaced since, so it is not
     the settings in force that bound it.  That no phase is longer than the longest there can be is
     an invariant of its own (`Session.Timed`), kept by every operation.

  4. **The result** — `durations_exact` puts it together with the rounding of the durations.
-/
import IambicKeyer.Proofs.Keyer.Spaces
import IambicKeyer.Proofs.Settings.Durations

namespace IambicKeyer

/-! ## Checked arithmetic -/

namespace Checked

/-- A number, if a word can hold it. -/
def fit (n : Nat) : Option Nat := if n ≤ Counter.top then some n else none

def add (a b : Nat) : Option Nat := fit (a + b)

def mul (a b : Nat) : Option Nat := fit (a * b)

/-- A quotient, if there is one. -/
def div (a b : Nat) : Option Nat := if b = 0 then none else some (a / b)

variable {a b : Nat}

theorem add_eq (h : a + b ≤ Counter.top) : add a b = some (a + b) := if_pos h

theorem mul_eq (h : a * b ≤ Counter.top) : mul a b = some (a * b) := if_pos h

theorem div_eq (h : 0 < b) : div a b = some (a / b) := if_neg (Nat.ne_of_gt h)

end Checked

/-- The durations, in checked arithmetic. -/
def Settings.checkedTiming (s : Settings) : Option Timing := do
  let speed := max s.wpm 1
  let rate := max s.tickRate 1
  let dits ← Checked.add (← Checked.mul rate 12) (← Checked.mul speed 5)
  let dit := max (← Checked.div dits (← Checked.mul speed 10)) 1
  let dahs ← Checked.add (← Checked.mul (← Checked.mul 3 dit) s.weight) 25
  let dah := max (← Checked.div dahs 50) 1
  return ⟨dit, dah, dit, rate⟩

/-- The place in the phase, in checked arithmetic. -/
def Sending.checkedPercent (s : Sending) : Option Nat := do
  Checked.div (← Checked.mul (s.length - s.left) 100) (max s.length 1)

/-- The ticks of a gap, in checked arithmetic. -/
def Gap.checkedTicks (unit : Nat) (gap : Gap) : Option Nat := Checked.mul gap.dits unit

/-! ## Settings within the limits -/

/-- The ticks of a dah at the lowest speed, the highest weight and the highest rate. -/
def longestPhase : Nat := 9648

/-- Half of an even divisor rounds to the nearest. -/
theorem Rounding.add_half_div (num half : Nat) :
    (num + half) / (2 * half) = nearest num (2 * half) := by
  rw [nearest, ← Nat.mul_add, Nat.mul_div_mul_left _ _ (by decide)]

namespace Settings.InLimits

variable {s : Settings}

/-- Three dits times the weight, at most. -/
theorem weighted_le (h : s.InLimits) : 3 * s.ditTicks * s.weight ≤ 482400 :=
  Nat.mul_le_mul (Nat.mul_le_mul_left 3 h.ditTicks_le) h.weight.2

theorem dahTicks_le (h : s.InLimits) : s.dahTicks ≤ longestPhase := by
  have hweighted := h.weighted_le
  have hround := Rounding.nearest_le_two_mul (3 * s.ditTicks * s.weight) 50
  rw [h.dahTicks_eq, longestPhase]
  omega

/-- **No phase is longer than the longest one.** -/
theorem mark_le (h : s.InLimits) (e : Element) : s.timing.mark e ≤ longestPhase := by
  cases e with
  | dit => exact Nat.le_trans h.ditTicks_le (by decide)
  | dah => exact h.dahTicks_le

theorem space_le (h : s.InLimits) : s.timing.space ≤ longestPhase :=
  Nat.le_trans h.ditTicks_le (by decide)

/-- **The durations are computed without overflow.** -/
theorem checkedTiming_eq (h : s.InLimits) : s.checkedTiming = some s.timing := by
  obtain ⟨hslow, hfast⟩ := h.wpm
  obtain ⟨hlow, hhigh⟩ := h.tickRate
  have hdits := h.ditTicks_le
  have hdahs := h.weighted_le
  have htop : Counter.top = 4294967295 := rfl
  -- the dit
  have hticks : Checked.mul s.tickRate 12 = some (s.tickRate * 12) := Checked.mul_eq (by omega)
  have hhalf : Checked.mul s.wpm 5 = some (s.wpm * 5) := Checked.mul_eq (by omega)
  have hwhole : Checked.mul s.wpm 10 = some (s.wpm * 10) := Checked.mul_eq (by omega)
  have hsum : Checked.add (s.tickRate * 12) (s.wpm * 5) = some (s.tickRate * 12 + s.wpm * 5) :=
    Checked.add_eq (by omega)
  have hquotient : Checked.div (s.tickRate * 12 + s.wpm * 5) (s.wpm * 10)
      = some ((s.tickRate * 12 + s.wpm * 5) / (s.wpm * 10)) := Checked.div_eq (by omega)
  have hdit : max ((s.tickRate * 12 + s.wpm * 5) / (s.wpm * 10)) 1 = s.ditTicks := by
    rw [ditTicks, h.max_tickRate, h.max_wpm, Nat.mul_comm s.tickRate 12,
      show s.wpm * 10 = 2 * (s.wpm * 5) by omega, Rounding.add_half_div,
      show 2 * (s.wpm * 5) = 10 * s.wpm by omega]
  -- the dah
  have hthree : Checked.mul 3 s.ditTicks = some (3 * s.ditTicks) := Checked.mul_eq (by omega)
  have hweighted : Checked.mul (3 * s.ditTicks) s.weight = some (3 * s.ditTicks * s.weight) :=
    Checked.mul_eq (by omega)
  have hsum' : Checked.add (3 * s.ditTicks * s.weight) 25
      = some (3 * s.ditTicks * s.weight + 25) := Checked.add_eq (by omega)
  have hquotient' : Checked.div (3 * s.ditTicks * s.weight + 25) 50
      = some ((3 * s.ditTicks * s.weight + 25) / 50) := Checked.div_eq (by decide)
  have hdah : max ((3 * s.ditTicks * s.weight + 25) / 50) 1 = s.dahTicks := by
    rw [dahTicks, show 50 = 2 * 25 from rfl, Rounding.add_half_div]
  simp only [checkedTiming, h.max_wpm, h.max_tickRate, hticks, hhalf, hwhole, hsum, hquotient, hdit, hthree,
    hweighted, hsum', hquotient', hdah, Option.bind_eq_bind, Option.bind_some]
  rw [timing, h.max_tickRate]
  rfl

end Settings.InLimits

/-- A gap has few enough ticks, whatever the speed. -/
theorem Gap.checkedTicks_eq {unit : Nat} (h : unit ≤ 2400) (gap : Gap) :
    gap.checkedTicks unit = some (gap.dits * unit) := by
  have htop : Counter.top = 4294967295 := rfl
  apply Checked.mul_eq
  cases gap with
  | character =>
    show 2 * unit ≤ _
    omega
  | word =>
    show 5 * unit ≤ _
    omega

/-! ## A phase under way -/

namespace Sending

variable {s : Sending}

/-- **The place in a phase is computed without overflow**, and no place lies behind its end. -/
theorem checkedPercent_eq (hlength : s.length ≤ longestPhase) :
    s.checkedPercent = some s.percent := by
  have hmul : Checked.mul (s.length - s.left) 100 = some ((s.length - s.left) * 100) := by
    apply Checked.mul_eq
    rw [longestPhase] at hlength
    rw [Counter.top]
    omega
  have hdiv : Checked.div ((s.length - s.left) * 100) (max s.length 1) = some s.percent :=
    Checked.div_eq (by omega)
  rw [checkedPercent, hmul]
  exact hdiv

theorem percent_le (s : Sending) : s.percent ≤ 100 := by
  apply Nat.div_le_of_le_mul
  omega

end Sending

namespace Machine

/-- What a machine may look at on its next tick: the element under way, one tick on, and the
    beginning of an element. -/
inductive Inspects (m : Machine) : Sending → Prop
  | goes (s : Sending) (sending : m.sending = some s) : Inspects m s.step
  | begins (e : Element) : Inspects m (Sending.begin m.timing e)

variable {m : Machine} {bound : Nat}

/-- **A phase that begins on a tick** takes its length from the durations in force, and a phase
    under way keeps its own. -/
theorem length_tick (hmark : ∀ e, m.timing.mark e ≤ bound) (hspace : m.timing.space ≤ bound)
    (h : ∀ s, m.sending = some s → s.length ≤ bound) (p : Paddles) :
    ∀ s, (m.tick p).2.sending = some s → s.length ≤ bound := by
  have hcase := m.ticked p
  generalize m.tick p = r at hcase ⊢
  intro x hx
  cases hcase with
  | rest => exact h x hx
  | start e =>
    rw [← Option.some.inj hx]
    exact hmark e
  | going s hs =>
    rw [← Option.some.inj hx]
    exact h s hs
  | release s hs =>
    rw [← Option.some.inj hx]
    exact hspace
  | next s e =>
    rw [← Option.some.inj hx]
    exact hmark e
  | stop => nomatch hx

/-- What is looked at lies in a phase that is not empty and not longer than any other. -/
theorem Sound.inspects (h : m.Sound) (hmark : ∀ e, m.timing.mark e ≤ bound)
    (hlength : ∀ s, m.sending = some s → s.length ≤ bound) {s : Sending} (hs : m.Inspects s) :
    0 < s.length ∧ s.left ≤ s.length ∧ s.length ≤ bound := by
  cases hs with
  | goes s sending =>
    obtain ⟨hpos, hle⟩ := h.left s sending
    exact ⟨Nat.lt_of_lt_of_le hpos hle, Nat.le_trans (Nat.sub_le _ _) hle, hlength s sending⟩
  | begins e =>
    refine ⟨?_, Nat.le_refl _, hmark e⟩
    show 0 < m.timing.mark e
    rw [h.timing]
    exact m.settings.mark_pos e

end Machine

/-! ## Sessions -/

namespace Session

variable {s : Session}

/-- **A session whose phases are bounded.** -/
structure Timed (s : Session) : Prop where
  tuned : s.Tuned
  phase : ∀ x, s.keyer.machine.sending = some x → x.length ≤ longestPhase

theorem timed_ofStore {store : Store} (h : store.settings.InLimits) : (ofStore store).Timed where
  tuned := tuned_ofStore h
  phase := fun _ hx => nomatch hx

/-- On a tick the durations in force are those of settings within the limits. -/
theorem Tuned.ready_timing (h : s.Tuned) (now : Int) :
    (s.keyer.ready s.store now).machine.timing
      = (s.keyer.ready s.store now).machine.settings.timing := (h.ready now).timing

/-- The phase under way when the machine takes the sample. -/
theorem Timed.ready_phase (h : s.Timed) (now : Int) :
    ∀ x, (s.keyer.ready s.store now).machine.sending = some x → x.length ≤ longestPhase := by
  rw [Keyer.ready_sending]
  exact h.phase

theorem Timed.ready_mark (h : s.Timed) (now : Int) (e : Element) :
    (s.keyer.ready s.store now).machine.timing.mark e ≤ longestPhase := by
  have hfair := h.tuned.ready now
  have htiming : (s.keyer.ready s.store now).machine.timing = _ := hfair.timing
  rw [htiming]
  exact hfair.settings.mark_le e

/-- **Every operation keeps the phases bounded.** -/
theorem Timed.perform (h : s.Timed) (op : Operation) : (s.perform op).2.Timed := by
  refine ⟨h.tuned.perform op, ?_⟩
  cases op with
  | tick now p =>
    have hspace : (s.keyer.ready s.store now).machine.timing.space ≤ longestPhase := by
      rw [h.tuned.ready_timing now]
      exact (h.tuned.ready now).settings.space_le
    exact Machine.length_tick (h.ready_mark now) hspace (h.ready_phase now) p
  | reset now => exact fun x hx => nomatch hx
  | write w =>
    rw [(s.perform_write w).2]
    exact h.phase

theorem Timed.after (h : s.Timed) (ops : List Operation) : (s.after ops).Timed := by
  induction ops generalizing s with
  | nil => exact h
  | cons op ops ih => exact ih (h.perform op)

/-- **What a session computes next fits**, whether it is a look at the store or a tick. -/
structure Fits (s : Session) : Prop where
  /-- The durations, if the settings of the store are taken over. -/
  timing : s.store.settings.checkedTiming = some s.store.settings.timing
  /-- The place in a phase: as much of it has passed as it is long, at most, -/
  elapsed : ∀ now x, (s.keyer.ready s.store now).machine.Inspects x →
    x.left ≤ x.length ∧ x.length - x.left ≤ x.length ∧ 0 < x.length
  /-- which is a percentage. -/
  percent : ∀ now x, (s.keyer.ready s.store now).machine.Inspects x →
    x.checkedPercent = some x.percent ∧ x.percent ≤ 100
  /-- The ticks of a gap, in the unit in force on the tick. -/
  gaps : ∀ now (gap : Gap), gap.checkedTicks (s.keyer.ready s.store now).gaps.unit
    = some (gap.dits * (s.keyer.ready s.store now).gaps.unit)

theorem Timed.fits (h : s.Timed) : s.Fits where
  timing := h.tuned.store.checkedTiming_eq
  elapsed := by
    intro now x hx
    obtain ⟨hpos, hle, -⟩ :=
      (h.tuned.ready_sound now).inspects (h.ready_mark now) (h.ready_phase now) hx
    exact ⟨hle, Nat.sub_le _ _, hpos⟩
  percent := by
    intro now x hx
    obtain ⟨-, -, hlength⟩ :=
      (h.tuned.ready_sound now).inspects (h.ready_mark now) (h.ready_phase now) hx
    exact ⟨Sending.checkedPercent_eq hlength, x.percent_le⟩
  gaps := by
    intro now gap
    have hfair := h.tuned.ready now
    apply Gap.checkedTicks_eq
    show (s.keyer.ready s.store now).copy.unit ≤ 2400
    rw [hfair.unit, hfair.timing]
    exact hfair.settings.ditTicks_le

end Session

/-- **Durations are rounded correctly, and nothing overflows.**  Settings that pass the check call
    for the durations nearest to the exact ones, and no clamp acts on them.  A higher speed or a
    lower rate does not make a dit longer, a higher weight does not make a dah shorter.  And
    whatever is written to the store while a keyer runs, all that it computes with durations, places
    and gaps fits 32 bits, and it never divides by zero. -/
theorem durations_exact :
    (∀ s : Settings, s.check = .ok () → s.Rounded) ∧
    (∀ s s' : Settings,
      (s.wpm ≤ s'.wpm → s'.tickRate ≤ s.tickRate → s'.timing.dit ≤ s.timing.dit) ∧
      (s.timing.dit ≤ s'.timing.dit → s.weight ≤ s'.weight → s.timing.dah ≤ s'.timing.dah)) ∧
    ∀ (early : List Write) (ops : List Operation),
      ((Session.ofStore (Store.written early)).after ops).Fits := by
  refine ⟨fun s hcheck => ?_, fun s s' => ?_, fun early ops => ?_⟩
  · exact (s.check_eq_ok_iff.mp hcheck).rounded
  · exact ⟨Settings.ditTicks_le_ditTicks, Settings.dahTicks_le_dahTicks⟩
  · exact ((Session.timed_ofStore (Store.inLimits_written early)).after ops).fits

/-- The settings with the longest elements there are. -/
def slowest : Settings := { wpm := 5, weight := 67, tickRate := 10000 }

/-- The longest dah is under way when the speed goes up to its highest: its second tick is still
    a place among 9648, though a dah has only 482 ticks now. -/
theorem durations_exact_slowest :
    let ops : List Operation := [.tick 0 ⟨false, true⟩, .write (.wpm 100)]
    let s := (Session.ofStore (Store.written [.all slowest])).after ops
    let m := (s.keyer.ready s.store 100).machine
    slowest.check = .ok () ∧ slowest.timing.dit = 2400 ∧ slowest.timing.dah = 9648 ∧
      ((50 * 9648 : Nat) - (3 * 2400 * 67 : Nat) : Int).natAbs ≤ 25 ∧ m.timing.dah = 482 ∧
      ∃ x, m.Inspects x ∧ x.length = 9648 ∧ x.left = 9647 ∧ x.checkedPercent = some x.percent := by
  intro ops s m
  obtain ⟨hrounded, -, hfits⟩ := durations_exact
  have hcheck : slowest.check = .ok () := rfl
  have hsending : m.sending = some ⟨.dah, .mark, 9648, 9648, false⟩ := by decide +kernel
  have hinspects := Machine.Inspects.goes _ hsending
  refine ⟨hcheck, by decide, by decide, (hrounded slowest hcheck).dah, by decide +kernel,
    _, hinspects, rfl, rfl, ?_⟩
  exact ((hfits [.all slowest] ops).percent 100 _ hinspects).1

end IambicKeyer

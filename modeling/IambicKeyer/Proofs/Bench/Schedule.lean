/-
  The ticks neither drift nor come in bursts.

  1. **Clocks that wake** (`Clock.Wakes`) — all that is asked of a clock: a sleep does not end
     before its deadline, as the next reading shows.  It may end as late as it likes, and the clock
     may stand anywhere when the next wait begins.  The bench's clock wakes if nothing takes it
     back, whether it sleeps or spins.

  2. **Arrivals** — a list of waits and changes of rate makes a list of ticks, each with its
     deadline, the period in force and the time at which it came.

  3. **One wait** — the deadline it leaves behind lies neither before the tick itself nor less than
     a period after the deadline of the tick (`now_le_following`, `due_add_le_following`), and
     exactly a period after it unless the tick was late.  So from wait to wait the periods add up
     (`due_of_arrivals`), by induction over the calls.

  4. **`paced_arrivals`** — the rules that the ticks of every pacer keep.
-/
import IambicKeyer.Proofs.Bench.Shift

namespace IambicKeyer

/-! ## Clocks that wake -/

/-- A sleep on the clock does not end early, nor does one after a first reading. -/
def Clock.Wakes {κ : Type} [Clock κ] (clock : κ) : Prop :=
  ∀ deadline, deadline ≤ (Clock.read (Clock.sleepUntil deadline clock)).1 ∧
    deadline ≤ (Clock.read (Clock.sleepUntil deadline (Clock.read clock).2)).1

namespace BenchClock

/-- Nothing takes the clock back, and a clock that spins moves while it is read. -/
structure Forward (c : BenchClock) : Prop where
  step : 0 ≤ c.step
  delays : ∀ x ∈ c.delays, 0 ≤ x.2
  spins : c.spins = true → 0 < c.step

variable {c : BenchClock}

theorem delay_nonneg {delays : List (Nat × Int)} (h : ∀ x ∈ delays, 0 ≤ x.2) (k : Nat) :
    0 ≤ delay k delays := by
  induction delays with
  | nil => exact Int.le_refl 0
  | cons x rest ih =>
    obtain ⟨j, late⟩ := x
    have hlate : 0 ≤ late := h (j, late) List.mem_cons_self
    have hrest := ih fun y hy => h y (List.mem_cons_of_mem _ hy)
    rw [delay]
    split <;> omega

/-- A clock that moves while it is read shows the deadline after spinning. -/
theorem le_spinUntil {deadline : Int} (hstep : 0 < c.step) :
    deadline ≤ (c.spinUntil deadline).now := by
  induction c using spinUntil.induct deadline with
  | case1 c hbefore ih =>
    rw [spinUntil_before hbefore]
    exact ih hstep
  | case2 c hreached =>
    rw [spinUntil_reached hreached]
    show deadline ≤ c.now + c.step
    omega

theorem Forward.le_sleepUntil (h : c.Forward) (deadline : Int) :
    deadline ≤ (Clock.read (Clock.sleepUntil deadline c)).1 := by
  show deadline ≤ (c.sleepUntil deadline).now
  unfold sleepUntil
  cases hspins : c.spins with
  | true => exact le_spinUntil (h.spins hspins)
  | false =>
    have hdelay := delay_nonneg h.delays c.sleeps
    show deadline ≤ max c.now deadline + delay c.sleeps c.delays
    omega

/-- **The bench's clock wakes** if nothing takes it back. -/
theorem Forward.wakes (h : c.Forward) : Clock.Wakes c := by
  have hread : c.read.2.Forward := ⟨h.step, h.delays, h.spins⟩
  exact fun deadline => ⟨h.le_sleepUntil deadline, hread.le_sleepUntil deadline⟩

end BenchClock

namespace Pacer

/-! ## Arrivals -/

/-- What can be asked of a pacer. -/
inductive Call (κ : Type) where
  /-- A wait, with the clock as it stands when the wait begins. -/
  | wait (clock : κ)
  | setRate (rate : Nat)

/-- A tick as it came. -/
structure Arrival where
  /-- The deadline of the wait. -/
  due : Int
  /-- The period in force during the wait. -/
  period : Nat
  now : Int
  fault : Option Fault
  /-- The schedule after the wait. -/
  after : Pacer
  deriving DecidableEq

namespace Arrival

/-- The tick came more than one period after its deadline. -/
def late (x : Arrival) : Bool := x.period < x.now - x.due

/-- The deadline of the tick after this one. -/
def following (x : Arrival) : Int := if x.late then x.now + x.period else x.due + x.period

/-- The fault of a late tick. -/
def overrun (x : Arrival) : Fault := ⟨.tickOverrun, min (x.now - x.due).toNat 4294967295⟩

/-- The periods of a list of ticks, one after the other. -/
def total : List Arrival → Nat
  | [] => 0
  | x :: xs => x.period + total xs

end Arrival

section

variable {κ : Type} [Clock κ]

/-- The schedule after a call. -/
def serve (p : Pacer) : Call κ → Pacer
  | .wait clock => (p.wait clock).pacer
  | .setRate rate => p.setRate rate

/-- The schedule after a list of calls. -/
def serveAll (p : Pacer) (calls : List (Call κ)) : Pacer := calls.foldl serve p

/-- The deadline of a wait that begins on this clock. -/
def due (clock : κ) (p : Pacer) : Int := p.deadline.getD (Clock.read clock).1

/-- The tick that a wait on this clock gives. -/
def arrival (clock : κ) (p : Pacer) : Arrival :=
  ⟨p.due clock, p.period, (p.wait clock).now, (p.wait clock).fault, (p.wait clock).pacer⟩

/-- The ticks of a list of calls. -/
def arrivals : Pacer → List (Call κ) → List Arrival
  | _, [] => []
  | p, .wait clock :: calls => p.arrival clock :: (p.wait clock).pacer.arrivals calls
  | p, .setRate rate :: calls => (p.setRate rate).arrivals calls

end

/-! ## The rules -/

/-- **The rules that the ticks of a pacer keep.**  Wherever two ticks `x` and `y` are picked,
    `between` are those that came between them. -/
structure Paced (xs : List Arrival) : Prop where
  /-- No tick comes early. -/
  notEarly : ∀ x ∈ xs, x.due ≤ x.now
  /-- A late tick raises one fault, with its lateness, and no other tick raises any. -/
  fault : ∀ x ∈ xs, x.fault = if x.late then some x.overrun else none
  /-- The deadline after a late tick is a period after the tick, after any other a period after
      its own deadline. -/
  deadline : ∀ x ∈ xs,
    x.after.deadline = some (if x.late then x.now + x.period else x.due + x.period)
  /-- The next tick is waited for until that deadline, whatever the rate is by then. -/
  next : ∀ before (x y : Arrival) after, xs = before ++ x :: y :: after →
    x.after.deadline = some y.due
  /-- No bursts: ticks come in order, and as far apart as the periods of the ticks between them. -/
  apart : ∀ before (x : Arrival) between (y : Arrival) after,
    xs = before ++ x :: (between ++ y :: after) →
    x.now ≤ y.now ∧ x.now + Arrival.total between ≤ y.now
  /-- No drift: as long as no tick is late, deadlines are as far apart as the periods say. -/
  steady : ∀ before (x : Arrival) between (y : Arrival) after,
    xs = before ++ x :: (between ++ y :: after) →
    (∀ z ∈ x :: between, z.late = false) → y.due = x.due + Arrival.total (x :: between)

/-! ## One wait -/

section

variable {κ : Type} [Clock κ] {clock : κ} {p : Pacer}

/-- A wait arrives at the time that the clock shows after the sleep. -/
theorem wait_arrives (clock : κ) (p : Pacer) :
    ((p.wait clock).fault, (p.wait clock).pacer)
      = p.arrive (p.due clock) (p.wait clock).now := by
  unfold wait due
  cases p.deadline <;> rfl

theorem due_le_now (h : Clock.Wakes clock) (p : Pacer) :
    (p.arrival clock).due ≤ (p.arrival clock).now := by
  show p.due clock ≤ (p.wait clock).now
  unfold wait due
  cases p.deadline with
  | none => exact (h _).2
  | some d => exact (h d).1

/-- **What a wait leaves behind**, on time and late. -/
theorem arrival_eq (clock : κ) (p : Pacer) :
    (p.arrival clock).fault
        = (if (p.arrival clock).late then some (p.arrival clock).overrun else none) ∧
      (p.arrival clock).after.deadline = some (p.arrival clock).following ∧
      (p.arrival clock).after.late
        = if (p.arrival clock).late then Counter.saturating p.late else p.late := by
  have hfault : (p.arrival clock).fault = (p.arrive (p.due clock) (p.wait clock).now).1 :=
    congrArg Prod.fst (wait_arrives clock p)
  have hafter : (p.arrival clock).after = (p.arrive (p.due clock) (p.wait clock).now).2 :=
    congrArg Prod.snd (wait_arrives clock p)
  rw [hfault, hafter, arrive, Arrival.following]
  by_cases hlate : (p.arrival clock).late = true
  · have hover : (p.period : Int) < (p.wait clock).now - p.due clock := of_decide_eq_true hlate
    rw [if_pos hover, if_pos hlate, if_pos hlate, if_pos hlate]
    exact ⟨rfl, rfl, rfl⟩
  · have hover : ¬ (p.period : Int) < (p.wait clock).now - p.due clock :=
      fun h => hlate (decide_eq_true h)
    rw [if_neg hover, if_neg hlate, if_neg hlate, if_neg hlate]
    exact ⟨rfl, rfl, rfl⟩

end

namespace Arrival

/-- The next tick is not due before this one came: unless late, it came within its period. -/
theorem now_le_following (x : Arrival) : x.now ≤ x.following := by
  unfold following
  by_cases hlate : x.late = true
  · rw [if_pos hlate]
    omega
  · rw [if_neg hlate]
    have hover : ¬ (x.period : Int) < x.now - x.due := fun h => hlate (decide_eq_true h)
    omega

/-- It is not due less than a period after this one was: a late tick only puts it off. -/
theorem due_add_le_following {x : Arrival} (h : x.due ≤ x.now) :
    x.due + x.period ≤ x.following := by
  unfold following
  split <;> omega

end Arrival

/-! ## From wait to wait -/

section

variable {κ : Type} [Clock κ] {calls : List (Call κ)} {p : Pacer} {d : Int}
  {before between rest : List Arrival} {x y : Arrival}

/-- Every tick is that of some wait, and the ticks after it are those of the calls after that. -/
theorem arrivals_split (h : p.arrivals calls = before ++ x :: rest) :
    ∃ (p' : Pacer) (clock : κ) (calls' : List (Call κ)), .wait clock ∈ calls ∧ calls' ⊆ calls ∧
      x = p'.arrival clock ∧ rest = x.after.arrivals calls' := by
  induction calls generalizing p before with
  | nil => exact absurd h.symm (by simp [arrivals])
  | cons call calls ih =>
    cases call with
    | wait clock =>
      cases before with
      | nil =>
        obtain ⟨rfl, rfl⟩ := List.cons.inj h
        exact ⟨p, clock, calls, List.mem_cons_self, List.subset_cons_self _ calls, rfl, rfl⟩
      | cons b before =>
        obtain ⟨p', clock', calls', hmem, hsub, hx⟩ := ih (List.cons.inj h).2
        exact ⟨p', clock', calls', List.mem_cons_of_mem _ hmem,
          List.subset_cons_of_subset _ hsub, hx⟩
    | setRate rate =>
      obtain ⟨p', clock', calls', hmem, hsub, hx⟩ := ih (p := p.setRate rate) h
      exact ⟨p', clock', calls', List.mem_cons_of_mem _ hmem, List.subset_cons_of_subset _ hsub, hx⟩

/-- **Deadlines add up.**  From a deadline that is set, a tick is due at least the periods of the
    ticks before it later, and exactly as much if none of these is late. -/
theorem due_of_arrivals (hwakes : ∀ clock, .wait clock ∈ calls → Clock.Wakes clock)
    (hd : p.deadline = some d) (h : p.arrivals calls = between ++ y :: rest) :
    d + Arrival.total between ≤ y.due ∧
      ((∀ z ∈ between, z.late = false) → y.due = d + Arrival.total between) := by
  induction calls generalizing p d between with
  | nil => exact absurd h.symm (by simp [arrivals])
  | cons call calls ih =>
    have hlater : ∀ clock, .wait clock ∈ calls → Clock.Wakes clock :=
      fun clock hc => hwakes clock (List.mem_cons_of_mem _ hc)
    cases call with
    | wait clock =>
      have hdue : (p.arrival clock).due = d := by
        show p.deadline.getD _ = d
        rw [hd, Option.getD_some]
      cases between with
      | nil =>
        obtain ⟨rfl, -⟩ := List.cons.inj h
        simp only [Arrival.total]
        omega
      | cons b between =>
        -- the wait leaves the deadline from which the rest is counted
        obtain ⟨rfl, hrest⟩ := List.cons.inj h
        obtain ⟨hle, heq⟩ := ih hlater (arrival_eq clock p).2.1 hrest
        have hstep := Arrival.due_add_le_following (due_le_now (hwakes clock List.mem_cons_self) p)
        refine ⟨?_, fun hnone => ?_⟩
        · simp only [Arrival.total]
          omega
        · have hontime := hnone _ List.mem_cons_self
          have hexact := heq fun z hz => hnone z (List.mem_cons_of_mem _ hz)
          simp only [Arrival.following, hontime, Bool.false_eq_true, if_false] at hexact
          simp only [Arrival.total]
          omega
    | setRate rate => exact ih hlater (p := p.setRate rate) hd h

/-- What is known of each tick by itself. -/
theorem mem_arrivals (hwakes : ∀ clock, .wait clock ∈ calls → Clock.Wakes clock)
    (hx : x ∈ p.arrivals calls) :
    x.due ≤ x.now ∧ x.fault = (if x.late then some x.overrun else none) ∧
      x.after.deadline = some x.following := by
  obtain ⟨before, rest, h⟩ := List.append_of_mem hx
  obtain ⟨p', clock, calls', hmem, -, rfl, -⟩ := arrivals_split h
  obtain ⟨hfault, hdeadline, -⟩ := arrival_eq clock p'
  exact ⟨due_le_now (hwakes clock hmem) p', hfault, hdeadline⟩

/-- What is known of two ticks: the second is due the periods between them after the deadline that
    follows the first, or later if one between them was late. -/
theorem due_of_following (hwakes : ∀ clock, .wait clock ∈ calls → Clock.Wakes clock)
    (h : p.arrivals calls = before ++ x :: (between ++ y :: rest)) :
    x.following + Arrival.total between ≤ y.due ∧
      ((∀ z ∈ between, z.late = false) → y.due = x.following + Arrival.total between) := by
  obtain ⟨p', clock, calls', hmem, hsub, rfl, hrest⟩ := arrivals_split h
  obtain ⟨-, hdeadline, -⟩ := arrival_eq clock p'
  exact due_of_arrivals (fun c hc => hwakes c (hsub hc)) hdeadline hrest.symm

/-- The ticks of a list of calls on clocks that wake keep the rules. -/
theorem paced_of_wakes (hwakes : ∀ clock, .wait clock ∈ calls → Clock.Wakes clock) (p : Pacer) :
    Paced (p.arrivals calls) where
  notEarly _ hx := (mem_arrivals hwakes hx).1
  fault _ hx := (mem_arrivals hwakes hx).2.1
  deadline _ hx := (mem_arrivals hwakes hx).2.2
  next before x y after h := by
    have hx : x ∈ p.arrivals calls := by
      rw [h]
      exact List.mem_append_right before List.mem_cons_self
    have hsplit : p.arrivals calls = before ++ x :: ([] ++ y :: after) := h
    have hnext := (due_of_following hwakes hsplit).2 nofun
    rw [(mem_arrivals hwakes hx).2.2, hnext, Arrival.total, Int.natCast_zero, Int.add_zero]
  apart before x between y after h := by
    have hy : y ∈ p.arrivals calls := by
      rw [h]
      exact List.mem_append_right before
        (List.mem_cons_of_mem x (List.mem_append_right between List.mem_cons_self))
    have hnow := (mem_arrivals hwakes hy).1
    have hfollowing := x.now_le_following
    have hdue := (due_of_following hwakes h).1
    omega
  steady before x between y after h hnone := by
    have hdue := (due_of_following hwakes h).2 fun z hz => hnone z (List.mem_cons_of_mem x hz)
    have hontime := hnone x List.mem_cons_self
    simp only [Arrival.following, hontime, Bool.false_eq_true, if_false] at hdue
    simp only [Arrival.total]
    omega

/-! ## How many ticks were late -/

/-- The late ticks are counted, up to the largest number. -/
theorem late_serveAll (hp : p.late ≤ Counter.top) :
    (p.serveAll calls).late
      = min (p.late + (p.arrivals calls).countP (·.late)) Counter.top := by
  induction calls generalizing p with
  | nil => exact (Nat.min_eq_left hp).symm
  | cons call calls ih =>
    cases call with
    | wait clock =>
      have hafter : (p.wait clock).pacer.late
          = if (p.arrival clock).late then Counter.saturating p.late else p.late :=
        (arrival_eq clock p).2.2
      have hle : (p.wait clock).pacer.late ≤ Counter.top := by
        rw [hafter, Counter.saturating]
        split <;> omega
      have hrest : ((p.wait clock).pacer.serveAll calls).late = _ := ih hle
      show ((p.wait clock).pacer.serveAll calls).late = _
      rw [hrest, hafter, arrivals, List.countP_cons, Counter.saturating]
      split <;> omega
    | setRate rate => exact ih (p := p.setRate rate) hp

/-- The faults are those of the late ticks. -/
theorem faults_of_paced {xs : List Arrival} (h : Paced xs) :
    xs.filterMap (·.fault) = (xs.filter (·.late)).map (·.overrun) := by
  have hfault := h.fault
  clear h
  induction xs with
  | nil => rfl
  | cons x xs ih =>
    have hrest := ih fun y hy => hfault y (List.mem_cons_of_mem x hy)
    have hx := hfault x List.mem_cons_self
    cases hlate : x.late with
    | true =>
      rw [hlate, if_pos rfl] at hx
      rw [List.filterMap_cons_some hx, hrest, List.filter_cons_of_pos hlate, List.map_cons]
    | false =>
      rw [hlate, if_neg nofun] at hx
      rw [List.filterMap_cons_none hx, hrest, List.filter_cons_of_neg (by rw [hlate]; nofun)]

/-! ## Every pacer -/

/-- **The ticks of a pacer neither drift nor come in bursts**, whatever the waits and the changes
    of rate, on clocks that do not wake early.  The faults raised are those of the late ticks, one
    each, and the pacer has counted as many. -/
theorem paced_arrivals (rate : Nat)
    (hwakes : ∀ clock, .wait clock ∈ calls → Clock.Wakes clock) :
    let xs := (ofRate rate).arrivals calls
    Paced xs ∧ xs.filterMap (·.fault) = (xs.filter (·.late)).map (·.overrun) ∧
      ((ofRate rate).serveAll calls).late = min (xs.countP (·.late)) 4294967295 := by
  intro xs
  have hpaced : Paced xs := paced_of_wakes hwakes (ofRate rate)
  refine ⟨hpaced, faults_of_paced hpaced, ?_⟩
  have hlate : ((ofRate rate).serveAll calls).late = _ := late_serveAll (Nat.zero_le _)
  rw [show (ofRate rate).late = 0 from rfl, Nat.zero_add] at hlate
  exact hlate

end

/-- 1000 ticks a second from time 5, the second sleep 2500 microseconds too long, then 500 ticks a
    second: one late tick, one tick that follows it within the old period, and the new period from
    then on. -/
theorem paced_arrivals_late :
    let clock : BenchClock := { now := 5, delays := [(1, 2500)] }
    let calls : List (Call BenchClock) :=
      [.wait clock, .wait { clock with sleeps := 1 }, .setRate 500,
        .wait { clock with now := 3505, sleeps := 2 },
        .wait { clock with now := 4505, sleeps := 3 }]
    let xs := (ofRate 1000).arrivals calls
    (∀ c, .wait c ∈ calls → Clock.Wakes c) ∧
      xs.map (fun x => (x.due, x.period, x.now))
        = [(5, 1000, 5), (1005, 1000, 3505), (4505, 2000, 4505), (6505, 2000, 6505)] ∧
      Paced xs ∧ xs.filterMap (·.fault) = [⟨.tickOverrun, 2500⟩] ∧
      ((ofRate 1000).serveAll calls).late = 1 := by
  intro clock calls xs
  have hforward : ∀ now sleeps,
      ({ clock with now := now, sleeps := sleeps } : BenchClock).Forward :=
    fun _ _ => ⟨Int.le_refl 0, by simp [clock], nofun⟩
  have hwakes : ∀ c, .wait c ∈ calls → Clock.Wakes c := by
    intro c hc
    simp only [calls, List.mem_cons, Call.wait.injEq, List.not_mem_nil, or_false, reduceCtorEq,
      false_or] at hc
    rcases hc with rfl | rfl | rfl | rfl
    · exact (hforward 5 0).wakes
    · exact (hforward 5 1).wakes
    · exact (hforward 3505 2).wakes
    · exact (hforward 4505 3).wakes
  obtain ⟨hpaced, hfaults, hlate⟩ := paced_arrivals 1000 hwakes
  refine ⟨hwakes, by decide, hpaced, ?_, ?_⟩
  · rw [hfaults]
    decide
  · rw [hlate]
    decide

end Pacer

end IambicKeyer

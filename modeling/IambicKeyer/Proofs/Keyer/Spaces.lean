/-
  The gap timer in the spaces inside a character.

      key up      settings        next key down
        |────────────┼──────────────────|
        |   space: fixed on its first tick
        |   gaps:  measured with the dit of each tick

  1. **Waiting** — on a silent tick a timer that waits for a gap either reports it or has waited
     one tick more (`wait_over`, `wait_on`).  By induction over the operations it reports one within
     `n` silent ticks exactly if on one of these ticks it has waited for as many dits as the gap
     has, the dit being the one in force on that tick (`Tuned.gap_iff_of_silent`).

  2. **Spaces** — the machine's space has as many ticks as the dit had on the key up, and the end
     of a character is two dits of the settings in force.  So a change of speed splits a character
     exactly if it makes two dits shorter than the space (`gap_between_elements_iff`).
-/
import IambicKeyer.Proofs.Keyer.Beats

namespace IambicKeyer

/-! ## Waiting for a gap -/

namespace GapTimer

variable {g : GapTimer} {gap : Gap}

/-- On a silent tick a timer that waits for a gap goes on waiting. -/
theorem tick_silent (hpending : g.pending = some gap) : g.tick none = g.wait gap := by
  simp only [tick, hpending]

/-- A wait that is long enough reports the gap. -/
theorem wait_over (hup : g.up < Counter.top) (h : gap.dits * g.unit ≤ g.up + 1) :
    (g.wait gap).1 = some gap := by
  simp only [wait, Counter.saturating_of_lt hup, if_pos h]

/-- Any other wait is one tick longer. -/
theorem wait_on (hup : g.up < Counter.top) (h : ¬ gap.dits * g.unit ≤ g.up + 1) :
    g.wait gap = (none, { g with up := g.up + 1 }) := by
  simp only [wait, Counter.saturating_of_lt hup, if_neg h]

end GapTimer

namespace Session

variable {s : Session} {ops : List Operation}

/-- On a tick the timer measures with the dit in force; new settings do not touch its count. -/
theorem Tuned.ready_gaps (h : s.Tuned) (now : Int) (p : Paddles) :
    (s.keyer.ready s.store now).gaps.unit = (s.beat now p).moment.timing.dit ∧
      (s.keyer.ready s.store now).gaps.up = s.keyer.gaps.up ∧
      (s.keyer.ready s.store now).gaps.pending = s.keyer.gaps.pending := by
  refine ⟨(h.ready now).unit, ?_⟩
  unfold Keyer.ready Keyer.sync
  rcases Machine.sync s.store s.keyer.machine with ⟨_ | _, m⟩ <;> exact ⟨rfl, rfl⟩

/-- What a tick makes of the timer. -/
theorem perform_gaps (s : Session) (now : Int) (p : Paddles) :
    (s.perform (.tick now p)).2.keyer.gaps
      = ((s.keyer.ready s.store now).gaps.tick (s.beat now p).moment.transition).2 := rfl

/-- **A silent tick** with a timer that waits for a gap: it has waited long enough and reports the
    gap, or it has not and has waited one tick more. -/
theorem Tuned.silent_tick (h : s.Tuned) {gap : Gap} (hpending : s.keyer.gaps.pending = some gap)
    (hup : s.keyer.gaps.up < Counter.top) {now : Int} {p : Paddles}
    (hnone : (s.beat now p).moment.transition = none) :
    (gap.dits * (s.beat now p).moment.timing.dit ≤ s.keyer.gaps.up + 1 ∧
        (s.beat now p).Tells (.gap gap)) ∨
      (¬ gap.dits * (s.beat now p).moment.timing.dit ≤ s.keyer.gaps.up + 1 ∧
        (∀ g, ¬ (s.beat now p).Tells (.gap g)) ∧
        (s.perform (.tick now p)).2.keyer.gaps.pending = some gap ∧
        (s.perform (.tick now p)).2.keyer.gaps.up = s.keyer.gaps.up + 1) := by
  obtain ⟨hunit, hcount, hwaiting⟩ := h.ready_gaps now p
  have htick := GapTimer.tick_silent (hwaiting.trans hpending)
  simp only [tells_gap_iff, perform_gaps, hnone, htick]
  rw [← hcount] at hup ⊢
  rw [← hunit]
  by_cases hover : gap.dits * (s.keyer.ready s.store now).gaps.unit
      ≤ (s.keyer.ready s.store now).gaps.up + 1
  · exact Or.inl ⟨hover, GapTimer.wait_over hup hover⟩
  · rw [GapTimer.wait_on hup hover]
    exact Or.inr ⟨hover, nofun, hwaiting.trans hpending, rfl⟩

/-- **A timer that waits for a gap reports one within `n` silent ticks** exactly if on one of them
    it has waited long enough.  The induction is on the operations. -/
theorem Tuned.gap_iff_of_silent (h : s.Tuned) (hreset : ∀ now, .reset now ∉ ops) {gap : Gap}
    (hpending : s.keyer.gaps.pending = some gap) {n : Nat}
    (htop : s.keyer.gaps.up + n ≤ Counter.top)
    (hsilent : ∀ j x, j < n → (s.beats ops)[j]? = some x → x.moment.transition = none) :
    (∃ j x g, j < n ∧ (s.beats ops)[j]? = some x ∧ x.Tells (.gap g)) ↔
      ∃ j x, j < n ∧ (s.beats ops)[j]? = some x ∧
        gap.dits * x.moment.timing.dit ≤ s.keyer.gaps.up + (j + 1) := by
  induction ops generalizing s n with
  | nil =>
    constructor
    · rintro ⟨j, x, g, -, hx, -⟩
      nomatch hx
    · rintro ⟨j, x, -, hx, -⟩
      nomatch hx
  | cons op ops ih =>
    have hops := no_reset_tail hreset
    cases op with
    | reset now => exact absurd List.mem_cons_self (hreset now)
    | write w =>
      have hkeyer := (s.perform_write w).2
      have hlater := ih (h.perform (.write w)) hops (by rw [hkeyer]; exact hpending)
        (by rw [hkeyer]; exact htop) hsilent
      rw [hkeyer] at hlater
      exact hlater
    | tick now p =>
      cases n with
      | zero =>
        constructor
        · rintro ⟨j, x, g, hj, -⟩
          nomatch hj
        · rintro ⟨j, x, hj, -⟩
          nomatch hj
      | succ n =>
        have hnow : (s.beat now p).moment.transition = none := hsilent 0 _ (Nat.succ_pos n) rfl
        rcases h.silent_tick hpending (by omega) hnow with
          ⟨hover, htold⟩ | ⟨hover, huntold, hpending', hup'⟩
        · -- both sides hold on this tick
          constructor
          · intro _
            exact ⟨0, _, Nat.succ_pos n, rfl, hover⟩
          · intro _
            exact ⟨0, _, gap, Nat.succ_pos n, rfl, htold⟩
        · -- neither does, so it is the ticks after it that count
          have hlater := ih (h.perform (.tick now p)) hops hpending' (n := n) (by omega)
            fun j x hj hx => hsilent (j + 1) x (Nat.succ_lt_succ hj) hx
          rw [hup'] at hlater
          constructor
          · rintro ⟨j, x, g, hj, hx, hg⟩
            cases j with
            | zero =>
              obtain rfl := Option.some.inj hx
              exact absurd hg (huntold g)
            | succ j =>
              obtain ⟨j', y, hj', hy, hle⟩ := hlater.mp ⟨j, x, g, Nat.lt_of_succ_lt_succ hj, hx, hg⟩
              exact ⟨j' + 1, y, Nat.succ_lt_succ hj', hy, by omega⟩
          · rintro ⟨j, x, hj, hx, hle⟩
            cases j with
            | zero =>
              obtain rfl := Option.some.inj hx
              exact absurd hle hover
            | succ j =>
              obtain ⟨j', y, g, hj', hy, hg⟩ :=
                hlater.mpr ⟨j, x, Nat.lt_of_succ_lt_succ hj, hx, by omega⟩
              exact ⟨j' + 1, y, g, Nat.succ_lt_succ hj', hy, hg⟩

end Session

/-! ## Spaces -/

/-- No space is longer than the one at 5 words a minute and 10000 ticks a second. -/
theorem Settings.InLimits.ditTicks_le {s : Settings} (h : s.InLimits) : s.ditTicks ≤ 2400 := by
  obtain ⟨⟨hwpm, -⟩, -, -, -, hrate⟩ := h
  unfold ditTicks
  have hround := Rounding.nearest_le_two_mul (12 * max s.tickRate 1) (10 * max s.wpm 1)
  generalize Rounding.nearest (12 * max s.tickRate 1) (10 * max s.wpm 1) = n at hround
  rcases Nat.lt_or_ge 2400 n with hlarge | hsmall
  · -- a quotient as large as that would need a speed below the limit
    have hmul := Nat.mul_le_mul_left (2 * (10 * max s.wpm 1)) hlarge
    omega
  · omega

namespace Session

variable {s : Session} {ops : List Operation} {i : Nat} {x y : Beat} {e e' : Element}

/-- The space after a key up is far too short for the counter of the timer to end. -/
theorem Tuned.space_lt_top (h : s.Tuned) (hx : (s.beats ops)[i]? = some x) :
    x.moment.timing.space < Counter.top := by
  obtain ⟨s', now, p, -, hs', -, rfl, -⟩ := h.split hx
  have hfair := hs'.ready now
  have htiming : (s'.beat now p).moment.timing
      = (s'.keyer.ready s'.store now).machine.settings.timing := hfair.timing
  have hdit : (s'.keyer.ready s'.store now).machine.settings.ditTicks ≤ 2400 :=
    hfair.settings.ditTicks_le
  rw [htiming]
  show (s'.keyer.ready s'.store now).machine.settings.ditTicks < Counter.top
  unfold Counter.top
  omega

/-- No gap is told on the tick of a transition. -/
theorem Tuned.not_tells_gap (h : s.Tuned) (hx : (s.beats ops)[i]? = some x) {t : Transition}
    (ht : x.moment.transition = some t) (g : Gap) : ¬ x.Tells (.gap g) := by
  obtain ⟨s', now, p, -, -, -, rfl, -⟩ := h.split hx
  rw [tells_gap_iff, ht]
  cases t <;> nofun

/-- After the tick of a key up the timer waits for the end of the character. -/
theorem gaps_of_keyUp {now : Int} {p : Paddles}
    (hup : (s.beat now p).moment.transition = some (.keyUp e)) :
    (s.perform (.tick now p)).2.keyer.gaps.up = 0 ∧
      (s.perform (.tick now p)).2.keyer.gaps.pending = some .character := by
  rw [perform_gaps, hup]
  exact ⟨rfl, rfl⟩

/-- **Within the space after a key up** a gap is told exactly if on one of its ticks the key has
    been up for two dits of the speed in force. -/
theorem Tuned.gap_in_space_iff (h : s.Tuned) (hreset : ∀ now, .reset now ∉ ops)
    (hx : (s.beats ops)[i]? = some x) (hup : x.moment.transition = some (.keyUp e)) :
    (∃ j z g, 0 < j ∧ j < x.moment.timing.space ∧ (s.beats ops)[i + j]? = some z ∧
        z.Tells (.gap g)) ↔
      ∃ j z, 0 < j ∧ j < x.moment.timing.space ∧ (s.beats ops)[i + j]? = some z ∧
        2 * z.moment.timing.dit ≤ j := by
  have htop := h.space_lt_top hx
  have hquiet := h.space_beats hreset hx hup
  obtain ⟨s', now, p, ops', hs', hops, rfl, hrest⟩ := h.split hx
  obtain ⟨hzero, hpending⟩ := gaps_of_keyUp hup
  have hiff := (hs'.perform (.tick now p)).gap_iff_of_silent
    (fun t ht => hreset t (hops ht)) hpending (n := (s'.beat now p).moment.timing.space - 1)
    (by omega)
    fun j z hj hz => hquiet (j + 1) z (Nat.succ_pos j) ((hrest j).trans hz) (by omega)
  rw [hzero] at hiff
  constructor
  · rintro ⟨j, z, g, hpos, hj, hz, hg⟩
    obtain ⟨j, rfl⟩ := Nat.exists_eq_succ_of_ne_zero (Nat.pos_iff_ne_zero.mp hpos)
    obtain ⟨k, y, hk, hy, hle⟩ := hiff.mp ⟨j, z, g, by omega, (hrest j).symm.trans hz, hg⟩
    exact ⟨k + 1, y, Nat.succ_pos k, by omega, (hrest k).trans hy, by rwa [Nat.zero_add] at hle⟩
  · rintro ⟨j, z, hpos, hj, hz, hle⟩
    obtain ⟨j, rfl⟩ := Nat.exists_eq_succ_of_ne_zero (Nat.pos_iff_ne_zero.mp hpos)
    obtain ⟨k, y, g, hk, hy, hg⟩ := hiff.mpr
      ⟨j, z, by omega, (hrest j).symm.trans hz, by rwa [Nat.zero_add]⟩
    exact ⟨k + 1, y, g, Nat.succ_pos k, by omega, (hrest k).trans hy, hg⟩

/-- **Gaps between two elements.**  Whatever is written to the store before the keyer is made and
    between its ticks, reset apart: if the key goes down on the tick that completes the space after
    a key up, then a gap is published between the two exactly if on some tick of the space the key
    has been up for two dits of the speed in force on that tick. -/
theorem gap_between_elements_iff (early : List Write) (ops : List Operation)
    (hreset : ∀ now, .reset now ∉ ops) :
    let s := ofStore (Store.written early)
    Effects.published (s.effects ops) = Effects.published ((s.beats ops).map (·.effects)) ∧
      ∀ (i : Nat) (x y : Beat) (e e' : Element), (s.beats ops)[i]? = some x → x.Tells (.keyUp e) →
        (s.beats ops)[i + x.moment.timing.space]? = some y → y.Tells (.keyDown e') →
        ((∃ j z g, j ≤ x.moment.timing.space ∧ (s.beats ops)[i + j]? = some z ∧
            z.Tells (.gap g)) ↔
          ∃ j z, 0 < j ∧ j < x.moment.timing.space ∧ (s.beats ops)[i + j]? = some z ∧
            2 * z.moment.timing.dit ≤ j) := by
  intro s
  have htuned : s.Tuned := tuned_ofStore (Store.inLimits_written early)
  refine ⟨s.published_beats hreset, fun i x y e e' hx hup hy hdown => ?_⟩
  have hup := (htuned.tells_transition hx (.keyUp e)).mp hup
  have hdown := (htuned.tells_transition hy (.keyDown e')).mp hdown
  rw [← htuned.gap_in_space_iff hreset hx hup]
  constructor
  · rintro ⟨j, z, g, hj, hz, hg⟩
    refine ⟨j, z, g, Nat.pos_of_ne_zero ?_, Nat.lt_of_le_of_ne hj ?_, hz, hg⟩
    · -- on the tick of the key up no gap is told
      rintro rfl
      obtain rfl := Option.some.inj (hx.symm.trans hz)
      exact htuned.not_tells_gap hx hup g hg
    · -- nor on that of the key down
      rintro rfl
      obtain rfl := Option.some.inj (hy.symm.trans hz)
      exact htuned.not_tells_gap hy hdown g hg
  · rintro ⟨j, z, g, -, hj, hz, hg⟩
    exact ⟨j, z, g, Nat.le_of_lt hj, hz, hg⟩

/-- The dit paddle held for 61 ticks, a thousand a second; after 41 of them, which is in the space
    between two dits at 40 words a minute, a new speed is written. -/
def heldThrough (speed : Nat) : List Operation :=
  (List.range 41).map (fun k => .tick (1000 * k) ⟨true, false⟩) ++ .write (.wpm speed)
    :: (List.range 20).map fun k => .tick (1000 * (41 + k)) ⟨true, false⟩

theorem reset_not_mem_heldThrough (speed : Nat) (now : Int) : .reset now ∉ heldThrough speed := by
  simp [heldThrough]

/-- At 60 words a minute two dits are still longer than the space, and no gap is published. -/
theorem gap_between_elements_iff_sixty :
    let ops := heldThrough 60
    let s := ofStore (Store.written [.tickRate 1000, .wpm 40])
    (∀ now, .reset now ∉ ops) ∧
      ∃ x y, (s.beats ops)[30]? = some x ∧ x.Tells (.keyUp .dit) ∧ x.moment.timing.space = 30 ∧
        (s.beats ops)[60]? = some y ∧ y.Tells (.keyDown .dit) ∧ y.moment.timing.space = 20 ∧
        ¬ ∃ j z g, j ≤ 30 ∧ (s.beats ops)[30 + j]? = some z ∧ z.Tells (.gap g) := by
  intro ops s
  have hreset := reset_not_mem_heldThrough 60
  have hx : (s.beats ops)[30]?.map (fun x => (decide (x.Tells (.keyUp .dit)), x.moment.timing.space))
      = some (true, 30) := by decide +kernel
  have hy : (s.beats ops)[60]?.map
      (fun y => (decide (y.Tells (.keyDown .dit)), y.moment.timing.space)) = some (true, 20) := by
    decide +kernel
  have hdits : ∀ z ∈ s.beats ops, 20 ≤ z.moment.timing.dit := by decide +kernel
  obtain ⟨x, hx, hpair⟩ := Option.map_eq_some_iff.mp hx
  obtain ⟨hup, hspace⟩ := Prod.mk.inj hpair
  obtain ⟨y, hy, hpair⟩ := Option.map_eq_some_iff.mp hy
  obtain ⟨hdown, hdit⟩ := Prod.mk.inj hpair
  refine ⟨hreset, x, y, hx, of_decide_eq_true hup, hspace, hy, of_decide_eq_true hdown, hdit, ?_⟩
  have hiff := (gap_between_elements_iff [.tickRate 1000, .wpm 40] ops hreset).2 30 x y .dit .dit hx
    (of_decide_eq_true hup) (by rw [hspace]; exact hy) (of_decide_eq_true hdown)
  rw [hspace] at hiff
  rw [hiff]
  rintro ⟨j, z, -, hj, hz, hle⟩
  have hdit := hdits z (List.mem_of_getElem? hz)
  omega

/-- **A change of speed can split a character**: at 100 words a minute two dits are shorter than
    the space, and the end of the character is published before the next dit begins. -/
theorem character_split :
    let ops := heldThrough 100
    let s := ofStore (Store.written [.tickRate 1000, .wpm 40])
    (∀ now, .reset now ∉ ops) ∧
      ∃ x y z, (s.beats ops)[30]? = some x ∧ x.Tells (.keyUp .dit) ∧
        (s.beats ops)[30 + x.moment.timing.space]? = some y ∧ y.Tells (.keyDown .dit) ∧
        24 < x.moment.timing.space ∧ (s.beats ops)[30 + 24]? = some z ∧
        z.Tells (.gap .character) := by
  intro ops s
  have hx : (s.beats ops)[30]?.map (fun x => (decide (x.Tells (.keyUp .dit)), x.moment.timing.space))
      = some (true, 30) := by decide +kernel
  have hy : (s.beats ops)[60]?.map (fun y => decide (y.Tells (.keyDown .dit))) = some true := by
    decide +kernel
  have hz : (s.beats ops)[54]?.map (fun z => decide (z.Tells (.gap .character))) = some true := by
    decide +kernel
  obtain ⟨x, hx, hpair⟩ := Option.map_eq_some_iff.mp hx
  obtain ⟨hup, hspace⟩ := Prod.mk.inj hpair
  obtain ⟨y, hy, hdown⟩ := Option.map_eq_some_iff.mp hy
  obtain ⟨z, hz, hgap⟩ := Option.map_eq_some_iff.mp hz
  refine ⟨reset_not_mem_heldThrough 100, x, y, z, hx, of_decide_eq_true hup, ?_,
    of_decide_eq_true hdown, ?_, hz, of_decide_eq_true hgap⟩
  · rw [hspace]
    exact hy
  · omega

end Session

end IambicKeyer

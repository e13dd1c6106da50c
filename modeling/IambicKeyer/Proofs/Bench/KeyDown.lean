/-
  How long the key is down, on the clock.

  1. **Ticks** — an element keeps the key down for as many ticks as its mark has, and on a punctual
     clock the ticks of a loop come one period after the other.

  2. **Rounding** — the period is a whole number of microseconds, rounded down, and the ticks add
     up the part that is left out: over a mark of `n` ticks at rate `r` the key is down
     `n * (1000000 % r) / r` microseconds less than `n` ticks of the rate last (`markMicros_eq`).

  3. **`key_down_time`** — so the time is right at the rates that divide a second, and short at the
     others, by several periods for a long mark (`dit_cut_short`).
-/
import IambicKeyer.Proofs.Bench.Rounds

namespace IambicKeyer

/-! ## Durations in microseconds -/

namespace Timing

/-- A mark in microseconds, rounded down; for a dit this is `ditMicros`. -/
def markMicros (t : Timing) (e : Element) : Nat := t.mark e * 1000000 / t.rate

/-- What the period leaves out of a mark. -/
def shortfall (t : Timing) (e : Element) : Nat := t.mark e * (1000000 % t.rate) / t.rate

/-- **A mark is as many periods as it has ticks, and what the period leaves out.** -/
theorem markMicros_eq {t : Timing} (hrate : 0 < t.rate) (e : Element) :
    t.markMicros e = t.mark e * t.tickMicros + t.shortfall e := by
  unfold markMicros shortfall tickMicros
  have hsecond : t.mark e * 1000000
      = t.mark e * (1000000 % t.rate) + t.rate * (t.mark e * (1000000 / t.rate)) := by
    have hdiv := Nat.mod_add_div 1000000 t.rate
    calc t.mark e * 1000000
        = t.mark e * (1000000 % t.rate + t.rate * (1000000 / t.rate)) := by rw [hdiv]
      _ = t.mark e * (1000000 % t.rate) + t.mark e * (t.rate * (1000000 / t.rate)) :=
          Nat.mul_add _ _ _
      _ = t.mark e * (1000000 % t.rate) + t.rate * (t.mark e * (1000000 / t.rate)) := by
          rw [Nat.mul_left_comm]
  rw [hsecond, Nat.add_mul_div_left _ _ hrate, Nat.add_comm]

/-- Rates that divide a second leave nothing out. -/
theorem shortfall_of_dvd {t : Timing} (h : t.rate ∣ 1000000) (e : Element) :
    t.shortfall e = 0 := by
  unfold shortfall
  rw [Nat.mod_eq_zero_of_dvd h, Nat.mul_zero, Nat.zero_div]

end Timing

/-! ## Keying on a round -/

/-- The key line follows the transition at the time, and the transition is published. -/
structure Effects.Keys (x : Effects) (t : Transition) (time : Int) : Prop where
  keying : x.keying = [⟨t.isDown, time⟩]
  event : ⟨time, .ofTransition t⟩ ∈ x.events

instance (x : Effects) (t : Transition) (time : Int) : Decidable (x.Keys t time) :=
  decidable_of_iff (x.keying = [⟨t.isDown, time⟩] ∧ ⟨time, .ofTransition t⟩ ∈ x.events)
    ⟨fun h => ⟨h.1, h.2⟩, fun h => ⟨h.keying, h.event⟩⟩

namespace Loop

section

variable {κ : Type} [Clock κ] {store : Store} {l : Loop κ} {n i : Nat}

/-- What a round gives out is what its tick does. -/
theorem beat_of_played {x : Effects} (hx : (l.played store n)[i]? = some x) :
    ∃ b, ((l.session store).beats (l.ticks store n))[i]? = some b ∧
      b.effects.events = x.events ∧ b.effects.keying = x.keying := by
  have hmap := congrArg (·[i]?) (l.played_session store n)
  simp only [List.getElem?_map, hx] at hmap
  obtain ⟨b, hb, hpair⟩ := Option.map_eq_some_iff.mp hmap.symm
  exact ⟨b, hb, (Prod.mk.inj hpair).1, (Prod.mk.inj hpair).2⟩

/-- Every tick is played on a round. -/
theorem played_of_beat {b : Beat}
    (hb : ((l.session store).beats (l.ticks store n))[i]? = some b) :
    ∃ x, (l.played store n)[i]? = some x ∧ x.keying = b.effects.keying := by
  have hmap := congrArg (·[i]?) (l.played_session store n)
  simp only [List.getElem?_map, hb] at hmap
  obtain ⟨x, hx, hpair⟩ := Option.map_eq_some_iff.mp hmap
  exact ⟨x, hx, (Prod.mk.inj hpair).2⟩

/-- **A round that keys** is a tick on which the machine makes the transition. -/
theorem beat_of_keys (h : (l.session store).Tuned) {x : Effects} {t : Transition} {time : Int}
    (hx : (l.played store n)[i]? = some x) (hkeys : x.Keys t time) :
    ∃ b, ((l.session store).beats (l.ticks store n))[i]? = some b ∧
      b.moment.transition = some t ∧ b.time = time := by
  obtain ⟨b, hb, hevents, hkeying⟩ := beat_of_played hx
  have htells : b.Tells (.ofTransition t) := by
    unfold Beat.Tells
    rw [hevents]
    exact List.mem_map.mpr ⟨_, hkeys.event, rfl⟩
  have ht := (h.tells_transition hb t).mp htells
  refine ⟨b, hb, ht, ?_⟩
  have hline := h.keying hb
  rw [hkeying, hkeys.keying, ht] at hline
  exact (KeyChange.mk.inj (List.cons.inj hline).1).2.symm

/-- On a round that leaves the line alone the machine makes no transition. -/
theorem silent_of_quiet (h : (l.session store).Tuned) {b : Beat}
    (hb : ((l.session store).beats (l.ticks store n))[i]? = some b)
    (hquiet : ∀ x, (l.played store n)[i]? = some x → x.keying = []) :
    b.moment.transition = none := by
  obtain ⟨x, hx, hkeying⟩ := played_of_beat hb
  have hline := h.keying hb
  rw [← hkeying, hquiet x hx] at hline
  rcases htransition : b.moment.transition with _ | t
  · rfl
  · rw [htransition] at hline
    nomatch hline

end

/-! ## The time between key down and key up -/

/-- **How long the key is down.**  A loop with accepted settings on a punctual clock ends, whatever
    the script; and if the key goes down on one of its rounds and next up on another, it goes up
    for the same element and has been down for one period per tick of the mark.  The element is
    short by what the period leaves out, and has its full time if the rate divides a second. -/
theorem key_down_time {store : Store} (haccepted : store.settings.check = .ok ())
    (steps : List ScriptStep) (start : Int) :
    let t := store.settings.timing
    let l := ofScript store steps ({ now := start } : BenchClock)
    let played := l.played store l.rounds
    (∃ (waited : Effects) (last : Loop BenchClock) (clock' : BenchClock), waited.keying = [] ∧
      l.run? store l.rounds = some (played ++ waited :: last.stop.1, clock')) ∧
    ∀ (i j : Nat) (x y : Effects) (e e' : Element) (down up : Int), i < j →
      played[i]? = some x → x.Keys (.keyDown e) down →
      played[j]? = some y → y.Keys (.keyUp e') up →
      (∀ k z, i < k → k < j → played[k]? = some z → z.keying = []) →
      e' = e ∧ up - down = t.mark e * t.tickMicros ∧
        t.markMicros e - (up - down) = t.shortfall e ∧
        (t.rate ∣ 1000000 → up - down = t.markMicros e) := by
  intro t l played
  have hlimits := store.settings.check_eq_ok_iff.mp haccepted
  have hontime : l.OnTime store start := onTime_ofScript store steps start
  have htuned : (l.session store).Tuned := Session.tuned_ofStore hlimits
  refine ⟨?_, fun i j x y e e' down up hij hx hdown hy hup hquiet => ?_⟩
  · obtain ⟨⟨es, clock'⟩, hrun⟩ := Option.isSome_iff_exists.mp (run?_isSome hlimits steps start)
    obtain ⟨waited, last, hnone, hes⟩ := runFrom?_eq_some hrun
    exact ⟨waited, last, clock', hnone, by rw [hrun, hes]; rfl⟩
  · obtain ⟨a, ha, hadown, hatime⟩ := beat_of_keys htuned hx hdown
    obtain ⟨b, hb, hbup, hbtime⟩ := beat_of_keys htuned hy hup
    obtain ⟨helem, hj⟩ := htuned.keyUp_after (l.reset_not_mem_ticks l.rounds) ha hadown hij hb hbup
      fun k z hik hkj hz => silent_of_quiet htuned hz fun w hw => hquiet k w hik hkj hw
    obtain ⟨hatick, htiming⟩ := hontime.beat ha
    obtain ⟨hbtick, -⟩ := hontime.beat hb
    have htime : up - down = t.mark e * t.tickMicros := by
      rw [hatime] at hatick
      rw [hbtime, hj, htiming, Int.natCast_add, Int.add_mul] at hbtick
      show up - down = store.settings.timing.mark e * store.settings.timing.tickMicros
      omega
    have hmicros := t.markMicros_eq (Nat.lt_of_lt_of_le Nat.zero_lt_one (Nat.le_max_right _ 1)) e
    have hshort : (t.markMicros e : Int) - (up - down) = t.shortfall e := by
      rw [htime, hmicros, Int.natCast_add, Int.natCast_mul]
      omega
    refine ⟨helem, htime, hshort, fun hdvd => ?_⟩
    rw [t.shortfall_of_dvd hdvd] at hshort
    omega

/-- A dit of 36 ticks at 3000 ticks a second, played from time 70 on: 333 microseconds a tick make
    12 microseconds less than a dit has. -/
theorem key_down_time_dit :
    let store : Store := { settings := { wpm := 100, tickRate := 3000 } }
    let l := ofScript store [⟨⟨true, false⟩, 3⟩, ⟨.idle, 15⟩] ({ now := 70 } : BenchClock)
    let played := l.played store l.rounds
    store.settings.check = .ok () ∧
      ∃ x y, played[0]? = some x ∧ x.Keys (.keyDown .dit) 70 ∧ played[36]? = some y ∧
        y.Keys (.keyUp .dit) 12058 ∧
        (∀ k z, 0 < k → k < 36 → played[k]? = some z → z.keying = []) ∧
        store.settings.timing.ditMicros - (12058 - 70 : Int) = 12 := by
  intro store l played
  have haccepted : store.settings.check = .ok () := rfl
  have hx : played[0]?.any (fun x => decide (x.Keys (.keyDown .dit) 70)) = true := by
    decide +kernel
  have hy : played[36]?.any (fun y => decide (y.Keys (.keyUp .dit) 12058)) = true := by
    decide +kernel
  have hbetween : ∀ z ∈ (played.take 36).drop 1, z.keying = [] := by decide +kernel
  have hquiet : ∀ k z, 0 < k → k < 36 → played[k]? = some z → z.keying = [] := by
    intro k z hpos hk hz
    refine hbetween z (List.mem_of_getElem? (i := k - 1) ?_)
    rw [List.getElem?_drop, List.getElem?_take, if_pos (by omega), ← hz]
    congr 1
    omega
  obtain ⟨x, hx, hdown⟩ := (Option.any_eq_true _ _).mp hx
  obtain ⟨y, hy, hup⟩ := (Option.any_eq_true _ _).mp hy
  have hdown := of_decide_eq_true hdown
  have hup := of_decide_eq_true hup
  obtain ⟨-, -, hshort, -⟩ := (key_down_time haccepted _ 70).2 0 36 x y .dit .dit 70 12058
    (by omega) hx hdown hy hup hquiet
  have hditShort : store.settings.timing.shortfall .dit = 12 := by decide
  rw [hditShort] at hshort
  exact ⟨haccepted, x, y, hx, hdown, hy, hup, hquiet, hshort⟩

/-- **A dit can be too short by more than a tick**: at 9901 ticks a second a period is rounded down
    from almost 101 microseconds to 100, and the 119 ticks of a dit at 100 words a minute take
    11900 microseconds instead of 12018. -/
theorem dit_cut_short :
    let store : Store := { settings := { wpm := 100, tickRate := 9901 } }
    let l := ofScript store [⟨⟨true, false⟩, 1⟩, ⟨.idle, 14⟩] ({} : BenchClock)
    let played := l.played store l.rounds
    store.settings.check = .ok () ∧ (l.run? store l.rounds).isSome ∧
      Effects.published (played.take 1) = [⟨0, .paddles ⟨true, false⟩⟩, ⟨0, .keyDown .dit⟩] ∧
      Effects.published (played.drop 119) = [⟨11900, .keyUp .dit⟩] ∧
      Effects.keyed played = [⟨true, 0⟩, ⟨false, 11900⟩] ∧
      store.settings.timing.tickMicros < store.settings.timing.ditMicros - (11900 - 0) := by
  intro store l played
  exact ⟨rfl, by decide +kernel, by decide +kernel, by decide +kernel, by decide +kernel,
    by decide⟩

end Loop

end IambicKeyer

/-
  At a constant speed the gaps come exactly two and five dits after a key up.

  1. **Silence** — the ticks since the key went up, as the transitions tell it (`hush`).

  2. **The parts** — the gap timer counts the silence (`GapTimer.Follows`), and the machine sends no
     space that is longer than a dit (`Machine.Heard`).  One step lemma each.

  3. **Sessions** (`Session.Steady`) — nothing is written to the store, so the unit stays the same,
     and a tick keeps both.  `Steady.gaps` says for a whole run what every tick tells: the gap that
     the silence has just become long enough for.

  4. **The observer** (`LastUp`) who sees only what is published finds the silence again: it is the
     distance to the last transition, if that was a key up (`hushed_eq_some_iff`).
     `gaps_at_constant_speed` is put together from the two.
-/
import IambicKeyer.Proofs.Keyer.Spaces

namespace IambicKeyer

/-! ## Silence -/

/-- The silence after a tick: the ticks since the key went up, `none` while it is down and before it
    has ever gone up. -/
def hush (silence : Option Nat) : Option Transition → Option Nat
  | some (.keyUp _) => some 0
  | some (.keyDown _) => none
  | none => silence.map (· + 1)

namespace Gap

variable {unit n : Nat} {gap : Gap}

/-- The gap that is over when the key has been up for exactly `n` ticks, at `unit` ticks a dit. -/
def completed (unit n : Nat) : Option Gap :=
  if n = 2 * unit then some .character
  else if n = 5 * unit then some .word
  else none

/-- The gap that is waited for once the key has been up for `n` ticks. -/
def awaited (unit n : Nat) : Option Gap :=
  if n < 2 * unit then some .character
  else if n < 5 * unit then some .word
  else none

theorem completed_eq_character : completed unit n = some .character ↔ n = 2 * unit := by
  unfold completed
  constructor
  · intro h
    by_cases hcharacter : n = 2 * unit
    · exact hcharacter
    · -- what is over at any other time is a word
      rw [if_neg hcharacter] at h
      split at h <;> nomatch h
  · intro h
    rw [if_pos h]

theorem completed_eq_word (hunit : 0 < unit) : completed unit n = some .word ↔ n = 5 * unit := by
  unfold completed
  constructor
  · intro h
    by_cases hcharacter : n = 2 * unit
    · -- a character is over, not a word
      rw [if_pos hcharacter] at h
      nomatch h
    · by_cases hword : n = 5 * unit
      · exact hword
      · rw [if_neg hcharacter, if_neg hword] at h
        nomatch h
  · intro h
    rw [if_neg (by omega), if_pos h]

/-- No gap is over within two dits. -/
theorem completed_of_lt (h : n < 2 * unit) : completed unit n = none := by
  unfold completed
  rw [if_neg (by omega), if_neg (by omega)]

theorem awaited_eq_some : awaited unit n = some gap ↔
    (gap = .character ∧ n < 2 * unit) ∨ (gap = .word ∧ 2 * unit ≤ n ∧ n < 5 * unit) := by
  unfold awaited
  by_cases hcharacter : n < 2 * unit
  · -- within two dits
    rw [if_pos hcharacter]
    constructor
    · intro h
      exact Or.inl ⟨(Option.some.inj h).symm, hcharacter⟩
    · rintro (⟨rfl, -⟩ | ⟨-, hword, -⟩)
      · rfl
      · omega
  · rw [if_neg hcharacter]
    by_cases hword : n < 5 * unit
    · -- between two dits and five
      rw [if_pos hword]
      constructor
      · intro h
        exact Or.inr ⟨(Option.some.inj h).symm, by omega, hword⟩
      · rintro (⟨-, h⟩ | ⟨rfl, -⟩)
        · exact absurd h hcharacter
        · rfl
    · -- later
      rw [if_neg hword]
      constructor
      · intro h
        nomatch h
      · omega

/-- After the word gap there is nothing to wait for. -/
theorem awaited_eq_none : awaited unit n = none ↔ 5 * unit ≤ n := by
  unfold awaited
  by_cases hcharacter : n < 2 * unit
  · rw [if_pos hcharacter]
    exact ⟨fun h => (nomatch h), fun h => by omega⟩
  · rw [if_neg hcharacter]
    by_cases hword : n < 5 * unit
    · rw [if_pos hword]
      exact ⟨fun h => (nomatch h), fun h => by omega⟩
    · rw [if_neg hword]
      exact ⟨fun _ => by omega, fun _ => rfl⟩

/-- A gap that is waited for is the next one to be over, and then the one that follows it is waited
    for. -/
theorem succ_of_awaited (h : awaited unit n = some gap) :
    (gap.dits * unit ≤ n + 1 →
      completed unit (n + 1) = some gap ∧ awaited unit (n + 1) = gap.following) ∧
    (¬ gap.dits * unit ≤ n + 1 →
      completed unit (n + 1) = none ∧ awaited unit (n + 1) = some gap) := by
  rcases awaited_eq_some.mp h with ⟨rfl, hlt⟩ | ⟨rfl, hle, hlt⟩
  · -- the end of a character is waited for: it is over on its tick, and then a word is waited for
    constructor
    · intro (hover : 2 * unit ≤ n + 1)
      exact ⟨completed_eq_character.mpr (by omega),
        awaited_eq_some.mpr (Or.inr ⟨rfl, by omega, by omega⟩)⟩
    · intro (hover : ¬ 2 * unit ≤ n + 1)
      exact ⟨completed_of_lt (by omega), awaited_eq_some.mpr (Or.inl ⟨rfl, by omega⟩)⟩
  · -- the end of a word is waited for: it is over on its tick, and then nothing is
    constructor
    · intro (hover : 5 * unit ≤ n + 1)
      exact ⟨(completed_eq_word (by omega)).mpr (by omega), awaited_eq_none.mpr (by omega)⟩
    · intro (hover : ¬ 5 * unit ≤ n + 1)
      refine ⟨?_, awaited_eq_some.mpr (Or.inr ⟨rfl, by omega, by omega⟩)⟩
      unfold completed
      rw [if_neg (by omega), if_neg (by omega)]

/-- When there is nothing to wait for, no gap is over any more. -/
theorem succ_of_awaited_none (h : awaited unit n = none) :
    completed unit (n + 1) = none ∧ awaited unit (n + 1) = none := by
  have hlate := awaited_eq_none.mp h
  constructor
  · unfold completed
    rw [if_neg (by omega), if_neg (by omega)]
  · exact awaited_eq_none.mpr (by omega)

end Gap

/-! ## The timer counts the silence -/

namespace GapTimer

/-- **The timer knows how long it has been silent**, as long as there is a gap to wait for. -/
structure Follows (d : Nat) (silence : Option Nat) (g : GapTimer) : Prop where
  unit : g.unit = d
  pending : g.pending = silence.bind (Gap.awaited d)
  up : ∀ gap, g.pending = some gap → silence = some g.up

variable {d : Nat} {silence : Option Nat} {g : GapTimer}

/-- A timer that waits for no gap need not know. -/
theorem follows_of_not_pending (hunit : g.unit = d) (hpending : g.pending = none)
    (hawaited : silence.bind (Gap.awaited d) = none) : g.Follows d silence where
  unit := hunit
  pending := hpending.trans hawaited.symm
  up := by
    intro gap hgap
    rw [hpending] at hgap
    nomatch hgap

theorem follows_ofUnit (hd : 0 < d) : (ofUnit d).Follows d none :=
  follows_of_not_pending (Nat.max_eq_left hd) rfl rfl

/-- A silent tick on which no gap is waited for. -/
theorem tick_done (hpending : g.pending = none) : g.tick none = (none, g) := by
  simp only [GapTimer.tick, hpending]

/-- A silent tick on which a gap is waited for. -/
theorem Follows.wait (h : g.Follows d silence) {gap : Gap} (hpending : g.pending = some gap)
    (htop : 5 * d ≤ Counter.top) :
    (g.wait gap).1 = Gap.completed d (g.up + 1) ∧ (g.wait gap).2.Follows d (some (g.up + 1)) := by
  have hawaited : Gap.awaited d g.up = some gap := by
    rw [← hpending, h.pending, h.up gap hpending]
    rfl
  have hcount : Counter.saturating g.up = g.up + 1 := by
    rcases Gap.awaited_eq_some.mp hawaited with ⟨-, hlt⟩ | ⟨-, -, hlt⟩
    · exact Counter.saturating_of_lt (by omega)
    · exact Counter.saturating_of_lt (by omega)
  obtain ⟨hends, hgoes⟩ := Gap.succ_of_awaited hawaited
  unfold GapTimer.wait
  rw [hcount, h.unit]
  by_cases hover : gap.dits * d ≤ g.up + 1
  · -- the gap is over on this tick
    obtain ⟨hcompleted, hnext⟩ := hends hover
    rw [if_pos hover]
    exact ⟨hcompleted.symm, rfl, hnext.symm, fun _ _ => rfl⟩
  · -- it goes on
    obtain ⟨hcompleted, hnext⟩ := hgoes hover
    rw [if_neg hover]
    exact ⟨hcompleted.symm, rfl, hpending.trans hnext.symm, fun _ _ => rfl⟩

/-- **On every tick the timer reports the gap that the silence has become long enough for.** -/
theorem Follows.tick (h : g.Follows d silence) (hd : 0 < d) (htop : 5 * d ≤ Counter.top)
    (t : Option Transition) :
    (g.tick t).1 = (hush silence t).bind (Gap.completed d) ∧
      (g.tick t).2.Follows d (hush silence t) := by
  rcases t with _ | e | e
  · cases hpending : g.pending with
    | none =>
      rw [tick_done hpending]
      have hawaited := h.pending.symm.trans hpending
      cases silence with
      | none => exact ⟨rfl, h⟩
      | some n =>
        obtain ⟨hcompleted, hnext⟩ := Gap.succ_of_awaited_none hawaited
        exact ⟨hcompleted.symm, follows_of_not_pending h.unit hpending hnext⟩
    | some gap =>
      rw [tick_silent hpending, h.up gap hpending]
      exact h.wait hpending htop
  · -- a key down ends the silence, and nothing is waited for
    exact ⟨rfl, follows_of_not_pending h.unit rfl rfl⟩
  · -- the tick of a key up counts as zero, and no gap is that short
    have hzero : Gap.awaited d 0 = some .character :=
      Gap.awaited_eq_some.mpr (Or.inl ⟨rfl, by omega⟩)
    exact ⟨(Gap.completed_of_lt (by omega)).symm, h.unit, hzero.symm, fun _ _ => rfl⟩

end GapTimer

/-! ## The machine and the silence -/

namespace Machine

/-- **While the key is down there is no silence, and a space under way is a silence of at most `d`
    ticks.** -/
structure Heard (d : Nat) (silence : Option Nat) (m : Machine) : Prop where
  mark : ∀ s, m.sending = some s → s.phase = .mark → silence = none
  space : ∀ s, m.sending = some s → s.phase = .space → ∃ n, silence = some n ∧ n + s.left ≤ d

variable {m : Machine} {d : Nat} {silence : Option Nat}

theorem heard_idle (h : m.sending = none) : m.Heard d silence where
  mark := by
    intro s hs
    rw [h] at hs
    nomatch hs
  space := by
    intro s hs
    rw [h] at hs
    nomatch hs

/-- An element that starts ends the silence. -/
theorem heard_start (p : Paddles) (e : Element) (m : Machine) : (m.start p e).2.Heard d none where
  mark := fun _ _ _ => rfl
  space := by
    intro s hs hphase
    obtain rfl := Option.some.inj hs
    nomatch hphase

/-- **A tick keeps it**, one case per way it can go. -/
theorem Heard.tick (h : m.Heard d silence) (hspace : m.timing.space = d) (p : Paddles) :
    (m.tick p).2.Heard d (hush silence (m.tick p).1.transition) := by
  have hcase := m.ticked p
  generalize m.tick p = r at hcase ⊢
  cases hcase with
  | rest hidle => exact heard_idle hidle
  | start e => exact heard_start p e m
  | next s e => exact heard_start p e _
  | stop => exact heard_idle rfl
  | going s hs hleft =>
    constructor
    · intro s' hs' hphase
      obtain rfl := Option.some.inj hs'
      rw [h.mark s hs hphase]
      rfl
    · -- the silence is a tick longer, and the space a tick shorter
      intro s' hs' hphase
      obtain rfl := Option.some.inj hs'
      obtain ⟨n, rfl, hn⟩ := h.space s hs hphase
      refine ⟨n + 1, rfl, ?_⟩
      have hmore : s.left - 1 ≠ 0 := hleft
      show n + 1 + (s.left - 1) ≤ d
      omega
  | release s hs =>
    constructor
    · intro s' hs' hphase
      obtain rfl := Option.some.inj hs'
      nomatch hphase
    · -- the silence begins, and so does the space, which is a dit long
      intro s' hs' _
      obtain rfl := Option.some.inj hs'
      refine ⟨0, rfl, ?_⟩
      show 0 + m.timing.space ≤ d
      omega

/-- While a machine is sending no gap is over. -/
theorem Heard.completed_eq_none (h : m.Heard d silence) (hd : 0 < d) (hstate : m.state ≠ none) :
    silence.bind (Gap.completed d) = none := by
  unfold state at hstate
  cases hs : m.sending with
  | none =>
    rw [hs] at hstate
    exact absurd rfl hstate
  | some s =>
    cases hphase : s.phase with
    | mark =>
      rw [h.mark s hs hphase]
      rfl
    | space =>
      obtain ⟨n, hn, hle⟩ := h.space s hs hphase
      rw [hn]
      exact Gap.completed_of_lt (by omega)

end Machine

/-! ## Sessions at a constant speed -/

/-- The gap that an event tells, if it tells one. -/
def Event.gap? : Event → Option Gap
  | .gap g => some g
  | _ => none

/-- The gaps that are told on a tick. -/
def Beat.gaps (b : Beat) : List Gap := b.effects.events.filterMap (·.event.gap?)

/-- The silence after a list of ticks. -/
def hushed (silence : Option Nat) (xs : List Beat) : Option Nat :=
  xs.foldl (fun n b => hush n b.moment.transition) silence

theorem hushed_take {silence : Option Nat} {xs : List Beat} {t : Nat} {x : Beat}
    (hx : xs[t]? = some x) :
    hushed silence (xs.take (t + 1)) = hush (hushed silence (xs.take t)) x.moment.transition := by
  unfold hushed
  rw [List.take_add_one, hx, List.foldl_append]
  rfl

namespace Session

variable {s : Session} {silence : Option Nat}

/-- A tick tells what its timer reports. -/
theorem beat_gaps (s : Session) (now : Int) (p : Paddles) :
    (s.beat now p).gaps
      = ((s.keyer.ready s.store now).gaps.tick (s.beat now p).moment.transition).1.toList := by
  have hcontacts : ∀ (time : Int) (k : Keyer),
      (k.contactEvents time p).filterMap (·.event.gap?) = [] := by
    intro time k
    unfold Keyer.contactEvents
    split <;> rfl
  have hkeying : ∀ (time : Int) (t : Option Transition),
      (t.toList.map fun t => (⟨time, .ofTransition t⟩ : TimedEvent)).filterMap (·.event.gap?)
        = [] := by
    intro time t
    rcases t with _ | e | e <;> rfl
  have hqueued : ∀ (time : Int) (q : Option Element),
      (q.map (⟨time, .queued ·⟩ : Element → TimedEvent)).toList.filterMap (·.event.gap?) = [] := by
    intro time q
    cases q <;> rfl
  have hgap : ∀ (time : Int) (g : Option Gap),
      (g.map (⟨time, .gap ·⟩ : Gap → TimedEvent)).toList.filterMap (·.event.gap?) = g.toList := by
    intro time g
    cases g <;> rfl
  show (s.keyer.tick s.store now p).2.1.events.filterMap _ = _
  rw [Keyer.tick_events, Keyer.advance_events, List.filterMap_append, List.filterMap_append,
    List.filterMap_append, hcontacts, hkeying, hqueued, hgap]
  rfl

/-- **A session that stays at the settings `c`, with the silence that it has come to.** -/
structure Steady (c : Settings) (silence : Option Nat) (s : Session) : Prop where
  tuned : s.Tuned
  store : s.store.settings = c
  copy : s.keyer.copy.settings = c
  timer : s.keyer.gaps.Follows c.ditTicks silence
  machine : s.keyer.machine.Heard c.ditTicks silence

variable {c : Settings}

theorem steady_ofStore {store : Store} (h : store.settings.InLimits) :
    Steady store.settings none (ofStore store) where
  tuned := tuned_ofStore h
  store := rfl
  copy := rfl
  timer := GapTimer.follows_ofUnit store.settings.ditTicks_pos
  machine := Machine.heard_idle rfl

/-- New or old, the copy that a tick goes by is one of the same settings. -/
theorem Steady.ready_settings (h : Steady c silence s) (now : Int) :
    (s.keyer.ready s.store now).copy.settings = c := by
  rw [Keyer.ready_copy]
  split
  · exact h.store
  · exact h.copy

theorem Steady.ready_timing (h : Steady c silence s) (now : Int) :
    (s.keyer.ready s.store now).machine.timing = c.timing := by
  have htiming := (h.tuned.ready now).timing
  rw [h.ready_settings now] at htiming
  exact htiming

theorem Steady.ready_timer (h : Steady c silence s) (now : Int) :
    (s.keyer.ready s.store now).gaps.Follows c.ditTicks silence := by
  obtain ⟨hunit, hup, hpending⟩ := h.tuned.ready_gaps now .idle
  constructor
  · rw [hunit]
    exact congrArg Timing.dit (h.ready_timing now)
  · rw [hpending]
    exact h.timer.pending
  · rw [hpending, hup]
    exact h.timer.up

theorem Steady.ready_heard (h : Steady c silence s) (now : Int) :
    (s.keyer.ready s.store now).machine.Heard c.ditTicks silence := by
  constructor
  · rw [Keyer.ready_sending]
    exact h.machine.mark
  · rw [Keyer.ready_sending]
    exact h.machine.space

/-- **A tick keeps a session steady** and tells the gap that the silence has become long enough for;
    none while an element is under way. -/
theorem Steady.tick (h : Steady c silence s) (now : Int) (p : Paddles) :
    (s.perform (.tick now p)).2.Steady c (hush silence (s.beat now p).moment.transition) ∧
      (s.beat now p).gaps
        = ((hush silence (s.beat now p).moment.transition).bind (Gap.completed c.ditTicks)).toList ∧
      ((s.beat now p).moment.state ≠ none → (s.beat now p).gaps = []) := by
  have hlimits : c.InLimits := h.store ▸ h.tuned.store
  have htop : 5 * c.ditTicks ≤ Counter.top := by
    have hdit := hlimits.ditTicks_le
    unfold Counter.top
    omega
  obtain ⟨hreport, htimer⟩ :=
    (h.ready_timer now).tick c.ditTicks_pos htop (s.beat now p).moment.transition
  have hheard := (h.ready_heard now).tick (congrArg Timing.space (h.ready_timing now)) p
  have hgaps : (s.beat now p).gaps
      = ((hush silence (s.beat now p).moment.transition).bind (Gap.completed c.ditTicks)).toList := by
    rw [beat_gaps, hreport]
  refine ⟨⟨h.tuned.perform (.tick now p), h.store, ?_, htimer, hheard⟩, hgaps, ?_⟩
  · show (s.keyer.tick s.store now p).2.2.copy.settings = c
    rw [Keyer.tick_keyer, Keyer.advance_copy]
    exact h.ready_settings now
  · intro hstate
    have hnone := hheard.completed_eq_none c.ditTicks_pos hstate
    rw [hgaps]
    exact congrArg Option.toList hnone

/-- A run of ticks, one for every sample. -/
def ticks (samples : List (Int × Paddles)) : List Operation :=
  samples.map fun x => .tick x.1 x.2

theorem length_beats_ticks (s : Session) (samples : List (Int × Paddles)) :
    (s.beats (ticks samples)).length = samples.length := by
  induction samples generalizing s with
  | nil => rfl
  | cons sample samples ih => exact congrArg (· + 1) (ih _)

/-- **What every tick of a run tells** follows from the silence that it ends on. -/
theorem Steady.gaps {samples : List (Int × Paddles)} (h : Steady c silence s) {t : Nat} {x : Beat}
    (hx : (s.beats (ticks samples))[t]? = some x) :
    x.gaps = ((hushed silence ((s.beats (ticks samples)).take (t + 1))).bind
        (Gap.completed c.ditTicks)).toList ∧
      (x.moment.state ≠ none → x.gaps = []) := by
  induction samples generalizing s silence t with
  | nil => nomatch hx
  | cons sample samples ih =>
    obtain ⟨hsteady, hgaps, hidle⟩ := h.tick sample.1 sample.2
    cases t with
    | zero =>
      obtain rfl := Option.some.inj hx
      exact ⟨hgaps, hidle⟩
    | succ t => exact ih hsteady hx

end Session

/-! ## What an observer sees -/

/-- Up to tick `t` the last transition is a key up, `n` ticks before it. -/
def LastUp (xs : List Beat) (t n : Nat) : Prop :=
  ∃ (i : Nat) (y : Beat) (e : Element), i + n = t ∧ xs[i]? = some y ∧ y.Tells (.keyUp e) ∧
    ∀ j z tr, i < j → j ≤ t → xs[j]? = some z → ¬ z.Tells (.ofTransition tr)

/-- The beats tell the transitions that the machine makes. -/
def Faithful (xs : List Beat) : Prop :=
  ∀ (i : Nat) (x : Beat), xs[i]? = some x →
    ∀ tr, x.Tells (.ofTransition tr) ↔ x.moment.transition = some tr

section

variable {xs : List Beat} {t n : Nat} {x : Beat} {e : Element}

/-- On the tick of a key up the last transition is that one, -/
theorem lastUp_of_keyUp (hxs : Faithful xs) (hx : xs[t]? = some x)
    (hup : x.moment.transition = some (.keyUp e)) : LastUp xs t n ↔ n = 0 := by
  have htold : x.Tells (.ofTransition (.keyUp e)) := (hxs t x hx _).mpr hup
  constructor
  · rintro ⟨i, y, e', hit, -, -, hquiet⟩
    rcases Nat.eq_zero_or_pos n with hzero | hpos
    · exact hzero
    · -- an earlier one would not be the last
      exact absurd htold (hquiet t x _ (by omega) (Nat.le_refl t) hx)
  · rintro rfl
    refine ⟨t, x, e, rfl, hx, htold, ?_⟩
    intro j z tr hlt hle
    omega

/-- on that of a key down it is not a key up, -/
theorem not_lastUp_of_keyDown (hxs : Faithful xs) (hx : xs[t]? = some x)
    (hdown : x.moment.transition = some (.keyDown e)) : ¬ LastUp xs t n := by
  rintro ⟨i, y, e', hit, hy, hup, hquiet⟩
  have htold : x.Tells (.ofTransition (.keyDown e)) := (hxs t x hx _).mpr hdown
  rcases Nat.eq_zero_or_pos n with hzero | hpos
  · -- on this tick the key goes down
    obtain rfl : i = t := by omega
    obtain rfl := Option.some.inj (hx.symm.trans hy)
    have hboth := (hxs i x hx (.keyUp e')).mp hup
    rw [hdown] at hboth
    nomatch hboth
  · -- after an earlier one it must not
    exact hquiet t x _ (by omega) (Nat.le_refl t) hx htold

/-- and on a silent tick it is the one that it was, a tick further back. -/
theorem lastUp_of_silent (hxs : Faithful xs) (hx : xs[t]? = some x)
    (hnone : x.moment.transition = none) :
    LastUp xs t n ↔ ∃ m t', n = m + 1 ∧ t = t' + 1 ∧ LastUp xs t' m := by
  have huntold : ∀ tr, ¬ x.Tells (.ofTransition tr) := by
    intro tr htold
    have hsome := (hxs t x hx tr).mp htold
    rw [hnone] at hsome
    nomatch hsome
  constructor
  · rintro ⟨i, y, e, rfl, hy, hup, hquiet⟩
    cases n with
    | zero =>
      -- the tick itself is silent
      obtain rfl := Option.some.inj (hx.symm.trans hy)
      exact absurd hup (huntold (.keyUp e))
    | succ m =>
      refine ⟨m, i + m, rfl, rfl, i, y, e, rfl, hy, hup, ?_⟩
      intro j z tr hlt hle
      exact hquiet j z tr hlt (by omega)
  · rintro ⟨m, t', rfl, rfl, i, y, e, rfl, hy, hup, hquiet⟩
    refine ⟨i, y, e, rfl, hy, hup, ?_⟩
    intro j z tr hlt hle hz
    rcases Nat.lt_or_ge (i + m) j with hlast | hbefore
    · -- the tick that has been added is silent
      obtain rfl : j = i + m + 1 := by omega
      obtain rfl := Option.some.inj (hx.symm.trans hz)
      exact huntold tr
    · -- those before it were quiet already
      exact hquiet j z tr hlt hbefore hz

/-- The silence after a tick, if the one before it is known. -/
theorem hush_eq_some_iff (hxs : Faithful xs) (hx : xs[t]? = some x) {before : Option Nat}
    (hbefore : ∀ m, before = some m ↔ ∃ t', t = t' + 1 ∧ LastUp xs t' m) :
    hush before x.moment.transition = some n ↔ LastUp xs t n := by
  cases htr : x.moment.transition with
  | none =>
    rw [lastUp_of_silent hxs hx htr]
    show before.map (· + 1) = some n ↔ _
    rw [Option.map_eq_some_iff]
    constructor
    · -- the silence goes on from the tick before
      rintro ⟨m, hm, rfl⟩
      obtain ⟨t', ht', hlast⟩ := (hbefore m).mp hm
      exact ⟨m, t', rfl, ht', hlast⟩
    · rintro ⟨m, t', rfl, ht', hlast⟩
      exact ⟨m, (hbefore m).mpr ⟨t', ht', hlast⟩, rfl⟩
  | some tr =>
    cases tr with
    | keyDown e =>
      exact ⟨fun h => (nomatch h), fun h => absurd h (not_lastUp_of_keyDown hxs hx htr)⟩
    | keyUp e =>
      rw [lastUp_of_keyUp hxs hx htr]
      exact ⟨fun h => (Option.some.inj h).symm, fun h => congrArg some h.symm⟩

/-- **The silence is the distance to the last transition**, if that was a key up. -/
theorem hushed_eq_some_iff (hxs : Faithful xs) (hx : xs[t]? = some x) :
    hushed none (xs.take (t + 1)) = some n ↔ LastUp xs t n := by
  induction t generalizing x n with
  | zero =>
    rw [hushed_take hx]
    apply hush_eq_some_iff hxs hx
    intro m
    constructor
    · intro h
      nomatch h
    · rintro ⟨t', ht', -⟩
      nomatch ht'
  | succ t ih =>
    have hlt := (List.getElem?_eq_some_iff.mp hx).1
    have hy : xs[t]? = some xs[t] := List.getElem?_eq_getElem (by omega)
    rw [hushed_take hx]
    apply hush_eq_some_iff hxs hx
    intro m
    rw [ih hy]
    constructor
    · intro h
      exact ⟨t, rfl, h⟩
    · rintro ⟨t', ht', h⟩
      obtain rfl := Nat.succ.inj ht'
      exact h

end

/-! ## Gaps at a constant speed -/

/-- **What tick `t` tells of gaps**, when a dit is `d` ticks long. -/
structure GapsTold (d : Nat) (xs : List Beat) (t : Nat) (x : Beat) : Prop where
  character : x.gaps = [.character] ↔ LastUp xs t (2 * d)
  word : x.gaps = [.word] ↔ LastUp xs t (5 * d)
  /-- No other gap is told, and none twice. -/
  nothing : ¬ LastUp xs t (2 * d) → ¬ LastUp xs t (5 * d) → x.gaps = []
  /-- None before the key has gone up for the first time, -/
  before : (∀ (i : Nat) (y : Beat) e, i ≤ t → xs[i]? = some y → ¬ y.Tells (.keyUp e)) → x.gaps = []
  /-- none during a mark or a space, -/
  sending : x.moment.state ≠ none → x.gaps = []
  /-- and none on the tick of a transition. -/
  transition : ∀ tr, x.Tells (.ofTransition tr) → x.gaps = []

/-- The silence decides. -/
theorem gapsTold_of_hushed {d : Nat} (hd : 0 < d) {xs : List Beat} (hxs : Faithful xs) {t : Nat}
    {x : Beat} (hx : xs[t]? = some x)
    (hgaps : x.gaps = ((hushed none (xs.take (t + 1))).bind (Gap.completed d)).toList)
    (hsending : x.moment.state ≠ none → x.gaps = []) : GapsTold d xs t x := by
  have htold : ∀ g, x.gaps = [g] ↔ ∃ n, LastUp xs t n ∧ Gap.completed d n = some g := by
    intro g
    rw [hgaps, Option.toList_eq_singleton_iff, Option.bind_eq_some_iff]
    constructor
    · rintro ⟨n, hn, hg⟩
      exact ⟨n, (hushed_eq_some_iff hxs hx).mp hn, hg⟩
    · rintro ⟨n, hn, hg⟩
      exact ⟨n, (hushed_eq_some_iff hxs hx).mpr hn, hg⟩
  have hcharacter : x.gaps = [.character] ↔ LastUp xs t (2 * d) := by
    rw [htold]
    constructor
    · rintro ⟨n, hn, hg⟩
      rw [← Gap.completed_eq_character.mp hg]
      exact hn
    · intro h
      exact ⟨2 * d, h, Gap.completed_eq_character.mpr rfl⟩
  have hword : x.gaps = [.word] ↔ LastUp xs t (5 * d) := by
    rw [htold]
    constructor
    · rintro ⟨n, hn, hg⟩
      rw [← (Gap.completed_eq_word hd).mp hg]
      exact hn
    · intro h
      exact ⟨5 * d, h, (Gap.completed_eq_word hd).mpr rfl⟩
  have hnothing : ¬ LastUp xs t (2 * d) → ¬ LastUp xs t (5 * d) → x.gaps = [] := by
    intro h2 h5
    cases hreport : (hushed none (xs.take (t + 1))).bind (Gap.completed d) with
    | none => rw [hgaps, hreport, Option.toList_none]
    | some g =>
      -- a gap that is told has its time
      rw [hreport, Option.toList_some] at hgaps
      cases g with
      | character => exact absurd (hcharacter.mp hgaps) h2
      | word => exact absurd (hword.mp hgaps) h5
  constructor
  · exact hcharacter
  · exact hword
  · exact hnothing
  · -- without a key up there is no last one
    intro hnever
    have hnot : ∀ n, ¬ LastUp xs t n := by
      rintro n ⟨i, y, e, hit, hy, hup, -⟩
      exact hnever i y e (by omega) hy hup
    exact hnothing (hnot _) (hnot _)
  · exact hsending
  · -- on the tick of a transition no earlier key up is the last one
    intro tr htr
    have hnot : ∀ n, 0 < n → ¬ LastUp xs t n := by
      rintro n hn ⟨i, y, e, hit, -, -, hquiet⟩
      exact hquiet t x tr (by omega) (Nat.le_refl t) hx htr
    exact hnothing (hnot _ (by omega)) (hnot _ (by omega))

namespace Session

/-- **Gaps at a constant speed.**  A keyer that is made from a store with settings within the limits,
    and that ticks while nothing is written to the store, publishes on every tick exactly the gap
    that the key has been up for: the end of a character two dits after the key went up, the end of
    a word five dits after it, if the key has not gone down until then, that tick included. -/
theorem gaps_at_constant_speed (store : Store) (hcheck : store.settings.check = .ok ())
    (samples : List (Int × Paddles)) :
    let xs := (ofStore store).beats (ticks samples)
    Effects.published ((ofStore store).effects (ticks samples))
        = Effects.published (xs.map (·.effects)) ∧
      xs.length = samples.length ∧
      ∀ t x, xs[t]? = some x → GapsTold store.settings.ditTicks xs t x := by
  intro xs
  have hsteady := steady_ofStore ((Settings.check_eq_ok_iff store.settings).mp hcheck)
  have hfaithful : Faithful xs := fun i x hx tr => hsteady.tuned.tells_transition hx tr
  refine ⟨?_, ?_, ?_⟩
  · -- no operation of a run of ticks is a reset
    apply published_beats
    intro now hmem
    obtain ⟨x, -, hx⟩ := List.mem_map.mp hmem
    nomatch hx
  · exact length_beats_ticks (ofStore store) samples
  · intro t x hx
    obtain ⟨hgaps, hsending⟩ := hsteady.gaps hx
    exact gapsTold_of_hushed store.settings.ditTicks_pos hfaithful hx hgaps hsending

/-- A hundred words a minute at a thousand ticks a second: a dit is twelve ticks long. -/
def topSpeed : Store := { settings := { wpm := 100, tickRate := 1000 } }

/-- The dit paddle is closed on tick 0 and on tick `k`. -/
def twoDits (k : Nat) : List (Int × Paddles) :=
  (List.range 81).map fun t : Nat => (1000 * (t : Int), ⟨t = 0 ∨ t = k, false⟩)

/-- The key goes up on tick 12.  Tick 36 ends the character if the second dit comes a tick later, but
    not if it comes on that very tick; if it does not come, tick 72 ends the word. -/
theorem gaps_at_constant_speed_twoDits :
    let xs := fun k => (ofStore topSpeed).beats (ticks (twoDits k))
    topSpeed.settings.check = .ok () ∧ topSpeed.settings.ditTicks = 12 ∧
      LastUp (xs 37) 36 24 ∧ ¬ LastUp (xs 36) 36 24 ∧ LastUp (xs 81) 72 60 := by
  intro xs
  have hcheck : topSpeed.settings.check = .ok () := rfl
  have htold : ∀ k t x, (xs k)[t]? = some x → GapsTold 12 (xs k) t x :=
    fun k => (gaps_at_constant_speed topSpeed hcheck (twoDits k)).2.2
  have hlate : (xs 37)[36]?.map (·.gaps) = some [.character] := by decide +kernel
  have hsharp : (xs 36)[36]?.map (·.gaps) = some [] := by decide +kernel
  have hnever : (xs 81)[72]?.map (·.gaps) = some [.word] := by decide +kernel
  refine ⟨hcheck, by decide +kernel, ?_, ?_, ?_⟩
  · obtain ⟨x, hx, hgaps⟩ := Option.map_eq_some_iff.mp hlate
    exact (htold 37 36 x hx).character.mp hgaps
  · obtain ⟨x, hx, hgaps⟩ := Option.map_eq_some_iff.mp hsharp
    intro h
    rw [(htold 36 36 x hx).character.mpr h] at hgaps
    nomatch hgaps
  · obtain ⟨x, hx, hgaps⟩ := Option.map_eq_some_iff.mp hnever
    exact (htold 81 72 x hx).word.mp hgaps

end Session

end IambicKeyer

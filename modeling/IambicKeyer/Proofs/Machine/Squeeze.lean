/-
  What both paddles held for ever send.

  1. **`Window.Meets`** — does one of the ticks of a phase fall into the window?  The place of a
     tick is a percentage rounded DOWN, so a narrow window can fall between two ticks of a short
     phase.  From a hundred ticks on every percentage is some tick's (`Window.meets_of_hundred`).

  2. **The squeeze as a sequence** — `Settings.squeezed n` is the `n`-th element and
     `Settings.onset n` the tick on which it begins.  An element turns to its opposite if a squeeze
     always counts or if its own ticks meet the window (`Settings.Turns`); one that does not turn
     is sent again and again.

  3. **`squeeze_turns`** — from rest, the machine sends this sequence: by induction over its
     elements, each of them a play of its own from the tick on which its key goes down.
-/
import IambicKeyer.Proofs.Machine.Decision
import IambicKeyer.Proofs.Settings.Limits

namespace IambicKeyer

/-! ## Windows and phases -/

namespace Window

/-- One of the ticks `first, …, length` of a phase lies in the window. -/
def Meets (w : Window) (first length : Nat) : Prop :=
  ∃ k, k ≤ length ∧ first ≤ k ∧ w.start ≤ 100 * k / length ∧ 100 * k / length ≤ w.stop

instance (w : Window) (first length : Nat) : Decidable (w.Meets first length) :=
  inferInstanceAs (Decidable (∃ k, k ≤ length ∧ _))

/-- In a phase of a hundred ticks or more, the start of the window is the place of some tick. -/
theorem meets_of_hundred {w : Window} {length : Nat} (horder : w.start ≤ w.stop)
    (hstop : w.stop ≤ 100) (hlength : 100 ≤ length) : w.Meets 0 length := by
  -- the first tick that is not before the start
  let k := (w.start * length + 99) / 100
  have hlow : w.start * length ≤ 100 * k := by omega
  have hhigh : 100 * k ≤ w.start * length + 99 := by omega
  have hall : w.start * length ≤ 100 * length :=
    Nat.mul_le_mul_right length (Nat.le_trans horder hstop)
  have hplace : 100 * k / length = w.start := by
    refine Nat.div_eq_of_lt_le hlow ?_
    rw [Nat.add_mul, Nat.one_mul]
    omega
  refine ⟨k, by omega, Nat.zero_le k, ?_, ?_⟩
  · exact Nat.le_of_eq hplace.symm
  · rw [hplace]
    exact horder

end Window

namespace Settings

/-- One of the ticks of `e` lies in the window: the mark from its first tick on, or the space from
    the tick after the key went up. -/
def Meets (s : Settings) (e : Element) : Prop :=
  s.window.Meets 0 (s.timing.mark e) ∨ s.window.Meets 1 s.timing.space

instance (s : Settings) (e : Element) : Decidable (s.Meets e) :=
  inferInstanceAs (Decidable (_ ∨ _))

/-- With both paddles held, `e` is followed by its opposite. -/
def Turns (s : Settings) (e : Element) : Prop := s.squeeze = .latchOn ∨ s.Meets e

instance (s : Settings) (e : Element) : Decidable (s.Turns e) :=
  inferInstanceAs (Decidable (_ ∨ _))

/-- The elements of a squeeze. -/
def squeezed (s : Settings) : Nat → Element
  | 0 => if s.tieBreak = .ditFirst then .dit else .dah
  | n + 1 => if s.Turns (s.squeezed n) then (s.squeezed n).opposite else s.squeezed n

/-- The ticks on which they begin. -/
def onset (s : Settings) : Nat → Nat
  | 0 => 0
  | n + 1 => s.onset n + (s.timing.mark (s.squeezed n) + s.timing.space)

/-- The first of them wins the tie. -/
theorem squeezed_zero (s : Settings) : s.squeezed 0 = s.tieBreak.winner := by
  rw [squeezed]
  cases s.tieBreak <;> rfl

/-- An element turns exactly if the next one is its opposite. -/
theorem squeezed_succ_eq_opposite_iff (s : Settings) (n : Nat) :
    s.squeezed (n + 1) = (s.squeezed n).opposite ↔ s.Turns (s.squeezed n) := by
  rw [squeezed]
  by_cases hturns : s.Turns (s.squeezed n)
  · rw [if_pos hturns]
    exact ⟨fun _ => hturns, fun _ => rfl⟩
  · rw [if_neg hturns]
    exact ⟨fun h => absurd h.symm (s.squeezed n).opposite_ne, fun h => absurd h hturns⟩

/-- An element that does not turn stays. -/
theorem squeezed_add_of_not_turns {s : Settings} {n : Nat} (h : ¬ s.Turns (s.squeezed n))
    (k : Nat) : s.squeezed (n + k) = s.squeezed n := by
  induction k with
  | zero => rfl
  | succ k ih =>
    show (if s.Turns (s.squeezed (n + k)) then _ else s.squeezed (n + k)) = _
    rw [ih, if_neg h]

/-- If a dit has a hundred ticks, so has a dah of any weight within the limits. -/
theorem hundred_le_mark {s : Settings} (hs : s.InLimits) (hdit : 100 ≤ s.timing.dit)
    (e : Element) : 100 ≤ s.timing.mark e := by
  cases e with
  | dit => exact hdit
  | dah =>
    have hproduct : 3 * 100 * 33 ≤ 3 * s.ditTicks * s.weight :=
      Nat.mul_le_mul (Nat.mul_le_mul_left 3 hdit) hs.weight.1
    have hround := Rounding.two_mul_le_nearest (3 * s.ditTicks * s.weight)
      (by decide : 0 < 50)
    show 100 ≤ max (Rounding.nearest (3 * s.ditTicks * s.weight) 50) 1
    omega

theorem turns_of_hundred {s : Settings} (hs : s.InLimits) (hdit : 100 ≤ s.timing.dit)
    (e : Element) : s.Turns e :=
  Or.inr (Or.inl (Window.meets_of_hundred hs.window.1 hs.window.2 (hundred_le_mark hs hdit e)))

end Settings

/-! ## The samples of a squeeze -/

namespace Machine

/-- Both paddles closed on every tick. -/
def held : Nat → Paddles := fun _ => .squeezed

theorem spots_squeezed (s : Settings) (e : Element) (k length : Nat) :
    s.spots e .squeezed k length = true
      ↔ s.window.start ≤ 100 * k / length ∧ 100 * k / length ≤ s.window.stop := by
  rw [Settings.spots, Paddles.squeezed_holds, Bool.true_and, Window.contains, Bool.and_eq_true,
    decide_eq_true_iff, decide_eq_true_iff]

/-- A squeeze spots the opposite paddle exactly if the window is met. -/
theorem spotted_held (s : Settings) (e : Element) : s.spotted e held = true ↔ s.Meets e := by
  have hmark : s.spottedInMark e held (s.timing.mark e) = true
      ↔ s.window.Meets 0 (s.timing.mark e) := by
    rw [Settings.spottedInMark, List.any_eq_true]
    constructor
    · rintro ⟨k, hk, hspots⟩
      have hlt := List.mem_range.mp hk
      exact ⟨k, by omega, Nat.zero_le k, (spots_squeezed s e k _).mp hspots⟩
    · rintro ⟨k, hk, -, hplace⟩
      exact ⟨k, List.mem_range.mpr (by omega), (spots_squeezed s e k _).mpr hplace⟩
  have hspace : s.spottedInSpace e held s.timing.space = true
      ↔ s.window.Meets 1 s.timing.space := by
    rw [Settings.spottedInSpace, List.any_eq_true]
    constructor
    · rintro ⟨k, hk, hspots⟩
      obtain ⟨hpos, hlt⟩ := List.mem_range'_1.mp hk
      exact ⟨k, by omega, hpos, (spots_squeezed s e k _).mp hspots⟩
    · rintro ⟨k, hk, hpos, hplace⟩
      exact ⟨k, List.mem_range'_1.mpr ⟨hpos, by omega⟩, (spots_squeezed s e k _).mpr hplace⟩
  rw [Settings.spotted, Bool.or_eq_true, hmark, hspace]
  rfl

/-- With both paddles held there is always a next element. -/
theorem choice_squeezed (s : Settings) (e : Element) (w : Bool) :
    s.choice e w .squeezed = some (if s.squeeze = .latchOn ∨ w = true then e.opposite else e) := by
  unfold Settings.choice Paddles.squeezed
  cases w <;> cases s.memory.remembers e.opposite <;> cases s.squeeze <;> rfl

variable {m : Machine} {e : Element}

/-- The element after `e` in a squeeze begins on the last tick of the space of `e`. -/
theorem keyDown_after (hm : m.Sound) (hon : (m.outputAt held 0).transition = some (.keyDown e)) :
    (m.outputAt held (m.settings.timing.mark e + m.settings.timing.space)).transition
      = some (.keyDown (if m.settings.Turns e then e.opposite else e)) := by
  obtain ⟨w, hway, hall⟩ := underWay_last hm hon
  obtain ⟨hdown, -⟩ := hway.finish .squeezed m.settings.space_pos
  have hspotted : (w || m.settings.spots e .squeezed m.settings.timing.space
      m.settings.timing.space) = m.settings.spotted e held := hall
  have hturns : (m.settings.squeeze = .latchOn ∨ m.settings.spotted e held = true)
      ↔ m.settings.Turns e := or_congr_right (spotted_held m.settings e)
  rw [hspotted, choice_squeezed] at hdown
  simp only [hturns, Option.map_some] at hdown
  exact hdown

/-! ## The squeeze as it is sent -/

/-- From rest, both paddles start the element that wins the tie. -/
theorem keyDown_first (idle : m.sending = none) :
    (m.outputAt held 0).transition = some (.keyDown (m.settings.squeezed 0)) := by
  have hfirst : first? m.settings .squeezed = some (m.settings.squeezed 0) := by
    rw [Settings.squeezed_zero]
    rfl
  show (m.tick .squeezed).1.transition = _
  rw [tick_start idle hfirst]
  rfl

/-- **Each element of the squeeze begins on its tick**, one after the other. -/
theorem keyDown_onset (hm : m.Sound) (idle : m.sending = none) (n : Nat) :
    (m.outputAt held (m.settings.onset n)).transition
      = some (.keyDown (m.settings.squeezed n)) := by
  induction n with
  | zero => exact keyDown_first idle
  | succ n ih =>
    -- the play from the tick on which element `n` begins
    have hafter := keyDown_after (hm.play held (m.settings.onset n)) ih
    rw [play_settings] at hafter
    show (m.outputAt held (m.settings.onset n + _)).transition = _
    rw [outputAt_add]
    exact hafter

/-- Between two of these ticks the key goes up once, at the end of the mark. -/
theorem transition_onset_add (hm : m.Sound) (idle : m.sending = none) (n : Nat) {k : Nat}
    (hk : 0 < k)
    (hlast : k < m.settings.timing.mark (m.settings.squeezed n) + m.settings.timing.space) :
    (m.outputAt held (m.settings.onset n + k)).transition
      = if k = m.settings.timing.mark (m.settings.squeezed n)
          then some (.keyUp (m.settings.squeezed n)) else none := by
  have hon : ((m.play held (m.settings.onset n)).outputAt held 0).transition
      = some (.keyDown (m.settings.squeezed n)) := keyDown_onset hm idle n
  have hwithin := transition_within (hm.play held (m.settings.onset n)) hon hk
  rw [play_settings] at hwithin
  rw [outputAt_add]
  exact hwithin hlast

/-- **A squeeze that never ends.**  From rest with both paddles held, the element that the tie-break
    names comes first, and each element begins on the tick on which the space of the one before is
    over.  An element is followed by its opposite exactly if it turns; from one that does not turn on,
    that element is sent for ever.  All elements turn if a squeeze always counts, and, within the
    limits, if a dit has a hundred ticks or more. -/
theorem squeeze_turns (hm : m.Reachable) (idle : m.sending = none) :
    let s := m.settings
    (s.tieBreak = .ditFirst → s.squeezed 0 = .dit) ∧
    (s.tieBreak = .dahFirst → s.squeezed 0 = .dah) ∧
    (∀ n, (m.outputAt held (s.onset n)).transition = some (.keyDown (s.squeezed n)) ∧
      ∀ k, 0 < k → k < s.timing.mark (s.squeezed n) + s.timing.space →
        (m.outputAt held (s.onset n + k)).transition
          = if k = s.timing.mark (s.squeezed n) then some (.keyUp (s.squeezed n)) else none) ∧
    (∀ n, s.squeezed (n + 1) = (s.squeezed n).opposite ↔ s.Turns (s.squeezed n)) ∧
    (∀ n, ¬ s.Turns (s.squeezed n) → ∀ k, s.squeezed (n + k) = s.squeezed n) ∧
    (s.squeeze = .latchOn ∨ s.check = .ok () ∧ 100 ≤ s.timing.dit →
      ∀ n, s.squeezed (n + 1) = (s.squeezed n).opposite) := by
  intro s
  refine ⟨?_, ?_, fun n => ⟨keyDown_onset hm.sound idle n, ?_⟩, s.squeezed_succ_eq_opposite_iff,
    ?_, ?_⟩
  · intro hdit
    rw [Settings.squeezed_zero, hdit]
    rfl
  · intro hdah
    rw [Settings.squeezed_zero, hdah]
    rfl
  · intro k hk hlast
    exact transition_onset_add hm.sound idle n hk hlast
  · intro n hstays k
    exact Settings.squeezed_add_of_not_turns hstays k
  · intro hall n
    rw [s.squeezed_succ_eq_opposite_iff]
    rcases hall with hlatch | ⟨hcheck, hdit⟩
    · exact Or.inl hlatch
    · exact Settings.turns_of_hundred (s.check_eq_ok_iff.mp hcheck) hdit _

/-- At 100 words a minute and 1000 ticks a second, 30 to 31 percent falls between two ticks of a
    dit, but not of a dah: the dah that wins the tie turns, and the dits after it never do.  With
    the settings of a fresh store a dit has 480 ticks, and all elements turn. -/
theorem squeeze_turns_once :
    let s : Settings :=
      { wpm := 100, tickRate := 1000, window := ⟨30, 31⟩, tieBreak := .dahFirst }
    let m := Machine.ofSettings s
    m.Reachable ∧ m.sending = none ∧ s.Turns .dah ∧ ¬ s.Turns .dit ∧
      (m.outputAt held 0).transition = some (.keyDown .dah) ∧
      (m.outputAt held 36).transition = some (.keyUp .dah) ∧
      (m.outputAt held 48).transition = some (.keyDown .dit) ∧
      (∀ k, s.squeezed (1 + k) = .dit) ∧
      ({} : Settings).check = .ok () ∧ 100 ≤ ({} : Settings).timing.dit ∧
      ∀ n, ({} : Settings).squeezed (n + 1) = (({} : Settings).squeezed n).opposite := by
  intro s m
  have hm : m.Reachable := .ofSettings s
  obtain ⟨-, hdah, hsends, -, hstays, -⟩ := squeeze_turns hm rfl
  have hdah : s.squeezed 0 = .dah := hdah rfl
  have hdit : s.squeezed 1 = .dit := by decide
  have hsecond : s.onset 1 = 48 := by decide
  have hstuck : ¬ s.Turns (s.squeezed 1) := by decide
  have hmark : 36 = m.settings.timing.mark (m.settings.squeezed 0) := by decide
  have hlong : 100 ≤ ({} : Settings).timing.dit := by decide
  obtain ⟨hdown, hwithin⟩ := hsends 0
  have hnext := (hsends 1).1
  have hrest := hstays 1 hstuck
  refine ⟨hm, rfl, by decide, by decide, ?_, ?_, ?_, ?_, rfl, hlong, ?_⟩
  · exact hdown
  · have hup := hwithin 36 (by decide) (by decide)
    rw [if_pos hmark] at hup
    exact hup
  · show (m.outputAt held 48).transition = _
    rw [← hsecond, ← hdit]
    exact hnext
  · intro k
    rw [← hdit]
    exact hrest k
  · obtain ⟨-, -, -, -, -, hall⟩ := squeeze_turns (.ofSettings {}) rfl
    exact hall (Or.inr ⟨rfl, hlong⟩)

end Machine

end IambicKeyer

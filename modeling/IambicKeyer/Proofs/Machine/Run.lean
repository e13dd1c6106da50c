/-
  Runs of the iambic machine.

  1. **Commands** — what can be done to a machine from outside: a tick with a paddle sample, new
     settings given directly or taken from a store, and a reset.  A machine is `Reachable` if some
     list of commands leads to it from an idle machine with arbitrary settings.

  2. **The ways a tick can go** (`Ticked`): resting, starting from rest, going on within a phase,
     ending a mark, ending a space with another element, ending a space for good.  Every proof
     about ticks splits into these six cases and never opens `Machine.tick` itself.

  3. **The invariant** (`Sound`): the durations are those of the settings, the phase under way has
     between one tick and its whole length left, and only the element OPPOSITE to the one being
     sent is ever remembered — so an idle machine remembers nothing.  One lemma per command, and
     `Reachable.sound` for all runs.

  4. **Plays** — ticks only, with one sample after the other: `play p m n` is the machine after
     the samples `p 0, …, p (n - 1)`.
-/
import IambicKeyer.Machine

namespace IambicKeyer

namespace Machine

/-! ## Commands and runs -/

/-- What can be done to a machine. -/
inductive Command where
  | tick (p : Paddles)
  /-- New settings, within the limits or not. -/
  | adopt (s : Settings)
  /-- A look at the store, in whatever state it is. -/
  | sync (store : Store)
  | reset
  deriving DecidableEq

/-- The machine after a command. -/
def obey (m : Machine) : Command → Machine
  | .tick p => (m.tick p).2
  | .adopt s => m.adopt s
  | .sync store => (m.sync store).2
  | .reset => m.reset

/-- The machine after a list of commands. -/
def obeyAll (m : Machine) (cs : List Command) : Machine := cs.foldl obey m

theorem obeyAll_append (m : Machine) (cs ds : List Command) :
    m.obeyAll (cs ++ ds) = (m.obeyAll cs).obeyAll ds := List.foldl_append

/-- Some run leads to the machine. -/
def Reachable (m : Machine) : Prop :=
  ∃ (s : Settings) (cs : List Command), m = (ofSettings s).obeyAll cs

theorem Reachable.ofSettings (s : Settings) : (Machine.ofSettings s).Reachable := ⟨s, [], rfl⟩

theorem Reachable.obey {m : Machine} (h : m.Reachable) (c : Command) : (m.obey c).Reachable := by
  obtain ⟨s, cs, rfl⟩ := h
  exact ⟨s, cs ++ [c], (obeyAll_append (Machine.ofSettings s) cs [c]).symm⟩

/-! ## The ways a tick can go -/

/-- The part of a tick that comes before the end of the phase is looked at: the element under way
    one tick on, its window looked at. -/
def seen (p : Paddles) (m : Machine) (s : Sending) : Sending := s.step.look m.settings.window p

section

variable {p : Paddles} {m : Machine} {s : Sending} {e : Element}

/-- Idle, and no paddle closed: nothing happens. -/
theorem tick_rest (idle : m.sending = none) (first : first? m.settings p = none) :
    m.tick p = ({}, m) := by
  simp only [tick, idle, first]

/-- Idle, and a paddle closed: its element starts. -/
theorem tick_start (idle : m.sending = none) (first : first? m.settings p = some e) :
    m.tick p = m.start p e := by
  simp only [tick, idle, first]

/-- Not the last tick of the phase. -/
theorem tick_going (sending : m.sending = some s) (left : s.step.left ≠ 0) :
    m.tick p = (⟨none, m.queues p s.step⟩,
      { m.remember (m.queues p s.step) with sending := some (m.seen p s) }) := by
  simp only [tick, sending, proceed, if_neg left]
  rfl

/-- The last tick of a mark: the key goes up. -/
theorem tick_release (sending : m.sending = some s) (left : s.step.left = 0)
    (mark : s.phase = .mark) :
    m.tick p = (⟨some (.keyUp s.element), m.queues p s.step⟩,
      { m.remember (m.queues p s.step) with sending := some ((m.seen p s).release m.timing) }) := by
  simp only [tick, sending, proceed, if_pos left, mark]
  rfl

/-- The last tick of a space is decided with flag and memory as they are after the look. -/
theorem tick_finish (sending : m.sending = some s) (left : s.step.left = 0)
    (space : s.phase = .space) :
    m.tick p = (m.remember (m.queues p s.step)).finish p (m.seen p s) := by
  simp only [tick, sending, proceed, if_pos left, space]
  rfl

/-- The last tick of a space, and another element follows: it starts with an empty memory. -/
theorem tick_next (sending : m.sending = some s) (left : s.step.left = 0)
    (space : s.phase = .space)
    (next : next? m.settings (m.seen p s) (m.remember (m.queues p s.step)).memory p = some e) :
    m.tick p = { m with memory := none }.start p e := by
  rw [tick_finish sending left space, finish,
    show (m.remember (m.queues p s.step)).settings = m.settings from rfl, next]
  rfl

/-- The last tick of a space, and nothing follows: the machine is idle. -/
theorem tick_stop (sending : m.sending = some s) (left : s.step.left = 0)
    (space : s.phase = .space)
    (next : next? m.settings (m.seen p s) (m.remember (m.queues p s.step)).memory p = none) :
    m.tick p = ({}, m.reset) := by
  rw [tick_finish sending left space, finish,
    show (m.remember (m.queues p s.step)).settings = m.settings from rfl, next]
  rfl

end

/-- **The cases of a tick**, each with what it gives out and the machine it leaves. -/
inductive Ticked (p : Paddles) (m : Machine) : Output × Machine → Prop where
  | rest (idle : m.sending = none) (first : first? m.settings p = none) : Ticked p m ({}, m)
  | start (e : Element) (idle : m.sending = none) (first : first? m.settings p = some e) :
      Ticked p m (m.start p e)
  | going (s : Sending) (sending : m.sending = some s) (left : s.step.left ≠ 0) :
      Ticked p m (⟨none, m.queues p s.step⟩,
        { m.remember (m.queues p s.step) with sending := some (m.seen p s) })
  | release (s : Sending) (sending : m.sending = some s) (left : s.step.left = 0)
      (mark : s.phase = .mark) :
      Ticked p m (⟨some (.keyUp s.element), m.queues p s.step⟩,
        { m.remember (m.queues p s.step) with sending := some ((m.seen p s).release m.timing) })
  | next (s : Sending) (e : Element) (sending : m.sending = some s) (left : s.step.left = 0)
      (space : s.phase = .space) : Ticked p m ({ m with memory := none }.start p e)
  | stop (s : Sending) (sending : m.sending = some s) (left : s.step.left = 0)
      (space : s.phase = .space) : Ticked p m ({}, m.reset)

/-- Every tick goes one of these ways. -/
theorem ticked (p : Paddles) (m : Machine) : Ticked p m (m.tick p) := by
  rcases hs : m.sending with _ | s
  · -- idle: a closed paddle starts an element
    rcases hfirst : first? m.settings p with _ | e
    · rw [tick_rest hs hfirst]
      exact .rest hs hfirst
    · rw [tick_start hs hfirst]
      exact .start e hs hfirst
  · -- sending: on the last tick of a phase it is the phase that counts
    by_cases hleft : s.step.left = 0
    · rcases hphase : s.phase with _ | _
      · rw [tick_release hs hleft hphase]
        exact .release s hs hleft hphase
      · rcases hnext : next? m.settings (m.seen p s) (m.remember (m.queues p s.step)).memory p
          with _ | e
        · rw [tick_stop hs hleft hphase hnext]
          exact .stop s hs hleft hphase
        · rw [tick_next hs hleft hphase hnext]
          exact .next s e hs hleft hphase
    · rw [tick_going hs hleft]
      exact .going s hs hleft

/-! ## What a tick leaves alone -/

@[simp] theorem tick_settings (p : Paddles) (m : Machine) : (m.tick p).2.settings = m.settings := by
  have h := m.ticked p
  generalize m.tick p = r at h ⊢
  cases h <;> rfl

@[simp] theorem tick_timing (p : Paddles) (m : Machine) : (m.tick p).2.timing = m.timing := by
  have h := m.ticked p
  generalize m.tick p = r at h ⊢
  cases h <;> rfl

@[simp] theorem tick_generation (p : Paddles) (m : Machine) :
    (m.tick p).2.generation = m.generation := by
  have h := m.ticked p
  generalize m.tick p = r at h ⊢
  cases h <;> rfl

theorem isKeyDown_of_idle {m : Machine} (idle : m.sending = none) : m.isKeyDown = false := by
  rw [Machine.isKeyDown, idle]

theorem isKeyDown_of_sending {m : Machine} {s : Sending} (sending : m.sending = some s) :
    m.isKeyDown = (s.phase == .mark) := by
  rw [Machine.isKeyDown, sending]

/-! ## The invariant of every run -/

/-- Only the element opposite to the one being sent is remembered. -/
def Recalls (sending : Option Sending) (memory : Option Element) : Prop :=
  ∀ e, memory = some e → ∃ s, sending = some s ∧ e = s.element.opposite

/-- **What holds of every reachable machine.** -/
structure Sound (m : Machine) : Prop where
  /-- The durations are those of the settings. -/
  timing : m.timing = m.settings.timing
  /-- The phase under way is neither over nor longer than it was on its first tick. -/
  left : ∀ s, m.sending = some s → 0 < s.left ∧ s.left ≤ s.length
  /-- What is remembered is the opposite of what is being sent. -/
  recalls : Recalls m.sending m.memory

/-- An idle machine remembers nothing. -/
theorem Sound.memory_of_idle {m : Machine} (h : m.Sound) (hidle : m.sending = none) :
    m.memory = none := by
  rcases hm : m.memory with _ | e
  · rfl
  · obtain ⟨s, hs, -⟩ := h.recalls e hm
    rw [hidle] at hs
    nomatch hs

theorem sound_ofSettings (s : Settings) : (ofSettings s).Sound where
  timing := rfl
  left := fun _ hs => nomatch hs
  recalls := fun _ hm => nomatch hm

/-- A look at the opposite paddle remembers at most the opposite element. -/
theorem opposite_of_queues {p : Paddles} {s : Sending} {m : Machine} {e : Element}
    (h : m.queues p s = some e) : e = s.element.opposite := by
  unfold queues at h
  split at h
  · exact (Option.some.inj h).symm
  · nomatch h

/-- What is remembered after a look was remembered before, or is the opposite element. -/
theorem remember_eq_some {queued : Option Element} {m : Machine} {e : Element}
    (h : (m.remember queued).memory = some e) : m.memory = some e ∨ queued = some e := by
  have hor : (m.memory <|> queued) = some e := h
  rcases hm : m.memory with _ | e'
  · rw [hm] at hor
    exact Or.inr hor
  · rw [hm] at hor
    exact Or.inl hor

/-- The memory stays the opposite element through a look at an element under way. -/
theorem recalls_remember {p : Paddles} {s s' : Sending} {m : Machine}
    (hrec : Recalls m.sending m.memory) (hs : m.sending = some s)
    (helem : s'.element = s.element) :
    Recalls (some s') (m.remember (m.queues p s.step)).memory := by
  intro e he
  refine ⟨s', rfl, ?_⟩
  rw [helem]
  rcases remember_eq_some he with hm | hq
  · -- remembered before the look
    obtain ⟨s₀, hs₀, rfl⟩ := hrec e hm
    rw [hs] at hs₀
    rw [Option.some.inj hs₀]
  · exact opposite_of_queues (s := s.step) hq

/-- An element that starts with an empty memory leaves a sound machine. -/
theorem sound_start {m : Machine} (p : Paddles) (e : Element)
    (htiming : m.timing = m.settings.timing) (hmem : m.memory = none) : (m.start p e).2.Sound where
  timing := htiming
  left := by
    intro s hs
    obtain rfl := Option.some.inj hs
    refine ⟨?_, Nat.le_refl _⟩
    show 0 < m.timing.mark e
    rw [htiming]
    exact m.settings.mark_pos e
  recalls := by
    intro e' he'
    refine ⟨_, rfl, ?_⟩
    rcases remember_eq_some he' with hm | hq
    · rw [hmem] at hm
      nomatch hm
    · exact opposite_of_queues hq

/-- **A tick keeps the invariant**, one case per way it can go. -/
theorem Sound.tick {m : Machine} (h : m.Sound) (p : Paddles) : (m.tick p).2.Sound := by
  have hcase := m.ticked p
  generalize m.tick p = r at hcase ⊢
  cases hcase with
  | rest => exact h
  | start e hidle => exact sound_start p e h.timing (h.memory_of_idle hidle)
  | going s hs hleft =>
    refine ⟨h.timing, ?_, recalls_remember h.recalls hs rfl⟩
    intro s' hs'
    obtain rfl := Option.some.inj hs'
    obtain ⟨-, hle⟩ := h.left s hs
    exact ⟨Nat.pos_of_ne_zero hleft, Nat.le_trans (Nat.sub_le _ _) hle⟩
  | release s hs =>
    refine ⟨h.timing, ?_, recalls_remember h.recalls hs rfl⟩
    intro s' hs'
    obtain rfl := Option.some.inj hs'
    refine ⟨?_, Nat.le_refl _⟩
    show 0 < m.timing.space
    rw [h.timing]
    exact m.settings.space_pos
  | next s e => exact sound_start p e h.timing rfl
  | stop => exact ⟨h.timing, fun _ hs => (nomatch hs), fun _ hm => (nomatch hm)⟩

/-- **Every command keeps the invariant.** -/
theorem Sound.obey {m : Machine} (h : m.Sound) (c : Command) : (m.obey c).Sound := by
  cases c with
  | tick p => exact h.tick p
  | adopt s => exact ⟨rfl, h.left, h.recalls⟩
  | sync store =>
    show (m.sync store).2.Sound
    unfold Machine.sync
    split
    · exact h
    · exact ⟨rfl, h.left, h.recalls⟩
  | reset => exact ⟨h.timing, fun _ hs => (nomatch hs), fun _ hm => (nomatch hm)⟩

/-- A run from a sound machine ends in one. -/
theorem Sound.obeyAll {m : Machine} (h : m.Sound) (cs : List Command) : (m.obeyAll cs).Sound := by
  induction cs generalizing m with
  | nil => exact h
  | cons c cs ih => exact ih (h.obey c)

theorem Reachable.sound {m : Machine} (h : m.Reachable) : m.Sound := by
  obtain ⟨s, cs, rfl⟩ := h
  exact (sound_ofSettings s).obeyAll cs

/-! ## Plays -/

/-- The machine after the first `n` samples of a play. -/
def play (p : Nat → Paddles) (m : Machine) : Nat → Machine
  | 0 => m
  | n + 1 => ((m.play p n).tick (p n)).2

/-- What tick number `n` of a play gives out. -/
def outputAt (p : Nat → Paddles) (m : Machine) (n : Nat) : Output := ((m.play p n).tick (p n)).1

@[simp] theorem play_settings (p : Nat → Paddles) (m : Machine) (n : Nat) :
    (m.play p n).settings = m.settings := by
  induction n with
  | zero => rfl
  | succ n ih => rw [play, tick_settings, ih]

/-- A play goes on where its beginning has left the machine. -/
theorem play_add (p : Nat → Paddles) (m : Machine) (a b : Nat) :
    m.play p (a + b) = (m.play p a).play (fun k => p (a + k)) b := by
  induction b with
  | zero => rfl
  | succ b ih =>
    show ((m.play p (a + b)).tick (p (a + b))).2 = _
    rw [ih]
    rfl

theorem outputAt_add (p : Nat → Paddles) (m : Machine) (a b : Nat) :
    m.outputAt p (a + b) = (m.play p a).outputAt (fun k => p (a + k)) b := by
  rw [outputAt, outputAt, play_add]

theorem Sound.play {m : Machine} (h : m.Sound) (p : Nat → Paddles) (n : Nat) :
    (m.play p n).Sound := by
  induction n with
  | zero => exact h
  | succ n ih => exact ih.tick (p n)

end Machine

end IambicKeyer

/-
  What is still sent once both paddles are open for good.

  1. **`coda`** — the element that follows the one under way although nothing is held: what the
     machine remembers, in mode B.  In mode A there is none.

  2. **A tick with both paddles open** sees nothing, so it queues nothing and changes neither flag
     nor memory: one equation for each way in which such a tick can go.

  3. **`RunsDown`** — the whole remainder of a play: what the key line does on every tick to come,
     and when the machine is idle.  A phase under way is put in front of the remainder that begins
     after it (`RunsDown.prepend`): first the last space, then the mark before it, then the coda.

  4. **`runs_down`** — at most one element follows the one under way.
-/
import IambicKeyer.Proofs.Machine.Run

namespace IambicKeyer

namespace Machine

variable {m m' : Machine} {s : Sending} {e : Element}

/-- Both paddles open on every tick. -/
def released : Nat → Paddles := fun _ => .idle

/-- The element that follows the one under way if both paddles are open at its end. -/
def coda (m : Machine) : Option Element :=
  match m.settings.release with
  | .modeA => none
  | .modeB => m.memory

/-! ## A tick with both paddles open -/

theorem first?_idle (s : Settings) : first? s .idle = none := rfl

theorem next?_idle (done : Sending) : next? m.settings done m.memory .idle = m.coda := rfl

theorem look_idle (w : Window) (s : Sending) : s.look w .idle = s := by
  rw [Sending.look, Sending.sees, Paddles.idle_holds, Bool.false_and, Bool.or_false]

theorem queues_idle (s : Sending) (m : Machine) : m.queues .idle s = none := by
  unfold queues
  rw [Sending.sees, Paddles.idle_holds]
  rfl

theorem remember_none (m : Machine) : m.remember none = m := by
  have hmem : (m.memory <|> none) = m.memory := by cases m.memory <;> rfl
  rw [remember, hmem]

theorem tick_idle_rest (idle : m.sending = none) : m.tick .idle = ({}, m) :=
  tick_rest idle (first?_idle m.settings)

theorem tick_idle_going (hs : m.sending = some s) (hleft : 1 < s.left) :
    m.tick .idle = ({}, { m with sending := some s.step }) := by
  have hmore : s.step.left ≠ 0 := by
    show s.left - 1 ≠ 0
    omega
  rw [tick_going hs hmore, queues_idle, remember_none, seen, look_idle]

theorem tick_idle_mark (hs : m.sending = some s) (hleft : s.left = 1) (hmark : s.phase = .mark) :
    m.tick .idle = (⟨some (.keyUp s.element), none⟩,
      { m with sending := some (s.step.release m.timing) }) := by
  have hlast : s.step.left = 0 := by
    show s.left - 1 = 0
    omega
  rw [tick_release hs hlast hmark, queues_idle, remember_none, seen, look_idle]

theorem tick_idle_space (hs : m.sending = some s) (hleft : s.left = 1) (hspace : s.phase = .space)
    (hcoda : m.coda = none) : m.tick .idle = ({}, m.reset) := by
  have hlast : s.step.left = 0 := by
    show s.left - 1 = 0
    omega
  refine tick_stop hs hlast hspace ?_
  rw [queues_idle, remember_none, next?_idle, hcoda]

theorem tick_idle_coda (hs : m.sending = some s) (hleft : s.left = 1) (hspace : s.phase = .space)
    (hcoda : m.coda = some e) :
    m.tick .idle = (⟨some (.keyDown e), none⟩,
      { m with memory := none, sending := some (.begin m.timing e) }) := by
  have hlast : s.step.left = 0 := by
    show s.left - 1 = 0
    omega
  have hnext : next? m.settings (m.seen .idle s) (m.remember (m.queues .idle s.step)).memory .idle
      = some e := by
    rw [queues_idle, remember_none, next?_idle, hcoda]
  rw [tick_next hs hlast hspace hnext, start, queues_idle, remember_none, look_idle]

/-! ## A phase runs to its end -/

/-- Up to its last tick, a phase only counts down. -/
theorem play_released (hs : m.sending = some s) : ∀ k, k < s.left →
    m.play released k = { m with sending := some { s with left := s.left - k } } := by
  intro k
  induction k with
  | zero =>
    intro _
    show m = { m with sending := some s }
    rw [← hs]
  | succ k ih =>
    intro hk
    have hmore : 1 < s.left - k := by omega
    rw [play, ih (by omega)]
    show (tick .idle _).2 = _
    rw [tick_idle_going rfl hmore]
    rfl

/-- The rest of a play with both paddles open: `key k` is what the key line does on the `k`-th tick
    to come, and the machine is idle from the `stop`-th on. -/
structure RunsDown (m : Machine) (key : Nat → Option Transition) (stop : Nat) : Prop where
  output : ∀ n, m.outputAt released n = ⟨key (n + 1), none⟩
  idle : ∀ n, (m.play released n).sending = none ↔ stop ≤ n
  memory : ∀ n, stop ≤ n → (m.play released n).memory = none

/-- An idle machine stays as it is. -/
theorem play_rest (idle : m.sending = none) (n : Nat) : m.play released n = m := by
  induction n with
  | zero => rfl
  | succ n ih =>
    rw [play, ih]
    show (m.tick .idle).2 = m
    rw [tick_idle_rest idle]

theorem outputAt_rest (idle : m.sending = none) (n : Nat) : m.outputAt released n = {} := by
  rw [outputAt, play_rest idle]
  show (m.tick .idle).1 = {}
  rw [tick_idle_rest idle]

theorem runsDown_rest (idle : m.sending = none) (memory : m.memory = none) :
    m.RunsDown (fun _ => none) 0 where
  output := outputAt_rest idle
  idle := by
    intro n
    rw [play_rest idle]
    exact ⟨fun _ => Nat.zero_le n, fun _ => idle⟩
  memory := by
    intro n _
    rw [play_rest idle, memory]

/-- **A phase comes before what follows it**: `t` is what the key line does on its last tick, and
    `m'` is where that tick leads. -/
theorem RunsDown.prepend {t : Option Transition} {key : Nat → Option Transition} {stop : Nat}
    (h : m'.RunsDown key stop) (hs : m.sending = some s) (hpos : 0 < s.left)
    (hlast : ({ m with sending := some { s with left := 1 } } : Machine).tick .idle
      = (⟨t, none⟩, m')) :
    m.RunsDown (fun k => if k < s.left then none else if k = s.left then t else key (k - s.left))
      (s.left + stop) := by
  -- the machine before the last tick of the phase
  have hone : s.left - (s.left - 1) = 1 := by omega
  have hbefore := play_released hs (s.left - 1) (by omega)
  rw [hone] at hbefore
  have hafter : m.play released s.left = m' := by
    have hsucc : s.left = s.left - 1 + 1 := by omega
    rw [hsucc, play, hbefore]
    show (tick .idle _).2 = m'
    rw [hlast]
  refine ⟨fun n => ?_, fun n => ?_, fun n hn => ?_⟩
  · rcases Nat.lt_or_ge n s.left with hlt | hge
    · rcases Nat.lt_or_ge (n + 1) s.left with hmore | hend
      · -- the phase goes on
        rw [if_pos hmore, outputAt, play_released hs n hlt]
        show (tick .idle _).1 = _
        rw [tick_idle_going rfl (by show 1 < s.left - n; omega)]
      · -- its last tick
        have hn : n = s.left - 1 := by omega
        rw [if_neg (by omega), if_pos (by omega), outputAt, hn, hbefore]
        show (tick .idle _).1 = _
        rw [hlast]
    · -- the phase is over, and `m'` has been playing for `j` ticks
      obtain ⟨j, rfl⟩ := Nat.exists_eq_add_of_le hge
      have hj : s.left + j + 1 - s.left = j + 1 := by omega
      rw [if_neg (by omega), if_neg (by omega), hj, outputAt_add, hafter]
      exact h.output j
  · rcases Nat.lt_or_ge n s.left with hlt | hge
    · rw [play_released hs n hlt]
      exact ⟨fun h => absurd h (Option.some_ne_none _), fun h => absurd h (by omega)⟩
    · obtain ⟨j, rfl⟩ := Nat.exists_eq_add_of_le hge
      rw [play_add, hafter]
      exact (h.idle j).trans Nat.add_le_add_iff_left.symm
  · obtain ⟨j, rfl⟩ := Nat.exists_eq_add_of_le (Nat.le_trans (Nat.le_add_right _ _) hn)
    rw [play_add, hafter]
    exact h.memory j (Nat.le_of_add_le_add_left hn)

/-- A remainder may be told in other words. -/
theorem RunsDown.congr {key key' : Nat → Option Transition} {stop stop' : Nat}
    (h : m.RunsDown key stop) (hkey : ∀ k, 0 < k → key k = key' k) (hstop : stop = stop') :
    m.RunsDown key' stop' := by
  subst hstop
  refine ⟨fun n => ?_, h.idle, h.memory⟩
  rw [h.output, hkey (n + 1) (Nat.succ_pos n)]

/-- The mark under way comes before its space. -/
theorem RunsDown.of_mark {key : Nat → Option Transition} {stop : Nat}
    (h : RunsDown { m with sending := some (s.release m.timing) } key stop)
    (hs : m.sending = some s) (hpos : 0 < s.left) (hmark : s.phase = .mark) :
    m.RunsDown (fun k => if k < s.left then none
      else if k = s.left then some (.keyUp s.element) else key (k - s.left)) (s.left + stop) :=
  h.prepend hs hpos (tick_idle_mark (s := { s with left := 1 }) rfl rfl hmark)

/-! ## The remainder of an element -/

/-- A space without a coda is the end. -/
theorem runsDown_space (hs : m.sending = some s) (hpos : 0 < s.left) (hspace : s.phase = .space)
    (hcoda : m.coda = none) : m.RunsDown (fun _ => none) s.left := by
  have hend := (runsDown_rest (m := m.reset) rfl rfl).prepend hs hpos
    (tick_idle_space (s := { s with left := 1 }) rfl rfl hspace hcoda)
  refine hend.congr (fun k _ => ?_) (Nat.add_zero _)
  simp only [ite_self]

/-- A mark without a coda, and its space. -/
theorem runsDown_mark (hs : m.sending = some s) (hpos : 0 < s.left) (hphase : s.phase = .mark)
    (hspace : 0 < m.timing.space) (hcoda : m.coda = none) :
    m.RunsDown (fun k => if k = s.left then some (.keyUp s.element) else none)
      (s.left + m.timing.space) := by
  have hrest : RunsDown { m with sending := some (s.release m.timing) } (fun _ => none)
      m.timing.space := runsDown_space (s := s.release m.timing) rfl hspace rfl hcoda
  refine (hrest.of_mark hs hpos hphase).congr (fun k _ => ?_) rfl
  by_cases hk : k = s.left
  · rw [if_neg (by omega), if_pos hk]
  · rw [if_neg hk, ite_self]

/-- A space, the coda, and its space. -/
theorem runsDown_space_coda (hs : m.sending = some s) (hpos : 0 < s.left)
    (hphase : s.phase = .space) (hspace : 0 < m.timing.space) (hmark : 0 < m.timing.mark e)
    (hcoda : m.coda = some e) :
    m.RunsDown
      (fun k => if k = s.left then some (.keyDown e)
        else if k = s.left + m.timing.mark e then some (.keyUp e) else none)
      (s.left + m.timing.mark e + m.timing.space) := by
  -- the coda begins with an empty memory, so nothing follows it
  have hempty : coda { m with memory := none, sending := some (.begin m.timing e) } = none := by
    unfold coda
    cases m.settings.release <;> rfl
  have hrest := (runsDown_mark (m := { m with memory := none, sending := some (.begin m.timing e) })
    (s := .begin m.timing e) rfl hmark rfl hspace hempty).prepend hs hpos
      (tick_idle_coda (m := { m with sending := some { s with left := 1 } })
        (s := { s with left := 1 }) rfl rfl hphase hcoda)
  refine hrest.congr (fun k _ => ?_) (Nat.add_assoc _ _ _).symm
  show (if k < s.left then none else if k = s.left then some (Transition.keyDown e)
    else if k - s.left = m.timing.mark e then some (Transition.keyUp e) else none) = _
  grind

/-- A mark, its space, the coda, and its space. -/
theorem runsDown_mark_coda (hs : m.sending = some s) (hpos : 0 < s.left) (hphase : s.phase = .mark)
    (hspace : 0 < m.timing.space) (hmark : 0 < m.timing.mark e) (hcoda : m.coda = some e) :
    m.RunsDown
      (fun k => if k = s.left then some (.keyUp s.element)
        else if k = s.left + m.timing.space then some (.keyDown e)
        else if k = s.left + m.timing.space + m.timing.mark e then some (.keyUp e) else none)
      (s.left + m.timing.space + m.timing.mark e + m.timing.space) := by
  have hrest := runsDown_space_coda (m := { m with sending := some (s.release m.timing) })
    (s := s.release m.timing) rfl hspace rfl hspace hmark hcoda
  refine (hrest.of_mark hs hpos hphase).congr (fun k _ => ?_) ?_
  · show (if k < s.left then none else if k = s.left then some (Transition.keyUp s.element)
      else if k - s.left = m.timing.space then some (Transition.keyDown e)
      else if k - s.left = m.timing.space + m.timing.mark e then some (Transition.keyUp e)
      else none) = _
    grind
  · show s.left + (m.timing.space + m.timing.mark e + m.timing.space) = _
    omega

/-! ## The rest of every play -/

/-- The ticks until the element under way is over, its space included. -/
def ending (m : Machine) (s : Sending) : Nat :=
  s.left + if s.phase = .mark then m.timing.space else 0

/-- **A machine that is let go runs down.**  Idle, it does nothing ever again.  Sending `s`, it
    finishes the element and its space, and is idle then with an empty memory — unless mode B
    remembers an element: that one, the opposite of the one under way, still follows with its
    space, and nothing after it. -/
theorem runs_down (hm : m.Reachable) :
    (m.sending = none → ∀ n, m.outputAt released n = {} ∧ m.play released n = m) ∧
    ∀ s, m.sending = some s →
      (m.settings.release = .modeA ∨ m.memory = none →
        m.RunsDown (fun k => if s.phase = .mark ∧ k = s.left then some (.keyUp s.element) else none)
          (m.ending s)) ∧
      ∀ e, m.settings.release = .modeB → m.memory = some e →
        e = s.element.opposite ∧
        m.RunsDown
          (fun k => if s.phase = .mark ∧ k = s.left then some (.keyUp s.element)
            else if k = m.ending s then some (.keyDown e)
            else if k = m.ending s + m.timing.mark e then some (.keyUp e)
            else none)
          (m.ending s + m.timing.mark e + m.timing.space) := by
  have hsound := hm.sound
  refine ⟨fun idle n => ⟨outputAt_rest idle n, play_rest idle n⟩, fun s hs => ?_⟩
  obtain ⟨hpos, -⟩ := hsound.left s hs
  have hspace : 0 < m.timing.space := by
    rw [hsound.timing]
    exact m.settings.space_pos
  have hmark : ∀ e, 0 < m.timing.mark e := by
    intro e
    rw [hsound.timing]
    exact m.settings.mark_pos e
  refine ⟨fun hend => ?_, fun e hmode hmem => ⟨?_, ?_⟩⟩
  · -- nothing follows the element under way
    have hcoda : m.coda = none := by
      unfold coda
      rcases hend with hmode | hmem
      · rw [hmode]
      · rw [hmem]
        cases m.settings.release <;> rfl
    unfold ending
    cases hphase : s.phase with
    | mark => simpa using runsDown_mark hs hpos hphase hspace hcoda
    | space => simpa using runsDown_space hs hpos hphase hcoda
  · -- only the opposite element is ever remembered
    obtain ⟨s', hs', he⟩ := hsound.recalls e hmem
    rw [hs] at hs'
    rw [he, Option.some.inj hs']
  · -- the element that is remembered follows
    have hcoda : m.coda = some e := by
      unfold coda
      rw [hmode]
      exact hmem
    unfold ending
    cases hphase : s.phase with
    | mark => simpa using runsDown_mark_coda hs hpos hphase hspace (hmark e) hcoda
    | space => simpa using runsDown_space_coda hs hpos hphase hspace (hmark e) hcoda

/-- A dit at 100 words a minute, squeezed on its first tick and let go: in mode B the dah follows
    24 ticks after the dit began, and the machine is idle after another 36 and 12. -/
theorem runs_down_squeeze :
    let m := ((ofSettings { wpm := 100, tickRate := 1000 }).tick .squeezed).2
    m.Reachable ∧ m.sending = some ⟨.dit, .mark, 12, 12, true⟩ ∧ m.memory = some .dah ∧
      m.RunsDown
        (fun k => if k = 12 then some (.keyUp .dit) else if k = 24 then some (.keyDown .dah)
          else if k = 60 then some (.keyUp .dah) else none) 72 := by
  intro m
  have hm : m.Reachable := (Reachable.ofSettings _).obey (.tick .squeezed)
  have hs : m.sending = some ⟨.dit, .mark, 12, 12, true⟩ := by decide
  have hmem : m.memory = some .dah := by decide
  obtain ⟨-, hdown⟩ := ((runs_down hm).2 _ hs).2 .dah (by decide) hmem
  have hending : m.ending ⟨.dit, .mark, 12, 12, true⟩ = 24 := by decide
  have hdah : m.timing.mark .dah = 36 := by decide
  have hspace : m.timing.space = 12 := by decide
  rw [hending, hdah, hspace] at hdown
  refine ⟨hm, hs, hmem, ?_⟩
  simpa using hdown

end Machine

end IambicKeyer

/-
  What an element is followed by, read off the paddle samples taken while it was sent.

  The machine decides from a remembered element and a squeeze flag, both of which change from tick
  to tick.  Here the decision is a function of the SAMPLES of the element alone:

  1. **`Settings.spotted`** — did some sample of the element find the opposite paddle closed inside
     the window?  Sample `k` of the mark stands at `100 * k / mark` percent, `k = 0` the tick on
     which the key goes down and `k = mark` the tick on which it goes up; sample `k` of the space
     stands at `100 * k / space` percent, from `k = 1` on.

  2. **`Settings.choice`** — what follows an element, given whether the opposite paddle was spotted
     and what is held on the last tick.

  3. **`UnderWay`** — the invariant of an element under way: flag and memory are what the samples
     so far call for, so nothing of what came before the element is left in them.  One lemma per
     way in which a tick of the element can go, and two inductions, over mark and space.

  4. **`followed_by_choice`** — the decision on the last tick of the space.
-/
import IambicKeyer.Proofs.Machine.Run

namespace IambicKeyer

/-! ## The history of an element -/

namespace Settings

/-- Is the opposite of `e` held inside the window, `k` ticks into a phase of `length` ticks? -/
def spots (s : Settings) (e : Element) (p : Paddles) (k length : Nat) : Bool :=
  p.holds e.opposite && s.window.contains (100 * k / length)

/-- Was the opposite of `e` spotted by one of the samples `0, …, n` of the mark of `e`? -/
def spottedInMark (s : Settings) (e : Element) (p : Nat → Paddles) (n : Nat) : Bool :=
  (List.range (n + 1)).any fun k => s.spots e (p k) k (s.timing.mark e)

/-- Was it spotted by one of the samples `1, …, n` of the space that follows? -/
def spottedInSpace (s : Settings) (e : Element) (p : Nat → Paddles) (n : Nat) : Bool :=
  (List.range' 1 n).any fun k => s.spots e (p (s.timing.mark e + k)) k s.timing.space

/-- Was it spotted by any sample of the element, from key down to the end of the space? -/
def spotted (s : Settings) (e : Element) (p : Nat → Paddles) : Bool :=
  s.spottedInMark e p (s.timing.mark e) || s.spottedInSpace e p s.timing.space

/-- **What follows `e`** when `p` is held on the last tick of its space. -/
def choice (s : Settings) (e : Element) (spotted : Bool) (p : Paddles) : Option Element :=
  let remembered := spotted && s.memory.remembers e.opposite
  match p.dit, p.dah with
  | false, false => if s.release = .modeB ∧ remembered then some e.opposite else none
  | true, true =>
    if remembered ∨ s.squeeze = .latchOn ∨ spotted then some e.opposite else some e
  | true, false => if remembered then some e.opposite else some .dit
  | false, true => if remembered then some e.opposite else some .dah

/-- The memory that a history calls for. -/
def kept (s : Settings) (e : Element) (spotted : Bool) : Option Element :=
  if spotted && s.memory.remembers e.opposite then some e.opposite else none

theorem spottedInMark_zero (s : Settings) (e : Element) (p : Nat → Paddles) :
    s.spottedInMark e p 0 = s.spots e (p 0) 0 (s.timing.mark e) := by
  simp [spottedInMark]

theorem spottedInMark_succ (s : Settings) (e : Element) (p : Nat → Paddles) (n : Nat) :
    s.spottedInMark e p (n + 1)
      = (s.spottedInMark e p n || s.spots e (p (n + 1)) (n + 1) (s.timing.mark e)) := by
  rw [spottedInMark, List.range_succ, List.any_append]
  simp [spottedInMark]

theorem spottedInSpace_zero (s : Settings) (e : Element) (p : Nat → Paddles) :
    s.spottedInSpace e p 0 = false := rfl

theorem spottedInSpace_succ (s : Settings) (e : Element) (p : Nat → Paddles) (n : Nat) :
    s.spottedInSpace e p (n + 1) = (s.spottedInSpace e p n
      || s.spots e (p (s.timing.mark e + (n + 1))) (n + 1) s.timing.space) := by
  rw [spottedInSpace, List.range'_concat, List.any_append]
  simp [spottedInSpace, Nat.add_comm 1 n]

end Settings

namespace Machine

/-! ## The decision of the machine is the choice -/

/-- With the flag and the memory that a history calls for, the machine picks the choice. -/
theorem next?_eq_choice (s : Settings) (done : Sending) (p : Paddles) :
    next? s done (s.kept done.element done.squeezed) p
      = s.choice done.element done.squeezed p := by
  obtain ⟨dit, dah⟩ := p
  unfold next? Settings.choice Settings.kept Paddles.isIdle Paddles.isSqueeze
  rcases hm : (done.squeezed && s.memory.remembers done.element.opposite) with _ | _
  · cases dit <;> cases dah <;> cases s.release <;> simp
  · cases dit <;> cases dah <;> cases s.release <;> simp

/-! ## The invariant of an element under way -/

/-- The machine is `length - left` ticks into a phase of `e`, and its flag and memory are what
    `spotted` calls for. -/
structure UnderWay (s : Settings) (e : Element) (phase : Phase) (length left : Nat)
    (spotted : Bool) (m : Machine) : Prop where
  settings : m.settings = s
  timing : m.timing = s.timing
  sending : m.sending = some ⟨e, phase, length, left, spotted⟩
  memory : m.memory = s.kept e spotted

variable {s : Settings} {e : Element} {phase : Phase} {length left : Nat} {w : Bool} {m : Machine}

/-- Where a tick stands in its phase. -/
theorem percent_step (hpos : 0 < length) :
    (Sending.step ⟨e, phase, length, left, w⟩).percent = 100 * (length - (left - 1)) / length := by
  show (length - (left - 1)) * 100 / max length 1 = 100 * (length - (left - 1)) / length
  rw [Nat.max_eq_left hpos, Nat.mul_comm]

/-- The machine sees the opposite paddle exactly when the sample spots it. -/
theorem sees_step (p : Paddles) (hpos : 0 < length) :
    (Sending.step ⟨e, phase, length, left, w⟩).sees s.window p
      = s.spots e p (length - (left - 1)) length := by
  rw [Sending.sees, percent_step hpos]
  rfl

/-- **One look keeps flag and memory in step with the history.** -/
theorem kept_remember (p : Paddles) {x : Sending} (hset : m.settings = s)
    (hmem : m.memory = s.kept x.element w) :
    (m.remember (m.queues p x)).memory = s.kept x.element (w || x.sees s.window p) := by
  show (m.memory <|> m.queues p x) = _
  unfold queues
  rw [hset, hmem]
  unfold Settings.kept
  -- a memory that is taken stays; a free one takes the opposite element if it may
  cases w <;> cases x.sees s.window p <;> cases s.memory.remembers x.element.opposite <;> rfl

/-- The element under way after its window has been looked at. -/
theorem UnderWay.seen (h : UnderWay s e phase length left w m) (p : Paddles) (hpos : 0 < length) :
    m.seen p ⟨e, phase, length, left, w⟩
      = ⟨e, phase, length, left - 1, w || s.spots e p (length - (left - 1)) length⟩ := by
  rw [Machine.seen, Sending.look, h.settings, sees_step p hpos]
  rfl

/-- The memory after its window has been looked at. -/
theorem UnderWay.remember (h : UnderWay s e phase length left w m) (p : Paddles)
    (hpos : 0 < length) :
    (m.remember (m.queues p (Sending.step ⟨e, phase, length, left, w⟩))).memory
      = s.kept e (w || s.spots e p (length - (left - 1)) length) := by
  rw [kept_remember (x := Sending.step ⟨e, phase, length, left, w⟩) p h.settings h.memory,
    sees_step p hpos]
  rfl

/-- An element that starts with an empty memory is under way, with its first sample looked at. -/
theorem underWay_start (p : Paddles) (hset : m.settings = s) (htiming : m.timing = s.timing)
    (hmem : m.memory = none) (hpos : 0 < s.timing.mark e) :
    UnderWay s e .mark (s.timing.mark e) (s.timing.mark e) (s.spots e p 0 (s.timing.mark e))
      (m.start p e).2 := by
  have hsees : (Sending.begin m.timing e).sees s.window p = s.spots e p 0 (s.timing.mark e) := by
    rw [htiming]
    show (p.holds e.opposite && s.window.contains
      ((s.timing.mark e - s.timing.mark e) * 100 / max (s.timing.mark e) 1)) = _
    rw [Nat.sub_self, Nat.max_eq_left hpos, Nat.zero_mul]
    rfl
  refine ⟨hset, htiming, ?_, ?_⟩
  · show some ((Sending.begin m.timing e).look m.settings.window p) = _
    rw [Sending.look, hset, hsees, htiming]
    rfl
  · show (m.remember (m.queues p (Sending.begin m.timing e))).memory = _
    rw [kept_remember (w := false) (x := Sending.begin m.timing e) p hset hmem, hsees]
    rfl

/-- A tick on which the key goes down starts the element with an empty memory. -/
theorem underWay_of_keyDown (hm : m.Sound) {p : Paddles}
    (hon : (m.tick p).1.transition = some (.keyDown e)) :
    UnderWay m.settings e .mark (m.settings.timing.mark e) (m.settings.timing.mark e)
      (m.settings.spots e p 0 (m.settings.timing.mark e)) (m.tick p).2 := by
  have hpos := m.settings.mark_pos e
  have hcase := m.ticked p
  generalize m.tick p = r at hcase hon ⊢
  cases hcase with
  | rest => nomatch hon
  | start e' hidle =>
    obtain rfl := Transition.keyDown.inj (Option.some.inj hon)
    exact underWay_start p rfl hm.timing (hm.memory_of_idle hidle) hpos
  | going => nomatch hon
  | release => nomatch hon
  | next s e' =>
    -- the decision before has emptied the memory
    obtain rfl := Transition.keyDown.inj (Option.some.inj hon)
    exact underWay_start p rfl hm.timing rfl hpos
  | stop => nomatch hon

/-! ## A tick of an element under way -/

/-- A tick inside a phase changes nothing but the place in it, and what has been spotted. -/
theorem UnderWay.going (h : UnderWay s e phase length left w m) (p : Paddles)
    (hpos : 0 < length) (hleft : 1 < left) :
    (m.tick p).1.transition = none ∧
      UnderWay s e phase length (left - 1) (w || s.spots e p (length - (left - 1)) length)
        (m.tick p).2 := by
  have hmore : (Sending.step ⟨e, phase, length, left, w⟩).left ≠ 0 := by
    show left - 1 ≠ 0
    omega
  rw [tick_going h.sending hmore]
  exact ⟨rfl, h.settings, h.timing, congrArg some (h.seen p hpos), h.remember p hpos⟩

/-- The last tick of the mark puts the key up; what has been spotted counts on in the space. -/
theorem UnderWay.release (h : UnderWay s e .mark length 1 w m) (p : Paddles) (hpos : 0 < length) :
    (m.tick p).1.transition = some (.keyUp e) ∧
      UnderWay s e .space s.timing.space s.timing.space (w || s.spots e p length length)
        (m.tick p).2 := by
  rw [tick_release h.sending rfl rfl]
  refine ⟨rfl, h.settings, h.timing, ?_, h.remember p hpos⟩
  show some ((m.seen p ⟨e, .mark, length, 1, w⟩).release m.timing) = _
  rw [h.seen p hpos, h.timing]
  rfl

/-- **The last tick of the space** goes on to the choice, or to rest if there is none. -/
theorem UnderWay.finish (h : UnderWay s e .space length 1 w m) (p : Paddles) (hpos : 0 < length) :
    (m.tick p).1.transition
        = (s.choice e (w || s.spots e p length length) p).map .keyDown ∧
      (m.tick p).2.sending.map (·.element)
        = s.choice e (w || s.spots e p length length) p := by
  -- what the machine looks at when it decides is the flag and the memory of the whole history
  have hnext : next? m.settings (m.seen p ⟨e, .space, length, 1, w⟩)
      (m.remember (m.queues p (Sending.step ⟨e, .space, length, 1, w⟩))).memory p
        = s.choice e (w || s.spots e p length length) p := by
    rw [h.seen p hpos, h.remember p hpos, h.settings]
    exact next?_eq_choice s ⟨e, .space, length, 0, w || s.spots e p length length⟩ p
  rcases hc : s.choice e (w || s.spots e p length length) p with _ | e'
  · rw [tick_stop h.sending rfl rfl (hnext.trans hc)]
    exact ⟨rfl, rfl⟩
  · rw [tick_next h.sending rfl rfl (hnext.trans hc)]
    exact ⟨rfl, rfl⟩

/-! ## The whole element -/

variable {p : Nat → Paddles}

/-- Tick `k` of the mark, the key-down tick included. -/
theorem underWay_mark (hm : m.Sound) (hon : (m.outputAt p 0).transition = some (.keyDown e)) :
    ∀ k, k < m.settings.timing.mark e →
      UnderWay m.settings e .mark (m.settings.timing.mark e) (m.settings.timing.mark e - k)
        (m.settings.spottedInMark e p k) (m.play p (k + 1)) ∧
      (0 < k → (m.outputAt p k).transition = none) := by
  intro k
  induction k with
  | zero =>
    intro _
    rw [Settings.spottedInMark_zero]
    exact ⟨underWay_of_keyDown hm hon, fun h => absurd h (Nat.lt_irrefl 0)⟩
  | succ k ih =>
    intro hk
    obtain ⟨hway, -⟩ := ih (by omega)
    obtain ⟨hnone, hnext⟩ := hway.going (p (k + 1)) (by omega) (by omega)
    have hplace : m.settings.timing.mark e - (m.settings.timing.mark e - k - 1) = k + 1 := by omega
    rw [hplace, ← Settings.spottedInMark_succ] at hnext
    exact ⟨hnext, fun _ => hnone⟩

/-- The key-up tick. -/
theorem underWay_release (hm : m.Sound) (hon : (m.outputAt p 0).transition = some (.keyDown e)) :
    UnderWay m.settings e .space m.settings.timing.space m.settings.timing.space
      (m.settings.spottedInMark e p (m.settings.timing.mark e))
      (m.play p (m.settings.timing.mark e + 1)) ∧
    (m.outputAt p (m.settings.timing.mark e)).transition = some (.keyUp e) := by
  have hpos := m.settings.mark_pos e
  obtain ⟨n, hn⟩ := Nat.exists_eq_succ_of_ne_zero (by omega : m.settings.timing.mark e ≠ 0)
  obtain ⟨hway, -⟩ := underWay_mark hm hon n (by omega)
  have hlast : m.settings.timing.mark e - n = 1 := by omega
  rw [hlast] at hway
  obtain ⟨hup, hnext⟩ := hway.release (p (n + 1)) hpos
  rw [hn] at hnext ⊢
  rw [Settings.spottedInMark_succ, hn]
  exact ⟨hnext, hup⟩

/-- Tick `j` of the space, the key-up tick included. -/
theorem underWay_space (hm : m.Sound) (hon : (m.outputAt p 0).transition = some (.keyDown e)) :
    ∀ j, j < m.settings.timing.space →
      UnderWay m.settings e .space m.settings.timing.space (m.settings.timing.space - j)
        (m.settings.spottedInMark e p (m.settings.timing.mark e)
          || m.settings.spottedInSpace e p j)
        (m.play p (m.settings.timing.mark e + j + 1)) ∧
      (0 < j → (m.outputAt p (m.settings.timing.mark e + j)).transition = none) := by
  intro j
  induction j with
  | zero =>
    intro _
    rw [Settings.spottedInSpace_zero, Bool.or_false]
    exact ⟨(underWay_release hm hon).1, fun h => absurd h (Nat.lt_irrefl 0)⟩
  | succ j ih =>
    intro hj
    obtain ⟨hway, -⟩ := ih (by omega)
    obtain ⟨hnone, hnext⟩ :=
      hway.going (p (m.settings.timing.mark e + (j + 1))) (by omega) (by omega)
    have hplace : m.settings.timing.space - (m.settings.timing.space - j - 1) = j + 1 := by omega
    rw [hplace, Bool.or_assoc, ← Settings.spottedInSpace_succ] at hnext
    exact ⟨hnext, fun _ => hnone⟩

/-- Between key down and the end of the space the key line moves once, at the end of the mark. -/
theorem transition_within (hm : m.Sound) (hon : (m.outputAt p 0).transition = some (.keyDown e))
    {k : Nat} (hk : 0 < k) (hlast : k < m.settings.timing.mark e + m.settings.timing.space) :
    (m.outputAt p k).transition
      = if k = m.settings.timing.mark e then some (.keyUp e) else none := by
  by_cases hup : k = m.settings.timing.mark e
  · rw [if_pos hup, hup]
    exact (underWay_release hm hon).2
  · rw [if_neg hup]
    rcases Nat.lt_or_ge k (m.settings.timing.mark e) with hmark | hmark
    · exact (underWay_mark hm hon k hmark).2 hk
    · obtain ⟨j, rfl⟩ := Nat.exists_eq_add_of_le hmark
      exact (underWay_space hm hon j (by omega)).2 (by omega)

/-- Before the last tick of the space, all samples but the last have been looked at. -/
theorem underWay_last (hm : m.Sound) (hon : (m.outputAt p 0).transition = some (.keyDown e)) :
    ∃ w, UnderWay m.settings e .space m.settings.timing.space 1 w
        (m.play p (m.settings.timing.mark e + m.settings.timing.space)) ∧
      (w || m.settings.spots e (p (m.settings.timing.mark e + m.settings.timing.space))
        m.settings.timing.space m.settings.timing.space) = m.settings.spotted e p := by
  have hpos := m.settings.space_pos
  obtain ⟨n, hn⟩ := Nat.exists_eq_succ_of_ne_zero (by omega : m.settings.timing.space ≠ 0)
  obtain ⟨hway, -⟩ := underWay_space hm hon n (by omega)
  have hone : m.settings.timing.space - n = 1 := by omega
  have hplace : m.settings.timing.mark e + n + 1
      = m.settings.timing.mark e + m.settings.timing.space := by omega
  rw [hone, hplace] at hway
  refine ⟨_, hway, ?_⟩
  have hall : m.settings.spottedInSpace e p m.settings.timing.space
      = (m.settings.spottedInSpace e p n
        || m.settings.spots e (p (m.settings.timing.mark e + m.settings.timing.space))
          m.settings.timing.space m.settings.timing.space) := by
    have hsucc := m.settings.spottedInSpace_succ e p n
    rwa [← Nat.succ_eq_add_one, ← hn] at hsucc
  rw [Settings.spotted, hall, Bool.or_assoc]

/-- **The decision is a function of the samples of the element.**  If the key goes down for `e` on
    tick `0` of a play, it goes up `mark` ticks later, nothing else happens before the space is
    over, and on the tick on which it is over the machine goes on to the choice that the samples
    `p 0, …, p (mark + space)` call for — whatever came before them. -/
theorem followed_by_choice (hm : m.Reachable)
    (hon : (m.outputAt p 0).transition = some (.keyDown e)) :
    let s := m.settings
    let mark := s.timing.mark e
    let last := mark + s.timing.space
    (∀ k, 0 < k → k < last →
      (m.outputAt p k).transition = if k = mark then some (.keyUp e) else none) ∧
    (m.outputAt p last).transition = (s.choice e (s.spotted e p) (p last)).map .keyDown ∧
    (m.play p (last + 1)).sending.map (·.element) = s.choice e (s.spotted e p) (p last) := by
  refine ⟨fun k hk hlast => transition_within hm.sound hon hk hlast, ?_⟩
  obtain ⟨w, hway, hall⟩ := underWay_last hm.sound hon
  have hfin := hway.finish (p (m.settings.timing.mark e + m.settings.timing.space))
    m.settings.space_pos
  rw [hall] at hfin
  exact hfin

/-- A dit at 100 words a minute and 1000 ticks a second, the dah paddle tapped on the one tick that
    lies in the window: both paddles are open from then on, and the dah is still sent. -/
theorem followed_by_choice_tap :
    let m := Machine.ofSettings { wpm := 100, tickRate := 1000, window := ⟨50, 50⟩ }
    let p : Nat → Paddles := fun k => ⟨k == 0, k == 6⟩
    m.Reachable ∧ (m.outputAt p 0).transition = some (.keyDown .dit) ∧
      (m.outputAt p 12).transition = some (.keyUp .dit) ∧
      (m.outputAt p 24).transition = some (.keyDown .dah) := by
  intro m p
  have hm : m.Reachable := .ofSettings _
  have hon : (m.outputAt p 0).transition = some (.keyDown .dit) := by decide
  have hmark : m.settings.timing.mark .dit = 12 := by decide
  have hspace : m.settings.timing.space = 12 := by decide
  have h := followed_by_choice hm hon
  simp only [hmark, hspace, Nat.reduceAdd] at h
  obtain ⟨hup, hlast, -⟩ := h
  have hchoice : m.settings.choice .dit (m.settings.spotted .dit p) (p 24) = some .dah := by decide
  rw [hchoice] at hlast
  exact ⟨hm, hon, hup 12 (by decide) (by decide), hlast⟩

end Machine

end IambicKeyer

/-
  Elements keep their time, whatever the settings do meanwhile.

  1. **`moments`** — an observer's notes of a run, one per tick: the durations in force on the tick,
     what the key line did, and what the machine was doing afterwards.  Commands other than ticks
     take no time and leave no note.

  2. **`Punctual`** — the rules that the notes of a run without resets obey.  A duration counts as
     it was on the tick on which its phase began: the mark on the key-down tick, the space on the
     key-up tick.  New settings in between change neither.

  3. **`moments_induction`** — what holds of the notes of every run follows from a tick step and
     from the fact that settings leave the element under way alone.  Three properties are proved
     by it: a phase under way runs for exactly the ticks it has left (`foretold_moments`), the key
     is down only since a key down (`traced_moments`), and transitions come in pairs
     (`answered_moments`).

  4. **`punctual_moments`** — every run without resets is punctual.
-/
import IambicKeyer.Proofs.Machine.Run

namespace IambicKeyer

namespace Machine

/-! ## An observer's notes -/

/-- The element being sent and its phase; `none` while idle. -/
def state (m : Machine) : Option (Element × Phase) :=
  m.sending.map fun s => (s.element, s.phase)

/-- What there is to note about one tick. -/
structure Moment where
  /-- The durations in force on the tick. -/
  timing : Timing
  transition : Option Transition
  /-- The state after the tick. -/
  state : Option (Element × Phase)
  deriving DecidableEq

/-- The note of a tick with the paddles `p`. -/
def moment (p : Paddles) (m : Machine) : Moment :=
  ⟨m.timing, (m.tick p).1.transition, (m.tick p).2.state⟩

/-- The notes of a run. -/
def moments : Machine → List Command → List Moment
  | _, [] => []
  | m, .tick p :: cs => m.moment p :: (m.tick p).2.moments cs
  | m, .adopt s :: cs => (m.adopt s).moments cs
  | m, .sync store :: cs => (m.sync store).2.moments cs
  | m, .reset :: cs => m.reset.moments cs

/-! ## The rules of punctuality -/

/-- Key downs and key ups take turns, each key up for the element that the key went down for. -/
def Paired : List Transition → Prop
  | [] => True
  | [.keyDown _] => True
  | .keyDown e :: .keyUp e' :: ts => e' = e ∧ Paired ts
  | _ => False

/-- How a tick looks that ends a phase of `e`. -/
def Moment.Ends (e : Element) : Phase → Moment → Prop
  | .mark, x => x.transition = some (.keyUp e) ∧ x.state = some (e, .space)
  | .space, x =>
    (∃ e', x.transition = some (.keyDown e') ∧ x.state = some (e', .mark)) ∨
      (x.transition = none ∧ x.state = none)

/-- **The rules.**  Places in `xs` are ticks. -/
structure Punctual (xs : List Moment) : Prop where
  /-- The key transitions take turns. -/
  paired : Paired (xs.filterMap (·.transition))
  /-- The key goes up exactly one mark after it went down, and stays down until then. -/
  mark : ∀ i (x : Moment) e, xs[i]? = some x → x.transition = some (.keyDown e) →
    x.state = some (e, .mark) ∧ ∀ j (y : Moment), 0 < j → xs[i + j]? = some y →
      (j < x.timing.mark e → y.transition = none ∧ y.state = some (e, .mark)) ∧
      (j = x.timing.mark e → y.Ends e .mark)
  /-- Exactly one space after it went up the next element starts or the machine is idle, and
      nothing happens until then. -/
  space : ∀ i (x : Moment) e, xs[i]? = some x → x.transition = some (.keyUp e) →
    x.state = some (e, .space) ∧ ∀ j (y : Moment), 0 < j → xs[i + j]? = some y →
      (j < x.timing.space → y.transition = none ∧ y.state = some (e, .space)) ∧
      (j = x.timing.space → y.Ends e .space)
  /-- The key goes up only one mark after it went down. -/
  release : ∀ i (x : Moment) e, xs[i]? = some x → x.transition = some (.keyUp e) →
    ∃ (j : Nat) (y : Moment), xs[j]? = some y ∧ y.transition = some (.keyDown e) ∧
      i = j + y.timing.mark e
  /-- The key is down only within one mark since it went down. -/
  held : ∀ i (x : Moment) e, xs[i]? = some x → x.state = some (e, .mark) →
    ∃ (j : Nat) (y : Moment), xs[j]? = some y ∧ y.transition = some (.keyDown e) ∧ j ≤ i ∧
      i < j + y.timing.mark e

/-! ## One tick -/

variable {m : Machine} {p : Paddles} {s : Sending} {e : Element}

/-- Inside a phase a tick changes only the ticks that are left. -/
theorem moment_going (hs : m.sending = some s) (hleft : 1 < s.left) :
    (m.moment p).transition = none ∧ (m.moment p).state = some (s.element, s.phase) ∧
      ∃ s', (m.tick p).2.sending = some s' ∧ s'.element = s.element ∧ s'.phase = s.phase ∧
        s'.left = s.left - 1 := by
  have hmore : s.step.left ≠ 0 := by
    show s.left - 1 ≠ 0
    omega
  unfold moment
  rw [tick_going hs hmore]
  exact ⟨rfl, rfl, _, rfl, rfl, rfl, rfl⟩

/-- The last tick of a phase ends it. -/
theorem moment_ends (hs : m.sending = some s) (hleft : s.left = 1) :
    (m.moment p).Ends s.element s.phase := by
  have hend : s.step.left = 0 := by
    show s.left - 1 = 0
    omega
  rcases hphase : s.phase with _ | _
  · unfold moment
    rw [tick_release hs hend hphase]
    exact ⟨rfl, rfl⟩
  · rcases hnext : next? m.settings (m.seen p s) (m.remember (m.queues p s.step)).memory p with _ | e
    · unfold moment
      rw [tick_stop hs hend hphase hnext]
      exact Or.inr ⟨rfl, rfl⟩
    · unfold moment
      rw [tick_next hs hend hphase hnext]
      exact Or.inl ⟨e, rfl, rfl⟩

/-- A key down begins a mark of the length in force. -/
theorem sending_of_keyDown (h : (m.moment p).transition = some (.keyDown e)) :
    (m.moment p).state = some (e, .mark) ∧
      ∃ s', (m.tick p).2.sending = some s' ∧ s'.element = e ∧ s'.phase = .mark ∧
        s'.left = (m.moment p).timing.mark e := by
  unfold moment at h ⊢
  have hcase := m.ticked p
  generalize m.tick p = r at hcase h ⊢
  cases hcase with
  | rest => nomatch h
  | start e' =>
    obtain rfl := Transition.keyDown.inj (Option.some.inj h)
    exact ⟨rfl, _, rfl, rfl, rfl, rfl⟩
  | going => nomatch h
  | release => nomatch h
  | next s e' =>
    obtain rfl := Transition.keyDown.inj (Option.some.inj h)
    exact ⟨rfl, _, rfl, rfl, rfl, rfl⟩
  | stop => nomatch h

/-- A key up begins a space of the length in force. -/
theorem sending_of_keyUp (h : (m.moment p).transition = some (.keyUp e)) :
    (m.moment p).state = some (e, .space) ∧
      ∃ s', (m.tick p).2.sending = some s' ∧ s'.element = e ∧ s'.phase = .space ∧
        s'.left = (m.moment p).timing.space := by
  unfold moment at h ⊢
  have hcase := m.ticked p
  generalize m.tick p = r at hcase h ⊢
  cases hcase with
  | rest => nomatch h
  | start => nomatch h
  | going => nomatch h
  | release s =>
    obtain rfl := Transition.keyUp.inj (Option.some.inj h)
    exact ⟨rfl, _, rfl, rfl, rfl, rfl⟩
  | next => nomatch h
  | stop => nomatch h

/-! ## The induction over a run -/

/-- **Induction over the notes of a run.**  Settings do not touch the element under way, so a
    property that looks at nothing else only has to be carried over the ticks. -/
theorem moments_induction {Q : Machine → List Moment → Prop} (nil : ∀ m, Q m [])
    (settle : ∀ m m' xs, m'.sending = m.sending → Q m' xs → Q m xs)
    (tick : ∀ m p cs, m.Sound → .reset ∉ cs → Q (m.tick p).2 ((m.tick p).2.moments cs) →
      Q m (m.moment p :: (m.tick p).2.moments cs)) :
    ∀ (cs : List Command) (m : Machine), m.Sound → .reset ∉ cs → Q m (m.moments cs) := by
  intro cs
  induction cs with
  | nil => intro m _ _; exact nil m
  | cons c cs ih =>
    intro m hm hreset
    have hcs : Command.reset ∉ cs := fun h => hreset (List.mem_cons_of_mem c h)
    have hnext := ih (m.obey c) (hm.obey c) hcs
    cases c with
    | tick p => exact tick m p cs hm hcs hnext
    | adopt s => exact settle m (m.adopt s) _ rfl hnext
    | sync store =>
      refine settle m (m.sync store).2 _ ?_ hnext
      unfold Machine.sync
      split <;> rfl
    | reset => exact absurd List.mem_cons_self hreset

/-- Every note is the note of a tick, and the notes after it are those of a run of its own. -/
theorem moments_split {cs : List Command} (hm : m.Sound) (hreset : .reset ∉ cs) {i : Nat}
    {x : Moment} (hx : (m.moments cs)[i]? = some x) :
    ∃ (m' : Machine) (p : Paddles) (cs' : List Command), m'.Sound ∧ .reset ∉ cs' ∧
      x = m'.moment p ∧ ∀ j, (m.moments cs)[i + (j + 1)]? = ((m'.tick p).2.moments cs')[j]? := by
  refine moments_induction (Q := fun _ xs => ∀ i x, xs[i]? = some x →
      ∃ (m' : Machine) (p : Paddles) (cs' : List Command), m'.Sound ∧ .reset ∉ cs' ∧
        x = m'.moment p ∧ ∀ j, xs[i + (j + 1)]? = ((m'.tick p).2.moments cs')[j]?)
    ?_ ?_ ?_ cs m hm hreset i x hx
  · intro _ i x hx
    rw [List.getElem?_nil] at hx
    nomatch hx
  · exact fun _ _ _ _ h => h
  · intro m p cs hm hcs ih i x hx
    cases i with
    | zero =>
      refine ⟨m, p, cs, hm, hcs, (Option.some.inj hx).symm, fun j => ?_⟩
      rw [Nat.zero_add, List.getElem?_cons_succ]
    | succ i =>
      obtain ⟨m', p', cs', hm', hcs', hx', hrest⟩ := ih i x hx
      refine ⟨m', p', cs', hm', hcs', hx', fun j => ?_⟩
      rw [Nat.add_right_comm, List.getElem?_cons_succ]
      exact hrest j

/-! ## A phase under way runs to its end -/

/-- The notes say what the phase under way foretells: nothing until it has one tick left, and its
    end on that tick. -/
def Foretold (m : Machine) (xs : List Moment) : Prop :=
  ∀ s, m.sending = some s → ∀ j x, xs[j]? = some x →
    (j + 1 < s.left → x.transition = none ∧ x.state = some (s.element, s.phase)) ∧
    (j + 1 = s.left → x.Ends s.element s.phase)

theorem foretold_moments (cs : List Command) (m : Machine) (hm : m.Sound)
    (hreset : .reset ∉ cs) : Foretold m (m.moments cs) := by
  refine moments_induction (Q := Foretold) ?_ ?_ ?_ cs m hm hreset
  · intro _ s _ j x hx
    rw [List.getElem?_nil] at hx
    nomatch hx
  · intro m m' xs hsame h s hs
    exact h s (hsame.trans hs)
  · intro m p cs hm _ ih s hs j x hx
    cases j with
    | zero =>
      -- the tick itself
      obtain rfl := Option.some.inj hx
      refine ⟨fun hlt => ?_, fun heq => moment_ends hs heq.symm⟩
      obtain ⟨hnone, hstate, -⟩ := moment_going (p := p) hs hlt
      exact ⟨hnone, hstate⟩
    | succ j =>
      rcases Nat.lt_or_ge 1 s.left with hlt | hge
      · obtain ⟨-, -, s', hs', helem, hphase, hleft⟩ := moment_going (p := p) hs hlt
        obtain ⟨hin, hend⟩ := ih s' hs' j x hx
        rw [helem, hphase] at hin hend
        exact ⟨fun h => hin (by omega), fun h => hend (by omega)⟩
      · -- the phase ends on this tick, so later notes are none of its business
        have hpos := (hm.left s hs).1
        exact ⟨fun h => absurd h (by omega), fun h => absurd h (by omega)⟩

/-! ## The key is down only since a key down -/

/-- The tick keeps the key down for `e`, or puts it up. -/
def Moment.InMark (e : Element) (x : Moment) : Prop :=
  x.transition = some (.keyUp e) ∨ x.state = some (e, .mark)

/-- A key that is down was down at the beginning, or has gone down since, at most one mark ago. -/
def Traced (m : Machine) (xs : List Moment) : Prop :=
  ∀ i x e, xs[i]? = some x → x.InMark e →
    (∃ s, m.sending = some s ∧ s.element = e ∧ s.phase = .mark ∧ i < s.left) ∨
    (∃ j y, xs[j]? = some y ∧ y.transition = some (.keyDown e) ∧ j ≤ i ∧
      i ≤ j + y.timing.mark e)

/-- Where a mark that is under way after a tick comes from. -/
theorem mark_of_tick {s' : Sending} (hs' : (m.tick p).2.sending = some s')
    (hmark : s'.phase = .mark) :
    (∃ s, m.sending = some s ∧ s.element = s'.element ∧ s.phase = .mark ∧
        s'.left + 1 = s.left) ∨
    ((m.moment p).transition = some (.keyDown s'.element) ∧
      s'.left = (m.moment p).timing.mark s'.element) := by
  unfold moment
  have hcase := m.ticked p
  generalize m.tick p = r at hcase hs' ⊢
  cases hcase with
  | rest hidle => rw [hidle] at hs'; nomatch hs'
  | start e =>
    obtain rfl := Option.some.inj hs'
    exact Or.inr ⟨rfl, rfl⟩
  | going s hs hleft =>
    obtain rfl := Option.some.inj hs'
    refine Or.inl ⟨s, hs, rfl, hmark, ?_⟩
    have hmore : s.left - 1 ≠ 0 := hleft
    show s.left - 1 + 1 = s.left
    omega
  | release s hs =>
    obtain rfl := Option.some.inj hs'
    nomatch hmark
  | next s e =>
    obtain rfl := Option.some.inj hs'
    exact Or.inr ⟨rfl, rfl⟩
  | stop => nomatch hs'

/-- The tick itself: the key was down before it, or goes down on it. -/
theorem inMark_moment (hm : m.Sound) (h : (m.moment p).InMark e) :
    (∃ s, m.sending = some s ∧ s.element = e ∧ s.phase = .mark ∧ 0 < s.left) ∨
      (m.moment p).transition = some (.keyDown e) := by
  rcases h with hup | hstate
  · unfold moment at hup
    have hcase := m.ticked p
    generalize m.tick p = r at hcase hup
    cases hcase with
    | rest => nomatch hup
    | start => nomatch hup
    | going => nomatch hup
    | release s hs _ hmark =>
      obtain rfl := Transition.keyUp.inj (Option.some.inj hup)
      exact Or.inl ⟨s, hs, rfl, hmark, (hm.left s hs).1⟩
    | next => nomatch hup
    | stop => nomatch hup
  · obtain ⟨s', hs', hpair⟩ := Option.map_eq_some_iff.mp hstate
    obtain ⟨rfl, hmark⟩ := Prod.mk.inj hpair
    rcases mark_of_tick hs' hmark with ⟨s, hs, helem, hphase, -⟩ | ⟨hdown, -⟩
    · exact Or.inl ⟨s, hs, helem, hphase, (hm.left s hs).1⟩
    · exact Or.inr hdown

theorem traced_moments (cs : List Command) (m : Machine) (hm : m.Sound)
    (hreset : .reset ∉ cs) : Traced m (m.moments cs) := by
  refine moments_induction (Q := Traced) ?_ ?_ ?_ cs m hm hreset
  · intro _ i x e hx
    rw [List.getElem?_nil] at hx
    nomatch hx
  · intro m m' xs hsame h i x e hx hin
    rw [← hsame]
    exact h i x e hx hin
  · intro m p cs hm _ ih i x e hx hin
    cases i with
    | zero =>
      obtain rfl := Option.some.inj hx
      rcases inMark_moment hm hin with hbefore | hdown
      · exact Or.inl hbefore
      · exact Or.inr ⟨0, m.moment p, rfl, hdown, Nat.le_refl 0, Nat.zero_le _⟩
    | succ i =>
      rcases ih i x e hx hin with ⟨s', hs', rfl, hmark, hlt⟩ | ⟨j, y, hy, hdown, hji, hle⟩
      · rcases mark_of_tick hs' hmark with ⟨s, hs, helem, hphase, hleft⟩ | ⟨hdown, hleft⟩
        · exact Or.inl ⟨s, hs, helem, hphase, by omega⟩
        · exact Or.inr ⟨0, m.moment p, rfl, hdown, Nat.zero_le _, by omega⟩
      · exact Or.inr ⟨j + 1, y, hy, hdown, by omega, by omega⟩

/-! ## Transitions come in pairs -/

/-- The transitions of the notes, a key that is down counted as a key down before them. -/
def Answered (m : Machine) (xs : List Moment) : Prop :=
  match m.state with
  | some (e, .mark) => Paired (.keyDown e :: xs.filterMap (·.transition))
  | _ => Paired (xs.filterMap (·.transition))

theorem answered_of_idle (hidle : m.sending = none) (xs : List Moment) :
    Answered m xs = Paired (xs.filterMap (·.transition)) := by
  unfold Answered state
  rw [hidle]
  rfl

theorem answered_of_mark (hs : m.sending = some s) (hmark : s.phase = .mark) (xs : List Moment) :
    Answered m xs = Paired (.keyDown s.element :: xs.filterMap (·.transition)) := by
  obtain ⟨e, phase, length, left, squeezed⟩ := s
  obtain rfl : phase = .mark := hmark
  unfold Answered state
  rw [hs]
  rfl

theorem answered_of_space (hs : m.sending = some s) (hspace : s.phase = .space)
    (xs : List Moment) : Answered m xs = Paired (xs.filterMap (·.transition)) := by
  obtain ⟨e, phase, length, left, squeezed⟩ := s
  obtain rfl : phase = .space := hspace
  unfold Answered state
  rw [hs]
  rfl

theorem answered_moments (cs : List Command) (m : Machine) (hm : m.Sound)
    (hreset : .reset ∉ cs) : Answered m (m.moments cs) := by
  refine moments_induction (Q := Answered) ?_ ?_ ?_ cs m hm hreset
  · intro m
    unfold Answered
    split <;> trivial
  · intro m m' xs hsame h
    have hstate : m'.state = m.state := by rw [state, state, hsame]
    unfold Answered at h ⊢
    rwa [hstate] at h
  · intro m p cs hm _ ih
    unfold moment
    have hcase := m.ticked p
    generalize m.tick p = r at hcase ih ⊢
    cases hcase with
    | rest hidle =>
      rw [answered_of_idle hidle] at ih ⊢
      exact ih
    | start e hidle =>
      -- the key down of this tick is the one that counts afterwards
      rw [answered_of_idle hidle]
      rw [answered_of_mark rfl rfl] at ih
      exact ih
    | going s hs =>
      cases hphase : s.phase with
      | mark =>
        rw [answered_of_mark hs hphase]
        rw [answered_of_mark (s := m.seen p s) rfl hphase] at ih
        exact ih
      | space =>
        rw [answered_of_space hs hphase]
        rw [answered_of_space (s := m.seen p s) rfl hphase] at ih
        exact ih
    | release s hs _ hmark =>
      -- the key up of this tick answers the key down before
      rw [answered_of_mark hs hmark]
      rw [answered_of_space rfl rfl] at ih
      exact ⟨rfl, ih⟩
    | next s e hs _ hspace =>
      rw [answered_of_space hs hspace]
      rw [answered_of_mark rfl rfl] at ih
      exact ih
    | stop s hs _ hspace =>
      rw [answered_of_space hs hspace]
      rw [answered_of_idle rfl] at ih
      exact ih

/-! ## Every run is punctual -/

/-- What a phase foretells stands in the notes from the tick on that began it. -/
theorem foretold_since {xs ys : List Moment} (htold : Foretold m ys) (hs : m.sending = some s)
    {i : Nat} (hrest : ∀ j, xs[i + (j + 1)]? = ys[j]?) :
    ∀ j y, 0 < j → xs[i + j]? = some y →
      (j < s.left → y.transition = none ∧ y.state = some (s.element, s.phase)) ∧
      (j = s.left → y.Ends s.element s.phase) := by
  intro j y hj hy
  obtain ⟨n, rfl⟩ := Nat.exists_eq_succ_of_ne_zero (Nat.pos_iff_ne_zero.mp hj)
  rw [hrest n] at hy
  exact htold s hs n y hy

/-- After a key down, the notes of a run tell a mark of the length in force on that tick. -/
theorem mark_moments {cs : List Command} (hm : m.Sound) (hreset : .reset ∉ cs) {i : Nat}
    {x : Moment} (hx : (m.moments cs)[i]? = some x) (hdown : x.transition = some (.keyDown e)) :
    x.state = some (e, .mark) ∧ ∀ j y, 0 < j → (m.moments cs)[i + j]? = some y →
      (j < x.timing.mark e → y.transition = none ∧ y.state = some (e, .mark)) ∧
      (j = x.timing.mark e → y.Ends e .mark) := by
  obtain ⟨m', p, cs', hm', hcs', rfl, hrest⟩ := moments_split hm hreset hx
  obtain ⟨hstate, s', hs', helem, hphase, hleft⟩ := sending_of_keyDown hdown
  have hsince := foretold_since (foretold_moments cs' _ (hm'.tick p) hcs') hs' hrest
  rw [helem, hphase, hleft] at hsince
  exact ⟨hstate, hsince⟩

/-- After a key up, they tell a space of the length in force on that tick. -/
theorem space_moments {cs : List Command} (hm : m.Sound) (hreset : .reset ∉ cs) {i : Nat}
    {x : Moment} (hx : (m.moments cs)[i]? = some x) (hup : x.transition = some (.keyUp e)) :
    x.state = some (e, .space) ∧ ∀ j y, 0 < j → (m.moments cs)[i + j]? = some y →
      (j < x.timing.space → y.transition = none ∧ y.state = some (e, .space)) ∧
      (j = x.timing.space → y.Ends e .space) := by
  obtain ⟨m', p, cs', hm', hcs', rfl, hrest⟩ := moments_split hm hreset hx
  obtain ⟨hstate, s', hs', helem, hphase, hleft⟩ := sending_of_keyUp hup
  have hsince := foretold_since (foretold_moments cs' _ (hm'.tick p) hcs') hs' hrest
  rw [helem, hphase, hleft] at hsince
  exact ⟨hstate, hsince⟩

/-- The marks of the notes have at least one tick. -/
theorem mark_pos_of_moments {cs : List Command} (hm : m.Sound) (hreset : .reset ∉ cs) {i : Nat}
    {x : Moment} (hx : (m.moments cs)[i]? = some x) (e : Element) : 0 < x.timing.mark e := by
  obtain ⟨m', p, -, hm', -, rfl, -⟩ := moments_split hm hreset hx
  show 0 < m'.timing.mark e
  rw [hm'.timing]
  exact m'.settings.mark_pos e

/-- From an idle machine on, a mark has its key down `n` ticks before, `n` at most its length. -/
theorem keyDown_of_inMark {cs : List Command} (hm : m.Sound) (hidle : m.sending = none)
    (hreset : .reset ∉ cs) {i : Nat} {x : Moment} (hx : (m.moments cs)[i]? = some x)
    (hin : x.InMark e) :
    ∃ (j n : Nat) (y : Moment), (m.moments cs)[j]? = some y ∧
      y.transition = some (.keyDown e) ∧ i = j + n ∧ n ≤ y.timing.mark e := by
  rcases traced_moments cs m hm hreset i x e hx hin with ⟨s, hs, -⟩ | ⟨j, y, hy, hdown, hji, hle⟩
  · rw [hidle] at hs
    nomatch hs
  · obtain ⟨n, rfl⟩ := Nat.exists_eq_add_of_le hji
    exact ⟨j, n, y, hy, hdown, rfl, by omega⟩

/-- **Every run without resets is punctual**, whatever samples, settings and stores it meets. -/
theorem punctual_moments (s : Settings) {cs : List Command} (hreset : .reset ∉ cs) :
    Punctual ((ofSettings s).moments cs) := by
  have hm := sound_ofSettings s
  refine ⟨answered_moments cs _ hm hreset, fun i x e hx => mark_moments hm hreset hx,
    fun i x e hx => space_moments hm hreset hx, ?_, ?_⟩
  · intro i x e hx hup
    obtain ⟨j, n, y, hy, hdown, rfl, hle⟩ := keyDown_of_inMark hm rfl hreset hx (Or.inl hup)
    refine ⟨j, y, hy, hdown, ?_⟩
    rcases Nat.eq_zero_or_pos n with rfl | hpos
    · -- one tick cannot put the key both down and up
      obtain rfl := Option.some.inj (hy.symm.trans hx)
      rw [hdown] at hup
      nomatch hup
    · obtain ⟨hin, -⟩ := (mark_moments hm hreset hy hdown).2 n x hpos hx
      rcases Nat.lt_or_ge n (y.timing.mark e) with hlt | hge
      · rw [(hin hlt).1] at hup
        nomatch hup
      · omega
  · intro i x e hx hstate
    obtain ⟨j, n, y, hy, hdown, rfl, hle⟩ := keyDown_of_inMark hm rfl hreset hx (Or.inr hstate)
    refine ⟨j, y, hy, hdown, Nat.le_add_right j n, ?_⟩
    have hmark := mark_pos_of_moments hm hreset hy e
    rcases Nat.lt_or_ge n (y.timing.mark e) with hlt | hge
    · omega
    · -- on the last tick of the mark the key is up
      obtain ⟨-, hend⟩ := (mark_moments hm hreset hy hdown).2 n x (by omega) hx
      rw [(hend (by omega)).2] at hstate
      nomatch hstate

/-- A dit at 100 words a minute, slowed down to 50 on the tick after the key went down: the mark
    keeps its 12 ticks, and the space has the 24 that are in force when the key goes up. -/
theorem punctual_moments_slowed :
    let slow : Settings := { wpm := 50, tickRate := 1000 }
    let cs : List Command := .tick ⟨true, false⟩ :: .adopt slow :: List.replicate 36 (.tick .idle)
    let xs := (ofSettings { wpm := 100, tickRate := 1000 }).moments cs
    .reset ∉ cs ∧ Punctual xs ∧
      xs[0]?.map (·.transition) = some (some (.keyDown .dit)) ∧
      xs[12]?.map (fun x => (x.transition, x.timing.space)) = some (some (.keyUp .dit), 24) ∧
      xs[35]?.map (·.state) = some (some (.dit, .space)) ∧
      xs[36]?.map (·.state) = some none := by
  intro slow cs xs
  have hreset : Command.reset ∉ cs := by decide
  exact ⟨hreset, punctual_moments _ hreset, by decide +kernel, by decide +kernel,
    by decide +kernel, by decide +kernel⟩

end Machine

end IambicKeyer

/-
  A session beat by beat.

      operations  ──▶  beats:    one per tick, with what an observer notes of the machine
           │                     and what the keyer gives out
           └──────▶  commands:   what the machine alone is told

  1. **`Beat`** — the time that a tick goes by, the note of the machine (`Machine.Moment`) and the
     effects.  The transition and the gap among its events are those of machine and gap timer
     (`tells_transition_iff`, `tells_gap_iff`), and the key line follows the transition.

  2. **`Session.Tuned`** — the invariant of a session: the settings, the store's and the keyer's
     copy of them, lie within the limits, machine and gap timer agree on the dit, and the machine
     is sound.

  3. **Commands** — the notes of the beats are those of a run of the machine (`beats_moments`), so
     marks and spaces take their time here too (`mark_beats`, `space_beats`).
-/
import IambicKeyer.Proofs.Keyer.Coherence
import IambicKeyer.Proofs.Machine.Punctuality

namespace IambicKeyer

/-! ## Beats -/

/-- One tick of a session. -/
structure Beat where
  /-- The time that the tick goes by. -/
  time : Int
  /-- The note of the machine. -/
  moment : Machine.Moment
  effects : Effects

/-- The event is published on this tick. -/
def Beat.Tells (b : Beat) (event : Event) : Prop := event ∈ b.effects.events.map (·.event)

instance (b : Beat) (event : Event) : Decidable (b.Tells event) :=
  inferInstanceAs (Decidable (event ∈ b.effects.events.map (·.event)))

namespace Session

/-- A tick of the session, with what it gives out. -/
def beat (s : Session) (now : Int) (p : Paddles) : Beat where
  time := (s.keyer.checkClock now).1
  moment := (s.keyer.ready s.store now).machine.moment p
  effects := (s.perform (.tick now p)).1

/-- The ticks among the operations. -/
def beats : Session → List Operation → List Beat
  | _, [] => []
  | s, .tick now p :: ops => s.beat now p :: (s.perform (.tick now p)).2.beats ops
  | s, .reset now :: ops => (s.perform (.reset now)).2.beats ops
  | s, .write w :: ops => (s.perform (.write w)).2.beats ops

/-- What the machine is told by the operations: to look at the store, and to take the sample. -/
def commands : Session → List Operation → List Machine.Command
  | _, [] => []
  | s, .tick now p :: ops =>
    .sync s.store :: .tick p :: (s.perform (.tick now p)).2.commands ops
  | s, .reset now :: ops => .reset :: (s.perform (.reset now)).2.commands ops
  | s, .write w :: ops => (s.perform (.write w)).2.commands ops

end Session

/-! ## What a beat tells -/

/-- The event of a transition tells which one it is. -/
theorem Event.ofTransition_inj {t u : Transition} (h : ofTransition t = ofTransition u) :
    t = u := by
  cases t with
  | keyDown e =>
    cases u with
    | keyDown e' => rw [Event.keyDown.inj h]
    | keyUp e' => nomatch h
  | keyUp e =>
    cases u with
    | keyDown e' => nomatch h
    | keyUp e' => rw [Event.keyUp.inj h]

/-- The events of a sample: contacts, keying, memory, gap. -/
theorem Keyer.mem_advance_iff (time : Int) (p : Paddles) (k : Keyer) (event : Event) :
    event ∈ (k.advance time p).2.1.events.map (·.event) ↔
      (p ≠ k.paddles ∧ event = .paddles p) ∨
      (∃ t, (k.machine.tick p).1.transition = some t ∧ event = .ofTransition t) ∨
      (∃ e, (k.machine.tick p).1.queued = some e ∧ event = .queued e) ∨
      (∃ g, (k.gaps.tick (k.machine.tick p).1.transition).1 = some g ∧ event = .gap g) := by
  have hcontacts : event ∈ (k.contactEvents time p).map (·.event) ↔
      p ≠ k.paddles ∧ event = .paddles p := by
    unfold contactEvents
    by_cases hp : p = k.paddles
    · simp [hp]
    · simp [hp]
  have hkeying : ∀ t : Option Transition,
      event ∈ (t.toList.map fun t => (⟨time, .ofTransition t⟩ : TimedEvent)).map (·.event) ↔
        ∃ u, t = some u ∧ event = .ofTransition u := fun t => by cases t <;> simp
  have hqueued : ∀ q : Option Element,
      event ∈ (q.map (⟨time, .queued ·⟩ : Element → TimedEvent)).toList.map (·.event) ↔
        ∃ e, q = some e ∧ event = .queued e := fun q => by cases q <;> simp
  have hgap : ∀ g : Option Gap,
      event ∈ (g.map (⟨time, .gap ·⟩ : Gap → TimedEvent)).toList.map (·.event) ↔
        ∃ h, g = some h ∧ event = .gap h := fun g => by cases g <;> simp
  rw [advance_events, List.map_append, List.map_append, List.map_append, List.mem_append,
    List.mem_append, List.mem_append, hcontacts, hkeying, hqueued, hgap, or_assoc, or_assoc]

namespace Session

variable {s : Session} {now : Int} {p : Paddles}

/-- **A transition is told on the tick on which the machine makes it**, and no other one. -/
theorem tells_transition_iff (t : Transition) :
    (s.beat now p).Tells (.ofTransition t) ↔ (s.beat now p).moment.transition = some t := by
  show Event.ofTransition t ∈ List.map _ (s.keyer.tick s.store now p).2.1.events ↔ _
  rw [Keyer.tick_events, Keyer.mem_advance_iff]
  constructor
  · rintro (⟨-, h⟩ | ⟨u, hu, h⟩ | ⟨e, -, h⟩ | ⟨g, -, h⟩)
    · cases t <;> nomatch h
    · rw [Event.ofTransition_inj h]
      exact hu
    · cases t <;> nomatch h
    · cases t <;> nomatch h
  · exact fun h => Or.inr (Or.inl ⟨t, h, rfl⟩)

/-- **A gap is told on the tick on which the timer reports it.** -/
theorem tells_gap_iff (g : Gap) :
    (s.beat now p).Tells (.gap g) ↔
      ((s.keyer.ready s.store now).gaps.tick (s.beat now p).moment.transition).1 = some g := by
  show Event.gap g ∈ List.map _ (s.keyer.tick s.store now p).2.1.events ↔ _
  rw [Keyer.tick_events, Keyer.mem_advance_iff]
  constructor
  · rintro (⟨-, h⟩ | ⟨u, -, h⟩ | ⟨e, -, h⟩ | ⟨g', hg, h⟩)
    · nomatch h
    · cases u <;> nomatch h
    · nomatch h
    · rw [Event.gap.inj h]
      exact hg
  · exact fun h => Or.inr (Or.inr (Or.inr ⟨g, h, rfl⟩))

/-- The key line follows the transition, at the time of the tick. -/
theorem beat_keying (s : Session) (now : Int) (p : Paddles) :
    (s.beat now p).effects.keying
      = (s.beat now p).moment.transition.toList.map fun t => ⟨t.isDown, (s.beat now p).time⟩ := by
  show (s.keyer.tick s.store now p).2.1.keying = _
  rw [Keyer.tick_keying, Keyer.advance_keying]
  rfl

end Session

/-! ## Tuned sessions -/

/-- A copy of settings within the limits, with the durations and the unit that they call for. -/
structure Copy.Fair (c : Copy) : Prop where
  settings : c.settings.InLimits
  timing : c.timing = c.settings.timing
  unit : c.unit = c.timing.dit

namespace Session

variable {s : Session}

/-- **What holds of a session all along.** -/
structure Tuned (s : Session) : Prop where
  store : s.store.settings.InLimits
  copy : s.keyer.copy.Fair
  sound : s.keyer.machine.Sound

theorem tuned_ofStore {store : Store} (h : store.settings.InLimits) : (ofStore store).Tuned where
  store := h
  copy := ⟨h, rfl, store.settings.max_ditTicks⟩
  sound := Machine.sound_ofSettings store.settings

/-- A tick goes by the copy that it has taken or kept. -/
theorem Tuned.ready (h : s.Tuned) (now : Int) : (s.keyer.ready s.store now).copy.Fair := by
  rw [Keyer.ready_copy]
  split
  · exact ⟨h.store, rfl, rfl⟩
  · exact h.copy

theorem Tuned.ready_sound (h : s.Tuned) (now : Int) :
    (s.keyer.ready s.store now).machine.Sound := by
  rw [Keyer.ready_machine]
  exact h.sound.obey (.sync s.store)

/-- **Every operation keeps a session tuned.** -/
theorem Tuned.perform (h : s.Tuned) (op : Operation) : (s.perform op).2.Tuned := by
  cases op with
  | tick now p =>
    refine ⟨h.store, ?_, ?_⟩
    · show (s.keyer.tick s.store now p).2.2.copy.Fair
      rw [Keyer.tick_keyer, Keyer.advance_copy]
      exact h.ready now
    · exact (h.ready_sound now).tick p
  | reset now => exact ⟨h.store, h.copy, h.sound.obey .reset⟩
  | write w =>
    refine ⟨?_, ?_, ?_⟩
    · rw [store_write]
      exact Store.inLimits_attempt h.store w
    · rw [(s.perform_write w).2]
      exact h.copy
    · rw [(s.perform_write w).2]
      exact h.sound

/-! ## The beats of a run -/

/-- **The notes of the beats are those of a run of the machine.** -/
theorem beats_moments (s : Session) (ops : List Operation) :
    (s.beats ops).map (·.moment) = s.keyer.machine.moments (s.commands ops) := by
  induction ops generalizing s with
  | nil => rfl
  | cons op ops ih =>
    cases op with
    | tick now p =>
      show (s.keyer.ready s.store now).machine.moment p :: _
        = (s.keyer.machine.sync s.store).2.moment p
          :: ((s.keyer.machine.sync s.store).2.tick p).2.moments _
      rw [← Keyer.ready_machine s.store now, List.cons.injEq]
      exact ⟨rfl, ih _⟩
    | reset now => exact ih _
    | write w =>
      show List.map _ ((s.perform (.write w)).2.beats ops) = _
      rw [ih, (s.perform_write w).2]
      rfl

theorem no_reset_tail {op : Operation} {ops : List Operation} (h : ∀ now, .reset now ∉ op :: ops)
    (now : Int) : .reset now ∉ ops := fun hmem => h now (List.mem_cons_of_mem op hmem)

/-- Whatever is published without a reset is published on a beat. -/
theorem published_beats (s : Session) {ops : List Operation} (h : ∀ now, .reset now ∉ ops) :
    Effects.published (s.effects ops) = Effects.published ((s.beats ops).map (·.effects)) := by
  induction ops generalizing s with
  | nil => rfl
  | cons op ops ih =>
    cases op with
    | tick now p => exact congrArg (_ ++ ·) (ih _ (no_reset_tail h))
    | reset now => exact absurd List.mem_cons_self (h now)
    | write w =>
      show (s.perform (.write w)).1.events ++ Effects.published (_ : List Effects) = _
      rw [(s.perform_write w).1]
      exact ih _ (no_reset_tail h)

/-- No reset among the operations is none among the commands. -/
theorem reset_not_mem_commands (s : Session) {ops : List Operation}
    (h : ∀ now, .reset now ∉ ops) : .reset ∉ s.commands ops := by
  induction ops generalizing s with
  | nil => exact List.not_mem_nil
  | cons op ops ih =>
    cases op with
    | tick now p =>
      intro hmem
      rcases List.mem_cons.mp hmem with hsync | hmem
      · nomatch hsync
      · rcases List.mem_cons.mp hmem with htick | hmem
        · nomatch htick
        · exact ih _ (no_reset_tail h) hmem
    | reset now => exact absurd List.mem_cons_self (h now)
    | write w => exact ih _ (no_reset_tail h)

/-- Every beat is a tick of a tuned session, and the beats after it are those of the session that
    it leaves. -/
theorem Tuned.split (h : s.Tuned) {ops : List Operation} {i : Nat} {x : Beat}
    (hx : (s.beats ops)[i]? = some x) :
    ∃ (s' : Session) (now : Int) (p : Paddles) (ops' : List Operation), s'.Tuned ∧ ops' ⊆ ops ∧
      x = s'.beat now p ∧
      ∀ j, (s.beats ops)[i + (j + 1)]? = ((s'.perform (.tick now p)).2.beats ops')[j]? := by
  induction ops generalizing s i with
  | nil => nomatch hx
  | cons op ops ih =>
    -- the first beat is the first tick; all the others are beats of the session after `op`
    have hlater : ∀ i, ((s.perform op).2.beats ops)[i]? = some x →
        ∃ (s' : Session) (now : Int) (p : Paddles) (ops' : List Operation), s'.Tuned ∧
          ops' ⊆ op :: ops ∧ x = s'.beat now p ∧
          ∀ j, ((s.perform op).2.beats ops)[i + (j + 1)]?
            = ((s'.perform (.tick now p)).2.beats ops')[j]? := by
      intro i hi
      obtain ⟨s', now, p, ops', hs', hops, hx', hrest⟩ := ih (h.perform op) hi
      exact ⟨s', now, p, ops', hs', List.subset_cons_of_subset op hops, hx', hrest⟩
    cases op with
    | tick now p =>
      cases i with
      | zero =>
        refine ⟨s, now, p, ops, h, List.subset_cons_self _ _, (Option.some.inj hx).symm,
          fun j => ?_⟩
        rw [Nat.zero_add]
        rfl
      | succ i =>
        obtain ⟨s', now', p', ops', hs', hops, hx', hrest⟩ := hlater i hx
        refine ⟨s', now', p', ops', hs', hops, hx', fun j => ?_⟩
        rw [Nat.add_right_comm]
        exact hrest j
    | reset now => exact hlater i hx
    | write w => exact hlater i hx

end Session

/-! ## Marks and spaces -/

namespace Session

variable {s : Session} {ops : List Operation} {i : Nat} {x : Beat} {e : Element}

/-- What a beat tells of the key is what is noted. -/
theorem Tuned.tells_transition (h : s.Tuned) (hx : (s.beats ops)[i]? = some x) (t : Transition) :
    x.Tells (.ofTransition t) ↔ x.moment.transition = some t := by
  obtain ⟨s', now, p, -, -, -, rfl, -⟩ := h.split hx
  exact tells_transition_iff t

/-- And it is what the key line does. -/
theorem Tuned.keying (h : s.Tuned) (hx : (s.beats ops)[i]? = some x) :
    x.effects.keying = x.moment.transition.toList.map fun t => ⟨t.isDown, x.time⟩ := by
  obtain ⟨s', now, p, -, -, -, rfl, -⟩ := h.split hx
  exact s'.beat_keying now p

/-- A beat is noted. -/
theorem moment_of_beat (hx : (s.beats ops)[i]? = some x) :
    (s.keyer.machine.moments (s.commands ops))[i]? = some x.moment := by
  rw [← beats_moments, List.getElem?_map, hx]
  rfl

/-- After a key down there are no transitions for a mark, and then the key goes up. -/
theorem Tuned.mark_beats (h : s.Tuned) (hreset : ∀ now, .reset now ∉ ops)
    (hx : (s.beats ops)[i]? = some x) (hdown : x.moment.transition = some (.keyDown e)) :
    ∀ (j : Nat) (y : Beat), 0 < j → (s.beats ops)[i + j]? = some y →
      (j < x.moment.timing.mark e → y.moment.transition = none) ∧
      (j = x.moment.timing.mark e → y.moment.transition = some (.keyUp e)) := by
  intro j y hj hy
  obtain ⟨hin, hend⟩ := (Machine.mark_moments h.sound (s.reset_not_mem_commands hreset)
    (moment_of_beat hx) hdown).2 j y.moment hj (moment_of_beat hy)
  exact ⟨fun hlt => (hin hlt).1, fun heq => (hend heq).1⟩

/-- After a key up there are none for a space. -/
theorem Tuned.space_beats (h : s.Tuned) (hreset : ∀ now, .reset now ∉ ops)
    (hx : (s.beats ops)[i]? = some x) (hup : x.moment.transition = some (.keyUp e)) :
    ∀ (j : Nat) (y : Beat), 0 < j → (s.beats ops)[i + j]? = some y →
      j < x.moment.timing.space → y.moment.transition = none := by
  intro j y hj hy hlt
  obtain ⟨hin, -⟩ := (Machine.space_moments h.sound (s.reset_not_mem_commands hreset)
    (moment_of_beat hx) hup).2 j y.moment hj (moment_of_beat hy)
  exact (hin hlt).1

/-- **The first key up after a key down** belongs to the same element and comes one mark later. -/
theorem Tuned.keyUp_after (h : s.Tuned) (hreset : ∀ now, .reset now ∉ ops)
    (hx : (s.beats ops)[i]? = some x) (hdown : x.moment.transition = some (.keyDown e)) {j : Nat}
    {y : Beat} {e' : Element} (hij : i < j) (hy : (s.beats ops)[j]? = some y)
    (hup : y.moment.transition = some (.keyUp e'))
    (hquiet : ∀ k z, i < k → k < j → (s.beats ops)[k]? = some z → z.moment.transition = none) :
    e' = e ∧ j = i + x.moment.timing.mark e := by
  have hmark := h.mark_beats hreset hx hdown
  have hpos : 0 < x.moment.timing.mark e :=
    Machine.mark_pos_of_moments h.sound (s.reset_not_mem_commands hreset) (moment_of_beat hx) e
  obtain ⟨d, rfl⟩ := Nat.exists_eq_add_of_le (Nat.le_of_lt hij)
  rcases Nat.lt_trichotomy d (x.moment.timing.mark e) with hlt | heq | hgt
  · rw [(hmark d y (by omega) hy).1 hlt] at hup
    nomatch hup
  · rw [(hmark d y (by omega) hy).2 heq] at hup
    exact ⟨(Transition.keyUp.inj (Option.some.inj hup)).symm, by rw [heq]⟩
  · -- the mark is over before `y`
    obtain ⟨hlen, -⟩ := List.getElem?_eq_some_iff.mp hy
    obtain ⟨z, hz⟩ : ∃ z, (s.beats ops)[i + x.moment.timing.mark e]? = some z :=
      ⟨_, List.getElem?_eq_getElem (by omega)⟩
    have hend := (hmark _ z hpos hz).2 rfl
    rw [hquiet _ z (by omega) (by omega) hz] at hend
    nomatch hend

end Session

end IambicKeyer

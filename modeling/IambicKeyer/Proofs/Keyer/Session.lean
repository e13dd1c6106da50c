/-
  Sessions of a keyer.

  1. **Operations** — a tick at any time with any sample, a reset at any time, and a write to the
     shared store, which the store may refuse.  A `Session` is the store and the keyer; an
     operation gives out effects and leaves a session (`perform`), and a list of operations gives
     out one `Effects` each (`effects`).

  2. **The stream** of a station receives what is published, in order (`absorbAll_stream`).

  3. **The parts of a tick** — clock and settings are looked at first, which publishes nothing and
     leaves the element under way alone (`ready`); what is published and keyed, and the keyer that
     is left, come from `Keyer.advance` (`tick_events`, `tick_keying`, `tick_keyer`).
-/
import IambicKeyer.Station

namespace IambicKeyer

namespace Effects

/-- The events that a list of effects publishes. -/
def published (es : List Effects) : List TimedEvent := es.flatMap (·.events)

/-- What a list of effects does to the key line. -/
def keyed (es : List Effects) : List KeyChange := es.flatMap (·.keying)

end Effects

/-! ## Operations -/

/-- What can be done to a keyer and its store. -/
inductive Operation where
  | tick (now : Int) (p : Paddles)
  | reset (now : Int)
  | write (w : Write)
  deriving DecidableEq

/-- A keyer and the store that it takes its settings from. -/
structure Session where
  store : Store
  keyer : Keyer

namespace Session

/-- A keyer that has just been made. -/
def ofStore (store : Store) : Session := ⟨store, Keyer.ofStore store⟩

/-- What an operation gives out, and the session after it. -/
def perform (s : Session) : Operation → Effects × Session
  | .tick now p =>
    let (_, effects, keyer) := s.keyer.tick s.store now p
    (effects, { s with keyer := keyer })
  | .reset now =>
    let (effects, keyer) := s.keyer.reset now
    (effects, { s with keyer := keyer })
  | .write w =>
    match s.store.write w with
    | .ok (store, _) => ({}, { s with store := store })
    | .error _ => ({}, s)

/-- The session after a list of operations. -/
def after (s : Session) (ops : List Operation) : Session :=
  ops.foldl (fun s op => (s.perform op).2) s

/-- What a list of operations gives out, one by one. -/
def effects : Session → List Operation → List Effects
  | _, [] => []
  | s, op :: ops => (s.perform op).1 :: effects (s.perform op).2 ops

theorem after_append (s : Session) (ops more : List Operation) :
    s.after (ops ++ more) = (s.after ops).after more := List.foldl_append

/-- A write gives nothing out and does not touch the keyer, whether it goes through or not. -/
theorem perform_write (s : Session) (w : Write) :
    (s.perform (.write w)).1 = {} ∧ (s.perform (.write w)).2.keyer = s.keyer := by
  cases hw : s.store.write w with
  | error _ => simp only [perform, hw, and_self]
  | ok written => simp only [perform, hw, and_self]

end Session

/-! ## The station -/

theorem Station.absorbAll_stream {k C : Nat} (st : Station k C) (es : List Effects) :
    (st.absorbAll es).stream = st.stream.pushAll (Effects.published es) := by
  induction es generalizing st with
  | nil => rfl
  | cons e es ih =>
    show ((st.absorb e).absorbAll es).stream = st.stream.pushAll (e.events ++ Effects.published es)
    rw [ih, EventStream.pushAll, EventStream.pushAll, List.foldl_append]
    rfl

/-! ## The parts of a tick -/

namespace Keyer

/-- The keyer when it takes the sample: it has looked at the clock and at the settings. -/
def ready (store : Store) (now : Int) (k : Keyer) : Keyer :=
  ({ k with time := some (k.checkClock now).1 }.sync store (k.checkClock now).1).2

/-- Looking at the clock publishes nothing. -/
theorem checkClock_silent (now : Int) (k : Keyer) :
    (k.checkClock now).2.events = [] ∧ (k.checkClock now).2.keying = [] := by
  unfold checkClock
  rcases k.time with _ | last
  · exact ⟨rfl, rfl⟩
  · by_cases hback : now < last
    · simp only [if_pos hback, and_self]
    · simp only [if_neg hback, and_self]

/-- Taking over settings publishes nothing. -/
theorem sync_silent (store : Store) (time : Int) (k : Keyer) :
    (k.sync store time).1.events = [] ∧ (k.sync store time).1.keying = [] := by
  unfold sync
  rcases k.machine.sync store with ⟨_ | _, m⟩
  · exact ⟨rfl, rfl⟩
  · exact ⟨rfl, rfl⟩

theorem tick_events (store : Store) (now : Int) (p : Paddles) (k : Keyer) :
    (k.tick store now p).2.1.events
      = ((k.ready store now).advance (k.checkClock now).1 p).2.1.events := by
  show (k.checkClock now).2.events ++ (sync store _ _).1.events ++ _ = _
  rw [(k.checkClock_silent now).1, (sync_silent store _ _).1]
  rfl

theorem tick_keying (store : Store) (now : Int) (p : Paddles) (k : Keyer) :
    (k.tick store now p).2.1.keying
      = ((k.ready store now).advance (k.checkClock now).1 p).2.1.keying := by
  show (k.checkClock now).2.keying ++ (sync store _ _).1.keying ++ _ = _
  rw [(k.checkClock_silent now).2, (sync_silent store _ _).2]
  rfl

/-- What a tick leaves behind, the settings taken over or not. -/
theorem tick_keyer (store : Store) (now : Int) (p : Paddles) (k : Keyer) :
    (k.tick store now p).2.2
      = ((k.ready store now).advance (k.checkClock now).1 p).2.2 := rfl

/-- The time of a tick is the time that it goes by. -/
theorem tick_time (store : Store) (now : Int) (p : Paddles) (k : Keyer) :
    (k.tick store now p).2.2.time = some (k.checkClock now).1 := by
  rw [tick_keyer]
  show (k.ready store now).time = _
  unfold ready sync
  rcases k.machine.sync store with ⟨_ | _, m⟩ <;> rfl

/-- The machine has looked at the settings too. -/
theorem ready_machine (store : Store) (now : Int) (k : Keyer) :
    (k.ready store now).machine = (k.machine.sync store).2 := by
  unfold ready sync
  rcases k.machine.sync store with ⟨_ | _, m⟩ <;> rfl

/-- New settings leave the element under way alone. -/
theorem ready_sending (store : Store) (now : Int) (k : Keyer) :
    (k.ready store now).machine.sending = k.machine.sending := by
  rw [ready_machine]
  unfold Machine.sync
  split <;> rfl

/-- What a sample does to the key line: the machine's transition, at the time of the tick. -/
theorem advance_keying (time : Int) (p : Paddles) (k : Keyer) :
    (k.advance time p).2.1.keying
      = (k.machine.tick p).1.transition.toList.map fun t => ⟨t.isDown, time⟩ := by
  have hkeying : ∀ t : Option Transition, ((t.map (Effects.ofTransition time)).getD {}).keying
      = t.toList.map fun t => ⟨t.isDown, time⟩ := fun t => by cases t <;> rfl
  show [] ++ ((_ : Option Effects).getD {}).keying ++ [] ++ [] = _
  rw [List.nil_append, List.append_nil, List.append_nil]
  exact hkeying _

/-- The events of a sample: contacts, keying, memory, gap. -/
theorem advance_events (time : Int) (p : Paddles) (k : Keyer) :
    (k.advance time p).2.1.events
      = k.contactEvents time p
        ++ (k.machine.tick p).1.transition.toList.map (fun t => ⟨time, .ofTransition t⟩)
        ++ ((k.machine.tick p).1.queued.map (⟨time, .queued ·⟩)).toList
        ++ ((k.gaps.tick (k.machine.tick p).1.transition).1.map (⟨time, .gap ·⟩)).toList := by
  have hevents : ∀ t : Option Transition, ((t.map (Effects.ofTransition time)).getD {}).events
      = t.toList.map fun t => ⟨time, .ofTransition t⟩ := fun t => by cases t <;> rfl
  rw [← hevents]
  rfl

/-- What a reset does to the key line: it is released if it is down. -/
theorem reset_keying (now : Int) (k : Keyer) :
    (k.reset now).1.keying = if k.isKeyDown then [⟨false, now⟩] else [] := by
  unfold reset isKeyDown Machine.isKeyDown
  rcases k.machine.sending with _ | ⟨e, phase, length, left, squeezed⟩
  · rfl
  · cases phase <;> rfl

end Keyer

end IambicKeyer

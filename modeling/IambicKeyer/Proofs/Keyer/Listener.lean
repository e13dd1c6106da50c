/-
  What a listener hears who empties its cursor after every tick.

  1. **A tick** publishes at most three events, in turn and all at the time of the tick
     (`Session.beat_inTurn`): contacts, keying, memory, gap, and never the last together with the
     second.  This holds of every keyer, whatever the settings have done to it.

  2. **The contacts** (`Session.contacts_effects`) — those that are published are the samples without
     repetitions.

  3. **The listener** — three events fit into a ring of four, so a listener that owes nothing before a
     tick has missed nothing after it (`Broadcast.KeepsUp.perform`).  By induction over the
     operations it hears all that is published, however long the run (`listener_hears_all`).
-/
import IambicKeyer.Proofs.Keyer.Beats
import IambicKeyer.Proofs.Keyer.Timestamps
import IambicKeyer.Proofs.Stream.Unread
import Mathlib.Data.List.Destutter

namespace IambicKeyer

/-! ## Events in turn -/

namespace Event

/-- The turn of an event among those of its tick: contacts, keying, memory, gap.  A character comes
    last, for it is not the keyer that decodes. -/
def turn : Event → Nat
  | paddles _ => 0
  | keyDown _ => 1
  | keyUp _ => 1
  | queued _ => 2
  | gap _ => 3
  | decoded _ => 4

/-- The contacts that an event publishes. -/
def contacts? : Event → Option Paddles
  | paddles p => some p
  | _ => none

@[simp] theorem turn_ofTransition (t : Transition) : (ofTransition t).turn = 1 := by
  cases t <;> rfl

/-- What has had its turn later is not about the contacts. -/
theorem contacts?_of_turn {e : Event} (h : 0 < e.turn) : e.contacts? = none := by
  cases e with
  | paddles p => exact absurd h (Nat.lt_irrefl 0)
  | _ => rfl

end Event

/-- The events come in turn, one of each turn at most, and all of them before turn `n`. -/
structure InTurn (n : Nat) (es : List TimedEvent) : Prop where
  sorted : es.Pairwise (·.event.turn < ·.event.turn)
  before : ∀ e ∈ es, e.event.turn < n

/-- An event of the next turn may follow. -/
theorem InTurn.append {n : Nat} {es : List TimedEvent} (h : InTurn n es) {o : Option TimedEvent}
    (ho : ∀ e ∈ o, e.event.turn = n) : InTurn (n + 1) (es ++ o.toList) := by
  have hlast : ∀ e ∈ o.toList, e.event.turn = n := fun e he => ho e (Option.mem_toList.mp he)
  refine ⟨List.pairwise_append.mpr ⟨h.sorted, ?_, ?_⟩, ?_⟩
  · cases o with
    | none => exact .nil
    | some e => exact List.pairwise_singleton _ e
  · intro e he e' he'
    rw [hlast e' he']
    exact h.before e he
  · intro e he
    rcases List.mem_append.mp he with he | he
    · exact Nat.lt_succ_of_lt (h.before e he)
    · rw [hlast e he]
      exact Nat.lt_succ_self n

/-! ## One tick -/

namespace Keyer

/-- The contacts, if they have changed. -/
def newContacts (time : Int) (p : Paddles) (k : Keyer) : Option TimedEvent :=
  if p = k.paddles then none else some ⟨time, .paddles p⟩

theorem contactEvents_eq (time : Int) (p : Paddles) (k : Keyer) :
    k.contactEvents time p = (k.newContacts time p).toList := by
  unfold contactEvents newContacts
  split <;> rfl

/-- **The parts of a sample**: at most one event of each turn, and no gap with a transition. -/
theorem advance_parts (time : Int) (p : Paddles) (k : Keyer) :
    ∃ keyed queued ended : Option TimedEvent,
      (k.advance time p).2.1.events
        = (k.newContacts time p).toList ++ keyed.toList ++ queued.toList ++ ended.toList ∧
      (∀ e ∈ keyed, e.event.turn = 1) ∧ (∀ e ∈ queued, e.event.turn = 2) ∧
      (∀ e ∈ ended, e.event.turn = 3) ∧ (keyed = none ∨ ended = none) := by
  refine ⟨(k.machine.tick p).1.transition.map (⟨time, .ofTransition ·⟩),
    (k.machine.tick p).1.queued.map (⟨time, .queued ·⟩),
    (k.gaps.tick (k.machine.tick p).1.transition).1.map (⟨time, .gap ·⟩), ?_, ?_, ?_, ?_, ?_⟩
  · rw [advance_events, contactEvents_eq]
    simp only [Option.toList_map]
  · intro e he
    obtain ⟨t, -, rfl⟩ := Option.map_eq_some_iff.mp he
    exact Event.turn_ofTransition t
  · intro e he
    obtain ⟨q, -, rfl⟩ := Option.map_eq_some_iff.mp he
    rfl
  · intro e he
    obtain ⟨g, -, rfl⟩ := Option.map_eq_some_iff.mp he
    rfl
  · rcases (k.machine.tick p).1.transition with _ | t
    · exact Or.inl rfl
    · -- a transition starts the silence over
      cases t with
      | keyDown e => exact Or.inr rfl
      | keyUp e => exact Or.inr rfl

/-- The first turn is that of the contacts. -/
theorem inTurn_newContacts (time : Int) (p : Paddles) (k : Keyer) :
    InTurn 1 (k.newContacts time p).toList := by
  have hnone : InTurn 0 [] := ⟨.nil, fun e he => (nomatch he)⟩
  apply hnone.append
  unfold newContacts
  intro e he
  split at he
  · nomatch he
  · rw [← Option.some.inj he]
    rfl

/-- **What a sample publishes** comes in turn, and is not more than three events. -/
theorem inTurn_advance (time : Int) (p : Paddles) (k : Keyer) :
    InTurn 4 (k.advance time p).2.1.events ∧ (k.advance time p).2.1.events.length ≤ 3 := by
  obtain ⟨keyed, queued, ended, hevents, hkeyed, hqueued, hended, hnot⟩ := k.advance_parts time p
  have hone : ∀ o : Option TimedEvent, o.toList.length ≤ 1 :=
    fun _ => Option.length_toList_le
  have hcontacts := hone (k.newContacts time p)
  have hmemory := hone queued
  have hexclude : keyed.toList.length + ended.toList.length ≤ 1 := by
    rcases hnot with rfl | rfl
    · rw [Option.toList_none, List.length_nil, Nat.zero_add]
      exact hone ended
    · exact hone keyed
  rw [hevents]
  refine ⟨(((k.inTurn_newContacts time p).append hkeyed).append hqueued).append hended, ?_⟩
  rw [List.length_append, List.length_append, List.length_append]
  omega

/-- The contacts among the events of a sample. -/
theorem contacts_advance (time : Int) (p : Paddles) (k : Keyer) :
    (k.advance time p).2.1.events.filterMap (·.event.contacts?)
      = if p = k.paddles then [] else [p] := by
  obtain ⟨keyed, queued, ended, hevents, hkeyed, hqueued, hended, -⟩ := k.advance_parts time p
  have hnone : ∀ (o : Option TimedEvent) (n : Nat), 0 < n → (∀ e ∈ o, e.event.turn = n) →
      o.toList.filterMap (·.event.contacts?) = [] := by
    intro o n hn ho
    rw [List.filterMap_eq_nil_iff]
    intro e he
    apply Event.contacts?_of_turn
    rw [ho e (Option.mem_toList.mp he)]
    exact hn
  rw [hevents, List.filterMap_append, List.filterMap_append, List.filterMap_append,
    hnone keyed 1 (by omega) hkeyed, hnone queued 2 (by omega) hqueued,
    hnone ended 3 (by omega) hended, List.append_nil, List.append_nil, List.append_nil]
  unfold newContacts
  split <;> rfl

end Keyer

/-- **What a tick tells**: at most three events, each at the time of the tick, in the order
    contacts, keying, memory, gap, and no gap when the key line moves. -/
structure Beat.InTurn (x : Beat) : Prop where
  few : x.effects.events.length ≤ 3
  stamps : ∀ e ∈ x.effects.events, e.time = x.time
  turns : IambicKeyer.InTurn 4 x.effects.events
  gap : ∀ g, x.Tells (.gap g) → ∀ t, ¬ x.Tells (.ofTransition t)

namespace Session

variable {s : Session}

/-- **Every tick tells its events in turn**, whatever state the keyer is in. -/
theorem beat_inTurn (s : Session) (now : Int) (p : Paddles) : (s.beat now p).InTurn := by
  have hevents : (s.beat now p).effects.events
      = ((s.keyer.ready s.store now).advance (s.beat now p).time p).2.1.events :=
    Keyer.tick_events s.store now p s.keyer
  have hinTurn := (s.keyer.ready s.store now).inTurn_advance (s.beat now p).time p
  refine ⟨?_, ?_, ?_, ?_⟩
  · rw [hevents]
    exact hinTurn.2
  · intro e he
    rw [hevents] at he
    exact Keyer.time_of_advance he
  · rw [hevents]
    exact hinTurn.1
  · intro g hgap t ht
    rw [tells_gap_iff, (tells_transition_iff t).mp ht] at hgap
    -- a transition starts the silence over
    cases t with
    | keyDown e => nomatch hgap
    | keyUp e => nomatch hgap

/-! ## The contacts of a run -/

/-- The samples of the ticks. -/
def samples (ops : List Operation) : List Paddles :=
  ops.filterMap fun op => match op with
    | .tick _ p => some p
    | _ => none

/-- A tick keeps the sample. -/
theorem paddles_tick (s : Session) (now : Int) (p : Paddles) :
    (s.perform (.tick now p)).2.keyer.paddles = p := rfl

theorem ready_paddles (store : Store) (now : Int) (k : Keyer) :
    (k.ready store now).paddles = k.paddles := by
  unfold Keyer.ready Keyer.sync
  rcases k.machine.sync store with ⟨_ | _, m⟩ <;> rfl

/-- A tick publishes the contacts if they have changed. -/
theorem contacts_tick (s : Session) (now : Int) (p : Paddles) :
    (s.perform (.tick now p)).1.events.filterMap (·.event.contacts?)
      = if p = s.keyer.paddles then [] else [p] := by
  show (s.keyer.tick s.store now p).2.1.events.filterMap _ = _
  rw [Keyer.tick_events, Keyer.contacts_advance, ready_paddles]

/-- **The contacts that are published** are the samples without repetitions. -/
theorem contacts_effects (s : Session) {ops : List Operation} (h : ∀ now, .reset now ∉ ops) :
    s.keyer.paddles :: (Effects.published (s.effects ops)).filterMap (·.event.contacts?)
      = (samples ops).destutter' (· ≠ ·) s.keyer.paddles := by
  induction ops generalizing s with
  | nil => rfl
  | cons op ops ih =>
    cases op with
    | tick now p =>
      have hlater := ih (s.perform (.tick now p)).2 (no_reset_tail h)
      rw [paddles_tick] at hlater
      show s.keyer.paddles :: List.filterMap _ (_ ++ Effects.published (_ : List Effects))
        = (p :: samples ops).destutter' _ _
      rw [List.filterMap_append, contacts_tick]
      by_cases hp : p = s.keyer.paddles
      · -- the sample is the last one again
        rw [if_pos hp, List.destutter'_cons_neg _ (fun hne => hne hp.symm), List.nil_append, ← hp]
        exact hlater
      · rw [if_neg hp, List.destutter'_cons_pos _ (Ne.symm hp), ← hlater]
        rfl
    | reset now => exact absurd List.mem_cons_self (h now)
    | write w =>
      have hlater := ih (s.perform (.write w)).2 (no_reset_tail h)
      rw [(s.perform_write w).2] at hlater
      show s.keyer.paddles :: List.filterMap _ ((s.perform (.write w)).1.events ++ _)
        = (samples ops).destutter' _ _
      rw [(s.perform_write w).1]
      exact hlater

end Session

/-! ## The listener -/

/-- The time is a 64-bit number. -/
def Fits64 (t : Int) : Prop := -9223372036854775808 ≤ t ∧ t < 9223372036854775808

/-- The clock of the operation shows a 64-bit number. -/
def Operation.Fits : Operation → Prop
  | .tick now _ => Fits64 now
  | .reset now => Fits64 now
  | .write _ => True

/-- A session whose events go to a stream, and what a listener at the stream has heard so far. -/
structure Broadcast (k C : Nat) where
  session : Session
  stream : EventStream k C
  heard : List TimedEvent := []

namespace Broadcast

variable {k C : Nat}

/-- The listener drains its cursor. -/
def listen (c : Cursor) (b : Broadcast k C) : Broadcast k C :=
  let (events, stream) := b.stream.drain c
  { b with stream := stream, heard := b.heard ++ events }

/-- An operation, its events written to the stream.  The listener drains its cursor after every
    tick. -/
def perform (c : Cursor) (b : Broadcast k C) (op : Operation) : Broadcast k C :=
  let (effects, session) := b.session.perform op
  let written : Broadcast k C := ⟨session, b.stream.pushAll effects.events, b.heard⟩
  match op with
  | .tick _ _ => written.listen c
  | _ => written

/-- Many operations in order. -/
def run (c : Cursor) (b : Broadcast k C) (ops : List Operation) : Broadcast k C :=
  ops.foldl (perform c) b

variable {c : Cursor} {b : Broadcast k C}

/-- **The listener is owed nothing**, and the next ticks cannot but fit. -/
structure KeepsUp (c : Cursor) (b : Broadcast k C) : Prop where
  caughtUp : b.stream.Owes c 0 []
  fits : ∀ last, b.session.keyer.time = some last → Fits64 last

/-- The time of a tick is the clock's or the last one's, so it fits. -/
theorem KeepsUp.time (h : b.KeepsUp c) {now : Int} (hnow : Fits64 now) :
    Fits64 (b.session.keyer.checkClock now).1 := by
  rw [Keyer.checkClock_time]
  rcases hlast : b.session.keyer.time with _ | last
  · rw [Option.getD_none, Int.max_self]
    exact hnow
  · obtain ⟨hlow, hhigh⟩ := hnow
    obtain ⟨hlow', hhigh'⟩ := h.fits last hlast
    rw [Option.getD_some]
    unfold Fits64
    omega

/-- **All events of a tick are owed at its end**, and at every moment before as many as have been
    written by then. -/
theorem KeepsUp.tick (h : b.KeepsUp c) (hsize : 4 ≤ Ring.size k) {now : Int} (hnow : Fits64 now)
    (p : Paddles) (m : Nat) :
    (b.stream.pushAll ((b.session.perform (.tick now p)).1.events.take m)).Owes c 0
      ((b.session.perform (.tick now p)).1.events.take m) := by
  have hinTurn := b.session.beat_inTurn now p
  have hfew : (b.session.perform (.tick now p)).1.events.length ≤ 3 := hinTurn.few
  have hsome := List.length_take_le' m (b.session.perform (.tick now p)).1.events
  have hnone : ([] : List TimedEvent).length = 0 := rfl
  refine h.caughtUp.pushAll (fun e he => ?_) (by omega) (by omega)
  show Fits64 e.time
  rw [hinTurn.stamps e (List.mem_of_mem_take he)]
  exact h.time hnow

/-- **An operation**: the listener hears what is published, and keeps up. -/
theorem KeepsUp.perform (h : b.KeepsUp c) (hsize : 4 ≤ Ring.size k) {op : Operation}
    (hfits : op.Fits) (hreset : ∀ now, op ≠ .reset now) :
    (b.perform c op).KeepsUp c ∧ (b.perform c op).session = (b.session.perform op).2 ∧
      (b.perform c op).heard = b.heard ++ (b.session.perform op).1.events := by
  cases op with
  | tick now p =>
    have howes := h.tick hsize hfits p (b.session.perform (.tick now p)).1.events.length
    rw [List.take_length] at howes
    obtain ⟨hevents, hnone⟩ := howes.drain
    refine ⟨⟨hnone, fun last hlast => ?_⟩, rfl, congrArg (b.heard ++ ·) hevents⟩
    have htime : some (b.session.keyer.checkClock now).1 = some last :=
      (b.session.keyer.tick_time b.session.store now p).symm.trans hlast
    rw [← Option.some.inj htime]
    exact h.time hfits
  | reset now => exact absurd rfl (hreset now)
  | write w =>
    -- a write publishes nothing, so there is nothing to hear
    obtain ⟨hnone, hkeyer⟩ := b.session.perform_write w
    have hstream : (b.perform c (.write w)).stream = b.stream := by
      show b.stream.pushAll (b.session.perform (.write w)).1.events = b.stream
      rw [hnone]
      rfl
    refine ⟨⟨?_, ?_⟩, rfl, ?_⟩
    · rw [hstream]
      exact h.caughtUp
    · intro last hlast
      apply h.fits last
      rw [← hkeyer]
      exact hlast
    · rw [hnone]
      exact (List.append_nil b.heard).symm

/-- **A run**, by induction over its operations. -/
theorem KeepsUp.run (h : b.KeepsUp c) (hsize : 4 ≤ Ring.size k) {ops : List Operation}
    (hfits : ∀ op ∈ ops, op.Fits) (hreset : ∀ now, .reset now ∉ ops) :
    (b.run c ops).KeepsUp c ∧ (b.run c ops).session = b.session.after ops ∧
      (b.run c ops).heard = b.heard ++ Effects.published (b.session.effects ops) := by
  induction ops generalizing b with
  | nil => exact ⟨h, rfl, (List.append_nil b.heard).symm⟩
  | cons op ops ih =>
    obtain ⟨hop, hops⟩ := List.forall_mem_cons.mp hfits
    have hne : ∀ now, op ≠ .reset now := by
      intro now heq
      rw [heq] at hreset
      exact hreset now List.mem_cons_self
    obtain ⟨hnext, hsession, hheard⟩ := h.perform hsize hop hne
    obtain ⟨hend, hafter, hall⟩ := ih hnext hops (Session.no_reset_tail hreset)
    rw [hsession] at hafter hall
    refine ⟨hend, hafter, ?_⟩
    show ((b.perform c op).run c ops).heard = _
    rw [hall, hheard, List.append_assoc]
    rfl

end Broadcast

/-- **A listener that drains its cursor after every tick hears everything.**  On a run of ticks and
    writes every tick tells at most three events in their order, at the later of the clock's time
    and the last tick's; the contacts told are the samples without repetitions, from idle on.  A
    consumer that is registered before the first tick with a stream of four slots or more is given
    all events in order, and nothing is ever lost, not even while a tick is being written. -/
theorem listener_hears_all (store : Store) (ops : List Operation)
    (hreset : ∀ now, .reset now ∉ ops) :
    let s := Session.ofStore store
    (∀ before now p later, ops = before ++ .tick now p :: later →
      let x := (s.after before).beat now p
      x.InTurn ∧ x.time = max now ((s.after before).keyer.time.getD now)) ∧
    .idle :: (Effects.published (s.effects ops)).filterMap (·.event.contacts?)
      = (.idle :: Session.samples ops).destutter (· ≠ ·) ∧
    ∀ {k C : Nat} (stream registered : EventStream k C) (c : Cursor),
      4 ≤ Ring.size k → stream.register = .ok (c, registered) → (∀ op ∈ ops, op.Fits) →
      let b := (Broadcast.mk s registered []).run c ops
      b.heard = Effects.published (s.effects ops) ∧ b.stream.lag c = 0 ∧ b.stream.lostBy c = 0 ∧
      ∀ now p, Fits64 now → ∀ m n,
        let events := ((s.after ops).perform (.tick now p)).1.events
        ((b.stream.pushAll (events.take m)).take c n).2.lostBy c = 0 := by
  intro s
  refine ⟨fun before now p later _ => ⟨?_, ?_⟩, ?_, ?_⟩
  · exact (s.after before).beat_inTurn now p
  · exact (s.after before).keyer.checkClock_time now
  · exact s.contacts_effects hreset
  · intro k C stream registered c hsize hreg hfits b
    have hstart : (Broadcast.mk s registered []).KeepsUp c :=
      ⟨EventStream.owes_register hreg, fun last hlast => (nomatch hlast)⟩
    obtain ⟨hend, hafter, hheard⟩ := hstart.run hsize hfits hreset
    refine ⟨hheard, hend.caughtUp.lag, hend.caughtUp.lostBy, ?_⟩
    intro now p hnow m n
    have howes := hend.tick hsize hnow p m
    rw [hafter] at howes
    exact (howes.take n).2.lostBy

/-- A squeeze, with a write and a clock that goes back, heard at a ring of four that has been written
    before: the first tick tells three events, the last one only the contacts. -/
theorem listener_hears_squeeze :
    let ops : List Operation :=
      [.tick 0 ⟨true, true⟩, .write (.wpm 40), .tick 1000 ⟨true, true⟩, .tick 500 .idle]
    let stream : EventStream 2 1 := EventStream.empty.pushAll [⟨-2, .decoded 84⟩, ⟨-1, .gap .word⟩]
    (∀ now, .reset now ∉ ops) ∧ (∀ op ∈ ops, op.Fits) ∧
      ∃ registered, stream.register = .ok (⟨0, 0⟩, registered) ∧
        let b := (Broadcast.mk (Session.ofStore {}) registered []).run ⟨0, 0⟩ ops
        b.heard = [⟨0, .paddles ⟨true, true⟩⟩, ⟨0, .keyDown .dit⟩, ⟨0, .queued .dah⟩,
          ⟨1000, .paddles .idle⟩] ∧ b.stream.lag ⟨0, 0⟩ = 0 ∧ b.stream.lostBy ⟨0, 0⟩ = 0 := by
  intro ops stream
  have hreset : ∀ now, .reset now ∉ ops := by simp [ops]
  have hfits : ∀ op ∈ ops, op.Fits := by simp [ops, Operation.Fits, Fits64]
  have hreg : stream.register = .ok (⟨0, 0⟩, _) := EventStream.register_free (i := 0) rfl
  have hpublished : Effects.published ((Session.ofStore {}).effects ops)
      = [⟨0, .paddles ⟨true, true⟩⟩, ⟨0, .keyDown .dit⟩, ⟨0, .queued .dah⟩,
        ⟨1000, .paddles .idle⟩] := by decide +kernel
  obtain ⟨hheard, hlag, hlost, -⟩ :=
    (listener_hears_all {} ops hreset).2.2 stream _ ⟨0, 0⟩ (Nat.le_refl 4) hreg hfits
  exact ⟨hreset, hfits, _, hreg, hheard.trans hpublished, hlag, hlost⟩

end IambicKeyer

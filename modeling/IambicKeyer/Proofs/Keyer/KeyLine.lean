/-
  The key line is never stuck and never out of step.

  1. **Passages** — `Passage a changes b`: the changes take the line from level `a` to level `b`,
     each of them to the other level.  Passages can be put one behind the other.

  2. **One operation** is a passage from the keyer's level before it to its level after it
     (`passage_perform`), and the changes it makes are the keying events it publishes
     (`Effects.InStep`).  Ticks go through the machine (`passage_machine`); a reset looks at the
     element under way before it forgets it.

  3. **Runs** — by induction over the operations, and over the rounds of the keying loop, whose
     stop is a reset (`passage_runFrom?`).
-/
import IambicKeyer.Bench
import IambicKeyer.Proofs.Keyer.Session
import IambicKeyer.Proofs.Machine.Run

namespace IambicKeyer

/-! ## Levels of the key line -/

/-- The change of the key line that a keying event stands for. -/
def KeyChange.ofEvent? (e : TimedEvent) : Option KeyChange :=
  match e.event with
  | .keyDown _ => some ⟨true, e.time⟩
  | .keyUp _ => some ⟨false, e.time⟩
  | _ => none

namespace KeyLine

/-- The level after some changes of a line that was up before. -/
def level (changes : List KeyChange) : Bool := (changes.getLast?.map (·.down)).getD false

/-- Down and up by turns, beginning with `first`. -/
def Alternates : Bool → List KeyChange → Prop
  | _, [] => True
  | first, c :: changes => c.down = first ∧ Alternates (!first) changes

/-- The changes take the line from one level to another, each to the other level. -/
def Passage : Bool → List KeyChange → Bool → Prop
  | a, [], b => a = b
  | a, c :: changes, b => c.down = !a ∧ Passage c.down changes b

namespace Passage

variable {a b c : Bool} {changes more : List KeyChange}

theorem refl (a : Bool) : Passage a [] a := rfl

theorem append (h : Passage a changes b) (h' : Passage b more c) :
    Passage a (changes ++ more) c := by
  induction changes generalizing a with
  | nil =>
    obtain rfl : a = b := h
    exact h'
  | cons x changes ih => exact ⟨h.1, ih h.2⟩

theorem alternates (h : Passage a changes b) : Alternates (!a) changes := by
  induction changes generalizing a with
  | nil => trivial
  | cons x changes ih =>
    refine ⟨h.1, ?_⟩
    rw [← h.1]
    exact ih h.2

/-- The line ends at the level of the last change, or where it was if there is none. -/
theorem getLast? (h : Passage a changes b) : (changes.getLast?.map (·.down)).getD a = b := by
  induction changes generalizing a with
  | nil => exact h
  | cons x changes ih =>
    rw [List.getLast?_cons]
    have hrest := ih h.2
    cases hlast : changes.getLast? with
    | none =>
      rw [hlast] at hrest
      exact hrest
    | some y =>
      rw [hlast] at hrest
      exact hrest

theorem level_eq (h : Passage false changes b) : level changes = b := h.getLast?

/-- On the way there are as many changes down as up, but for a last one down. -/
theorem countP (h : Passage a changes b) :
    changes.countP (·.down) + a.toNat = changes.countP (!·.down) + b.toNat := by
  induction changes generalizing a with
  | nil =>
    obtain rfl : a = b := h
    rfl
  | cons x changes ih =>
    obtain ⟨hx, hrest⟩ := h
    have hcount := ih hrest
    rw [List.countP_cons, List.countP_cons]
    rw [hx] at hcount ⊢
    cases a <;> simp at hcount ⊢ <;> omega

end Passage

end KeyLine

open KeyLine

/-! ## Changes and events -/

/-- The changes of the key line are those that the events tell of. -/
def Effects.InStep (e : Effects) : Prop := e.keying = e.events.filterMap KeyChange.ofEvent?

/-- So they are throughout, if they are step by step. -/
theorem Effects.keyed_of_inStep {es : List Effects} (h : ∀ e ∈ es, e.InStep) :
    keyed es = (published es).filterMap KeyChange.ofEvent? := by
  induction es with
  | nil => rfl
  | cons e es ih =>
    obtain ⟨he, hes⟩ := List.forall_mem_cons.mp h
    have hnow : e.keying = e.events.filterMap KeyChange.ofEvent? := he
    show e.keying ++ keyed es = (e.events ++ published es).filterMap _
    rw [List.filterMap_append, ih hes, hnow]

theorem KeyChange.ofEvent?_ofTransition (time : Int) (t : Transition) :
    KeyChange.ofEvent? ⟨time, .ofTransition t⟩ = some ⟨t.isDown, time⟩ := by
  cases t <;> rfl

namespace Keyer

theorem advance_inStep (time : Int) (p : Paddles) (k : Keyer) :
    (k.advance time p).2.1.InStep := by
  -- contacts, memory and gap are no keying events
  have hcontacts : (k.contactEvents time p).filterMap KeyChange.ofEvent? = [] := by
    unfold contactEvents
    split <;> rfl
  have hqueued : ∀ q : Option Element,
      (q.map (⟨time, .queued ·⟩ : Element → TimedEvent)).toList.filterMap KeyChange.ofEvent? = [] :=
    fun q => by cases q <;> rfl
  have hgap : ∀ g : Option Gap,
      (g.map (⟨time, .gap ·⟩ : Gap → TimedEvent)).toList.filterMap KeyChange.ofEvent? = [] :=
    fun g => by cases g <;> rfl
  unfold Effects.InStep
  rw [advance_keying, advance_events, List.filterMap_append, List.filterMap_append,
    List.filterMap_append, hcontacts, hqueued, hgap, List.nil_append, List.append_nil,
    List.append_nil, List.filterMap_map]
  cases (k.machine.tick p).1.transition with
  | none => rfl
  | some t => simp [KeyChange.ofEvent?_ofTransition]

theorem tick_inStep (store : Store) (now : Int) (p : Paddles) (k : Keyer) :
    (k.tick store now p).2.1.InStep := by
  unfold Effects.InStep
  rw [tick_keying, tick_events]
  exact advance_inStep _ p _

theorem reset_inStep (now : Int) (k : Keyer) : (k.reset now).1.InStep := by
  unfold reset
  rcases k.machine.sending with _ | ⟨e, phase, length, left, squeezed⟩
  · rfl
  · cases phase <;> rfl

end Keyer

/-! ## One operation -/

/-- **A tick of the machine** either leaves the key where it is, or moves it to the other level. -/
theorem passage_machine (p : Paddles) (m : Machine) (time : Int) :
    Passage m.isKeyDown ((m.tick p).1.transition.toList.map fun t => ⟨t.isDown, time⟩)
      (m.tick p).2.isKeyDown := by
  have hcase := m.ticked p
  generalize m.tick p = r at hcase ⊢
  cases hcase with
  | rest idle first => exact .refl _
  | start e idle first =>
    rw [Machine.isKeyDown_of_idle idle]
    exact ⟨rfl, rfl⟩
  | going s sending left =>
    -- the phase goes on, and the key stays where it is
    rw [Machine.isKeyDown_of_sending sending]
    exact rfl
  | release s sending left mark =>
    rw [Machine.isKeyDown_of_sending sending, mark]
    exact ⟨rfl, rfl⟩
  | next s e sending left space =>
    rw [Machine.isKeyDown_of_sending sending, space]
    exact ⟨rfl, rfl⟩
  | stop s sending left space =>
    rw [Machine.isKeyDown_of_sending sending, space]
    exact rfl

theorem passage_tick (store : Store) (now : Int) (p : Paddles) (k : Keyer) :
    Passage k.isKeyDown (k.tick store now p).2.1.keying (k.tick store now p).2.2.isKeyDown := by
  have hready : (k.ready store now).machine.isKeyDown = k.isKeyDown := by
    show (k.ready store now).machine.isKeyDown = k.machine.isKeyDown
    rw [Machine.isKeyDown, Machine.isKeyDown, k.ready_sending]
  rw [Keyer.tick_keying, Keyer.advance_keying, ← hready]
  exact passage_machine p (k.ready store now).machine _

/-- **A reset** leaves the key up: it is released if it is down, and only then. -/
theorem passage_reset (now : Int) (k : Keyer) :
    Passage k.isKeyDown (k.reset now).1.keying (k.reset now).2.isKeyDown := by
  rw [k.reset_keying]
  cases k.isKeyDown with
  | false => exact .refl _
  | true => exact ⟨rfl, rfl⟩

theorem passage_perform (s : Session) (op : Operation) :
    Passage s.keyer.isKeyDown (s.perform op).1.keying (s.perform op).2.keyer.isKeyDown := by
  cases op with
  | tick now p => exact passage_tick s.store now p s.keyer
  | reset now => exact passage_reset now s.keyer
  | write w =>
    obtain ⟨hnone, hkeyer⟩ := s.perform_write w
    rw [hnone, hkeyer]
    exact .refl _

theorem inStep_perform (s : Session) (op : Operation) : (s.perform op).1.InStep := by
  cases op with
  | tick now p => exact s.keyer.tick_inStep s.store now p
  | reset now => exact s.keyer.reset_inStep now
  | write w =>
    rw [(s.perform_write w).1]
    rfl

/-! ## Runs -/

theorem passage_effects (s : Session) (ops : List Operation) :
    Passage s.keyer.isKeyDown (Effects.keyed (s.effects ops)) (s.after ops).keyer.isKeyDown := by
  induction ops generalizing s with
  | nil => exact .refl _
  | cons op ops ih => exact (passage_perform s op).append (ih _)

/-- Everything that a session gives out, an operation has given out. -/
theorem Session.mem_effects {s : Session} {ops : List Operation} {e : Effects}
    (he : e ∈ s.effects ops) : ∃ (s' : Session) (op : Operation), e = (s'.perform op).1 := by
  induction ops generalizing s with
  | nil => nomatch he
  | cons op ops ih =>
    rcases List.mem_cons.mp he with hnow | hlater
    · exact ⟨s, op, hnow⟩
    · exact ih hlater

theorem keyed_eq_published (s : Session) (ops : List Operation) :
    Effects.keyed (s.effects ops)
      = (Effects.published (s.effects ops)).filterMap KeyChange.ofEvent? := by
  refine Effects.keyed_of_inStep fun e he => ?_
  obtain ⟨s', op, rfl⟩ := Session.mem_effects he
  exact inStep_perform s' op

section Loop

variable {κ : Type} [Clock κ]

/-- Stopping releases the key and does nothing else to it. -/
theorem passage_stop (l : Loop κ) :
    Passage l.keyer.isKeyDown (Effects.keyed l.stop.1) false := by
  have hreset := passage_reset (Clock.read l.clock).1 l.keyer
  unfold Loop.stop
  by_cases hlate : l.pacer.late = 0
  · simp only [if_pos hlate]
    show Passage _ ((l.keyer.reset _).1.keying ++ []) _
    rwa [List.append_nil]
  · simp only [if_neg hlate]
    show Passage _ ((l.keyer.reset _).1.keying ++ ([] ++ [])) _
    rwa [List.append_nil, List.append_nil]

/-- **A round of the loop** is a passage to where the next round or the stop begins. -/
theorem passage_round (store : Store) (l : Loop κ) :
    match l.round store with
    | (effects, .next l') => Passage l.keyer.isKeyDown effects.keying l'.keyer.isKeyDown
    | (effects, .last l') => effects.keying = [] ∧ l'.keyer = l.keyer := by
  unfold Loop.round
  by_cases hnow : (l.pacer.wait l.clock).now < l.script.finish
  · simp only [if_pos hnow]
    exact passage_tick store _ _ l.keyer
  · simp only [if_neg hnow, and_self]

/-- **A loop that ends** leaves the line up, wherever it was when the loop began.  The induction is
    on the rounds that are still allowed, and carries the passage of the rounds so far. -/
theorem passage_runFrom? (store : Store) {n : Nat} {l : Loop κ} {before : List Effects}
    {es : List Effects} {clock' : κ} (hrun : l.runFrom? store n before = some (es, clock'))
    {a : Bool} (hbefore : Passage a (Effects.keyed before.reverse) l.keyer.isKeyDown) :
    Passage a (Effects.keyed es) false := by
  induction n generalizing l before with
  | zero => nomatch hrun
  | succ n ih =>
    have hround := passage_round store l
    rw [Loop.runFrom?] at hrun
    rcases hres : l.round store with ⟨effects, l' | l'⟩
    · -- another round: its passage follows those before it
      rw [hres] at hround hrun
      refine ih hrun ?_
      rw [List.reverse_cons, Effects.keyed, List.flatMap_append, List.flatMap_singleton]
      exact hbefore.append hround
    · -- the script is over: waiting has keyed nothing, and the stop releases the key
      rw [hres] at hround hrun
      obtain ⟨hnone, hkeyer⟩ := hround
      obtain ⟨rfl, -⟩ := Prod.mk.inj (Option.some.inj hrun)
      rw [List.reverse_cons, Effects.keyed, List.flatMap_append, List.flatMap_append,
        List.flatMap_singleton, hnone, List.append_nil]
      refine hbefore.append ?_
      rw [← hkeyer]
      exact passage_stop l'

end Loop

/-- **The key line is never stuck and never out of step.**  Whatever is done to a keyer, its line
    goes down and up by turns, just as the keying events say that go to the stream, and stands
    where the keyer says it stands; a reset puts it up.  A keying loop that ends leaves it up, and
    has put it up as often as down. -/
theorem key_line_in_step (store : Store) :
    (∀ ops : List Operation,
      Alternates true (Effects.keyed ((Session.ofStore store).effects ops)) ∧
      Effects.keyed ((Session.ofStore store).effects ops)
        = (Effects.published ((Session.ofStore store).effects ops)).filterMap
            KeyChange.ofEvent? ∧
      (∀ (k C : Nat) (st : Station k C),
        (st.absorbAll ((Session.ofStore store).effects ops)).stream
          = st.stream.pushAll (Effects.published ((Session.ofStore store).effects ops))) ∧
      level (Effects.keyed ((Session.ofStore store).effects ops))
        = ((Session.ofStore store).after ops).keyer.isKeyDown ∧
      ∀ now, level (Effects.keyed ((Session.ofStore store).effects (ops ++ [.reset now])))
        = false) ∧
    ∀ (κ : Type) [Clock κ] (clock clock' : κ) (steps : List ScriptStep) (n : Nat)
      (es : List Effects), (Loop.ofScript store steps clock).run? store n = some (es, clock') →
      level (Effects.keyed es) = false ∧
        (Effects.keyed es).countP (·.down) = (Effects.keyed es).countP (!·.down) := by
  refine ⟨fun ops => ?_, fun κ _ clock clock' steps n es hrun => ?_⟩
  · have hpassage := passage_effects (Session.ofStore store) ops
    refine ⟨hpassage.alternates, keyed_eq_published _ ops, fun _ _ st => st.absorbAll_stream _,
      hpassage.level_eq, fun now => ?_⟩
    have hreset := passage_effects (Session.ofStore store) (ops ++ [.reset now])
    rw [Session.after_append] at hreset
    exact hreset.level_eq
  · have hpassage : Passage false (Effects.keyed es) false :=
      passage_runFrom? store hrun (.refl _)
    exact ⟨hpassage.level_eq, Nat.add_right_cancel hpassage.countP⟩

/-- A dit of twelve milliseconds in a script of seven. -/
def cutShort : Store × List ScriptStep :=
  ({ settings := { wpm := 100, tickRate := 1000 } }, [⟨⟨true, false⟩, 3⟩, ⟨.idle, 4⟩])

/-- The stop releases the dit. -/
theorem key_line_in_step_cutShort :
    ∃ es clock', (Loop.ofScript cutShort.1 cutShort.2 ({} : BenchClock)).run? cutShort.1 10
        = some (es, clock') ∧
      Effects.keyed es = [⟨true, 0⟩, ⟨false, 7000⟩] ∧ level (Effects.keyed es) = false ∧
      (Effects.keyed es).countP (·.down) = (Effects.keyed es).countP (!·.down) := by
  have hkeyed : ((Loop.ofScript cutShort.1 cutShort.2 ({} : BenchClock)).run? cutShort.1 10).map
      (Effects.keyed ·.1) = some [⟨true, 0⟩, ⟨false, 7000⟩] := by decide +kernel
  obtain ⟨⟨es, clock'⟩, hrun, hes⟩ := Option.map_eq_some_iff.mp hkeyed
  exact ⟨es, clock', hrun, hes,
    (key_line_in_step cutShort.1).2 BenchClock {} clock' cutShort.2 10 es hrun⟩

end IambicKeyer

/-
  The iambic machine: one paddle sample per tick in, at most one change of the key line out.

      idle ──▶ mark of `e` ──▶ space after `e` ──▶ mark of the next element, or idle

  1. **Phases.**  An element started on tick `t` is keyed from `t` to `t + mark`, and the next
     one may start on `t + mark + space`.  The length of a phase is fixed on its first tick: new
     settings count from the next phase on.

  2. **The window.**  On every tick of an element, its first one included, the machine looks at
     the OPPOSITE paddle if the tick lies in the memory window.  The place of a tick in its
     phase is a percentage, `0` on the tick that starts the phase and `100` on the tick that ends
     it.  A closed opposite paddle that is looked at marks the element as squeezed, and is
     remembered if the memory is free and the memory mode allows it.

  3. **The decision.**  On the last tick of the space the machine picks what comes next
     (`Machine.next?`): a remembered element first; with both paddles closed the opposite
     element if this counts as a squeeze, else the same one again; with one closed, its
     element; with none, nothing.  With both paddles open mode A forgets what it remembers.
     Whatever is picked, the memory is empty afterwards.

  The machine never fails: every sample has a next state.
-/
import IambicKeyer.Event
import IambicKeyer.Settings.Store
import IambicKeyer.Timing

namespace IambicKeyer

/-! ## An element under way -/

/-- Key down, or the space after it. -/
inductive Phase where
  | mark
  | space
  deriving DecidableEq, Inhabited

/-- An element that is being sent. -/
structure Sending where
  element : Element
  phase : Phase
  /-- Ticks of the whole phase. -/
  length : Nat
  /-- Ticks until the phase ends. -/
  left : Nat
  /-- Has the opposite paddle been seen in the window of this element? -/
  squeezed : Bool
  deriving DecidableEq, Inhabited

namespace Sending

/-- The first tick of an element. -/
def begin (t : Timing) (e : Element) : Sending :=
  ⟨e, .mark, t.mark e, t.mark e, false⟩

/-- The first tick of the space after the element. -/
def release (t : Timing) (s : Sending) : Sending :=
  { s with phase := .space, length := t.space, left := t.space }

/-- One tick on in the phase. -/
def step (s : Sending) : Sending := { s with left := s.left - 1 }

/-- How much of the phase has passed. -/
def percent (s : Sending) : Nat :=
  (s.length - s.left) * 100 / max s.length 1

/-- Is the opposite paddle closed at a place inside the window? -/
def sees (w : Window) (p : Paddles) (s : Sending) : Bool :=
  p.holds s.element.opposite && w.contains s.percent

/-- The same tick once the opposite paddle has been looked at. -/
def look (w : Window) (p : Paddles) (s : Sending) : Sending :=
  { s with squeezed := s.squeezed || s.sees w p }

end Sending

/-! ## The machine -/

/-- What one tick gives out. -/
structure Output where
  transition : Option Transition := none
  /-- The element that was put into the memory. -/
  queued : Option Element := none
  deriving DecidableEq, Inhabited

/-- The iambic machine. -/
structure Machine where
  settings : Settings
  /-- The durations of `settings`. -/
  timing : Timing
  /-- The store's generation when `settings` were taken from it. -/
  generation : Option UInt16 := none
  /-- `none` while idle. -/
  sending : Option Sending := none
  memory : Option Element := none
  deriving DecidableEq, Inhabited

namespace Machine

/-- An idle machine with these settings. -/
def ofSettings (s : Settings) : Machine := { settings := s, timing := s.timing }

/-- The same machine under new settings; a phase under way keeps its length. -/
def adopt (s : Settings) (m : Machine) : Machine :=
  { m with settings := s, timing := s.timing }

/-- Takes the settings from the store if its generation is not the one last seen; answers
    whether it did. -/
def sync (store : Store) (m : Machine) : Bool × Machine :=
  if m.generation = some store.generation then (false, m)
  else (true, { m.adopt store.settings with generation := some store.generation })

/-- Back to idle, nothing remembered. -/
def reset (m : Machine) : Machine := { m with sending := none, memory := none }

/-- Is the key down? -/
def isKeyDown (m : Machine) : Bool :=
  match m.sending with
  | some s => s.phase == .mark
  | none => false

/-- The element to start with from idle. -/
def first? (s : Settings) (p : Paddles) : Option Element :=
  if p.isSqueeze then some s.tieBreak.winner
  else if p.dit then some .dit
  else if p.dah then some .dah
  else none

/-- What follows an element whose space is over, given what is remembered. -/
def next? (s : Settings) (done : Sending) (memory : Option Element) (p : Paddles) :
    Option Element :=
  if p.isIdle then
    match s.release with
    | .modeA => none
    | .modeB => memory
  else
    match memory with
    | some e => some e
    | none =>
      if p.isSqueeze then
        if s.squeeze = .latchOn ∨ done.squeezed then some done.element.opposite
        else some done.element
      else if p.dit then some .dit
      else some .dah

/-- The element that a look at the opposite paddle puts into the memory, if any. -/
def queues (p : Paddles) (s : Sending) (m : Machine) : Option Element :=
  if s.sees m.settings.window p && m.settings.memory.remembers s.element.opposite
      && m.memory.isNone then
    some s.element.opposite
  else none

/-- Keeps what is remembered, or else remembers `queued`. -/
def remember (queued : Option Element) (m : Machine) : Machine :=
  { m with memory := m.memory <|> queued }

/-- Puts the key down for `e`; this tick is the first of its window. -/
def start (p : Paddles) (e : Element) (m : Machine) : Output × Machine :=
  let s := Sending.begin m.timing e
  let queued := m.queues p s
  (⟨some (.keyDown e), queued⟩,
    { m.remember queued with sending := some (s.look m.settings.window p) })

/-- The last tick of a space: on to the next element or to rest, with an empty memory. -/
def finish (p : Paddles) (done : Sending) (m : Machine) : Output × Machine :=
  match next? m.settings done m.memory p with
  | some e => { m with memory := none }.start p e
  | none => ({}, m.reset)

/-- One tick of an element under way: look at the opposite paddle, then end the phase if this
    was its last tick. -/
def proceed (p : Paddles) (s : Sending) (m : Machine) : Output × Machine :=
  let queued := m.queues p s.step
  let seen := s.step.look m.settings.window p
  let m := m.remember queued
  if s.step.left = 0 then
    match s.phase with
    | .mark =>
      (⟨some (.keyUp s.element), queued⟩, { m with sending := some (seen.release m.timing) })
    | .space => m.finish p seen
  else (⟨none, queued⟩, { m with sending := some seen })

/-- One tick with the paddles as sampled. -/
def tick (p : Paddles) (m : Machine) : Output × Machine :=
  match m.sending with
  | some s => m.proceed p s
  | none =>
    match first? m.settings p with
    | some e => m.start p e
    | none => ({}, m)

end Machine

/-! ## Two paddles from rest at the top speed: the tie goes to the dit, and the dah is queued -/

example :
    let m := Machine.ofSettings { wpm := 100, tickRate := 1000 }
    let (out, m) := m.tick .squeezed
    out = ⟨some (.keyDown .dit), some .dah⟩ ∧ m.memory = some .dah ∧
      m.sending = some ⟨.dit, .mark, 12, 12, true⟩ := by decide

example :
    let s : Sending := ⟨.dit, .space, 12, 0, false⟩
    Machine.next? {} s none .squeezed = some .dit ∧
      Machine.next? { squeeze := .latchOn } s none .squeezed = some .dah ∧
      Machine.next? {} s (some .dah) .idle = some .dah ∧
      Machine.next? { release := .modeA } s (some .dah) .idle = none := by decide

end IambicKeyer

/-
  The consumers of a stream do not see one another.

  1. **The hall** — a stream and its clients, each of which holds at most one cursor.  A client
     registers, reads and goes with its own cursor only.  What it learns (`Notice`) does not say
     which place it was given.

  2. **The view** of a client (`Hall.view`) — the ring, how far the client has read, and what it has
     lost.  Neither the place nor the ticket of its cursor is in it, and nothing of the others.

  3. **One step** — what another client does leaves the view alone (`Orderly.step_other`): its cursor
     is none of the client's.  On equal views the same step, be it a write or a move of the client's
     own, tells the same and leaves equal views, wherever the client is placed (`step_of_view`).

  4. **Two runs** (`alike_run`) — by induction on one of them, letting it or the other go ahead
     whenever the next step is none of the client's business.  `undisturbed` is the result.
-/
import IambicKeyer.Proofs.Stream.Tenancy

namespace IambicKeyer

namespace EventStream

variable {k C D : Nat}

/-! ## Polling -/

/-- Polling a live cursor writes its own record and no other. -/
theorem consumer?_poll {s : EventStream k C} {c : Cursor} {y : Consumer} {e : Option TimedEvent}
    {next : UInt32} {lost : Nat} (hy : s.consumer? c = some y)
    (hread : s.firstReadable (min (s.pending y) s.capacity)
      (y.next + UInt32.ofNat (s.pending y - s.capacity))
      (y.lost + (s.pending y - s.capacity)) = (e, next, lost)) (d : Cursor) :
    (s.poll c).2.consumer? d
      = if d = c then some { y with next := next, lost := lost } else s.consumer? d := by
  obtain ⟨-, hactive, hticket⟩ := consumer?_eq_some.mp hy
  have hrecord : ({ y with next := next, lost := lost } : Consumer).active = true := hactive
  have hseat := consumer?_seat_live s hy (y := { y with next := next, lost := lost })
    (fun _ => hticket) d
  rw [if_pos hrecord] at hseat
  rw [poll_live hy hread]
  exact hseat

/-- Rings with the same slots are searched with the same result. -/
theorem firstReadable_congr {s : EventStream k C} {t : EventStream k D} (h : s.slots = t.slots)
    (n : Nat) (next : UInt32) (lost : Nat) :
    s.firstReadable n next lost = t.firstReadable n next lost := by
  have hslot : ∀ i, s.slotOf i = t.slotOf i := by
    intro i
    unfold slotOf
    rw [h]
  induction n generalizing next lost with
  | zero => rfl
  | succ n ih => rw [firstReadable, firstReadable, hslot, ih]

/-! ## The hall -/

/-- What a client can do with its cursor. -/
inductive Move where
  | register
  | unregister
  | poll
  | lag
  | lost
  deriving DecidableEq

/-- What the client learns. -/
inductive Notice where
  | admitted
  /-- All places are taken. -/
  | turnedAway
  | released
  /-- The client has no cursor to do this with. -/
  | unknown
  | polled (e : Option TimedEvent)
  | counted (n : Nat)
  deriving DecidableEq

/-- What happens to a stream: an event is written, or a client makes a move. -/
inductive Step where
  | push (e : TimedEvent)
  | client (name : Nat) (move : Move)
  deriving DecidableEq

/-- Is the step a write, or a move of client `x`? -/
def Step.concerns (x : Nat) : Step → Bool
  | push _ => true
  | client name _ => name == x

/-- A stream and the cursors that its clients hold. -/
structure Hall (k C : Nat) where
  stream : EventStream k C := empty
  cursor : Nat → Option Cursor := fun _ => none

namespace Hall

/-- The hall after a client's move has left the stream `s`, and the client with the cursor `c`. -/
def hand (h : Hall k C) (name : Nat) (c : Option Cursor) (s : EventStream k C) : Hall k C :=
  ⟨s, fun n => if n = name then c else h.cursor n⟩

/-- A move of a client.  A client that holds a cursor keeps it instead of registering again, and
    one that holds none can only register. -/
def act (h : Hall k C) (name : Nat) (move : Move) : Notice × Hall k C :=
  match h.cursor name with
  | none =>
    match move with
    | .register =>
      match h.stream.register with
      | .ok (c, s) => (.admitted, h.hand name (some c) s)
      | .error _ => (.turnedAway, h)
    | _ => (.unknown, h)
  | some c =>
    match move with
    | .register => (.admitted, h)
    | .unregister =>
      match h.stream.unregister c with
      | .ok (s, _) => (.released, h.hand name none s)
      | .error _ => (.unknown, h)
    | .poll => (.polled (h.stream.poll c).1, { h with stream := (h.stream.poll c).2 })
    | .lag => (.counted (h.stream.lag c), h)
    | .lost => (.counted (h.stream.lostBy c), h)

/-- The hall after a step. -/
def step (h : Hall k C) : Step → Hall k C
  | .push e => { h with stream := h.stream.push e }
  | .client name move => (h.act name move).2

/-- The hall after a list of steps. -/
def run (h : Hall k C) (steps : List Step) : Hall k C := steps.foldl step h

/-- What client `x` learns on the way. -/
def notices (x : Nat) : Hall k C → List Step → List Notice
  | _, [] => []
  | h, .push e :: steps => notices x (h.step (.push e)) steps
  | h, .client name move :: steps =>
    if name = x then (h.act name move).1 :: notices x (h.step (.client name move)) steps
    else notices x (h.step (.client name move)) steps

end Hall

/-! ## The view of a client -/

/-- What the notices of a client depend on. -/
structure View (k : Nat) where
  slots : Vector Slot (Ring.size k)
  head : UInt32
  /-- The number of the next event to read, and the losses counted; `none` without a cursor. -/
  reading : Option (UInt32 × Nat)

namespace Hall

/-- How far client `x` has read, and what it has lost. -/
def reading (h : Hall k C) (x : Nat) : Option (UInt32 × Nat) :=
  ((h.cursor x).bind h.stream.consumer?).map fun y => (y.next, y.lost)

def view (h : Hall k C) (x : Nat) : View k := ⟨h.stream.slots, h.stream.head, h.reading x⟩

/-- **The cursors that clients hold are live, and no two clients hold the same.** -/
structure Orderly (h : Hall k C) : Prop where
  live : ∀ n c, h.cursor n = some c → ∃ y, h.stream.consumer? c = some y
  own : ∀ n m c, h.cursor n = some c → h.cursor m = some c → n = m

theorem orderly_new : ({} : Hall k C).Orderly where
  live := by
    intro n c hc
    nomatch hc
  own := by
    intro n m c hc
    nomatch hc

variable {h h' : Hall k C} {x n : Nat} {c : Cursor} {y : Consumer}

theorem reading_of_cursor (hc : h.cursor x = some c) (hy : h.stream.consumer? c = some y) :
    h.reading x = some (y.next, y.lost) := by
  unfold reading
  rw [hc, Option.bind_some, hy]
  rfl

theorem reading_of_none (hc : h.cursor x = none) : h.reading x = none := by
  unfold reading
  rw [hc]
  rfl

/-- In an orderly hall a client reads exactly if it holds a cursor. -/
theorem Orderly.reading_cases (ho : h.Orderly) (x : Nat) :
    (h.cursor x = none ∧ h.reading x = none) ∨
      ∃ c y, h.cursor x = some c ∧ h.stream.consumer? c = some y ∧
        h.reading x = some (y.next, y.lost) := by
  cases hc : h.cursor x with
  | none => exact Or.inl ⟨rfl, reading_of_none hc⟩
  | some c =>
    obtain ⟨y, hy⟩ := ho.live x c hc
    exact Or.inr ⟨c, y, rfl, hy, reading_of_cursor hc hy⟩

/-! ## What a move does -/

/-- The moves that change something: registering, unregistering and polling. -/
theorem act_cases (h : Hall k C) (n : Nat) (move : Move) :
    (h.act n move).2 = h ∨
    (∃ c s, h.cursor n = none ∧ h.stream.register = .ok (c, s) ∧
      (h.act n move).2 = h.hand n (some c) s) ∨
    (∃ c s report, h.cursor n = some c ∧ h.stream.unregister c = .ok (s, report) ∧
      (h.act n move).2 = h.hand n none s) ∨
    (∃ c, h.cursor n = some c ∧ (h.act n move).2 = { h with stream := (h.stream.poll c).2 }) := by
  unfold act
  cases hc : h.cursor n with
  | none =>
    cases move with
    | register =>
      cases hreg : h.stream.register with
      | ok granted => exact Or.inr (Or.inl ⟨granted.1, granted.2, rfl, rfl, rfl⟩)
      | error err => exact Or.inl rfl
    | _ => exact Or.inl rfl
  | some c =>
    cases move with
    | unregister =>
      cases hun : h.stream.unregister c with
      | ok freed =>
        exact Or.inr (Or.inr (Or.inl ⟨c, freed.1, freed.2, rfl, hun, by simp only [hun]⟩))
      | error err => exact Or.inl (by simp only [hun])
    | poll => exact Or.inr (Or.inr (Or.inr ⟨c, rfl, rfl⟩))
    | _ => exact Or.inl rfl

/-- What client `m` has to do with is the same in both halls. -/
structure Apart (m : Nat) (h h' : Hall k C) : Prop where
  slots : h'.stream.slots = h.stream.slots
  head : h'.stream.head = h.stream.head
  cursor : h'.cursor m = h.cursor m
  consumer : ∀ d, h.cursor m = some d → h'.stream.consumer? d = h.stream.consumer? d

theorem Apart.view_eq {m : Nat} (ha : Apart m h h') : h'.view m = h.view m := by
  have hreading : h'.reading m = h.reading m := by
    unfold reading
    rw [ha.cursor]
    cases hd : h.cursor m with
    | none => rfl
    | some d => rw [Option.bind_some, Option.bind_some, ha.consumer d hd]
  unfold view
  rw [ha.slots, ha.head, hreading]

/-- **A move keeps apart from the other clients**: the cursor that it uses is none of theirs. -/
theorem Orderly.act_apart (ho : h.Orderly) {m : Nat} (hne : m ≠ n) (move : Move) :
    Apart m h (h.act n move).2 := by
  have hother : ∀ c d, h.cursor n = some c → h.cursor m = some d → d ≠ c := by
    intro c d hc hd heq
    rw [heq] at hd
    exact hne (ho.own m n c hd hc)
  rcases h.act_cases n move with hsame | ⟨c, s, hnone, hreg, hact⟩ |
    ⟨c, s, report, hc, hun, hact⟩ | ⟨c, hc, hact⟩
  · rw [hsame]
    exact ⟨rfl, rfl, rfl, fun _ _ => rfl⟩
  · obtain ⟨hfree, hs, hcons⟩ := register_ok hreg
    rw [hact]
    refine ⟨by rw [hand, hs]; rfl, by rw [hand, hs]; rfl, if_neg hne, ?_⟩
    intro d hd
    -- the cursor that is given out was not live, so nobody holds it
    have hdc : d ≠ c := by
      intro heq
      obtain ⟨y, hy⟩ := ho.live m d hd
      rw [heq, hfree] at hy
      nomatch hy
    have hat := hcons d
    rw [if_neg hdc] at hat
    exact hat
  · obtain ⟨y, hs, hcons⟩ := unregister_ok hun
    rw [hact]
    refine ⟨by rw [hand, hs]; rfl, by rw [hand, hs]; rfl, if_neg hne, ?_⟩
    intro d hd
    have hat := hcons d
    rw [if_neg (hother c d hc hd)] at hat
    exact hat
  · obtain ⟨y, hy⟩ := ho.live n c hc
    rw [hact]
    refine ⟨by rw [poll_live hy rfl]; rfl, h.stream.poll_head c, rfl, ?_⟩
    intro d hd
    have hat := consumer?_poll hy rfl d
    rw [if_neg (hother c d hc hd)] at hat
    exact hat

/-- A client that holds a cursor after its move holds a live one, and nobody else has it. -/
theorem Orderly.act_own (ho : h.Orderly) {move : Move}
    (hc : (h.act n move).2.cursor n = some c) :
    (∃ y, (h.act n move).2.stream.consumer? c = some y) ∧ ∀ m, h.cursor m = some c → m = n := by
  rcases h.act_cases n move with hsame | ⟨d, s, hnone, hreg, hact⟩ |
    ⟨d, s, report, hd, hun, hact⟩ | ⟨d, hd, hact⟩
  · rw [hsame] at hc ⊢
    exact ⟨ho.live n c hc, fun m hm => ho.own m n c hm hc⟩
  · obtain ⟨hfree, -, hcons⟩ := register_ok hreg
    rw [hact] at hc ⊢
    obtain rfl : d = c := Option.some.inj ((if_pos rfl).symm.trans hc)
    have hat := hcons d
    rw [if_pos rfl] at hat
    refine ⟨⟨_, hat⟩, ?_⟩
    intro m hm
    obtain ⟨y, hy⟩ := ho.live m d hm
    rw [hfree] at hy
    nomatch hy
  · rw [hact] at hc
    have hgone : none = some c := (if_pos rfl).symm.trans hc
    nomatch hgone
  · rw [hact] at hc ⊢
    obtain rfl : d = c := Option.some.inj (hd.symm.trans hc)
    obtain ⟨y, hy⟩ := ho.live n d hd
    have hat := consumer?_poll hy rfl d
    rw [if_pos rfl] at hat
    exact ⟨⟨_, hat⟩, fun m hm => ho.own m n d hm hd⟩

/-- **Every step keeps the hall orderly.** -/
theorem Orderly.step (ho : h.Orderly) (s : Step) : (h.step s).Orderly := by
  cases s with
  | push e => exact ⟨ho.live, ho.own⟩
  | client n move =>
    constructor
    · intro m c hc
      by_cases hmn : m = n
      · rw [hmn] at hc
        exact (ho.act_own hc).1
      · have hapart := ho.act_apart hmn move
        have hbefore : h.cursor m = some c := hapart.cursor.symm.trans hc
        obtain ⟨y, hy⟩ := ho.live m c hbefore
        exact ⟨y, (hapart.consumer c hbefore).trans hy⟩
    · intro m m' c hc hc'
      by_cases hmn : m = n
      · by_cases hmn' : m' = n
        · rw [hmn, hmn']
        · rw [hmn] at hc
          have hbefore' : h.cursor m' = some c := (ho.act_apart hmn' move).cursor.symm.trans hc'
          exact absurd ((ho.act_own hc).2 m' hbefore') hmn'
      · have hbefore : h.cursor m = some c := (ho.act_apart hmn move).cursor.symm.trans hc
        by_cases hmn' : m' = n
        · rw [hmn'] at hc'
          exact absurd ((ho.act_own hc').2 m hbefore) hmn
        · have hbefore' : h.cursor m' = some c := (ho.act_apart hmn' move).cursor.symm.trans hc'
          exact ho.own m m' c hbefore hbefore'

end Hall

/-! ## One step on equal views -/

namespace Hall

section

variable {h : Hall k C} {x : Nat} {c : Cursor} {s : EventStream k C}

/-- A client that is admitted starts at the head, without losses. -/
theorem view_admitted (hreg : h.stream.register = .ok (c, s)) :
    (h.hand x (some c) s).view x
      = ⟨h.stream.slots, h.stream.head, some (h.stream.head, 0)⟩ := by
  obtain ⟨-, hs, hcons⟩ := register_ok hreg
  have hat := hcons c
  rw [if_pos rfl] at hat
  have hreading := reading_of_cursor (h := h.hand x (some c) s) (x := x) (if_pos rfl) hat
  rw [view, hreading, hand, hs]
  rfl

/-- A client that has gone reads nothing. -/
theorem view_released {report : Report} (hun : h.stream.unregister c = .ok (s, report)) :
    (h.hand x none s).view x = ⟨h.stream.slots, h.stream.head, none⟩ := by
  obtain ⟨y, hs, -⟩ := unregister_ok hun
  have hreading := reading_of_none (h := h.hand x none s) (x := x) (if_pos rfl)
  rw [view, hreading, hand, hs]
  rfl

/-- A client that polls is where the search for a readable event has stopped. -/
theorem view_polled {y : Consumer} {e : Option TimedEvent} {next : UInt32} {lost : Nat}
    (hc : h.cursor x = some c) (hy : h.stream.consumer? c = some y)
    (hread : h.stream.firstReadable (min (h.stream.pending y) h.stream.capacity)
      (y.next + UInt32.ofNat (h.stream.pending y - h.stream.capacity))
      (y.lost + (h.stream.pending y - h.stream.capacity)) = (e, next, lost)) :
    ({ h with stream := (h.stream.poll c).2 } : Hall k C).view x
      = ⟨h.stream.slots, h.stream.head, some (next, lost)⟩ := by
  have hat := consumer?_poll hy hread c
  rw [if_pos rfl] at hat
  have hreading := reading_of_cursor (h := { h with stream := (h.stream.poll c).2 }) hc hat
  rw [view, hreading, poll_live hy hread]
  rfl

end

variable {a : Hall k C} {b : Hall k D} {x : Nat}

theorem view_eq_iff :
    a.view x = b.view x ↔ a.stream.slots = b.stream.slots ∧ a.stream.head = b.stream.head ∧
      a.reading x = b.reading x := by
  unfold view
  rw [View.mk.injEq]

/-- **A write** looks the same to everybody. -/
theorem view_push (h : a.view x = b.view x) (e : TimedEvent) :
    (a.step (.push e)).view x = (b.step (.push e)).view x := by
  obtain ⟨hslots, hhead, hreading⟩ := view_eq_iff.mp h
  apply view_eq_iff.mpr
  refine ⟨?_, ?_, hreading⟩
  · show (a.stream.push e).slots = (b.stream.push e).slots
    simp only [push, hslots, hhead]
  · show a.stream.head + 1 = b.stream.head + 1
    rw [hhead]

/-- A client without a cursor can only register. -/
theorem act_of_view_none (ha : a.cursor x = none) (hb : b.cursor x = none)
    (h : a.view x = b.view x) (move : Move) (hain : (a.act x move).1 ≠ .turnedAway)
    (hbin : (b.act x move).1 ≠ .turnedAway) :
    (a.act x move).1 = (b.act x move).1 ∧ (a.act x move).2.view x = (b.act x move).2.view x := by
  obtain ⟨hslots, hhead, -⟩ := view_eq_iff.mp h
  unfold act at hain hbin ⊢
  rw [ha, hb] at *
  cases move with
  | register =>
    cases hreg : a.stream.register with
    | error err => exact absurd (by simp only [hreg]) hain
    | ok granted =>
      cases hreg' : b.stream.register with
      | error err => exact absurd (by simp only [hreg']) hbin
      | ok granted' =>
        refine ⟨rfl, ?_⟩
        simp only
        rw [view_admitted hreg, view_admitted hreg', hslots, hhead]
  | _ => exact ⟨rfl, h⟩

/-- A client with a cursor does the same with it, whatever its place and its ticket are. -/
theorem act_of_view_some {c d : Cursor} {y z : Consumer} (hc : a.cursor x = some c)
    (hy : a.stream.consumer? c = some y) (hd : b.cursor x = some d)
    (hz : b.stream.consumer? d = some z) (h : a.view x = b.view x) (move : Move) :
    (a.act x move).1 = (b.act x move).1 ∧ (a.act x move).2.view x = (b.act x move).2.view x := by
  obtain ⟨hslots, hhead, hreading⟩ := view_eq_iff.mp h
  rw [reading_of_cursor hc hy, reading_of_cursor hd hz] at hreading
  obtain ⟨hnext, hlost⟩ := Prod.mk.inj (Option.some.inj hreading)
  have hpending : a.stream.pending y = b.stream.pending z := by
    unfold pending
    rw [hhead, hnext]
  unfold act
  rw [hc, hd]
  cases move with
  | register => exact ⟨rfl, h⟩
  | unregister =>
    obtain ⟨report, hun⟩ := unregister_live hy
    obtain ⟨report', hun'⟩ := unregister_live hz
    simp only [hun, hun', true_and]
    rw [view_released hun, view_released hun', hslots, hhead]
  | poll =>
    have hsame := firstReadable_congr hslots (min (a.stream.pending y) a.stream.capacity)
      (y.next + UInt32.ofNat (a.stream.pending y - a.stream.capacity))
      (y.lost + (a.stream.pending y - a.stream.capacity))
    obtain ⟨e, next, lost, hfound⟩ : ∃ e next lost, a.stream.firstReadable
        (min (a.stream.pending y) a.stream.capacity)
        (y.next + UInt32.ofNat (a.stream.pending y - a.stream.capacity))
        (y.lost + (a.stream.pending y - a.stream.capacity)) = (e, next, lost) := ⟨_, _, _, rfl⟩
    have hfound' : b.stream.firstReadable (min (b.stream.pending z) b.stream.capacity)
        (z.next + UInt32.ofNat (b.stream.pending z - b.stream.capacity))
        (z.lost + (b.stream.pending z - b.stream.capacity)) = (e, next, lost) := by
      rw [hsame, hpending, hnext, hlost] at hfound
      exact hfound
    constructor
    · simp only [poll_live hy hfound, poll_live hz hfound']
    · simp only
      rw [view_polled hc hy hfound, view_polled hd hz hfound', hslots, hhead]
  | lag =>
    refine ⟨?_, h⟩
    show Notice.counted (a.stream.lag c) = Notice.counted (b.stream.lag d)
    unfold lag
    rw [hy, hz, Option.map_some, Option.map_some, hpending]
  | lost =>
    refine ⟨?_, h⟩
    show Notice.counted (a.stream.lostBy c) = Notice.counted (b.stream.lostBy d)
    unfold lostBy EventStream.lost
    rw [hy, hz, Option.map_some, Option.map_some, hpending, hlost]
    rfl

/-- **A move of the client itself** tells the same on equal views and leaves equal ones, unless it
    is turned away from one of the halls. -/
theorem act_of_view (ha : a.Orderly) (hb : b.Orderly) (h : a.view x = b.view x) (move : Move)
    (hain : (a.act x move).1 ≠ .turnedAway) (hbin : (b.act x move).1 ≠ .turnedAway) :
    (a.act x move).1 = (b.act x move).1 ∧ (a.act x move).2.view x = (b.act x move).2.view x := by
  obtain ⟨-, -, hreading⟩ := view_eq_iff.mp h
  rcases ha.reading_cases x with ⟨hanone, hareading⟩ | ⟨c, y, hc, hy, hareading⟩
  · rcases hb.reading_cases x with ⟨hbnone, -⟩ | ⟨d, z, -, -, hbreading⟩
    · exact act_of_view_none hanone hbnone h move hain hbin
    · rw [hareading, hbreading] at hreading
      nomatch hreading
  · rcases hb.reading_cases x with ⟨-, hbreading⟩ | ⟨d, z, hd, hz, -⟩
    · rw [hareading, hbreading] at hreading
      nomatch hreading
    · exact act_of_view_some hc hy hd hz h move

/-! ## Two runs -/

/-- What another client does tells the client nothing, and leaves its view alone. -/
theorem Orderly.step_other {h : Hall k C} (ho : h.Orderly) {s : Step}
    (hs : ¬ s.concerns x = true) (rest : List Step) :
    (h.step s).view x = h.view x ∧ h.notices x (s :: rest) = (h.step s).notices x rest := by
  cases s with
  | push e => exact absurd rfl hs
  | client n move =>
    have hne : n ≠ x := fun heq => hs (beq_iff_eq.mpr heq)
    refine ⟨(ho.act_apart hne.symm move).view_eq, ?_⟩
    rw [notices, if_neg hne]

/-- So do any number of such steps. -/
theorem Orderly.skip {h : Hall k C} (ho : h.Orderly) {steps : List Step}
    (hnone : ∀ s ∈ steps, ¬ s.concerns x = true) (rest : List Step) :
    (h.run steps).Orderly ∧ (h.run steps).view x = h.view x ∧
      h.notices x (steps ++ rest) = (h.run steps).notices x rest := by
  induction steps generalizing h with
  | nil => exact ⟨ho, rfl, rfl⟩
  | cons s steps ih =>
    obtain ⟨horderly, hview, hnotices⟩ :=
      ih (ho.step s) (fun t ht => hnone t (List.mem_cons_of_mem s ht))
    obtain ⟨hview', hnotices'⟩ :=
      ho.step_other (hnone s List.mem_cons_self) (steps ++ rest)
    exact ⟨horderly, hview.trans hview', hnotices'.trans hnotices⟩

theorem run_append (h : Hall k C) (before after : List Step) :
    h.run (before ++ after) = (h.run before).run after := List.foldl_append

/-- **A step that both runs make** tells the client the same, and leaves its views equal.  `after`
    and `after'` are what it learns later. -/
theorem step_of_view (ha : a.Orderly) (hb : b.Orderly) (h : a.view x = b.view x) {s : Step}
    (hs : s.concerns x = true) {as bs : List Step} (hain : .turnedAway ∉ a.notices x (s :: as))
    (hbin : .turnedAway ∉ b.notices x (s :: bs)) :
    ∃ now, a.notices x (s :: as) = now ++ (a.step s).notices x as ∧
      b.notices x (s :: bs) = now ++ (b.step s).notices x bs ∧
      (a.step s).view x = (b.step s).view x := by
  cases s with
  | push e => exact ⟨[], rfl, rfl, view_push h e⟩
  | client n move =>
    obtain rfl : n = x := beq_iff_eq.mp hs
    rw [notices, if_pos rfl] at hain hbin ⊢
    rw [notices, if_pos rfl]
    obtain ⟨hsame, hview⟩ := act_of_view ha hb h move
      (fun heq => hain (heq ▸ List.mem_cons_self)) (fun heq => hbin (heq ▸ List.mem_cons_self))
    refine ⟨[(a.act n move).1], rfl, ?_, hview⟩
    rw [hsame]
    rfl

/-- **Two runs with the same writes and the same moves of the client** tell it the same. -/
theorem alike_run (ha : a.Orderly) (hb : b.Orderly) (h : a.view x = b.view x)
    {as bs : List Step} (hsame : as.filter (·.concerns x) = bs.filter (·.concerns x))
    (hain : .turnedAway ∉ a.notices x as) (hbin : .turnedAway ∉ b.notices x bs) :
    a.notices x as = b.notices x bs ∧ (a.run as).view x = (b.run bs).view x := by
  induction as generalizing a b bs with
  | nil =>
    have hnone : ∀ s ∈ bs, ¬ s.concerns x = true := List.filter_eq_nil_iff.mp hsame.symm
    obtain ⟨-, hview, hnotices⟩ := hb.skip hnone []
    rw [List.append_nil] at hnotices
    exact ⟨hnotices.symm, h.trans hview.symm⟩
  | cons s as ih =>
    by_cases hs : s.concerns x = true
    · -- the other run comes to the same step, after steps that the client does not see
      rw [List.filter_cons_of_pos hs] at hsame
      obtain ⟨skipped, bs', rfl, hskipped, -, hrest⟩ := List.filter_eq_cons_iff.mp hsame.symm
      obtain ⟨hb', hview, hnotices⟩ := hb.skip hskipped (s :: bs')
      rw [hnotices] at hbin ⊢
      rw [run_append]
      obtain ⟨now, hanow, hbnow, hnext⟩ :=
        step_of_view ha hb' (h.trans hview.symm) hs hain hbin
      rw [hanow, List.mem_append, not_or] at hain
      rw [hbnow, List.mem_append, not_or] at hbin
      obtain ⟨htail, hend⟩ := ih (ha.step s) (hb'.step s) hnext hrest.symm hain.2 hbin.2
      rw [hanow, hbnow, htail]
      exact ⟨rfl, hend⟩
    · -- this run goes ahead alone
      rw [List.filter_cons_of_neg hs] at hsame
      obtain ⟨hview, hnotices⟩ := ha.step_other hs as
      rw [hnotices] at hain ⊢
      exact ih (ha.step s) hb (hview.trans h) hsame hain hbin

/-- What can be read back depends on the ring alone. -/
theorem read?_of_view (h : a.view x = b.view x) (index : UInt32) :
    a.stream.read? index = b.stream.read? index := by
  obtain ⟨hslots, hhead, -⟩ := view_eq_iff.mp h
  unfold read? slotOf
  rw [hslots, hhead]
  rfl

end Hall

/-- **Consumers do not disturb one another.**  If the same events are written and client `x` makes
    the same moves, in the same order, then it learns the same, and the stream is left with the same
    head and the same events to read back, whatever other clients do and however many they are.
    All that is asked is that there is always a place for `x`. -/
theorem undisturbed (k C : Nat) (x : Nat) (run other : List Step)
    (hsame : run.filter (·.concerns x) = other.filter (·.concerns x))
    (hrun : .turnedAway ∉ ({} : Hall k C).notices x run)
    (hother : .turnedAway ∉ ({} : Hall k C).notices x other) :
    ({} : Hall k C).notices x run = ({} : Hall k C).notices x other ∧
      (({} : Hall k C).run run).stream.head = (({} : Hall k C).run other).stream.head ∧
      ∀ index, (({} : Hall k C).run run).stream.read? index
        = (({} : Hall k C).run other).stream.read? index := by
  obtain ⟨hnotices, hview⟩ :=
    Hall.alike_run Hall.orderly_new Hall.orderly_new rfl hsame hrun hother
  exact ⟨hnotices, congrArg View.head hview, Hall.read?_of_view hview⟩

/-- Client 0 comes to a ring of two, is overtaken by three events and reads what is left. -/
def alone : List Step :=
  [.client 0 .register, .push ⟨10, .keyDown .dit⟩, .push ⟨20, .keyUp .dit⟩,
    .push ⟨30, .gap .character⟩, .client 0 .lost, .client 0 .lag, .client 0 .poll,
    .client 0 .unregister]

/-- The same among others: client 1 is there first, reads, and leaves while client 0 is reading;
    client 2 takes its place; client 3 finds none. -/
def inCompany : List Step :=
  [.client 1 .register, .client 0 .register, .client 3 .register, .push ⟨10, .keyDown .dit⟩,
    .client 1 .poll, .push ⟨20, .keyUp .dit⟩, .push ⟨30, .gap .character⟩, .client 0 .lost,
    .client 1 .unregister, .client 0 .lag, .client 2 .register, .client 0 .poll, .client 2 .poll,
    .client 0 .unregister]

/-- Client 0 has another place there, and learns the same. -/
theorem undisturbed_in_company :
    let a := (({} : Hall 1 2).run (alone.take 7))
    let b := (({} : Hall 1 2).run (inCompany.take 12))
    a.cursor 0 = some ⟨0, 0⟩ ∧ b.cursor 0 = some ⟨1, 0⟩ ∧
      ({} : Hall 1 2).notices 0 inCompany
        = [.admitted, .counted 1, .counted 3, .polled (some ⟨20, .keyUp .dit⟩), .released] ∧
      ({} : Hall 1 2).notices 0 alone = ({} : Hall 1 2).notices 0 inCompany ∧
      ∀ index, (({} : Hall 1 2).run alone).stream.read? index
        = (({} : Hall 1 2).run inCompany).stream.read? index := by
  intro a b
  have hsame := undisturbed 1 2 0 alone inCompany (by decide +kernel) (by decide +kernel)
    (by decide +kernel)
  refine ⟨by decide +kernel, by decide +kernel, by decide +kernel, hsame.1, hsame.2.2⟩

end EventStream

end IambicKeyer

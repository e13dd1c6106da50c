/-
  What the machine remembers, and how it says so.

  1. **What is remembered starts next** (`keyDown_of_memory`) — a machine that remembers an element
     starts no other one.  So a tick on which an element starts finds the memory as its own look at
     the opposite paddle leaves it (`start_memory`).

  2. **One tick** (`queued_iff`) — a tick announces an element exactly if that element is remembered
     after it and was not before.  The last tick of a space may look at the paddles twice, once for
     the old element and once for the new one; only the second look is ever announced there.

  3. **One stay** (`Announced`) — an element comes into the memory on the tick that announces it,
     and as long as it stays nothing else is announced.  By induction over the run, one command at
     a time from its end.
-/
import IambicKeyer.Proofs.Machine.Run
import Mathlib.Data.List.Induction

namespace IambicKeyer

namespace Machine

variable {m : Machine} {p : Paddles} {s : Sending} {e e' : Element}

/-! ## The last tick of a space -/

/-- A remembered element is what is decided for, if anything is. -/
theorem eq_of_next?_some {settings : Settings} {done : Sending}
    (h : next? settings done (some e) p = some e') : e' = e := by
  unfold next? at h
  cases hidle : p.isIdle with
  | true =>
    cases hrelease : settings.release with
    | modeA =>
      rw [hidle, hrelease] at h
      nomatch h
    | modeB =>
      rw [hidle, hrelease] at h
      exact (Option.some.inj h).symm
  | false =>
    rw [hidle] at h
    exact (Option.some.inj h).symm

/-- A memory that is taken stays as it is. -/
theorem remember_of_memory (hmem : m.memory = some e) (queued : Option Element) :
    (m.remember queued).memory = some e := by
  show (m.memory <|> queued) = some e
  rw [hmem]
  rfl

/-- A free memory takes what a look has found. -/
theorem remember_of_free (hmem : m.memory = none) (queued : Option Element) :
    (m.remember queued).memory = queued := by
  show (m.memory <|> queued) = queued
  rw [hmem]
  rfl

/-- Nothing is found by a look while the memory is taken. -/
theorem queues_of_memory (hmem : m.memory = some e) (p : Paddles) (s : Sending) :
    m.queues p s = none := by
  unfold queues
  rw [hmem, Option.isNone_some, Bool.and_false]
  rfl

/-- **What is remembered starts next.** -/
theorem keyDown_of_memory (hm : m.Sound) (hmem : m.memory = some e)
    (hdown : (m.tick p).1.transition = some (.keyDown e')) : e' = e := by
  obtain ⟨s, hs, -⟩ := hm.recalls e hmem
  by_cases hleft : s.step.left = 0
  · cases hphase : s.phase with
    | mark =>
      rw [tick_release hs hleft hphase] at hdown
      nomatch hdown
    | space =>
      cases hnext : next? m.settings (m.seen p s) (m.remember (m.queues p s.step)).memory p with
      | none =>
        rw [tick_stop hs hleft hphase hnext] at hdown
        nomatch hdown
      | some e₀ =>
        rw [tick_next hs hleft hphase hnext] at hdown
        obtain rfl := Transition.keyDown.inj (Option.some.inj hdown)
        rw [remember_of_memory hmem] at hnext
        exact eq_of_next?_some hnext
  · rw [tick_going hs hleft] at hdown
    nomatch hdown

/-! ## One tick -/

/-- An element that starts with a free memory leaves in it what its first look announces. -/
theorem start_memory (hmem : m.memory = none) (p : Paddles) (e : Element) :
    (m.start p e).2.memory = (m.start p e).1.queued :=
  remember_of_free hmem _

/-- A look is announced exactly if it has changed the memory. -/
theorem queues_iff_remember (p : Paddles) (s : Sending) (e : Element) :
    m.queues p s = some e ↔ (m.remember (m.queues p s)).memory = some e ∧ m.memory ≠ some e := by
  cases hmem : m.memory with
  | none =>
    rw [remember_of_free hmem]
    exact ⟨fun h => ⟨h, nofun⟩, fun h => h.1⟩
  | some e₀ =>
    rw [queues_of_memory hmem, remember_of_memory hmem]
    exact ⟨nofun, fun h => absurd h.1 h.2⟩

/-- **An element is announced exactly on the tick that puts it into the memory.** -/
theorem queued_iff (hm : m.Sound) (p : Paddles) (e : Element) :
    (m.tick p).1.queued = some e ↔ (m.tick p).2.memory = some e ∧ m.memory ≠ some e := by
  have hcase := m.ticked p
  -- the case of a tick that decides does not say what the decision was
  have hnext : ∀ e₀ e', m.memory = some e₀ →
      (m.tick p).1.transition = some (.keyDown e') → e' = e₀ :=
    fun _ _ hmem hdown => keyDown_of_memory hm hmem hdown
  generalize m.tick p = r at hcase hnext ⊢
  cases hcase with
  | rest => exact ⟨nofun, fun h => absurd h.1 h.2⟩
  | start e' hidle =>
    have hfree := hm.memory_of_idle hidle
    rw [start_memory hfree, hfree]
    exact ⟨fun h => ⟨h, nofun⟩, fun h => h.1⟩
  | going s => exact queues_iff_remember p s.step e
  | release s => exact queues_iff_remember p s.step e
  | next s e' =>
    rw [start_memory (m := { m with memory := none }) rfl]
    refine ⟨fun hqueued => ⟨hqueued, fun hmem => ?_⟩, fun h => h.1⟩
    -- it would be the element that starts, and that one's opposite too
    have hopposite : e = e'.opposite := opposite_of_queues hqueued
    rw [hnext e e' hmem rfl] at hopposite
    exact e.opposite_ne hopposite.symm
  | stop => exact ⟨nofun, fun h => nomatch h.1⟩

/-- What a look at the first tick of `e` finds under these settings. -/
def firstLook (s : Settings) (p : Paddles) (e : Element) : Option Element :=
  if p.holds e.opposite && s.window.contains 0 && s.memory.remembers e.opposite then
    some e.opposite
  else none

/-- The first tick of an element stands at the beginning of its window. -/
theorem queues_begin (hmem : m.memory = none) (p : Paddles) (e : Element) :
    m.queues p (.begin m.timing e) = firstLook m.settings p e := by
  have hplace : (Sending.begin m.timing e).percent = 0 := by
    show (m.timing.mark e - m.timing.mark e) * 100 / max (m.timing.mark e) 1 = 0
    rw [Nat.sub_self, Nat.zero_mul, Nat.zero_div]
  unfold queues firstLook
  rw [Sending.sees, hplace, hmem, Option.isNone_none, Bool.and_true]
  rfl

/-- **The tick that starts an element announces what the first look of that element finds**, and
    nothing of the element before it. -/
theorem queued_of_keyDown (hm : m.Sound) (hdown : (m.tick p).1.transition = some (.keyDown e)) :
    (m.tick p).1.queued = firstLook m.settings p e := by
  have hcase := m.ticked p
  generalize m.tick p = r at hcase hdown ⊢
  cases hcase with
  | rest => nomatch hdown
  | start e' hidle =>
    obtain rfl := Transition.keyDown.inj (Option.some.inj hdown)
    exact queues_begin (hm.memory_of_idle hidle) p e'
  | going => nomatch hdown
  | release => nomatch hdown
  | next s e' =>
    obtain rfl := Transition.keyDown.inj (Option.some.inj hdown)
    exact queues_begin (m := { m with memory := none }) rfl p e'
  | stop => nomatch hdown

/-- The element that starts is not what is announced. -/
theorem firstLook_ne (s : Settings) (p : Paddles) (e : Element) : firstLook s p e ≠ some e := by
  unfold firstLook
  split
  · exact fun h => e.opposite_ne (Option.some.inj h)
  · nofun

/-! ## One stay in the memory -/

/-- What a command announces; only ticks announce anything. -/
def announces (m : Machine) : Command → Option Element
  | .tick p => (m.tick p).1.queued
  | _ => none

/-- The elements that a run announces, in order. -/
def announcements : Machine → List Command → List Element
  | _, [] => []
  | m, c :: cs => (m.announces c).toList ++ (m.obey c).announcements cs

/-- **A stay of `e` in the memory**: on one tick of the run it was put there and announced, and
    since then it has always been there and nothing has been announced. -/
def Announced (m : Machine) (cs : List Command) (e : Element) : Prop :=
  ∃ before p after, cs = before ++ .tick p :: after ∧
    (m.obeyAll before).memory ≠ some e ∧
    ((m.obeyAll before).tick p).1.queued = some e ∧
    ((m.obeyAll before).tick p).2.announcements after = [] ∧
    ∀ sofar rest, after = sofar ++ rest →
      (((m.obeyAll before).tick p).2.obeyAll sofar).memory = some e

theorem announcements_append (m : Machine) (cs : List Command) (c : Command) :
    m.announcements (cs ++ [c]) = m.announcements cs ++ ((m.obeyAll cs).announces c).toList := by
  induction cs generalizing m with
  | nil => exact List.append_nil _
  | cons d cs ih =>
    rw [List.cons_append, announcements, ih, announcements, List.append_assoc]
    rfl

/-- A command after which an element is remembered has announced it, or it was there before and
    nothing is announced. -/
theorem announces_or_memory (hm : m.Sound) {c : Command} (hmem : (m.obey c).memory = some e) :
    (∃ p, c = .tick p ∧ (m.tick p).1.queued = some e) ∨
      (m.memory = some e ∧ m.announces c = none) := by
  cases c with
  | tick p =>
    by_cases hbefore : m.memory = some e
    · refine Or.inr ⟨hbefore, ?_⟩
      cases hqueued : (m.tick p).1.queued with
      | none => exact hqueued
      | some e' =>
        -- what it announces is remembered afterwards, so it would be `e` once more
        obtain ⟨hafter, hnew⟩ := (queued_iff hm p e').mp hqueued
        obtain rfl : e' = e := Option.some.inj (hafter.symm.trans hmem)
        exact absurd hbefore hnew
    · exact Or.inl ⟨p, rfl, (queued_iff hm p e).mpr ⟨hmem, hbefore⟩⟩
  | adopt settings => exact Or.inr ⟨hmem, rfl⟩
  | sync store =>
    refine Or.inr ⟨?_, rfl⟩
    have hsync : (m.sync store).2.memory = m.memory := by
      unfold Machine.sync
      split <;> rfl
    exact hsync.symm.trans hmem
  | reset => nomatch hmem

/-- A stay goes on through a command that leaves the element in the memory. -/
theorem Announced.append {cs : List Command} {c : Command} (h : m.Announced cs e)
    (hquiet : (m.obeyAll cs).announces c = none)
    (hmem : (m.obeyAll (cs ++ [c])).memory = some e) : m.Announced (cs ++ [c]) e := by
  obtain ⟨before, p, after, rfl, hnew, hqueued, hnone, hstays⟩ := h
  have hafter : ∀ ds : List Command, m.obeyAll (before ++ .tick p :: ds)
      = ((m.obeyAll before).tick p).2.obeyAll ds :=
    fun ds => obeyAll_append m before (.tick p :: ds)
  rw [hafter] at hquiet
  refine ⟨before, p, after ++ [c], by rw [List.append_assoc]; rfl, hnew, hqueued, ?_, ?_⟩
  · rw [announcements_append, hnone, hquiet]
    rfl
  · intro sofar rest hsplit
    rcases List.eq_nil_or_concat rest with rfl | ⟨rest, d, rfl⟩
    · rw [List.append_nil] at hsplit
      rw [← hsplit, ← hafter, ← List.cons_append, ← List.append_assoc]
      exact hmem
    · rw [List.concat_eq_append, ← List.append_assoc] at hsplit
      exact hstays sofar rest (List.append_inj_left' hsplit rfl)

/-- **What is remembered has been announced once.** -/
theorem announced_of_memory (hm : m.Sound) {cs : List Command}
    (hmem : (m.obeyAll cs).memory = some e) (hfresh : m.memory = none) : m.Announced cs e := by
  induction cs using List.reverseRecOn with
  | nil =>
    rw [show m.obeyAll [] = m from rfl, hfresh] at hmem
    nomatch hmem
  | append_singleton cs c ih =>
    have hstep : ((m.obeyAll cs).obey c).memory = some e := by
      rw [obeyAll_append] at hmem
      exact hmem
    rcases announces_or_memory (hm.obeyAll cs) hstep with ⟨p, rfl, hqueued⟩ | ⟨hbefore, hquiet⟩
    · obtain ⟨hafter, hnew⟩ := (queued_iff (hm.obeyAll cs) p e).mp hqueued
      refine ⟨cs, p, [], rfl, hnew, hqueued, rfl, ?_⟩
      intro sofar rest hsplit
      obtain ⟨rfl, -⟩ := List.append_eq_nil_iff.mp hsplit.symm
      exact hafter
    · exact (ih hbefore).append hquiet hmem

/-! ## Every run -/

/-- **The memory and its announcements.**  After every run only the opposite of the element being
    sent is remembered, and nothing while idle.  A tick announces an element exactly if that element
    is remembered after it and was not before; a tick that starts an element announces what the
    first look of that element finds, whatever the last look of the one before found, and never the
    element that starts.  What is remembered has been announced once since it came there. -/
theorem queue_announced (s : Settings) (cs : List Command) :
    let m := (ofSettings s).obeyAll cs
    (∀ e, m.memory = some e → ∃ x, m.sending = some x ∧ e = x.element.opposite) ∧
    (m.sending = none → m.memory = none) ∧
    (∀ p e, (m.tick p).1.queued = some e ↔ (m.tick p).2.memory = some e ∧ m.memory ≠ some e) ∧
    (∀ p e, (m.tick p).1.transition = some (.keyDown e) →
      (m.tick p).1.queued = firstLook m.settings p e ∧ (m.tick p).1.queued ≠ some e) ∧
    (∀ e, m.memory = some e → (ofSettings s).Announced cs e) := by
  intro m
  have hm : m.Sound := (sound_ofSettings s).obeyAll cs
  refine ⟨hm.recalls, hm.memory_of_idle, queued_iff hm, fun p e hdown => ?_, fun e hmem => ?_⟩
  · have hlook := queued_of_keyDown hm hdown
    refine ⟨hlook, ?_⟩
    rw [hlook]
    exact firstLook_ne m.settings p e
  · exact announced_of_memory (sound_ofSettings s) hmem rfl

/-- A dit at 100 words a minute and 1000 ticks a second, the dah paddle closed as well on the last
    tick of its space: that look finds the dah, the dah starts on the same tick, and its own first
    look finds the dit, which is the one that is announced. -/
theorem queue_announced_twice :
    let s : Settings := { wpm := 100, tickRate := 1000 }
    let cs := List.replicate 24 (Command.tick ⟨true, false⟩)
    let m := (ofSettings s).obeyAll cs
    let x : Sending := ⟨.dit, .space, 12, 1, false⟩
    m.sending = some x ∧ m.memory = none ∧ m.queues .squeezed x.step = some .dah ∧
      (m.tick .squeezed).1.transition = some (.keyDown .dah) ∧
      (m.tick .squeezed).1.queued = some .dit ∧ (m.tick .squeezed).2.memory = some .dit ∧
      (ofSettings s).Announced (cs ++ [.tick .squeezed]) .dit := by
  intro s cs m x
  have hdown : (m.tick .squeezed).1.transition = some (.keyDown .dah) := by decide +kernel
  obtain ⟨-, -, hiff, hstart, -⟩ := queue_announced s cs
  obtain ⟨-, -, -, -, hstay⟩ := queue_announced s (cs ++ [.tick .squeezed])
  have hqueued : (m.tick .squeezed).1.queued = some .dit := by
    rw [(hstart .squeezed .dah hdown).1]
    decide +kernel
  have hmem : (m.tick .squeezed).2.memory = some .dit := ((hiff .squeezed .dit).mp hqueued).1
  refine ⟨by decide +kernel, by decide +kernel, by decide +kernel, hdown, hqueued, hmem,
    hstay .dit ?_⟩
  rw [obeyAll_append]
  exact hmem

end Machine

end IambicKeyer

/-
  The times at which a keyer publishes.

  1. **A tick** goes by a time that is neither before the clock's nor before the last tick's, and
     everything that it gives out bears that time (`time_of_tick`).  So ticks never go back, not
     even if the clock does.

  2. **A reset** goes by the clock's own time and does not look at the last tick's
     (`time_of_reset`).  Where the clock goes back ACROSS a reset, so do the times that are
     published (`stamps_turn_back`).

  3. **Runs** — `Keyer.Reached t` says that a tick has gone by time `t` or a later one; it is kept
     by every operation and bounds all later ticks.  Two inductions over the operations: ticks
     alone are in order, and everything is in order if the clock is `Steady` at the resets.
-/
import IambicKeyer.Proofs.Keyer.KeyLine

namespace IambicKeyer

/-! ## Order -/

/-- No event and no change of the key line bears an earlier time than one before it. -/
structure Effects.InOrder (es : List Effects) : Prop where
  events : (published es).Pairwise (·.time ≤ ·.time)
  keying : (keyed es).Pairwise (·.time ≤ ·.time)

/-- If one of two operations is a reset, the second does not come at an earlier time. -/
def Operation.Steady : Operation → Operation → Prop
  | .reset t, .reset u => t ≤ u
  | .reset t, .tick u _ => t ≤ u
  | .tick t _, .reset u => t ≤ u
  | _, _ => True

namespace Session

/-- What the ticks among the operations give out. -/
def tickEffects : Session → List Operation → List Effects
  | _, [] => []
  | s, .tick now p :: ops =>
    (s.perform (.tick now p)).1 :: tickEffects (s.perform (.tick now p)).2 ops
  | s, op :: ops => tickEffects (s.perform op).2 ops

end Session

/-! ## One operation -/

namespace Keyer

/-- **The time that a tick goes by** is the later of the clock's and the last tick's. -/
theorem checkClock_time (now : Int) (k : Keyer) :
    (k.checkClock now).1 = max now (k.time.getD now) := by
  unfold checkClock
  rcases k.time with _ | last
  · exact (Int.max_self now).symm
  · rw [Option.getD_some]
    by_cases hback : now < last
    · simp only [if_pos hback]
      omega
    · simp only [if_neg hback]
      omega

theorem le_checkClock (now : Int) (k : Keyer) : now ≤ (k.checkClock now).1 := by
  rw [checkClock_time]
  exact Int.le_max_left _ _

theorem last_le_checkClock {now last : Int} {k : Keyer} (h : k.time = some last) :
    last ≤ (k.checkClock now).1 := by
  rw [checkClock_time, h]
  exact Int.le_max_right _ _

/-- The events of a sample bear the time of the sample. -/
theorem time_of_advance {time : Int} {p : Paddles} {k : Keyer} {e : TimedEvent}
    (he : e ∈ (k.advance time p).2.1.events) : e.time = time := by
  have hcontacts : e ∈ k.contactEvents time p → e.time = time := by
    unfold contactEvents
    split
    · intro h
      nomatch h
    · intro h
      rw [List.mem_singleton.mp h]
  rw [advance_events] at he
  simp only [List.mem_append, List.mem_map, Option.mem_toList, Option.map_eq_some_iff] at he
  rcases he with ((h | ⟨t, -, rfl⟩) | ⟨q, -, rfl⟩) | ⟨g, -, rfl⟩
  · exact hcontacts h
  · rfl
  · rfl
  · rfl

/-- A tick has gone by time `t` or a later one. -/
def Reached (t : Int) (k : Keyer) : Prop := ∃ last, k.time = some last ∧ t ≤ last

end Keyer

namespace Session

variable {s : Session} {t now : Int} {p : Paddles} {e : TimedEvent}

/-- **What a tick publishes** bears the time that it goes by, which no earlier tick has passed. -/
theorem time_of_tick (he : e ∈ (s.perform (.tick now p)).1.events) :
    (s.perform (.tick now p)).2.keyer.time = some e.time ∧ now ≤ e.time ∧
      ∀ t, s.keyer.Reached t → t ≤ e.time := by
  have htick : e ∈ (s.keyer.tick s.store now p).2.1.events := he
  rw [Keyer.tick_events] at htick
  have htime := Keyer.time_of_advance htick
  refine ⟨?_, ?_, ?_⟩
  · rw [htime]
    exact s.keyer.tick_time s.store now p
  · rw [htime]
    exact s.keyer.le_checkClock now
  · rintro t ⟨last, hlast, hle⟩
    rw [htime]
    exact Int.le_trans hle (Keyer.last_le_checkClock hlast)

/-- **What a reset publishes** bears the time of the reset. -/
theorem time_of_reset (he : e ∈ (s.perform (.reset now)).1.events) : e.time = now := by
  have hreset : e ∈ (s.keyer.reset now).1.events := he
  unfold Keyer.reset at hreset
  rcases hs : s.keyer.machine.sending with _ | ⟨el, phase, length, left, squeezed⟩
  · rw [hs] at hreset
    nomatch hreset
  · rw [hs] at hreset
    cases phase with
    | mark => rw [List.mem_singleton.mp hreset]
    | space => nomatch hreset

/-- All that one operation publishes bears one time. -/
theorem time_eq_of_perform {op : Operation} {a b : TimedEvent}
    (ha : a ∈ (s.perform op).1.events) (hb : b ∈ (s.perform op).1.events) : a.time = b.time := by
  cases op with
  | tick now p =>
    have htime := (time_of_tick ha).1
    rw [(time_of_tick hb).1] at htime
    exact (Option.some.inj htime).symm
  | reset now => rw [time_of_reset ha, time_of_reset hb]
  | write w =>
    rw [(s.perform_write w).1] at ha
    nomatch ha

/-- What has been reached stays reached. -/
theorem reached_perform (h : s.keyer.Reached t) (op : Operation) :
    (s.perform op).2.keyer.Reached t := by
  cases op with
  | tick now p =>
    obtain ⟨last, hlast, hle⟩ := h
    exact ⟨_, s.keyer.tick_time s.store now p,
      Int.le_trans hle (Keyer.last_le_checkClock hlast)⟩
  | reset now => exact h
  | write w =>
    rw [(s.perform_write w).2]
    exact h

/-- One operation publishes in order, and before all that is not earlier. -/
theorem pairwise_perform {op : Operation} {later : List TimedEvent}
    (hlater : later.Pairwise (·.time ≤ ·.time))
    (hbound : ∀ e ∈ (s.perform op).1.events, ∀ e' ∈ later, e.time ≤ e'.time) :
    ((s.perform op).1.events ++ later).Pairwise (·.time ≤ ·.time) := by
  refine List.pairwise_append.mpr ⟨?_, hlater, hbound⟩
  refine List.pairwise_of_forall_mem_list fun a ha b hb => ?_
  exact Int.le_of_eq (time_eq_of_perform ha hb)

/-! ## Ticks alone -/

/-- Ticks publish nothing before a time that has been reached. -/
theorem le_of_mem_tickEffects (ops : List Operation) (hreached : s.keyer.Reached t)
    (he : e ∈ Effects.published (s.tickEffects ops)) : t ≤ e.time := by
  induction ops generalizing s with
  | nil => nomatch he
  | cons op ops ih =>
    have hnext := reached_perform hreached op
    cases op with
    | tick now p =>
      rcases List.mem_append.mp he with hnow | hlater
      · exact (time_of_tick hnow).2.2 t hreached
      · exact ih hnext hlater
    | reset now => exact ih hnext he
    | write w => exact ih hnext he

theorem pairwise_tickEffects (s : Session) (ops : List Operation) :
    (Effects.published (s.tickEffects ops)).Pairwise (·.time ≤ ·.time) := by
  induction ops generalizing s with
  | nil => exact .nil
  | cons op ops ih =>
    cases op with
    | tick now p =>
      refine pairwise_perform (ih _) fun e he e' he' => ?_
      -- the time of this tick has been reached when the next ones come
      have htime := (time_of_tick he).1
      exact le_of_mem_tickEffects ops ⟨e.time, htime, Int.le_refl _⟩ he'
    | reset now => exact ih _
    | write w => exact ih _

/-! ## Ticks and resets -/

/-- The operation goes by time `t` or a later one. -/
def NotBefore (t : Int) (s : Session) : Operation → Prop
  | .tick now _ => s.keyer.Reached t ∨ t ≤ now
  | .reset now => t ≤ now
  | .write _ => True

theorem le_of_notBefore {op : Operation} (h : s.NotBefore t op)
    (he : e ∈ (s.perform op).1.events) : t ≤ e.time := by
  cases op with
  | tick now p =>
    obtain ⟨-, hnow, hreached⟩ := time_of_tick he
    rcases h with h | h
    · exact hreached t h
    · exact Int.le_trans h hnow
  | reset now =>
    rw [time_of_reset he]
    exact h
  | write w =>
    rw [(s.perform_write w).1] at he
    nomatch he

theorem NotBefore.perform {op' : Operation} (h : s.NotBefore t op') (op : Operation) :
    (s.perform op).2.NotBefore t op' := by
  cases op' with
  | tick now p => exact h.imp_left fun hreached => reached_perform hreached op
  | reset now => exact h
  | write w => trivial

theorem le_of_mem_effects (ops : List Operation) (h : ∀ op ∈ ops, s.NotBefore t op)
    (he : e ∈ Effects.published (s.effects ops)) : t ≤ e.time := by
  induction ops generalizing s with
  | nil => nomatch he
  | cons op ops ih =>
    obtain ⟨hop, hops⟩ := List.forall_mem_cons.mp h
    rcases List.mem_append.mp he with hnow | hlater
    · exact le_of_notBefore hop hnow
    · exact ih (fun op' hop' => (hops op' hop').perform op) hlater

/-- The operations to come go by the last tick's time or later ones. -/
def Ahead (s : Session) (ops : List Operation) : Prop :=
  ∀ last, s.keyer.time = some last → ∀ op ∈ ops, s.NotBefore last op

/-- An operation that is steady with those to come leaves them ahead. -/
theorem Ahead.perform {op : Operation} {ops : List Operation} (h : s.Ahead (op :: ops))
    (hsteady : ∀ op' ∈ ops, op.Steady op') : (s.perform op).2.Ahead ops := by
  intro last hlast op' hop'
  cases op with
  | tick now p =>
    have htime : some (s.keyer.checkClock now).1 = some last :=
      (s.keyer.tick_time s.store now p).symm.trans hlast
    obtain rfl := Option.some.inj htime
    cases op' with
    | tick now' p' => exact Or.inl ⟨_, hlast, Int.le_refl _⟩
    | reset now' =>
      -- neither the clock's time nor the last tick's is after the reset's
      have hnow : now ≤ now' := hsteady _ hop'
      show (s.keyer.checkClock now).1 ≤ now'
      rw [Keyer.checkClock_time]
      rcases hbefore : s.keyer.time with _ | before
      · rw [Option.getD_none]
        omega
      · have hle : before ≤ now' := h before hbefore _ (List.mem_cons_of_mem _ hop')
        rw [Option.getD_some]
        omega
    | write w => trivial
  | reset now => exact (h last hlast op' (List.mem_cons_of_mem _ hop')).perform _
  | write w =>
    rw [(s.perform_write w).2] at hlast
    exact (h last hlast op' (List.mem_cons_of_mem _ hop')).perform _

/-- What an operation publishes is not later than the operations to come. -/
theorem Ahead.notBefore {op : Operation} {ops : List Operation} (h : s.Ahead (op :: ops))
    (hsteady : ∀ op' ∈ ops, op.Steady op') (he : e ∈ (s.perform op).1.events) :
    ∀ op' ∈ ops, (s.perform op).2.NotBefore e.time op' := by
  cases op with
  | tick now p => exact h.perform hsteady e.time (time_of_tick he).1
  | reset now =>
    intro op' hop'
    rw [time_of_reset he]
    cases op' with
    | tick now' p' => exact Or.inr (hsteady _ hop')
    | reset now' => exact hsteady _ hop'
    | write w => trivial
  | write w =>
    rw [(s.perform_write w).1] at he
    nomatch he

theorem pairwise_effects (s : Session) (ops : List Operation) (hahead : s.Ahead ops)
    (hsteady : ops.Pairwise Operation.Steady) :
    (Effects.published (s.effects ops)).Pairwise (·.time ≤ ·.time) := by
  induction ops generalizing s with
  | nil => exact .nil
  | cons op ops ih =>
    obtain ⟨hop, hops⟩ := List.pairwise_cons.mp hsteady
    refine pairwise_perform (ih _ (hahead.perform hop) hops) fun e he e' he' => ?_
    exact le_of_mem_effects ops (hahead.notBefore hop he) he'

end Session

/-! ## Whole runs -/

/-- The ticks are among the operations. -/
theorem Session.tickEffects_subset (s : Session) (ops : List Operation) :
    s.tickEffects ops ⊆ s.effects ops := by
  induction ops generalizing s with
  | nil => exact List.Subset.refl _
  | cons op ops ih =>
    cases op with
    | tick now p => exact List.cons_subset_cons _ (ih _)
    | reset now => exact List.subset_cons_of_subset _ (ih _)
    | write w => exact List.subset_cons_of_subset _ (ih _)

/-- The key line follows the events, so it is in order if they are. -/
theorem Session.inOrder_of_events {s : Session} {ops : List Operation} {es : List Effects}
    (hes : es ⊆ s.effects ops)
    (h : (Effects.published es).Pairwise (·.time ≤ ·.time)) : Effects.InOrder es := by
  have hkeyed : Effects.keyed es = (Effects.published es).filterMap KeyChange.ofEvent? := by
    refine Effects.keyed_of_inStep fun e he => ?_
    obtain ⟨s', op, rfl⟩ := Session.mem_effects (hes he)
    exact inStep_perform s' op
  have htime : ∀ {e : TimedEvent} {c : KeyChange}, KeyChange.ofEvent? e = some c →
      c.time = e.time := by
    intro e c hc
    unfold KeyChange.ofEvent? at hc
    split at hc
    · rw [← Option.some.inj hc]
    · rw [← Option.some.inj hc]
    · nomatch hc
  refine ⟨h, ?_⟩
  rw [hkeyed]
  refine h.filterMap _ fun a b hab c hc d hd => ?_
  rw [htime hc, htime hd]
  exact hab

/-- **What ticks publish never goes back**, whatever the clock does and wherever resets and writes
    come between them.  Nor does anything else, if the clock does not go back across a reset. -/
theorem stamps_in_order (store : Store) (ops : List Operation) :
    Effects.InOrder ((Session.ofStore store).tickEffects ops) ∧
      (ops.Pairwise Operation.Steady → Effects.InOrder ((Session.ofStore store).effects ops)) := by
  refine ⟨?_, fun hsteady => ?_⟩
  · exact Session.inOrder_of_events (Session.tickEffects_subset _ _)
      (Session.pairwise_tickEffects _ ops)
  · -- a keyer that has just been made has no last tick
    have hahead : (Session.ofStore store).Ahead ops := fun last hlast => nomatch hlast
    exact Session.inOrder_of_events (List.Subset.refl _)
      (Session.pairwise_effects _ ops hahead hsteady)

/-- A dit that is cut short: the clock goes back from 5000 to 4000 between two ticks, but not
    across the reset. -/
theorem stamps_in_order_jitter :
    let ops : List Operation :=
      [.tick 5000 ⟨true, false⟩, .tick 4000 ⟨true, true⟩, .reset 5000, .tick 5200 .idle]
    ops.Pairwise Operation.Steady ∧ Effects.InOrder ((Session.ofStore {}).effects ops) ∧
      (Effects.published ((Session.ofStore {}).effects ops)).map (·.time)
        = [5000, 5000, 5000, 5000, 5000, 5200] := by
  intro ops
  have hsteady : ops.Pairwise Operation.Steady := by simp [ops, Operation.Steady]
  exact ⟨hsteady, (stamps_in_order {} ops).2 hsteady, by decide +kernel⟩

/-- **A reset turns the clock back**: a dit begun at 5000 is released at 4000, both on the key line
    and in the stream. -/
theorem stamps_turn_back :
    let ops : List Operation := [.tick 5000 ⟨true, false⟩, .reset 4000]
    (Effects.published ((Session.ofStore {}).effects ops)).map (·.time) = [5000, 5000, 4000] ∧
      Effects.keyed ((Session.ofStore {}).effects ops) = [⟨true, 5000⟩, ⟨false, 4000⟩] ∧
      ¬ Effects.InOrder ((Session.ofStore {}).effects ops) := by
  intro ops
  have hkeyed : Effects.keyed ((Session.ofStore {}).effects ops)
      = [⟨true, 5000⟩, ⟨false, 4000⟩] := by decide +kernel
  refine ⟨by decide +kernel, hkeyed, fun hinOrder => ?_⟩
  have hkeying := hinOrder.keying
  rw [hkeyed] at hkeying
  revert hkeying
  decide

end IambicKeyer

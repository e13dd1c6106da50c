/-
  The keyer's copy of the settings.

  1. **Counting writes** — the store's generation is the number of writes that went through, modulo
     65536 (`Store.generation_written`); ticks and resets do not touch the store.

  2. **Reloads** — a tick takes over the settings if the store's generation is not the one that the
     copy bears (`Session.reloads`); no other operation touches the copy (`copy_perform`).
     `Session.unseen` counts the writes that went through since the last such tick: it is `none`
     before the first tick and `some n` from then on.

  3. **The invariant** (`Session.Behind`) names the OLD store, the one that the copy was taken of.
     The copy is what the old store calls for; the generations of the two stores are `n` writes
     apart, modulo 65536; and their settings are the same if `n = 0`.  So a tick overlooks exactly
     the whole rounds of writes, and the durations and the gap timer's unit belong together even
     in a copy that is out of date, both being the old store's.
-/
import IambicKeyer.Proofs.Keyer.Session
import IambicKeyer.Proofs.Machine.Run
import IambicKeyer.Proofs.Settings.Limits

namespace IambicKeyer

/-! ## Counting writes -/

/-- The write that an operation asks for. -/
def Operation.write? : Operation → Option Write
  | .write w => some w
  | _ => none

namespace Store

/-- The generation moves on by one exactly if the write goes through. -/
theorem generation_attempt (s : Store) (w : Write) :
    (s.attempt w).generation.toNat
      = (s.generation.toNat + if w.accepted then 1 else 0) % 65536 := by
  have hlt := s.generation.toNat_lt
  rw [attempt_eq]
  by_cases hw : w.accepted = true
  · rw [if_pos hw, if_pos hw]
    exact UInt16.toNat_add s.generation 1
  · rw [if_neg hw, if_neg hw]
    omega

theorem generation_foldl (s : Store) (ws : List Write) :
    (ws.foldl attempt s).generation.toNat
      = (s.generation.toNat + ws.countP (·.accepted)) % 65536 := by
  have hlt := s.generation.toNat_lt
  induction ws generalizing s with
  | nil =>
    show s.generation.toNat = (s.generation.toNat + 0) % 65536
    omega
  | cons w ws ih =>
    show (ws.foldl attempt (s.attempt w)).generation.toNat = _
    rw [ih _ (s.attempt w).generation.toNat_lt, generation_attempt, List.countP_cons]
    omega

/-- The generation counts the writes that went through. -/
theorem generation_written (ws : List Write) :
    (written ws).generation.toNat = ws.countP (·.accepted) % 65536 := by
  have hcount := generation_foldl {} ws
  have hfresh : (({} : Store).generation.toNat + ws.countP (·.accepted))
      = ws.countP (·.accepted) := Nat.zero_add _
  rw [hfresh] at hcount
  exact hcount

end Store

namespace Session

/-- A write changes the store as if there were no keyer. -/
theorem store_write (s : Session) (w : Write) :
    (s.perform (.write w)).2.store = s.store.attempt w := by
  unfold Store.attempt
  cases hw : s.store.write w with
  | error _ => simp only [perform, hw]
  | ok written => simp only [perform, hw]

/-- Only the writes matter to the store. -/
theorem store_after (s : Session) (ops : List Operation) :
    (s.after ops).store = (ops.filterMap Operation.write?).foldl Store.attempt s.store := by
  induction ops generalizing s with
  | nil => rfl
  | cons op ops ih =>
    show ((s.perform op).2.after ops).store = _
    rw [ih]
    cases op with
    | tick now p => rfl
    | reset now => rfl
    | write w =>
      rw [store_write]
      rfl

/-- The store is what all writes have made of it, those before the keyer was made included. -/
theorem store_after_written (early : List Write) (ops : List Operation) :
    ((ofStore (Store.written early)).after ops).store
      = Store.written (early ++ ops.filterMap Operation.write?) := by
  rw [store_after]
  exact List.foldl_append.symm

end Session

/-! ## Copies -/

/-- What a keyer keeps of the settings. -/
structure Copy where
  settings : Settings
  timing : Timing
  /-- The unit of the gap timer. -/
  unit : Nat
  /-- The generation of the store when the copy was taken. -/
  generation : Option UInt16

/-- The copy that a keyer has. -/
def Keyer.copy (k : Keyer) : Copy :=
  ⟨k.machine.settings, k.machine.timing, k.gaps.unit, k.machine.generation⟩

/-- The copy that the store calls for. -/
def Store.copy (s : Store) : Copy :=
  ⟨s.settings, s.settings.timing, s.settings.timing.dit, some s.generation⟩

/-- A dit can be a unit of the gap timer as it is. -/
theorem Settings.max_ditTicks (s : Settings) : max s.ditTicks 1 = s.ditTicks :=
  Nat.max_eq_left s.ditTicks_pos

/-- The gap timer measures with the same unit all along. -/
theorem GapTimer.tick_unit (t : Option Transition) (g : GapTimer) : (g.tick t).2.unit = g.unit := by
  rcases t with _ | e | e
  · rcases hpending : g.pending with _ | gap
    · simp only [tick, hpending]
    · simp only [tick, hpending, wait]
      split <;> rfl
  · rfl
  · rfl

/-- Taking over the settings is taking a copy of the store. -/
theorem Keyer.ready_copy (store : Store) (now : Int) (k : Keyer) :
    (k.ready store now).copy = if (k.machine.sync store).1 then store.copy else k.copy := by
  by_cases hseen : k.machine.generation = some store.generation
  · have hsync : k.machine.sync store = (false, k.machine) := if_pos hseen
    simp only [ready, Keyer.sync, hsync, copy, Bool.false_eq_true, if_false]
  · have hsync : k.machine.sync store
        = (true, { k.machine.adopt store.settings with generation := some store.generation }) :=
      if_neg hseen
    simp only [ready, Keyer.sync, hsync, if_true]
    show Copy.mk store.settings store.settings.timing (max store.settings.ditTicks 1) _ = _
    rw [Settings.max_ditTicks]
    rfl

/-- The sample of a tick has nothing to do with the copy. -/
theorem Keyer.advance_copy (time : Int) (p : Paddles) (k : Keyer) :
    (k.advance time p).2.2.copy = k.copy := by
  show Copy.mk (k.machine.tick p).2.settings (k.machine.tick p).2.timing
    (k.gaps.tick (k.machine.tick p).1.transition).2.unit (k.machine.tick p).2.generation = _
  rw [Machine.tick_settings, Machine.tick_timing, Machine.tick_generation, GapTimer.tick_unit]
  rfl

namespace Session

variable {s : Session}

/-- Does a tick take over the settings of the store now? -/
def reloads (s : Session) : Bool := (s.keyer.machine.sync s.store).1

theorem reloads_iff (s : Session) :
    s.reloads = true ↔ s.keyer.copy.generation ≠ some s.store.generation := by
  show (s.keyer.machine.sync s.store).1 = true ↔ s.keyer.machine.generation ≠ _
  rw [Machine.sync]
  by_cases hseen : s.keyer.machine.generation = some s.store.generation
  · rw [if_pos hseen]
    exact ⟨fun h => (nomatch h), fun h => absurd hseen h⟩
  · rw [if_neg hseen]
    exact ⟨fun _ => hseen, fun _ => rfl⟩

/-- **Only a tick that reloads touches the copy.** -/
theorem copy_perform (s : Session) (op : Operation) :
    (s.perform op).2.keyer.copy
      = match op with
        | .tick _ _ => if s.reloads then s.store.copy else s.keyer.copy
        | _ => s.keyer.copy := by
  cases op with
  | tick now p =>
    show (s.keyer.tick s.store now p).2.2.copy = _
    rw [Keyer.tick_keyer, Keyer.advance_copy, Keyer.ready_copy]
    rfl
  | reset now => rfl
  | write w => rw [(s.perform_write w).2]

/-! ## Writes that the keyer has not seen -/

/-- The count after an operation: a tick that reloads starts it, a write that goes through is one
    more. -/
def recount (s : Session) (count : Option Nat) : Operation → Option Nat
  | .tick _ _ => if s.reloads then some 0 else count
  | .reset _ => count
  | .write w => if w.accepted then count.map (· + 1) else count

/-- How many writes have gone through since the last tick that reloaded, if one has; `count` is
    the number before the operations. -/
def unseen (s : Session) (count : Option Nat) : List Operation → Option Nat
  | [] => count
  | op :: ops => (s.perform op).2.unseen (s.recount count op) ops

/-- **The invariant**: the copy was taken of the store `old`, `count` writes ago. -/
structure Behind (s : Session) (old : Store) (count : Option Nat) : Prop where
  /-- A keyer that has just been made has its settings from `old`, but not the generation. -/
  copy : s.keyer.copy = { old.copy with generation := count.map fun _ => old.generation }
  generation : ∀ n, count = some n →
    s.store.generation.toNat = (old.generation.toNat + n) % 65536
  settings : count = some 0 → old.settings = s.store.settings

theorem behind_ofStore (store : Store) : (ofStore store).Behind store none where
  copy := by
    show Copy.mk store.settings store.settings.timing (max store.settings.ditTicks 1) none = _
    rw [Settings.max_ditTicks]
    rfl
  generation := by
    intro n hn
    nomatch hn
  settings := by
    intro hn
    nomatch hn

/-- A tick that reloads leaves the keyer level with the store. -/
theorem behind_reload (now : Int) (p : Paddles) (h : s.reloads = true) :
    (s.perform (.tick now p)).2.Behind s.store (some 0) where
  copy := by
    rw [copy_perform]
    exact if_pos h
  generation := by
    intro n hn
    obtain rfl := Option.some.inj hn
    have hlt := s.store.generation.toNat_lt
    show s.store.generation.toNat = (s.store.generation.toNat + 0) % 65536
    omega
  settings := fun _ => rfl

/-- A write that goes through leaves it one write behind. -/
theorem Behind.write {old : Store} {count : Option Nat} {w : Write} (h : s.Behind old count)
    (hw : w.accepted = true) : (s.perform (.write w)).2.Behind old (count.map (· + 1)) where
  copy := by
    rw [copy_perform, Option.map_map]
    exact h.copy
  generation := by
    intro n hn
    obtain ⟨k, hk, rfl⟩ := Option.map_eq_some_iff.mp hn
    have hold := h.generation k hk
    rw [store_write, Store.generation_attempt, if_pos hw, hold]
    omega
  settings := by
    intro hn
    obtain ⟨k, -, hk⟩ := Option.map_eq_some_iff.mp hn
    omega

/-- What touches neither copy nor store keeps the invariant. -/
theorem Behind.congr {s' : Session} {old : Store} {count : Option Nat} (h : s.Behind old count)
    (hcopy : s'.keyer.copy = s.keyer.copy) (hstore : s'.store = s.store) :
    s'.Behind old count where
  copy := hcopy.trans h.copy
  generation := by
    rw [hstore]
    exact h.generation
  settings := by
    rw [hstore]
    exact h.settings

/-- **Every operation keeps the invariant.** -/
theorem Behind.perform {old : Store} {count : Option Nat} (h : s.Behind old count)
    (op : Operation) : ∃ old', (s.perform op).2.Behind old' (s.recount count op) := by
  cases op with
  | tick now p =>
    rw [recount]
    by_cases hreloads : s.reloads = true
    · -- a new copy is taken
      rw [if_pos hreloads]
      exact ⟨s.store, behind_reload now p hreloads⟩
    · -- the old one is kept
      rw [if_neg hreloads]
      have hcopy := s.copy_perform (.tick now p)
      exact ⟨old, h.congr (hcopy.trans (if_neg hreloads)) rfl⟩
  | reset now => exact ⟨old, h.congr rfl rfl⟩
  | write w =>
    rw [recount]
    by_cases hw : w.accepted = true
    · rw [if_pos hw]
      exact ⟨old, h.write hw⟩
    · rw [if_neg hw]
      have hstore : (s.perform (.write w)).2.store = s.store := by
        rw [store_write, Store.attempt_eq, if_neg hw]
      exact ⟨old, h.congr (s.copy_perform (.write w)) hstore⟩

theorem Behind.after {old : Store} {count : Option Nat} (h : s.Behind old count)
    (ops : List Operation) : ∃ old', (s.after ops).Behind old' (s.unseen count ops) := by
  induction ops generalizing s old count with
  | nil => exact ⟨old, h⟩
  | cons op ops ih =>
    obtain ⟨old', hop⟩ := h.perform op
    exact ih hop

/-! ## What a tick overlooks -/

/-- A tick overlooks whole rounds of writes and nothing else. -/
theorem Behind.reloads_iff {old : Store} {count : Option Nat} (h : s.Behind old count) :
    s.reloads = true ↔ count = none ∨ ∃ n, count = some n ∧ ¬ 65536 ∣ n := by
  have hcopy : s.keyer.copy.generation = count.map fun _ => old.generation :=
    congrArg Copy.generation h.copy
  rw [Session.reloads_iff, hcopy]
  rcases hcount : count with _ | n
  · -- no tick has reloaded yet, so no generation is known
    exact ⟨fun _ => Or.inl rfl, fun _ h' => nomatch h'⟩
  · -- `n` writes bring the generation back exactly if they are whole rounds of it
    have hround : old.generation = s.store.generation ↔ 65536 ∣ n := by
      have hold := old.generation.toNat_lt
      rw [← UInt16.toNat_inj, h.generation n hcount]
      omega
    rw [Option.map_some, ne_eq, Option.some.injEq, hround]
    constructor
    · intro hn
      exact Or.inr ⟨n, rfl, hn⟩
    · rintro (hnone | ⟨k, hk, hdvd⟩)
      · nomatch hnone
      · obtain rfl := Option.some.inj hk
        exact hdvd

/-- The count starts with the first tick. -/
theorem recount_eq_none_iff {old : Store} {count : Option Nat} (h : s.Behind old count)
    (op : Operation) :
    s.recount count op = none ↔ count = none ∧ ∀ now p, op ≠ .tick now p := by
  cases op with
  | tick now p =>
    rw [recount]
    by_cases hreloads : s.reloads = true
    · rw [if_pos hreloads]
      exact ⟨fun h' => (nomatch h'), fun h' => absurd rfl (h'.2 now p)⟩
    · rw [if_neg hreloads]
      exact ⟨fun h' => absurd (h.reloads_iff.mpr (Or.inl h')) hreloads,
        fun h' => absurd rfl (h'.2 now p)⟩
  | reset now => simp [recount]
  | write w =>
    rw [recount]
    split <;> simp

theorem unseen_eq_none_iff {old : Store} {count : Option Nat} (h : s.Behind old count)
    (ops : List Operation) :
    s.unseen count ops = none ↔ count = none ∧ ∀ now p, Operation.tick now p ∉ ops := by
  induction ops generalizing s old count with
  | nil => simp [unseen]
  | cons op ops ih =>
    obtain ⟨old', hop⟩ := h.perform op
    rw [unseen, ih hop, recount_eq_none_iff h]
    simp only [List.mem_cons, not_or, forall_and, and_assoc, ne_eq, eq_comm]

/-! ## Coherence -/

/-- The keyer goes by the settings that are in force. -/
structure Coherent (s : Session) : Prop where
  settings : s.keyer.machine.settings = s.store.settings
  timing : s.keyer.machine.timing = s.store.settings.timing
  unit : s.keyer.gaps.unit = s.keyer.machine.timing.dit
  rate : s.keyer.rate = s.store.settings.tickRate

/-- The unit of the gap timer is the dit of the machine, of whatever store the copy is. -/
theorem Behind.unit {old : Store} {count : Option Nat} (h : s.Behind old count) :
    s.keyer.gaps.unit = s.keyer.machine.timing.dit :=
  (congrArg Copy.unit h.copy).trans (congrArg (·.timing.dit) h.copy).symm

/-- A copy of the settings in force makes the keyer go by them. -/
theorem Behind.coherent {old : Store} {count : Option Nat} (h : s.Behind old count)
    (hsettings : old.settings = s.store.settings) (hlimits : s.store.settings.InLimits) :
    s.Coherent := by
  have htiming : s.keyer.machine.timing = s.store.settings.timing := by
    rw [← hsettings]
    exact congrArg Copy.timing h.copy
  refine ⟨?_, htiming, h.unit, ?_⟩
  · rw [← hsettings]
    exact congrArg Copy.settings h.copy
  · have hrate := hlimits.tickRate
    show s.keyer.machine.timing.rate = _
    rw [htiming]
    show max s.store.settings.tickRate 1 = _
    omega

/-- A tick leaves the keyer coherent if it reloads, or if less than a round of writes is unseen. -/
theorem Behind.coherent_tick {old : Store} {count : Option Nat} (h : s.Behind old count)
    (hlimits : s.store.settings.InLimits) (now : Int) (p : Paddles)
    (hfew : s.reloads = true ∨ ∃ n, count = some n ∧ n < 65536) :
    (s.perform (.tick now p)).2.Coherent := by
  by_cases hreloads : s.reloads = true
  · exact (behind_reload now p hreloads).coherent rfl hlimits
  · obtain ⟨n, rfl, hn⟩ := hfew.resolve_left hreloads
    -- nothing is overlooked: the only multiple of a round that is less than one is none at all
    have hround : 65536 ∣ n := by
      by_cases hdvd : 65536 ∣ n
      · exact hdvd
      · exact absurd (h.reloads_iff.mpr (Or.inr ⟨n, rfl, hdvd⟩)) hreloads
    have hzero : n = 0 := by omega
    have hcopy := s.copy_perform (.tick now p)
    have hafter := h.congr (hcopy.trans (if_neg hreloads)) rfl
    exact hafter.coherent (h.settings (congrArg some hzero)) hlimits

end Session

/-- **The keyer keeps up with its store.**  Whatever is written before it is made and whatever is
    done to the two afterwards: the generation counts the writes that went through; a tick reloads
    if it is the first, or if the writes since the last reload are no whole number of rounds; the
    keyer goes by the settings in force after a tick that reloads, and after any tick with less
    than a round of writes since; and machine and gap timer agree on the dit all the time. -/
theorem copy_coherent (early : List Write) (ops : List Operation) :
    let start := Session.ofStore (Store.written early)
    let s := start.after ops
    s.store.generation.toNat
        = (early ++ ops.filterMap Operation.write?).countP (·.accepted) % 65536 ∧
      (s.reloads = true ↔ (∀ now p, Operation.tick now p ∉ ops) ∨
        ∃ n, start.unseen none ops = some n ∧ ¬ 65536 ∣ n) ∧
      (∀ now p, (s.reloads = true ∨ ∃ n, start.unseen none ops = some n ∧ n < 65536) →
        (s.perform (.tick now p)).2.Coherent) ∧
      s.keyer.gaps.unit = s.keyer.machine.timing.dit := by
  intro start s
  have hstart : start.Behind (Store.written early) none := Session.behind_ofStore _
  obtain ⟨old, hbehind⟩ := hstart.after ops
  have hstore : s.store = Store.written (early ++ ops.filterMap Operation.write?) :=
    Session.store_after_written early ops
  have hlimits : s.store.settings.InLimits := by
    rw [hstore]
    exact Store.inLimits_written _
  refine ⟨?_, ?_, ?_, hbehind.unit⟩
  · rw [hstore]
    exact Store.generation_written _
  · have hfirst := Session.unseen_eq_none_iff hstart ops
    rw [hbehind.reloads_iff, hfirst]
    simp only [true_and]
  · intro now p hfew
    exact hbehind.coherent_tick hlimits now p hfew

/-- A store that one write has changed and another one has not; after the first tick a refused
    write, a reset and one that goes through, which the second tick sees. -/
theorem copy_coherent_slowed :
    let start := Session.ofStore (Store.written [.wpm 20, .wpm 200])
    let s := start.after [.tick 0 .idle, .write (.weight 90), .reset 50, .write (.wpm 12)]
    s.store.generation.toNat = 2 ∧ start.unseen none
        [.tick 0 .idle, .write (.weight 90), .reset 50, .write (.wpm 12)] = some 1 ∧
      s.reloads = true ∧ (s.perform (.tick 100 .idle)).2.Coherent ∧
      (s.perform (.tick 100 .idle)).2.keyer.machine.settings.wpm = 12 := by
  intro start s
  have hunseen : start.unseen none
      [.tick 0 .idle, .write (.weight 90), .reset 50, .write (.wpm 12)] = some 1 := by
    decide +kernel
  obtain ⟨hcount, hreloads, hcoherent, -⟩ := copy_coherent [.wpm 20, .wpm 200]
    [.tick 0 .idle, .write (.weight 90), .reset 50, .write (.wpm 12)]
  have hreload : s.reloads = true := hreloads.mpr (Or.inr ⟨1, hunseen, by decide⟩)
  have htick := hcoherent 100 .idle (Or.inl hreload)
  refine ⟨?_, hunseen, hreload, htick, ?_⟩
  · exact hcount
  · rw [htick.settings]
    decide +kernel

end IambicKeyer

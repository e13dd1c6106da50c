/-
  A write is carried out whole or not at all.

  1. **Fields** — the twelve numbers that make up settings and wiring.  `Write.gives` says which
     fields a write names, and the value that it gives to each: a committed write sets these and no
     other (`Store.field_commit`).

  2. **Words** — the words of the store are changed one after the other, but a check that fails
     comes before all of them, and an accepted value fits into the word it is put in.  So the words
     after a write stand for the store after it (`Cells.serve_accepted`), or are the words before it.

  3. **Order** — settings can be replaced at once, or part by part: whichever parts are written
     first, all parts together make the same settings (`Store.settings_parts`), and the check of
     the whole accepts exactly if those of the parts do (`Settings.check_iff_parts`).
-/
import IambicKeyer.Proofs.Settings.Limits
import IambicKeyer.Settings.Cells

namespace IambicKeyer

/-! ## Fields -/

/-- A number of the settings or of the wiring; modes count by their codes. -/
inductive Field where
  | wpm
  | release
  | memory
  | squeeze
  | weight
  | windowStart
  | windowStop
  | tickRate
  | tieBreak
  | ditPin
  | dahPin
  | txPin
  deriving DecidableEq

/-- The value of a field of the settings, `none` for the wiring. -/
def Settings.field? (s : Settings) : Field → Option Nat
  | .wpm => some s.wpm
  | .release => some s.release.toByte.toNat
  | .memory => some s.memory.toByte.toNat
  | .squeeze => some s.squeeze.toByte.toNat
  | .weight => some s.weight
  | .windowStart => some s.window.start
  | .windowStop => some s.window.stop
  | .tickRate => some s.tickRate
  | .tieBreak => some s.tieBreak.toByte.toNat
  | _ => none

/-- The value of a field of the wiring, `none` for the settings. -/
def Pins.field? (p : Pins) : Field → Option Nat
  | .ditPin => some p.dit
  | .dahPin => some p.dah
  | .txPin => some p.tx
  | _ => none

/-- The value of a field. -/
def Store.field (s : Store) (f : Field) : Nat :=
  ((s.settings.field? f).or (s.pins.field? f)).getD 0

/-- The value that a write gives to a field, `none` if the write does not name the field. -/
def Write.gives : Write → Field → Option Nat
  | .wpm value, .wpm => some value
  | .weight value, .weight => some value
  | .window value, .windowStart => some value.start
  | .window value, .windowStop => some value.stop
  | .tickRate value, .tickRate => some value
  | .release mode, .release => some mode.toByte.toNat
  | .memory mode, .memory => some mode.toByte.toNat
  | .squeeze mode, .squeeze => some mode.toByte.toNat
  | .tieBreak mode, .tieBreak => some mode.toByte.toNat
  | .pins value, f => value.field? f
  | .all settings, f => settings.field? f
  | _, _ => none

/-- **A committed write sets the fields that it names and no others.** -/
theorem Store.field_commit (s : Store) (w : Write) (f : Field) :
    (s.commit w).field f = (w.gives f).getD (s.field f) := by
  cases w <;> cases f <;> rfl

/-- Settings are the same if their fields are. -/
theorem Settings.ext_field {s t : Settings} (h : ∀ f, s.field? f = t.field? f) : s = t := by
  have hwpm : s.wpm = t.wpm := Option.some.inj (h .wpm)
  have hrelease := congrArg ReleaseMode.ofCode (Option.some.inj (h .release))
  have hmemory := congrArg MemoryMode.ofCode (Option.some.inj (h .memory))
  have hsqueeze := congrArg SqueezeMode.ofCode (Option.some.inj (h .squeeze))
  have hweight : s.weight = t.weight := Option.some.inj (h .weight)
  have hstart : s.window.start = t.window.start := Option.some.inj (h .windowStart)
  have hstop : s.window.stop = t.window.stop := Option.some.inj (h .windowStop)
  have hrate : s.tickRate = t.tickRate := Option.some.inj (h .tickRate)
  have htie := congrArg TieBreak.ofCode (Option.some.inj (h .tieBreak))
  rw [ReleaseMode.ofCode_toByte, ReleaseMode.ofCode_toByte] at hrelease
  rw [MemoryMode.ofCode_toByte, MemoryMode.ofCode_toByte] at hmemory
  rw [SqueezeMode.ofCode_toByte, SqueezeMode.ofCode_toByte] at hsqueeze
  rw [TieBreak.ofCode_toByte, TieBreak.ofCode_toByte] at htie
  obtain ⟨wpm, release, memory, squeeze, weight, ⟨start, stop⟩, rate, tie⟩ := s
  simp only at hwpm hrelease hmemory hsqueeze hweight hstart hstop hrate htie
  subst hwpm hrelease hmemory hsqueeze hweight hstart hstop hrate htie
  rfl

/-! ## Words -/

/-- Settings as they are read back from the words that they are put into. -/
def Settings.readBack (s : Settings) : Settings where
  wpm := (UInt16.ofNat s.wpm).toNat
  release := .ofCode s.release.toByte.toNat
  memory := .ofCode s.memory.toByte.toNat
  squeeze := .ofCode s.squeeze.toByte.toNat
  weight := (UInt8.ofNat s.weight).toNat
  window := .ofWord s.window.toWord
  tickRate := (UInt32.ofNat s.tickRate).toNat
  tieBreak := .ofCode s.tieBreak.toByte.toNat

/-- Within the limits nothing is lost. -/
theorem Settings.InLimits.readBack_eq {s : Settings} (h : s.InLimits) : s.readBack = s := by
  obtain ⟨⟨-, hwpm⟩, ⟨-, hweight⟩, ⟨horder, hstop⟩, -, hrate⟩ := h
  have hwpm : (UInt16.ofNat s.wpm).toNat = s.wpm :=
    UInt16.toNat_ofNat_of_lt' (show s.wpm < 65536 by omega)
  have hweight : (UInt8.ofNat s.weight).toNat = s.weight :=
    UInt8.toNat_ofNat_of_lt' (show s.weight < 256 by omega)
  have hrate : (UInt32.ofNat s.tickRate).toNat = s.tickRate :=
    UInt32.toNat_ofNat_of_lt' (show s.tickRate < 4294967296 by omega)
  have hwindow : Window.ofWord s.window.toWord = s.window :=
    Window.ofWord_toWord (by omega) (by omega)
  unfold readBack
  rw [hwpm, hweight, hrate, hwindow, ReleaseMode.ofCode_toByte, MemoryMode.ofCode_toByte,
    SqueezeMode.ofCode_toByte, TieBreak.ofCode_toByte]

/-- Pins as they are read back. -/
def Pins.readBack (p : Pins) : Pins :=
  ⟨(UInt8.ofNat p.dit).toNat, (UInt8.ofNat p.dah).toNat, (UInt8.ofNat p.tx).toNat⟩

theorem Pins.InLimits.readBack_eq {p : Pins} (h : p.InLimits) : p.readBack = p := by
  obtain ⟨hdit, hdah, htx⟩ := h
  have hdit : (UInt8.ofNat p.dit).toNat = p.dit :=
    UInt8.toNat_ofNat_of_lt' (show p.dit < 256 by omega)
  have hdah : (UInt8.ofNat p.dah).toNat = p.dah :=
    UInt8.toNat_ofNat_of_lt' (show p.dah < 256 by omega)
  have htx : (UInt8.ofNat p.tx).toNat = p.tx :=
    UInt8.toNat_ofNat_of_lt' (show p.tx < 256 by omega)
  unfold readBack
  rw [hdit, hdah, htx]

namespace Cells

/-- A program goes on where its first part has ended. -/
theorem run_bind_ok {α β : Type} {x : Program α} {f : α → Program β} {a : α} {c c' : Cells}
    (h : x.run c = (.ok a, c')) : (x >>= f).run c = (f a).run c' := by
  rw [ExceptT.run_bind]
  simp only [bind, StateT.bind, h]

/-- **The words of an accepted write stand for what it asks for**; storing them never fails. -/
theorem run_put {w : Write} (h : w.check = .ok ()) (c : Cells) :
    ∃ c', (put w).run c = (.ok (), c') ∧
      c'.store = ⟨w.onSettings c.settings, w.onPins c.pins, c.generation⟩ := by
  -- an accepted value is within the limits of its field, whatever the other fields are
  have hfresh : ({} : Settings).InLimits := ({} : Settings).check_eq_ok_iff.mp rfl
  have hback := (hfresh.onSettings h).readBack_eq
  have hset : ∀ set : Settings → Settings,
      Store.mk (set (w.onSettings {}).readBack) c.pins c.generation
        = ⟨set (w.onSettings {}), c.pins, c.generation⟩ := fun set => by rw [hback]
  cases w with
  | wpm value => exact ⟨_, rfl, hset fun s => { c.settings with wpm := s.wpm }⟩
  | weight value => exact ⟨_, rfl, hset fun s => { c.settings with weight := s.weight }⟩
  | window value => exact ⟨_, rfl, hset fun s => { c.settings with window := s.window }⟩
  | tickRate value => exact ⟨_, rfl, hset fun s => { c.settings with tickRate := s.tickRate }⟩
  | release mode => exact ⟨_, rfl, hset fun s => { c.settings with release := s.release }⟩
  | memory mode => exact ⟨_, rfl, hset fun s => { c.settings with memory := s.memory }⟩
  | squeeze mode => exact ⟨_, rfl, hset fun s => { c.settings with squeeze := s.squeeze }⟩
  | tieBreak mode => exact ⟨_, rfl, hset fun s => { c.settings with tieBreak := s.tieBreak }⟩
  | pins value =>
    have hpins := (value.check_eq_ok_iff.mp h).readBack_eq
    exact ⟨_, rfl, congrArg (fun p : Pins => Store.mk c.settings p c.generation) hpins⟩
  | all settings => exact ⟨_, rfl, hset id⟩

/-- A refused write has not begun to change words. -/
theorem serve_refused {w : Write} {e : SettingsError} (h : w.check = .error e) (c : Cells) :
    c.serve w = (.error e, c) := by
  unfold serve write
  rw [h]
  rfl

/-- **An accepted write** is answered with its reports, and the words after it stand for the store
    after it. -/
theorem serve_accepted {w : Write} (h : w.check = .ok ()) (c : Cells) :
    (c.serve w).1 = .ok (w.reports (c.generation + 1)) ∧
      (c.serve w).2.store = c.store.commit w := by
  obtain ⟨c', hrun, hstore⟩ := run_put h c
  have hserve : c.serve w
      = (.ok (w.reports (c'.generation + 1)), { c' with generation := c'.generation + 1 }) := by
    unfold serve write
    rw [h]
    exact run_bind_ok hrun
  have hgeneration : c'.generation = c.generation := congrArg Store.generation hstore
  rw [hserve, ← hgeneration]
  refine ⟨rfl, ?_⟩
  show Store.mk c'.store.settings c'.store.pins (c'.generation + 1) = _
  rw [hstore, hgeneration]
  rfl

theorem store_attempt (c : Cells) (w : Write) : (c.attempt w).store = c.store.attempt w := by
  rw [Store.attempt_eq]
  unfold attempt
  cases hw : w.check with
  | error e =>
    rw [serve_refused hw, if_neg fun h => nomatch hw.symm.trans (w.accepted_iff.mp h)]
  | ok u =>
    rw [(serve_accepted hw c).2, if_pos (w.accepted_iff.mpr hw)]

theorem store_foldl (ws : List Write) (c : Cells) :
    (ws.foldl attempt c).store = ws.foldl Store.attempt c.store := by
  induction ws generalizing c with
  | nil => rfl
  | cons w ws ih =>
    rw [List.foldl_cons, List.foldl_cons, ih, store_attempt]

/-- **The words stand for the store** after any writes. -/
theorem store_written (ws : List Write) : (written ws).store = Store.written ws :=
  store_foldl ws {}

/-- A write is answered as its check says. -/
theorem serve_ok_iff (c : Cells) (w : Write) :
    (∃ reports, (c.serve w).1 = .ok reports) ↔ w.check = .ok () := by
  constructor
  · rintro ⟨reports, hok⟩
    cases hw : w.check with
    | error e =>
      rw [serve_refused hw] at hok
      nomatch hok
    | ok u => rfl
  · intro hw
    exact ⟨_, (serve_accepted hw c).1⟩

end Cells

/-! ## Part by part -/

/-- The writes that set the parts of the settings one by one. -/
def Settings.parts (s : Settings) : List Write :=
  [.wpm s.wpm, .weight s.weight, .window s.window, .tickRate s.tickRate, .release s.release,
    .memory s.memory, .squeeze s.squeeze, .tieBreak s.tieBreak]

/-- Those among them that may be refused. -/
def Settings.limitedParts (s : Settings) : List Write :=
  [.wpm s.wpm, .weight s.weight, .window s.window, .tickRate s.tickRate]

/-- **The check of the whole accepts exactly if those of the parts do.** -/
theorem Settings.check_iff_parts (s : Settings) :
    s.check = .ok () ↔ ∀ w ∈ s.limitedParts, w.check = .ok () := by
  have hwpm : (Write.wpm s.wpm).check = .ok () ↔ 5 ≤ s.wpm ∧ s.wpm ≤ 100 :=
    Limit.check_eq_ok_iff _ _
  have hweight : (Write.weight s.weight).check = .ok () ↔ 33 ≤ s.weight ∧ s.weight ≤ 67 :=
    Limit.check_eq_ok_iff _ _
  have hrate : (Write.tickRate s.tickRate).check = .ok () ↔
      1000 ≤ s.tickRate ∧ s.tickRate ≤ 10000 := Limit.check_eq_ok_iff _ _
  have hwindow : (Write.window s.window).check = .ok () ↔
      s.window.start ≤ s.window.stop ∧ s.window.stop ≤ 100 := s.window.check_eq_ok_iff
  simp only [limitedParts, List.forall_mem_cons, List.not_mem_nil, false_implies, implies_true,
    and_true, hwpm, hweight, hrate, hwindow, check_eq_ok_iff]
  constructor
  · rintro ⟨hwpm, hweight, hwindow, hrate⟩
    exact ⟨hwpm, hweight, hwindow, hrate⟩
  · rintro ⟨hwpm, hweight, hwindow, hrate⟩
    exact ⟨hwpm, hweight, hwindow, hrate⟩

/-- So no part of accepted settings is refused. -/
theorem Settings.check_of_mem_parts {s : Settings} (h : s.check = .ok ()) {w : Write}
    (hw : w ∈ s.parts) : w.check = .ok () := by
  have hlimited := s.check_iff_parts.mp h
  simp only [limitedParts, List.forall_mem_cons] at hlimited
  obtain ⟨hwpm, hweight, hwindow, hrate, -⟩ := hlimited
  simp only [parts, List.mem_cons, List.not_mem_nil, or_false] at hw
  rcases hw with rfl | rfl | rfl | rfl | rfl | rfl | rfl | rfl
  · exact hwpm
  · exact hweight
  · exact hwindow
  · exact hrate
  all_goals rfl

/-- A part gives to a field what the settings have there, or nothing. -/
theorem Settings.gives_of_mem_parts {s : Settings} {w : Write} (hw : w ∈ s.parts) {f : Field}
    {v : Nat} (h : w.gives f = some v) : s.field? f = some v := by
  simp only [parts, List.mem_cons, List.not_mem_nil, or_false] at hw
  rcases hw with rfl | rfl | rfl | rfl | rfl | rfl | rfl | rfl <;> cases f <;>
    first | exact h | nomatch h

/-- Every field of the settings is given by some part. -/
theorem Settings.exists_part {s : Settings} {f : Field} {v : Nat} (h : s.field? f = some v) :
    ∃ w ∈ s.parts, w.gives f = some v := by
  unfold parts
  cases f with
  | wpm => exact ⟨.wpm s.wpm, by simp, h⟩
  | weight => exact ⟨.weight s.weight, by simp, h⟩
  | windowStart => exact ⟨.window s.window, by simp, h⟩
  | windowStop => exact ⟨.window s.window, by simp, h⟩
  | tickRate => exact ⟨.tickRate s.tickRate, by simp, h⟩
  | release => exact ⟨.release s.release, by simp, h⟩
  | memory => exact ⟨.memory s.memory, by simp, h⟩
  | squeeze => exact ⟨.squeeze s.squeeze, by simp, h⟩
  | tieBreak => exact ⟨.tieBreak s.tieBreak, by simp, h⟩
  | ditPin => nomatch h
  | dahPin => nomatch h
  | txPin => nomatch h

namespace Store

/-- If the writes give nothing but `v` to a field, and one of them does, the field is `v` in the
    end, whatever their order. -/
theorem field_foldl {f : Field} {v : Nat} {ws : List Write} (hok : ∀ w ∈ ws, w.check = .ok ())
    (hsame : ∀ w ∈ ws, ∀ u, w.gives f = some u → u = v) {s : Store}
    (hset : s.field f = v ∨ ∃ w ∈ ws, w.gives f = some v) : (ws.foldl attempt s).field f = v := by
  induction ws generalizing s with
  | nil =>
    rcases hset with hs | ⟨w, hw, -⟩
    · exact hs
    · nomatch hw
  | cons w ws ih =>
    obtain ⟨hw, hws⟩ := List.forall_mem_cons.mp hok
    obtain ⟨hgives, hothers⟩ := List.forall_mem_cons.mp hsame
    rw [List.foldl_cons, attempt_eq, if_pos (w.accepted_iff.mpr hw)]
    refine ih hws hothers ?_
    rw [field_commit]
    cases hg : w.gives f with
    | some u =>
      -- set now; later writes can only set it to the same value
      exact Or.inl (hgives u hg)
    | none =>
      rcases hset with hs | ⟨w', hw', hg'⟩
      · exact Or.inl hs
      · rcases List.mem_cons.mp hw' with rfl | hlater
        · nomatch hg.symm.trans hg'
        · exact Or.inr ⟨w', hlater, hg'⟩

/-- The settings of a store are those whose fields it has. -/
theorem settings_eq {s : Store} {t : Settings} (h : ∀ f v, t.field? f = some v → s.field f = v) :
    s.settings = t := by
  refine Settings.ext_field fun f => ?_
  cases f with
  | wpm => exact congrArg some (h .wpm _ rfl)
  | weight => exact congrArg some (h .weight _ rfl)
  | windowStart => exact congrArg some (h .windowStart _ rfl)
  | windowStop => exact congrArg some (h .windowStop _ rfl)
  | tickRate => exact congrArg some (h .tickRate _ rfl)
  | release => exact congrArg some (h .release _ rfl)
  | memory => exact congrArg some (h .memory _ rfl)
  | squeeze => exact congrArg some (h .squeeze _ rfl)
  | tieBreak => exact congrArg some (h .tieBreak _ rfl)
  | ditPin => rfl
  | dahPin => rfl
  | txPin => rfl

/-- **All parts together make the settings**, in whatever order they are written. -/
theorem settings_parts {t : Settings} (h : t.check = .ok ()) {calls : List Write}
    (hcalls : calls.Perm t.parts) (s : Store) : (calls.foldl attempt s).settings = t := by
  refine settings_eq fun f v hf => ?_
  refine field_foldl (fun w hw => ?_) (fun w hw u hu => ?_) (Or.inr ?_)
  · exact Settings.check_of_mem_parts h (hcalls.mem_iff.mp hw)
  · have hu := Settings.gives_of_mem_parts (hcalls.mem_iff.mp hw) hu
    exact Option.some.inj (hu.symm.trans hf)
  · obtain ⟨w, hw, hg⟩ := Settings.exists_part hf
    exact ⟨w, hcalls.mem_iff.mpr hw, hg⟩

end Store

/-! ## The result -/

namespace Cells

/-- **Words that are well kept**: they stand for settings and a wiring within the limits, and any
    further write is carried out whole or not at all. -/
structure WellKept (c : Cells) : Prop where
  /-- The settings in force pass their own check. -/
  settings : c.settings.check = .ok ()
  /-- So do the pins: none of them is above 45. -/
  pins : c.pins.InLimits
  /-- A refused write changes no word. -/
  refused : ∀ w e, (c.serve w).1 = .error e → (c.serve w).2 = c
  /-- An accepted write sets the fields that it names to the values it gives, and no others, and
      the generation moves on by one. -/
  accepted : ∀ w reports, (c.serve w).1 = .ok reports →
    (∀ f, (c.serve w).2.store.field f = (w.gives f).getD (c.store.field f)) ∧
      (c.serve w).2.generation.toNat = (c.generation.toNat + 1) % 65536
  /-- Settings are taken over at once exactly if they pass their check, and then as they are. -/
  replaced : ∀ s : Settings, ((∃ reports, (c.serve (.all s)).1 = .ok reports) ↔ s.check = .ok ()) ∧
    (s.check = .ok () → (c.attempt (.all s)).settings = s)
  /-- They pass it exactly if each of their parts would be accepted. -/
  parts : ∀ s : Settings, s.check = .ok () ↔
    ∀ w ∈ s.limitedParts, ∃ reports, (c.serve w).1 = .ok reports
  /-- Written part by part, in any order, they are the same as written at once. -/
  anyOrder : ∀ s : Settings, s.check = .ok () → ∀ calls : List Write, calls.Perm s.parts →
    (calls.foldl attempt c).settings = (c.attempt (.all s)).settings

/-- Accepted settings are in force afterwards. -/
theorem settings_attempt_all {s : Settings} (h : s.check = .ok ()) (c : Cells) :
    (c.attempt (.all s)).settings = s := by
  have hstore := c.store_attempt (.all s)
  rw [Store.attempt_eq, if_pos ((Write.all s).accepted_iff.mpr h)] at hstore
  exact congrArg Store.settings hstore

/-- **Whatever is asked of the store, its words are well kept**, and they stand for the store that
    carries out the same writes each in one step. -/
theorem whole_or_nothing (ws : List Write) :
    (written ws).WellKept ∧ (written ws).store = Store.written ws := by
  have hstore := store_written ws
  generalize written ws = c at hstore ⊢
  refine ⟨{
    settings := ?_
    pins := ?_
    refused := fun w e he => ?_
    accepted := fun w reports hok => ?_
    replaced := fun s => ⟨c.serve_ok_iff (.all s), fun h => settings_attempt_all h c⟩
    parts := fun s => ?_
    anyOrder := fun s h calls hcalls => ?_ }, hstore⟩
  · have hlimits := Store.inLimits_written ws
    rw [← hstore] at hlimits
    exact c.settings.check_eq_ok_iff.mpr hlimits
  · have hpins := Store.pins_written ws
    rwa [← hstore] at hpins
  · cases hw : w.check with
    | error e => rw [serve_refused hw]
    | ok u =>
      rw [(serve_accepted hw c).1] at he
      nomatch he
  · have hserved := (serve_accepted ((c.serve_ok_iff w).mp ⟨reports, hok⟩) c).2
    have hgeneration : (c.serve w).2.generation = c.generation + 1 :=
      congrArg Store.generation hserved
    refine ⟨fun f => ?_, ?_⟩
    · rw [hserved, Store.field_commit]
    · rw [hgeneration]
      exact UInt16.toNat_add c.generation 1
  · rw [s.check_iff_parts]
    simp only [serve_ok_iff]
  · rw [settings_attempt_all h c]
    have hparts := Store.settings_parts h hcalls c.store
    rwa [← store_foldl] at hparts

/-- A window that would end before it starts and a pin that does not exist are refused in between;
    then new settings are written part by part, the last part first. -/
theorem whole_or_nothing_crossed :
    let c := written [.wpm 30, .window ⟨70, 60⟩, .pins ⟨7, 46, 8⟩, .weight 67]
    let s : Settings := { wpm := 12, release := .modeA, window := ⟨20, 80⟩, tickRate := 8000 }
    c.WellKept ∧ c.settings = { wpm := 30, weight := 67 } ∧ c.generation = 2 ∧
      s.check = .ok () ∧ s.parts.reverse.Perm s.parts ∧
      (s.parts.reverse.foldl attempt c).settings = (c.attempt (.all s)).settings ∧
      (c.attempt (.all s)).settings.wpm = 12 := by
  intro c s
  have hkept : c.WellKept := (whole_or_nothing _).1
  have hs : s.check = .ok () := rfl
  have hperm : s.parts.reverse.Perm s.parts := List.reverse_perm _
  exact ⟨hkept, by decide +kernel, by decide +kernel, hs, hperm, hkept.anyOrder s hs _ hperm,
    by decide +kernel⟩

end Cells

end IambicKeyer

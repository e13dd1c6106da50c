/-
  What the checks accept, and what writes do to a store.

  1. **`Settings.InLimits`** — the limits as plain inequalities; the check of the settings accepts
     exactly what lies within them.

  2. **Attempts** — a write that its check accepts is committed, any other one leaves the store
     alone (`Store.attempt`).  So settings and wiring stay within the limits, whatever writers ask
     for: `Store.written ws` is a fresh store after the writes `ws` have been asked for.
-/
import IambicKeyer.Settings.Store

namespace IambicKeyer

/-! ## Limits -/

/-- Two checks in a row accept what both of them accept. -/
theorem SettingsError.bind_eq_ok_iff {a b : Except SettingsError Unit} :
    (a >>= fun _ => b) = .ok () ↔ a = .ok () ∧ b = .ok () := by
  cases a with
  | error e => exact ⟨fun h => (nomatch h), fun h => (nomatch h.1)⟩
  | ok u => exact ⟨fun h => ⟨rfl, h⟩, fun h => h.2⟩

theorem Window.checkOrder_eq_ok_iff (w : Window) :
    w.checkOrder = .ok () ↔ w.start ≤ w.stop := by
  unfold checkOrder
  by_cases h : w.stop < w.start
  · rw [if_pos h]
    exact ⟨fun h' => (nomatch h'), fun h' => absurd h' (by omega)⟩
  · rw [if_neg h]
    exact ⟨fun _ => by omega, fun _ => rfl⟩

theorem Window.checkEdges_eq_ok_iff (w : Window) :
    w.checkEdges = .ok () ↔ w.start ≤ 100 ∧ w.stop ≤ 100 := by
  unfold checkEdges
  rw [SettingsError.bind_eq_ok_iff, Limit.check_eq_ok_iff, Limit.check_eq_ok_iff]
  simp [Limit.windowStart, Limit.windowStop]

theorem Window.check_eq_ok_iff (w : Window) :
    w.check = .ok () ↔ w.start ≤ w.stop ∧ w.stop ≤ 100 := by
  unfold check
  rw [SettingsError.bind_eq_ok_iff, checkEdges_eq_ok_iff, checkOrder_eq_ok_iff]
  omega

/-- The settings that may be in force. -/
structure Settings.InLimits (s : Settings) : Prop where
  wpm : 5 ≤ s.wpm ∧ s.wpm ≤ 100
  weight : 33 ≤ s.weight ∧ s.weight ≤ 67
  window : s.window.start ≤ s.window.stop ∧ s.window.stop ≤ 100
  tickRate : 1000 ≤ s.tickRate ∧ s.tickRate ≤ 10000

/-- **The check accepts exactly the settings within the limits.** -/
theorem Settings.check_eq_ok_iff (s : Settings) : s.check = .ok () ↔ s.InLimits := by
  unfold check
  rw [SettingsError.bind_eq_ok_iff, SettingsError.bind_eq_ok_iff, SettingsError.bind_eq_ok_iff,
    SettingsError.bind_eq_ok_iff, Limit.check_eq_ok_iff, Limit.check_eq_ok_iff,
    Limit.check_eq_ok_iff, Window.checkEdges_eq_ok_iff, Window.checkOrder_eq_ok_iff]
  constructor
  · rintro ⟨hwpm, hweight, ⟨-, hstop⟩, hrate, horder⟩
    exact ⟨hwpm, hweight, ⟨horder, hstop⟩, hrate⟩
  · rintro ⟨hwpm, hweight, ⟨horder, hstop⟩, hrate⟩
    exact ⟨hwpm, hweight, ⟨Nat.le_trans horder hstop, hstop⟩, hrate, horder⟩

/-- The pins that may be wired. -/
structure Pins.InLimits (p : Pins) : Prop where
  dit : p.dit ≤ 45
  dah : p.dah ≤ 45
  tx : p.tx ≤ 45

/-- **The check accepts exactly the pins that exist.** -/
theorem Pins.check_eq_ok_iff (p : Pins) : p.check = .ok () ↔ p.InLimits := by
  unfold check
  rw [SettingsError.bind_eq_ok_iff, SettingsError.bind_eq_ok_iff, Limit.check_eq_ok_iff,
    Limit.check_eq_ok_iff, Limit.check_eq_ok_iff]
  constructor
  · rintro ⟨⟨-, hdit⟩, ⟨-, hdah⟩, -, htx⟩
    exact ⟨hdit, hdah, htx⟩
  · rintro ⟨hdit, hdah, htx⟩
    exact ⟨⟨Nat.zero_le _, hdit⟩, ⟨Nat.zero_le _, hdah⟩, Nat.zero_le _, htx⟩

/-! ## Writes -/

/-- May the write go through? -/
def Write.accepted (w : Write) : Bool :=
  match w.check with
  | .ok _ => true
  | .error _ => false

theorem Write.accepted_iff (w : Write) : w.accepted = true ↔ w.check = .ok () := by
  unfold accepted
  cases w.check with
  | error e => exact ⟨fun h => (nomatch h), fun h => (nomatch h)⟩
  | ok u => exact ⟨fun _ => rfl, fun _ => rfl⟩

/-- A write that goes through keeps the settings within the limits. -/
theorem Settings.InLimits.onSettings {s : Settings} (h : s.InLimits) {w : Write}
    (hw : w.check = .ok ()) : (w.onSettings s).InLimits := by
  cases w with
  | wpm value => exact { h with wpm := (Limit.check_eq_ok_iff _ _).mp hw }
  | weight value => exact { h with weight := (Limit.check_eq_ok_iff _ _).mp hw }
  | window value => exact { h with window := value.check_eq_ok_iff.mp hw }
  | tickRate value => exact { h with tickRate := (Limit.check_eq_ok_iff _ _).mp hw }
  | all settings => exact settings.check_eq_ok_iff.mp hw
  | release mode => exact { h with }
  | memory mode => exact { h with }
  | squeeze mode => exact { h with }
  | tieBreak mode => exact { h with }
  | pins value => exact h

/-- It keeps the wiring within the limits too. -/
theorem Pins.InLimits.onPins {p : Pins} (h : p.InLimits) {w : Write} (hw : w.check = .ok ()) :
    (w.onPins p).InLimits := by
  cases w with
  | pins value => exact value.check_eq_ok_iff.mp hw
  | _ => exact h

namespace Store

/-- The store after a write has been asked for, whether it goes through or not. -/
def attempt (s : Store) (w : Write) : Store :=
  match s.write w with
  | .ok (written, _) => written
  | .error _ => s

theorem attempt_eq (s : Store) (w : Write) :
    s.attempt w = if w.accepted then s.commit w else s := by
  unfold attempt Write.accepted
  rw [write_eq]
  cases w.check <;> rfl

/-- The settings in force stay within the limits. -/
theorem inLimits_attempt {s : Store} (h : s.settings.InLimits) (w : Write) :
    (s.attempt w).settings.InLimits := by
  rw [attempt_eq]
  by_cases hw : w.accepted = true
  · rw [if_pos hw]
    exact h.onSettings (w.accepted_iff.mp hw)
  · rw [if_neg hw]
    exact h

/-- So does the wiring. -/
theorem pins_attempt {s : Store} (h : s.pins.InLimits) (w : Write) :
    (s.attempt w).pins.InLimits := by
  rw [attempt_eq]
  by_cases hw : w.accepted = true
  · rw [if_pos hw]
    exact h.onPins (w.accepted_iff.mp hw)
  · rw [if_neg hw]
    exact h

/-- A fresh store after a list of writes has been asked for. -/
def written (ws : List Write) : Store := ws.foldl attempt {}

/-- What holds of a fresh store and is kept by every write holds after any writes. -/
theorem written_induction {P : Store → Prop} (fresh : P {})
    (step : ∀ s w, P s → P (s.attempt w)) (ws : List Write) : P (written ws) := by
  have hfold : ∀ s : Store, P s → P (ws.foldl attempt s) := by
    induction ws with
    | nil => exact fun s h => h
    | cons w ws ih => exact fun s h => ih _ (step s w h)
  exact hfold {} fresh

theorem inLimits_written (ws : List Write) : (written ws).settings.InLimits :=
  written_induction (P := fun s => s.settings.InLimits) (({} : Settings).check_eq_ok_iff.mp rfl)
    (fun _ w h => inLimits_attempt h w) ws

theorem pins_written (ws : List Write) : (written ws).pins.InLimits :=
  written_induction (P := fun s => s.pins.InLimits) (({} : Pins).check_eq_ok_iff.mp rfl)
    (fun _ w h => pins_attempt h w) ws

end Store

end IambicKeyer

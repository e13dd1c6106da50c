/-
  The store as it lies in memory: one word per field.

  1. **Words** — a mode is kept as its code, a number in a word of the width that its range needs,
     and the two edges of the window together in ONE word, so that no reader sees one edge of an
     old window and the other of a new one.  `Window.ofWord_toWord` and its like for the modes say
     that what was put into a word can be read from it.

  2. **Steps** — a write is a program that runs over the words: first its check, then the words one
     after the other, and last the generation.  A check that fails stops the program where it
     stands; nothing takes back what has been done until then.

  What the words stand for is a `Store` (`Cells.store`).
-/
import IambicKeyer.Settings.Store

namespace IambicKeyer

/-! ## Words -/

/-- The code of a release mode. -/
def ReleaseMode.toByte : ReleaseMode → UInt8
  | modeA => 0
  | modeB => 1

@[simp] theorem ReleaseMode.ofCode_toByte (m : ReleaseMode) : ofCode m.toByte.toNat = m := by
  cases m <;> rfl

/-- The code of a memory mode. -/
def MemoryMode.toByte : MemoryMode → UInt8
  | none => 0
  | ditOnly => 1
  | dahOnly => 2
  | both => 3

@[simp] theorem MemoryMode.ofCode_toByte (m : MemoryMode) : ofCode m.toByte.toNat = m := by
  cases m <;> rfl

/-- The code of a squeeze mode. -/
def SqueezeMode.toByte : SqueezeMode → UInt8
  | latchOff => 0
  | latchOn => 1

@[simp] theorem SqueezeMode.ofCode_toByte (m : SqueezeMode) : ofCode m.toByte.toNat = m := by
  cases m <;> rfl

/-- The code of a tie-break. -/
def TieBreak.toByte : TieBreak → UInt8
  | ditFirst => 0
  | dahFirst => 1

@[simp] theorem TieBreak.ofCode_toByte (t : TieBreak) : ofCode t.toByte.toNat = t := by
  cases t <;> rfl

namespace Window

/-- Both edges in one word, the start in the lower byte. -/
def toWord (w : Window) : UInt16 := UInt16.ofNat (w.start + 256 * w.stop)

/-- The two edges of a word. -/
def ofWord (word : UInt16) : Window := ⟨word.toNat % 256, word.toNat / 256⟩

/-- Edges that are bytes can be read back. -/
theorem ofWord_toWord {w : Window} (hstart : w.start < 256) (hstop : w.stop < 256) :
    ofWord w.toWord = w := by
  have hword : w.toWord.toNat = w.start + 256 * w.stop :=
    UInt16.toNat_ofNat_of_lt' (show w.start + 256 * w.stop < 65536 by omega)
  obtain ⟨start, stop⟩ := w
  rw [ofWord, hword, mk.injEq]
  simp only at hstart hstop ⊢
  omega

example : toWord ⟨30, 70⟩ = 0x461e ∧ ofWord 0x6400 = ⟨0, 100⟩ := by decide

end Window

/-! ## Cells -/

/-- The words of the store. -/
structure Cells where
  wpm : UInt16 := 25
  release : UInt8 := 1
  memory : UInt8 := 3
  squeeze : UInt8 := 0
  weight : UInt8 := 50
  window : UInt16 := Window.toWord {}
  tickRate : UInt32 := 10000
  tieBreak : UInt8 := 0
  ditPin : UInt8 := 5
  dahPin : UInt8 := 4
  txPin : UInt8 := 6
  generation : UInt16 := 0
  deriving DecidableEq, Inhabited

namespace Cells

/-- The keying settings that the words stand for; every code is the code of some mode. -/
def settings (c : Cells) : Settings where
  wpm := c.wpm.toNat
  release := .ofCode c.release.toNat
  memory := .ofCode c.memory.toNat
  squeeze := .ofCode c.squeeze.toNat
  weight := c.weight.toNat
  window := .ofWord c.window
  tickRate := c.tickRate.toNat
  tieBreak := .ofCode c.tieBreak.toNat

/-- The wiring that they stand for. -/
def pins (c : Cells) : Pins := ⟨c.ditPin.toNat, c.dahPin.toNat, c.txPin.toNat⟩

/-- The store that the words stand for. -/
def store (c : Cells) : Store := ⟨c.settings, c.pins, c.generation⟩

/-! ## Writing, step by step -/

/-- A program over the words.  If it stops with an error, the words are as it has left them. -/
abbrev Program := ExceptT SettingsError (StateM Cells)

/-- Goes on if a check has accepted, and else stops with its error. -/
def require (check : Except SettingsError Unit) : Program Unit := ExceptT.mk (pure check)

/-- Stores the words of a write, one after the other. -/
def put : Write → Program Unit
  | .wpm value => modify fun c => { c with wpm := .ofNat value }
  | .weight value => modify fun c => { c with weight := .ofNat value }
  | .window value => modify fun c => { c with window := value.toWord }
  | .tickRate value => modify fun c => { c with tickRate := .ofNat value }
  | .release mode => modify fun c => { c with release := mode.toByte }
  | .memory mode => modify fun c => { c with memory := mode.toByte }
  | .squeeze mode => modify fun c => { c with squeeze := mode.toByte }
  | .tieBreak mode => modify fun c => { c with tieBreak := mode.toByte }
  | .pins value => do
    modify fun c => { c with ditPin := .ofNat value.dit }
    modify fun c => { c with dahPin := .ofNat value.dah }
    modify fun c => { c with txPin := .ofNat value.tx }
  | .all settings => do
    modify fun c => { c with wpm := .ofNat settings.wpm }
    modify fun c => { c with release := settings.release.toByte }
    modify fun c => { c with memory := settings.memory.toByte }
    modify fun c => { c with squeeze := settings.squeeze.toByte }
    modify fun c => { c with weight := .ofNat settings.weight }
    modify fun c => { c with window := settings.window.toWord }
    modify fun c => { c with tickRate := .ofNat settings.tickRate }
    modify fun c => { c with tieBreak := settings.tieBreak.toByte }

/-- Carries out a write. -/
def write (w : Write) : Program (List Report) := do
  require w.check
  put w
  modify fun c => { c with generation := c.generation + 1 }
  return w.reports (← get).generation

/-- What a write answers, and the words after it. -/
def serve (c : Cells) (w : Write) : Except SettingsError (List Report) × Cells := (write w).run c

/-- The words after a write has been asked for, whatever the answer was. -/
def attempt (c : Cells) (w : Write) : Cells := (c.serve w).2

/-- Fresh words after a list of writes has been asked for. -/
def written (ws : List Write) : Cells := ws.foldl attempt {}

end Cells

/-! ## Fresh words stand for the default settings, and a refused write is not begun -/

example : ({} : Cells).store = {} := by decide

example :
    let c := Cells.written [.all { wpm := 5, window := ⟨10, 101⟩ }, .pins ⟨7, 8, 46⟩, .weight 40]
    c.store = { settings := { weight := 40 }, generation := 1 } := by decide

end IambicKeyer

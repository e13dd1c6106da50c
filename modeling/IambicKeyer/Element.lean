/-
  The two Morse elements, and the paddles that ask for them.

  1. **`Element`** — a dit or a dah.  Each has one opposite, and the opposite's opposite is the
     element again.
  2. **`Paddles`** — the two contacts of an iambic paddle at one instant.  A contact sample
     arrives as a byte; bit 0 is the dit contact, bit 1 the dah contact, and the other six bits
     carry nothing.  Both closed at once is a SQUEEZE.

  Both types are small enough that every law about them is settled by cases.
-/

namespace IambicKeyer

/-! ## Elements -/

/-- A Morse element: the short `dit` or the long `dah`. -/
inductive Element where
  | dit
  | dah
  deriving DecidableEq, Inhabited

namespace Element

/-- The other element, the one a squeeze sends next. -/
def opposite : Element → Element
  | dit => dah
  | dah => dit

@[simp] theorem opposite_opposite (e : Element) : e.opposite.opposite = e := by
  cases e <;> rfl

theorem opposite_ne (e : Element) : e.opposite ≠ e := by
  cases e <;> decide

/-- The byte that stands for an element. -/
def toByte : Element → UInt8
  | dit => 0
  | dah => 1

/-- Byte `0` is a dit, every other byte a dah. -/
def ofByte (b : UInt8) : Element :=
  if b = 0 then dit else dah

@[simp] theorem ofByte_toByte (e : Element) : ofByte e.toByte = e := by
  cases e <;> rfl

/-- The element's name in messages. -/
def name : Element → String
  | dit => "dit"
  | dah => "dah"

end Element

/-! ## Paddles -/

/-- The state of the two paddle contacts: `true` is closed. -/
structure Paddles where
  dit : Bool
  dah : Bool
  deriving DecidableEq, Inhabited

namespace Paddles

/-- Both contacts open. -/
def idle : Paddles := ⟨false, false⟩

/-- Both contacts closed. -/
def squeezed : Paddles := ⟨true, true⟩

/-- Reads a contact sample; all but the two lowest bits are dropped. -/
def ofByte (b : UInt8) : Paddles :=
  ⟨b.toNat.testBit 0, b.toNat.testBit 1⟩

/-- The contact sample of a paddle state, reserved bits clear. -/
def toByte (p : Paddles) : UInt8 :=
  (if p.dit then 1 else 0) + (if p.dah then 2 else 0)

@[simp] theorem ofByte_toByte (p : Paddles) : ofByte p.toByte = p := by
  obtain ⟨a, b⟩ := p
  cases a <;> cases b <;> decide

/-- No contact is closed. -/
def isIdle (p : Paddles) : Bool := !p.dit && !p.dah

/-- Both contacts are closed. -/
def isSqueeze (p : Paddles) : Bool := p.dit && p.dah

/-- The same state with the dit contact as given. -/
def withDit (p : Paddles) (closed : Bool) : Paddles := { p with dit := closed }

/-- The same state with the dah contact as given. -/
def withDah (p : Paddles) (closed : Bool) : Paddles := { p with dah := closed }

/-- Is the contact that asks for `e` closed? -/
def holds (p : Paddles) : Element → Bool
  | .dit => p.dit
  | .dah => p.dah

@[simp] theorem idle_holds (e : Element) : idle.holds e = false := by
  cases e <;> rfl

@[simp] theorem squeezed_holds (e : Element) : squeezed.holds e = true := by
  cases e <;> rfl

end Paddles

/-! ## The reserved bits are dropped -/

example : Paddles.ofByte 0xfc = Paddles.idle ∧ Paddles.ofByte 0xff = Paddles.squeezed := by decide
example : (Paddles.squeezed.withDit false).toByte = 2 := by decide

end IambicKeyer

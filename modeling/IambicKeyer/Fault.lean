/-
  The fault register.

  The keying loop cannot answer to anyone, so what goes wrong in it is written down here.  The
  register holds the last fault only; how many there have been is counted, and clearing the
  register leaves the count alone.
-/
import IambicKeyer.Counter

namespace IambicKeyer

/-- What went wrong. -/
inductive FaultCode where
  | none
  /-- A tick came more than one period late. -/
  | tickOverrun
  /-- The clock showed an earlier time than on the tick before. -/
  | clockBackwards
  /-- A pin or a peripheral failed. -/
  | hardware
  deriving DecidableEq, Inhabited

namespace FaultCode

/-- A number without a code of its own stands for no fault. -/
def ofCode : Nat → FaultCode
  | 1 => tickOverrun
  | 2 => clockBackwards
  | 3 => hardware
  | _ => none

/-- The code in messages. -/
def name : FaultCode → String
  | none => "None"
  | tickOverrun => "TickOverrun"
  | clockBackwards => "ClockBackwards"
  | hardware => "HardwareFault"

end FaultCode

/-- A fault, with a number that tells how bad it was. -/
structure Fault where
  code : FaultCode
  /-- Microseconds of lateness, or of regression. -/
  data : Nat
  deriving DecidableEq, Inhabited

/-- The last fault, whether it has been looked at, and the number of faults so far. -/
structure FaultRegister where
  active : Bool := false
  last : Fault := ⟨.none, 0⟩
  count : Nat := 0
  deriving DecidableEq, Inhabited

namespace FaultRegister

/-- Writes a fault over the last one. -/
def raise (r : FaultRegister) (f : Fault) : FaultRegister :=
  ⟨true, f, Counter.wrapping r.count⟩

/-- Takes note of the fault. -/
def clear (r : FaultRegister) : FaultRegister := { r with active := false }

/-- Writes the faults of a list one after the other. -/
def raiseAll (r : FaultRegister) (fs : List Fault) : FaultRegister := fs.foldl raise r

@[simp] theorem count_clear (r : FaultRegister) : r.clear.count = r.count := rfl

end FaultRegister

end IambicKeyer

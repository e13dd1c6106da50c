/-
  The log: a ring of entries between the keying loop, which must not wait, and whoever reads.

  1. **Writing** (`push`) puts an entry behind the last one.  When all slots are waiting to be
     read the new entry is dropped and the drop is counted: what has been accepted is never
     overwritten.
  2. **Reading** (`drain`) takes the oldest entry.  A slot is read only if it bears the number of
     the entry that is due, which it gets once it has been written.
  3. **Forwarding** turns all waiting entries into reports, and after them the drops, if there
     were any, into one more; the count of drops starts again from zero.
-/
import IambicKeyer.Counter
import IambicKeyer.Log.Entry
import IambicKeyer.Ring
import IambicKeyer.Text.Column

namespace IambicKeyer

/-- An entry, and the number after the one it was last written for. -/
structure LogSlot where
  commit : UInt32 := 0
  entry : LogEntry := {}

/-- A queue of at most `2 ^ k` log entries. -/
structure Log (k : Nat) where
  slots : Vector LogSlot (Ring.size k)
  /-- The number of the next entry to write. -/
  head : UInt32
  /-- The number of the next entry to read. -/
  tail : UInt32
  /-- Entries that found no room. -/
  dropped : Nat

namespace Log

/-- The order of the station's own logs, which hold 256 entries. -/
abbrev standardOrder : Nat := 8

variable {k : Nat}

/-- A log without entries. -/
def empty : Log k := ⟨Vector.replicate (Ring.size k) {}, 0, 0, 0⟩

instance : Inhabited (Log k) := ⟨empty⟩

/-- Entries written and not yet read. -/
def pending (l : Log k) : Nat := (l.head - l.tail).toNat

/-- Is there anything to read? -/
def hasEntries (l : Log k) : Bool := l.pending != 0

/-- Starts counting drops from zero. -/
def resetDropped (l : Log k) : Log k := { l with dropped := 0 }

/-- Writes an entry if there is room; answers whether there was. -/
def push (l : Log k) (time : Int) (level : Level) (text : Array UInt8) : Bool × Log k :=
  if Ring.size k ≤ l.pending then (false, { l with dropped := Counter.wrapping l.dropped })
  else
    let i := Ring.index k l.head
    let slot : LogSlot := ⟨l.head + 1, l.slots[i].entry.refill time level text⟩
    (true, { l with slots := l.slots.set i.val slot i.isLt, head := l.head + 1 })

/-- Writes a note. -/
def note (l : Log k) (n : Note) : Log k := (l.push n.time n.level n.bytes).2

/-- Writes the notes of a list in order. -/
def noteAll (l : Log k) (ns : List Note) : Log k := ns.foldl note l

/-- Takes the oldest entry. -/
def drain (l : Log k) : Option LogEntry × Log k :=
  let slot := l.slots[Ring.index k l.tail]
  if slot.commit = l.tail + 1 then (some slot.entry, { l with tail := l.tail + 1 })
  else (none, l)

/-- Takes entries until `n` have come or there are no more. -/
def take : Nat → Log k → List LogEntry × Log k
  | 0, l => ([], l)
  | n + 1, l =>
    match l.drain with
    | (none, l) => ([], l)
    | (some e, l) =>
      let (es, l) := take n l
      (e :: es, l)

/-- Takes all waiting entries. -/
def drainAll (l : Log k) : List LogEntry × Log k := l.take l.pending

/-- The report that passes an entry on. -/
def entryReport (e : LogEntry) : Report :=
  ⟨e.level, .realtime, "[" ++ Text.timeColumn e.time ++ "] " ++ e.message⟩

/-- The report of the drops, if there were any. -/
def dropReports (dropped : Nat) : List Report :=
  if dropped = 0 then []
  else [⟨.warn, .realtime, toString dropped ++ " RT log messages dropped"⟩]

/-- Passes on all waiting entries, and then the drops; answers how many entries there were. -/
def forward (l : Log k) : Nat × List Report × Log k :=
  let (es, rest) := l.drainAll
  (es.length, es.map entryReport ++ dropReports rest.dropped, rest.resetDropped)

end Log

/-! ## A log of one entry: the second is dropped, and the drop is reported -/

example :
    let l := ((Log.empty : Log 0).push 7 .info #[0x6f, 0x6b]).2
    let (accepted, l) := l.push 8 .warn #[]
    accepted = false ∧ l.pending = 1 ∧ l.dropped = 1 ∧ l.drain.1.map (·.time) = some 7 := by decide

end IambicKeyer

/-
  What a log carries: the entries that it has accepted, and how many of them have left it.

  1. **Bearing** (`LogEntry.Bears`) — what counts of an entry is the text that it was written over
     with, however much of an older one lies behind it.

  2. **The representation** (`Carries`) — the entries accepted so far are numbered from zero on, and
     the last of them, as many as there are slots, lie in the slots of their numbers, committed under
     them.  This holds after ANY number of pushes: numbers a ring apart are told apart by their stamps
     also where the 32-bit words begin again from zero, because a ring has fewer slots than there are
     words.

  3. **One step each** — a push appends, if there is room (`Carries.push`); a drain takes the next
     entry (`Carries.drain_next`) and fails when all have left (`Carries.drain_end`).

  4. **Several drains** (`Carries.take`) deliver the entries in the order in which they were accepted
     (`Delivers`), until there are no more.
-/
import IambicKeyer.Log
import IambicKeyer.Proofs.Ring.Numbers

namespace IambicKeyer

/-! ## What is kept of an entry -/

/-- The part of an entry that counts. -/
structure Kept where
  time : Int
  level : Level
  text : Array UInt8
  deriving DecidableEq

/-- What is to be kept of a text: as much as there is room for. -/
def Kept.ofText (time : Int) (level : Level) (text : Array UInt8) : Kept :=
  ⟨time, level, text.extract 0 LogEntry.room⟩

/-- The report that passes it on. -/
def Kept.report (x : Kept) : Report :=
  ⟨x.level, .realtime, "[" ++ Text.timeColumn x.time ++ "] " ++ Text.leadingText ⟨x.text⟩⟩

def LogEntry.kept (e : LogEntry) : Kept := ⟨e.time, e.level, e.content.data⟩

theorem LogEntry.entryReport_eq (e : LogEntry) : Log.entryReport e = e.kept.report := rfl

/-- Nothing is left of the entry that is written over. -/
theorem LogEntry.kept_refill (e : LogEntry) (time : Int) (level : Level) (text : Array UInt8) :
    (e.refill time level text).kept = Kept.ofText time level text :=
  congrArg (Kept.mk time level) (e.bytes.extract_overwrite text)

/-- The entry counts as much of its bytes as the text has, and those are the text. -/
structure LogEntry.Bears (e : LogEntry) (x : Kept) : Prop where
  kept : e.kept = x
  length : e.length = x.text.size

theorem LogEntry.bears_refill (e : LogEntry) (time : Int) (level : Level) (text : Array UInt8) :
    (e.refill time level text).Bears (Kept.ofText time level text) where
  kept := e.kept_refill time level text
  length := by
    show min text.size room = (text.extract 0 room).size
    rw [Array.size_extract]
    omega

namespace Log

variable {k : Nat}

/-! ## Writing -/

/-- The slot that number `i` belongs to. -/
def slotOf (l : Log k) (i : UInt32) : LogSlot := l.slots.get (Ring.index k i)

/-- `l'` is the log after an entry was written: the slot at the head has changed and no other. -/
structure Written (l : Log k) (time : Int) (level : Level) (text : Array UInt8) (l' : Log k) :
    Prop where
  head : l'.head = l.head + 1
  tail : l'.tail = l.tail
  dropped : l'.dropped = l.dropped
  slot : ∀ j : Fin (Ring.size k), l'.slots[j] = if Ring.index k l.head = j then
    ⟨l.head + 1, (l.slots[j]).entry.refill time level text⟩ else l.slots[j]

variable {l l' : Log k} {t : Nat} {xs : List Kept} {time : Int} {level : Level} {text : Array UInt8}

theorem push_room (h : l.pending < Ring.size k) :
    (l.push time level text).1 = true ∧ l.Written time level text (l.push time level text).2 := by
  unfold push
  rw [if_neg (by omega)]
  refine ⟨rfl, rfl, rfl, rfl, ?_⟩
  intro j
  rw [Fin.getElem_fin, Vector.getElem_set]
  by_cases hj : Ring.index k l.head = j
  · subst hj
    rw [if_pos rfl, if_pos rfl]
  · rw [if_neg hj, if_neg (fun hval => hj (Fin.ext hval)), Fin.getElem_fin]

theorem Written.slotOf (h : l.Written time level text l') (i : UInt32) :
    l'.slotOf i = if Ring.index k l.head = Ring.index k i then
      ⟨l.head + 1, (l.slotOf i).entry.refill time level text⟩ else l.slotOf i :=
  h.slot (Ring.index k i)

theorem push_full (h : ¬ l.pending < Ring.size k) :
    l.push time level text = (false, { l with dropped := Counter.wrapping l.dropped }) := by
  unfold push
  rw [if_pos (by omega)]

/-! ## The representation -/

/-- **The log has accepted the entries `xs`, and `t` of them have left it.** -/
structure Carries (l : Log k) (t : Nat) (xs : List Kept) : Prop where
  /-- There are more words than slots. -/
  order : k < 32
  head : l.head = UInt32.ofNat xs.length
  tail : l.tail = UInt32.ofNat t
  left : t ≤ xs.length
  room : xs.length ≤ t + Ring.size k
  entry : ∀ i x, xs[i]? = some x → xs.length ≤ i + Ring.size k →
    (l.slotOf (UInt32.ofNat i)).commit = UInt32.ofNat (i + 1) ∧
      (l.slotOf (UInt32.ofNat i)).entry.Bears x
  /-- A slot that has not been written for yet bears no stamp. -/
  blank : ∀ i, xs.length ≤ i → i < Ring.size k → (l.slotOf (UInt32.ofNat i)).commit = 0

theorem carries_empty (hk : k < 32) : (empty : Log k).Carries 0 [] where
  order := hk
  head := rfl
  tail := rfl
  left := Nat.le_refl 0
  room := Nat.zero_le _
  entry := nofun
  blank := by
    intro i _ _
    show ((Vector.replicate (Ring.size k) ({} : LogSlot))[(Ring.index k _).val]).commit = 0
    rw [Vector.getElem_replicate]

/-- The count of drops does not matter. -/
theorem Carries.dropped (h : l.Carries t xs) (n : Nat) :
    ({ l with dropped := n } : Log k).Carries t xs :=
  ⟨h.order, h.head, h.tail, h.left, h.room, h.entry, h.blank⟩

theorem Carries.size_le (h : l.Carries t xs) : Ring.size k ≤ 2147483648 :=
  Nat.pow_le_pow_right (by omega) (Nat.le_of_lt_succ h.order)

theorem Carries.pending (h : l.Carries t xs) : l.pending = xs.length - t := by
  have hsize := h.size_le
  have hroom := h.room
  rw [Log.pending, h.head, h.tail, Ring.toNat_sub_ofNat h.left (by omega)]

/-! ## One step each -/

/-- **An entry that finds room** goes behind the last one.  It overwrites the slot of an entry that
    has left, because those that are waiting are less than a ring apart. -/
theorem Carries.written (h : l.Carries t xs) (hroom : xs.length < t + Ring.size k)
    (hwritten : l.Written time level text l') :
    l'.Carries t (xs ++ [Kept.ofText time level text]) := by
  have hsize := h.size_le
  have hleft := h.left
  have hlength : (xs ++ [Kept.ofText time level text]).length = xs.length + 1 := by
    rw [List.length_append]
    rfl
  constructor
  · exact h.order
  · rw [hwritten.head, h.head, hlength, Ring.ofNat_succ]
  · exact hwritten.tail.trans h.tail
  · omega
  · omega
  · intro i x hx hlast
    rw [hwritten.slotOf, h.head]
    rcases Nat.lt_or_ge i xs.length with hold | hnew
    · -- an entry that is waiting lies in another slot
      rw [List.getElem?_append_left hold] at hx
      rw [if_neg (Ring.index_ne hold (by omega) (by omega)).symm]
      exact h.entry i x hx (by omega)
    · -- the last entry is the one just written
      have hend : i < (xs ++ [Kept.ofText time level text]).length :=
        (List.getElem?_eq_some_iff.mp hx).1
      obtain rfl : i = xs.length := by omega
      rw [List.getElem?_concat_length] at hx
      obtain rfl := Option.some.inj hx
      rw [if_pos rfl, Ring.ofNat_succ]
      exact ⟨rfl, LogEntry.bears_refill _ _ _ _⟩
  · -- a slot of the first round that is still to come lies elsewhere, too
    intro i hi hfirst
    rw [hwritten.slotOf, h.head, if_neg (Ring.index_ne (by omega) (by omega) (by omega))]
    exact h.blank i (by omega) hfirst

/-- **A push** appends what it pushes, or nothing. -/
theorem Carries.push (h : l.Carries t xs) (time : Int) (level : Level) (text : Array UInt8) :
    (l.push time level text).2.Carries t
      (xs ++ if (l.push time level text).1 then [Kept.ofText time level text] else []) := by
  by_cases hroom : l.pending < Ring.size k
  · obtain ⟨haccepted, hwritten⟩ : (l.push time level text).1 = true ∧
        l.Written time level text (l.push time level text).2 := push_room hroom
    have hpending := h.pending
    rw [haccepted, if_pos rfl]
    exact h.written (by omega) hwritten
  · rw [push_full hroom, if_neg nofun, List.append_nil]
    exact h.dropped _

/-- **A drain takes the next entry**, -/
theorem Carries.drain_next (h : l.Carries t xs) {x : Kept} (hx : xs[t]? = some x) :
    ∃ e : LogEntry, e.Bears x ∧ l.drain = (some e, { l with tail := l.tail + 1 }) ∧
      ({ l with tail := l.tail + 1 } : Log k).Carries (t + 1) xs := by
  obtain ⟨hcommit, hbears⟩ := h.entry t x hx h.room
  have hlt : t < xs.length := (List.getElem?_eq_some_iff.mp hx).1
  have hroom := h.room
  refine ⟨_, hbears, ?_, h.order, h.head, ?_, hlt, by omega, h.entry, h.blank⟩
  · have hdue : (l.slotOf l.tail).commit = l.tail + 1 := by
      rw [h.tail, hcommit, Ring.ofNat_succ]
    rw [← h.tail]
    exact if_pos hdue
  · show l.tail + 1 = UInt32.ofNat (t + 1)
    rw [h.tail, Ring.ofNat_succ]

/-- **and fails when all have left**: the slot that is due does not look committed, although the bytes
    of an old entry may still be in it. -/
theorem Carries.drain_end (h : l.Carries t xs) (hend : t = xs.length) : l.drain = (none, l) := by
  have hsize := h.size_le
  have hpos := Ring.size_pos k
  apply if_neg
  intro (hcommit : (l.slotOf l.tail).commit = l.tail + 1)
  rw [h.tail, hend, Ring.ofNat_succ] at hcommit
  rcases Nat.lt_or_ge xs.length (Ring.size k) with hfirst | hlater
  · -- the slot has not been written for yet
    have hblank := h.blank xs.length (Nat.le_refl _) hfirst
    have hzero := congrArg UInt32.toNat (hblank.symm.trans hcommit)
    rw [Ring.toNat_ofNat (by omega)] at hzero
    nomatch hzero
  · -- it bears the number of the entry a ring before
    obtain ⟨i, hi⟩ : ∃ i, xs.length = i + Ring.size k := ⟨xs.length - Ring.size k, by omega⟩
    obtain ⟨hold, -⟩ := h.entry i xs[i] (List.getElem?_eq_getElem (by omega)) (by omega)
    have hslot : l.slotOf (UInt32.ofNat (i + Ring.size k)) = l.slotOf (UInt32.ofNat i) :=
      congrArg l.slots.get (Ring.index_ofNat_add_size (Nat.le_of_lt h.order) i)
    rw [hi, hslot, hold] at hcommit
    have hstamp := congrArg UInt32.toNat hcommit
    rw [UInt32.toNat_ofNat', UInt32.toNat_ofNat'] at hstamp
    omega

/-! ## Several drains -/

/-- **The entries `es` are those accepted from number `t` on**, in order. -/
def Delivers (es : List LogEntry) (t : Nat) (xs : List Kept) : Prop :=
  ∀ i e, es[i]? = some e → ∃ x, xs[t + i]? = some x ∧ e.Bears x

theorem delivers_nil (t : Nat) (xs : List Kept) : Delivers [] t xs := nofun

theorem Delivers.cons {es : List LogEntry} {e : LogEntry} {x : Kept} (hx : xs[t]? = some x)
    (hbears : e.Bears x) (h : Delivers es (t + 1) xs) : Delivers (e :: es) t xs := by
  intro i f hf
  cases i with
  | zero =>
    obtain rfl := Option.some.inj hf
    exact ⟨x, hx, hbears⟩
  | succ i =>
    rw [show t + (i + 1) = t + 1 + i by omega]
    exact h i f hf

/-- What is kept of them. -/
theorem Delivers.kept {es : List LogEntry} (h : Delivers es t xs) :
    es.map LogEntry.kept = (xs.drop t).take es.length := by
  apply List.ext_getElem?
  intro i
  rcases Nat.lt_or_ge i es.length with hlt | hge
  · obtain ⟨x, hx, hbears⟩ := h i es[i] (List.getElem?_eq_getElem hlt)
    rw [List.getElem?_map, List.getElem?_eq_getElem hlt, Option.map_some, hbears.kept,
      List.getElem?_take_of_lt hlt, List.getElem?_drop, hx]
  · rw [List.getElem?_eq_none (by rw [List.length_map]; exact hge),
      List.getElem?_eq_none (Nat.le_trans (List.length_take_le _ _) hge)]

/-- Taking leaves the count of drops alone. -/
theorem take_dropped (l : Log k) (n : Nat) : (l.take n).2.dropped = l.dropped := by
  induction n generalizing l with
  | zero => rfl
  | succ n ih =>
    by_cases hcommit : (l.slotOf l.tail).commit = l.tail + 1
    · have hdrain : l.drain = (some (l.slotOf l.tail).entry, { l with tail := l.tail + 1 }) :=
        if_pos hcommit
      rw [Log.take, hdrain]
      exact ih { l with tail := l.tail + 1 }
    · have hdrain : l.drain = (none, l) := if_neg hcommit
      rw [Log.take, hdrain]

/-- **Taking takes what comes next**, and stops only when all have left. -/
theorem Carries.take (h : l.Carries t xs) (n : Nat) :
    (l.take n).1.length = min n (xs.length - t) ∧ Delivers (l.take n).1 t xs ∧
      (l.take n).2.Carries (t + (l.take n).1.length) xs := by
  induction n generalizing l t with
  | zero =>
    rw [Nat.zero_min]
    exact ⟨rfl, delivers_nil t xs, h⟩
  | succ n ih =>
    rcases hx : xs[t]? with _ | x
    · have hend : t = xs.length := Nat.le_antisymm h.left (List.getElem?_eq_none_iff.mp hx)
      rw [Log.take, h.drain_end hend, hend, Nat.sub_self, Nat.min_zero]
      rw [hend] at h
      exact ⟨rfl, delivers_nil _ xs, h⟩
    · obtain ⟨e, hbears, hdrain, hnext⟩ := h.drain_next hx
      obtain ⟨hlength, hdelivers, hcarries⟩ := ih hnext
      have hlt : t < xs.length := (List.getElem?_eq_some_iff.mp hx).1
      rw [Log.take, hdrain]
      refine ⟨?_, hdelivers.cons hx hbears, ?_⟩
      · rw [List.length_cons, hlength]
        omega
      · rw [List.length_cons, show ∀ n, t + (n + 1) = t + 1 + n by omega]
        exact hcarries

/-- **Taking all that is pending** empties the log. -/
theorem Carries.drainAll (h : l.Carries t xs) :
    l.drainAll.1.length = xs.length - t ∧ Delivers l.drainAll.1 t xs ∧
      l.drainAll.2.Carries xs.length xs := by
  obtain ⟨hlength, hdelivers, hcarries⟩ := h.take l.pending
  have hleft := h.left
  rw [h.pending, Nat.min_self] at hlength
  have hend : t + (l.take l.pending).1.length = xs.length := by
    rw [h.pending]
    omega
  rw [hend] at hcarries
  refine ⟨?_, hdelivers, hcarries⟩
  show (l.take l.pending).1.length = _
  rw [h.pending]
  exact hlength

end Log

end IambicKeyer

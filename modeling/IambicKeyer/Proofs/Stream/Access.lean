/-
  Reading the ring by number.

  1. **Numbers and places** — on a ring that holds the end of a log of fewer than `2 ^ 32` events the
     distance from a number to the head is counted round the whole range of 32-bit numbers.  So it
     lies within a ring of the head for the numbers of the retained events, and also for the numbers
     just below `2 ^ 32` as long as the log is shorter than the ring.

  2. **Blank slots** (`Unwritten`) — those last numbers belong to slots that nothing has been written
     to.  A blank slot bears the largest number of all, so it gives nothing for any other one.

  3. **The result** (`read?_eq_some_iff`) — reading gives exactly the retained events, each under its
     place in the log, and one thing more: for the LARGEST number, on a ring that has not been filled
     once, it gives what a blank slot holds.
-/
import IambicKeyer.Proofs.Stream.Journal

namespace IambicKeyer

/-- A number above `w` that is counted as less than a ring behind `w` belongs to a slot at `w` or after
    it: the range of the numbers is a whole number of rings, and the number lies in the last one. -/
theorem Ring.le_index {k w : Nat} {index : UInt32} (habove : w < index.toNat)
    (hnear : 4294967296 + w - index.toNat ≤ size k) : w ≤ (Ring.index k index).val := by
  have hlt : index.toNat < 4294967296 := index.toNat_lt
  show w ≤ index.toNat % size k
  rcases Nat.lt_or_ge index.toNat (size k) with hsmall | hlarge
  · rw [Nat.mod_eq_of_lt hsmall]
    exact Nat.le_of_lt habove
  · have hk : k ≤ 32 := by
      rcases Nat.lt_or_ge 32 k with hbig | hk
      · have hsize : size 32 ≤ size k := Nat.pow_le_pow_right (by decide) (Nat.le_of_lt hbig)
        have hrange : size 32 = 4294967296 := by decide
        omega
      · exact hk
    obtain ⟨rings, hrings⟩ := size_dvd hk
    obtain ⟨before, rfl⟩ : ∃ before, rings = before + 1 := by
      apply Nat.exists_eq_succ_of_ne_zero
      rintro rfl
      omega
    rw [Nat.mul_succ] at hrings
    have hlast : index.toNat = size k * before + (index.toNat - size k * before) := by omega
    rw [hlast, Nat.mul_add_mod, Nat.mod_eq_of_lt (by omega)]
    omega

namespace EventStream

variable {k C : Nat} {s : EventStream k C} {log : List TimedEvent}

/-! ## Which numbers lie within a ring of the head -/

/-- The event of the log that is retained under a number: one of the last `window`. -/
def Held (log : List TimedEvent) (window : Nat) (index : UInt32) (e : TimedEvent) : Prop :=
  log.length - min log.length window ≤ index.toNat ∧ index.toNat < log.length ∧
    log[index.toNat]? = some e

instance (log : List TimedEvent) (window : Nat) (index : UInt32) (e : TimedEvent) :
    Decidable (Held log window index e) := inferInstanceAs (Decidable (_ ∧ _))

/-- The largest number, as long as neither the ring has been filled nor the number is the next one. -/
def Phantom (w window : Nat) (index : UInt32) : Prop :=
  index = 4294967295 ∧ w < min window 4294967295

instance (w window : Nat) (index : UInt32) : Decidable (Phantom w window index) :=
  inferInstanceAs (Decidable (_ ∧ _))

/-- No event of the log bears it. -/
theorem Phantom.lt {w window : Nat} {index : UInt32} (h : Phantom w window index) :
    w < index.toNat := by
  obtain ⟨rfl, hshort⟩ := h
  exact Nat.lt_of_lt_of_le hshort (Nat.min_le_right _ _)

/-- The distance of a number from the head, counted round the range of the numbers. -/
theorem Retains.behind (h : s.Retains log) (hfew : log.length < 4294967296) (index : UInt32) :
    (s.head - index).toNat
      = if index.toNat ≤ log.length then log.length - index.toNat
        else 4294967296 + log.length - index.toNat := by
  have hhead : s.head.toNat = log.length := by
    rw [h.head]
    exact Ring.toNat_ofNat hfew
  have hsub : (s.head - index).toNat = (4294967296 - index.toNat + s.head.toNat) % 4294967296 :=
    UInt32.toNat_sub _ _
  have hlt : index.toNat < 4294967296 := index.toNat_lt
  rw [hsub, hhead]
  split <;> omega

/-! ## Blank slots -/

/-- The slots that none of the first `w` events was written to are blank. -/
def Unwritten (s : EventStream k C) (w : Nat) : Prop :=
  ∀ i : Fin (Ring.size k), w ≤ i.val → s.slots[i.val] = Slot.blank

theorem unwritten_empty (w : Nat) : (empty : EventStream k C).Unwritten w := by
  intro i _
  exact Vector.getElem_replicate i.isLt

/-- **Writing event number `w`** leaves the slots after it blank. -/
theorem Unwritten.push {w : Nat} (h : s.Unwritten w) (hhead : s.head = UInt32.ofNat w)
    (hw : w < 4294967296) (e : TimedEvent) : (s.push e).Unwritten (w + 1) := by
  intro i hi
  -- the slot that is written lies at `w` or before it
  have hplace : (Ring.index k s.head).val ≤ w := by
    show s.head.toNat % Ring.size k ≤ w
    rw [hhead, Ring.toNat_ofNat hw]
    exact Nat.mod_le _ _
  have hother : (Ring.index k s.head).val ≠ i.val := by omega
  have hset : (s.push e).slots[i.val] = s.slots[i.val] :=
    Vector.getElem_set_ne (Ring.index k s.head).isLt i.isLt hother
  rw [hset]
  exact h i (by omega)

/-- Requests that write nothing leave the slots alone. -/
theorem slots_serve (s : EventStream k C) {r : Request} (hr : written [r] = []) :
    (s.serve r).2.slots = s.slots := by
  cases r with
  | push e => nomatch hr
  | register =>
    cases hreg : s.register with
    | error err => simp only [serve, hreg]
    | ok granted =>
      obtain ⟨-, ht, -⟩ := register_ok hreg
      simp only [serve, hreg, ht]
      rfl
  | unregister c =>
    cases hunreg : s.unregister c with
    | error err => simp only [serve, hunreg]
    | ok freed =>
      obtain ⟨y, ht, -⟩ := unregister_ok hunreg
      simp only [serve, hunreg, ht]
      rfl
  | poll c =>
    show (s.poll c).2.slots = s.slots
    cases hlive : s.consumer? c with
    | none => rw [poll_stale hlive]
    | some y =>
      rw [poll_live hlive rfl]
      rfl

/-- **Every request** keeps the slots blank that the log has not come to. -/
theorem Unwritten.serve {o : Observed k C} (h : o.stream.Unwritten o.journal.log.length)
    (hagrees : o.Agrees) (hfew : o.journal.log.length < 4294967296) (r : Request) :
    (o.serve r).stream.Unwritten (o.serve r).journal.log.length := by
  cases hr : written [r] with
  | nil =>
    intro i hi
    rw [log_serve, hr, List.append_nil] at hi
    show (o.stream.serve r).2.slots[i.val] = _
    rw [slots_serve _ hr]
    exact h i hi
  | cons e es =>
    cases r with
    | push e =>
      rw [log_serve, List.length_append]
      exact h.push hagrees.retains.head hfew e
    | _ => nomatch hr

theorem unwritten_serveAll {o : Observed k C} (h : o.stream.Unwritten o.journal.log.length)
    (hagrees : o.Agrees) {rs : List Request}
    (hfew : (o.journal.log ++ written rs).length < 4294967296)
    (hfits : ∀ e ∈ written rs, e.Fits) :
    (o.serveAll rs).stream.Unwritten (o.serveAll rs).journal.log.length := by
  induction rs generalizing o with
  | nil => exact h
  | cons r rs ih =>
    rw [written_cons] at hfew hfits
    have hnow : o.journal.log.length < 4294967296 := by
      rw [List.length_append] at hfew
      omega
    apply ih (h.serve hagrees hnow r)
    · exact hagrees.serve hnow fun e he => hfits e (List.mem_append_left _ he)
    · rwa [log_serve, List.append_assoc]
    · intro e he
      exact hfits e (List.mem_append_right _ he)

/-! ## Reading -/

/-- A read looks at the slot of a number that lies within a ring of the head, and nowhere else. -/
theorem read?_eq (s : EventStream k C) (index : UInt32) :
    s.read? index
      = if 0 < (s.head - index).toNat ∧ (s.head - index).toNat ≤ Ring.size k then
          (s.slotOf index).read? index
        else none := by
  have hout : ((s.head - index).toNat = 0 ∨ s.capacity < (s.head - index).toNat)
      ↔ ¬ (0 < (s.head - index).toNat ∧ (s.head - index).toNat ≤ Ring.size k) := by
    show (_ ∨ Ring.size k < _) ↔ _
    omega
  rw [read?]
  simp only [hout, ite_not]

/-- **A number that is not above the log** gives its event, if that is retained. -/
theorem Retains.read?_of_le (h : s.Retains log) (hfits : ∀ e ∈ log, e.Fits)
    (hfew : log.length < 4294967296) {index : UInt32} (hle : index.toNat ≤ log.length)
    (e : TimedEvent) : s.read? index = some e ↔ Held log (Ring.size k) index e := by
  have hbehind := h.behind hfew index
  rw [if_pos hle] at hbehind
  rw [read?_eq, hbehind, Held]
  by_cases hnear : 0 < log.length - index.toNat ∧ log.length - index.toNat ≤ Ring.size k
  · have hbelow : index.toNat < log.length := by omega
    have hread := h.read?_slotOf hfits hbelow (by omega)
    rw [UInt32.ofNat_toNat] at hread
    rw [if_pos hnear, hread, List.getElem?_eq_getElem hbelow]
    constructor
    · intro he
      exact ⟨by omega, hbelow, he⟩
    · intro he
      exact he.2.2
  · rw [if_neg hnear]
    constructor
    · intro he
      nomatch he
    · rintro ⟨hfrom, hbelow, -⟩
      omega

/-- What a blank slot is read as. -/
theorem read?_blank (index : UInt32) :
    Slot.blank.read? index
      = if index = 4294967295 then some ⟨0, .paddles .idle⟩ else none := by
  by_cases hlast : index = 4294967295
  · rw [if_pos hlast, hlast]
    decide
  · rw [if_neg hlast]
    exact Slot.read?_of_stamp_ne (Ne.symm hlast)

/-- **A number above the log** gives nothing, unless it is the phantom. -/
theorem Retains.read?_of_lt (h : s.Retains log) (hblank : s.Unwritten log.length)
    (hfew : log.length < 4294967296) {index : UInt32} (habove : log.length < index.toNat)
    (e : TimedEvent) :
    s.read? index = some e ↔
      Phantom log.length (Ring.size k) index ∧ e = ⟨0, .paddles .idle⟩ := by
  have hlt : index.toNat < 4294967296 := index.toNat_lt
  have hlast : index = 4294967295 ↔ index.toNat = 4294967295 := UInt32.toNat_inj.symm
  have hbehind := h.behind hfew index
  rw [if_neg (Nat.not_le.mpr habove)] at hbehind
  rw [read?_eq, hbehind, Phantom]
  by_cases hnear : 4294967296 + log.length - index.toNat ≤ Ring.size k
  · -- counted round, it lies within a ring of the head, in a slot that is still blank
    have hslot : s.slotOf index = Slot.blank :=
      hblank (Ring.index k index) (Ring.le_index habove hnear)
    have hshort : log.length < min (Ring.size k) 4294967295 := by omega
    rw [if_pos ⟨by omega, hnear⟩, hslot, read?_blank]
    by_cases hphantom : index = 4294967295
    · rw [if_pos hphantom, Option.some.injEq]
      constructor
      · intro he
        exact ⟨⟨hphantom, hshort⟩, he.symm⟩
      · intro he
        exact he.2.symm
    · rw [if_neg hphantom]
      constructor
      · intro he
        nomatch he
      · intro he
        exact absurd he.1.1 hphantom
  · -- too far behind the head to be looked up
    rw [if_neg fun hin => hnear hin.2]
    constructor
    · intro he
      nomatch he
    · rintro ⟨⟨hindex, hshort⟩, -⟩
      rw [hlast] at hindex
      omega

/-- **Random access.**  After every list of requests that writes fewer than `2 ^ 32` events, reading
    gives exactly the retained events, each under its place in the log, and for the phantom what a
    blank slot holds. -/
theorem read?_eq_some_iff (k C : Nat) (rs : List Request) (hfew : (written rs).length < 4294967296)
    (hfits : ∀ e ∈ written rs, e.Fits) (index : UInt32) (e : TimedEvent) :
    (observe k C rs).stream.read? index = some e ↔
      Held (written rs) (Ring.size k) index e ∨
        (Phantom (written rs).length (Ring.size k) index ∧ e = ⟨0, .paddles .idle⟩) := by
  have hlog : (observe k C rs).journal.log = written rs := log_serveAll {} rs
  have hretains := (agrees_observe k C hfew hfits).retains
  have hblank : (observe k C rs).stream.Unwritten (observe k C rs).journal.log.length :=
    unwritten_serveAll (unwritten_empty 0) agrees_new hfew hfits
  rw [hlog] at hretains hblank
  rcases Nat.lt_or_ge (written rs).length index.toNat with habove | hle
  · -- above the log nothing is held
    have hnot : ¬ Held (written rs) (Ring.size k) index e := by
      intro hheld
      have hbelow := hheld.2.1
      omega
    rw [hretains.read?_of_lt hblank hfew habove, or_iff_right hnot]
  · -- in the log there is no phantom
    have hnot : ¬ (Phantom (written rs).length (Ring.size k) index ∧ e = ⟨0, .paddles .idle⟩) := by
      intro hphantom
      have habove := hphantom.1.lt
      omega
    rw [hretains.read?_of_le hfits hfew hle, or_iff_left hnot]

/-- Three events on a ring of two, and a consumer that comes and goes. -/
def lapped : List Request :=
  [.register, .push ⟨10, .keyDown .dit⟩, .push ⟨20, .keyUp .dit⟩, .poll ⟨0, 0⟩,
    .unregister ⟨0, 0⟩, .push ⟨-30, .gap .character⟩]

/-- The last one can be read, and the first is gone. -/
theorem read?_lapped :
    (written lapped).length < 4294967296 ∧ (∀ e ∈ written lapped, e.Fits) ∧
      (observe 1 1 lapped).stream.read? 2 = some ⟨-30, .gap .character⟩ ∧
      ∀ e, (observe 1 1 lapped).stream.read? 0 ≠ some e := by
  have hfew : (written lapped).length < 4294967296 := by decide
  have hfits : ∀ e ∈ written lapped, e.Fits := by decide
  have hread := read?_eq_some_iff 1 1 lapped hfew hfits
  refine ⟨hfew, hfits, ?_, ?_⟩
  · apply (hread _ _).mpr
    decide
  · intro e
    rw [ne_eq, hread]
    rintro (⟨hfrom, -⟩ | ⟨hphantom, -⟩)
    · revert hfrom
      decide
    · revert hphantom
      decide

/-- **The phantom is read**: on a ring of four to which one event has been written, the largest number
    gives an idle paddle at time zero, though no event bears it. -/
theorem phantom_read :
    let rs : List Request := [.push ⟨7, .keyDown .dit⟩]
    (observe 2 1 rs).stream.read? 4294967295 = some ⟨0, .paddles .idle⟩ ∧
      (written rs).length = 1 ∧
      ¬ ∀ e, (observe 2 1 rs).stream.read? 4294967295 = some e ↔
        Held (written rs) (Ring.size 2) 4294967295 e := by
  intro rs
  have hread : (observe 2 1 rs).stream.read? 4294967295 = some ⟨0, .paddles .idle⟩ := by
    decide +kernel
  refine ⟨hread, rfl, ?_⟩
  intro hall
  have hheld := (hall _).mp hread
  revert hheld
  decide

end EventStream

end IambicKeyer

/-
  The gap timer when its unit may change between any two ticks.

      unit           4     4     4     4     1     1     9
      tick     up    1     2     3     4     5     6     7
      reports  ─     ─     ─     ─     ─     char  word  ─

  A STRETCH is what a timer is asked between two requests that start it over.  A tick is long
  enough for a gap if its number in the stretch is at least the dits of the gap, at the unit in
  force on that very tick; a later tick need not be.

  1. **First ticks** — the first tick after another that is long enough (`FirstLong`), and that none
     is (`NeverLong`), when one more tick is added at the end.

  2. **A stretch that a key up begins** has one of three courses (`Course`): nothing has been reported
     yet, the character has, or the character and then the word.  One step lemma, `Course.tick`, says
     how a tick goes from one to the next, and `Course.after` makes it a whole stretch.

  3. **Any other stretch** is silent, because there is no gap to wait for (`idle_stretch`).

  `gaps_under_changing_units` puts them together for the stretches of every run.
-/
import IambicKeyer.Proofs.Keyer.Silence

namespace IambicKeyer

namespace GapTimer

/-! ## Runs of a timer -/

/-- What a timer is asked to do. -/
inductive Request where
  | tick (t : Option Transition)
  | setUnit (unit : Nat)
  | reset
  deriving DecidableEq

namespace Request

/-- Whether it starts the timer over: a transition and a reset do. -/
def opens : Request → Bool
  | tick t => t.isSome
  | setUnit _ => false
  | reset => true

/-- Whether it is the tick of a key up. -/
def isKeyUp : Request → Bool
  | tick (some (.keyUp _)) => true
  | _ => false

/-- Whether it is a tick. -/
def isTick : Request → Bool
  | tick _ => true
  | _ => false

end Request

/-- Whether the last request is the tick of a key up. -/
def endsInKeyUp (rs : List Request) : Bool := rs.getLast?.any Request.isKeyUp

/-- One request. -/
def serve (g : GapTimer) : Request → GapTimer
  | .tick t => (g.tick t).2
  | .setUnit unit => g.setUnit unit
  | .reset => g.reset

/-- The timer after a list of requests. -/
def after (g : GapTimer) (rs : List Request) : GapTimer := rs.foldl serve g

/-- The gaps that the requests report, each with the number of its tick, when there have been `n`
    ticks before. -/
def reports (n : Nat) (g : GapTimer) : List Request → List (Nat × Gap)
  | [] => []
  | .tick t :: rs =>
    (((g.tick t).1.map fun gap => (n + 1, gap)).toList) ++ reports (n + 1) (g.tick t).2 rs
  | .setUnit unit :: rs => reports n (g.setUnit unit) rs
  | .reset :: rs => reports n g.reset rs

/-- The unit in force after requests: the last one that is set, where zero counts as one. -/
def unitAfter (unit : Nat) : List Request → Nat
  | [] => unit
  | .setUnit next :: rs => unitAfter (max next 1) rs
  | .tick _ :: rs => unitAfter unit rs
  | .reset :: rs => unitAfter unit rs

/-- The units in force on the ticks among the requests. -/
def units (unit : Nat) : List Request → List Nat
  | [] => []
  | .tick _ :: rs => unit :: units unit rs
  | .setUnit next :: rs => units (max next 1) rs
  | .reset :: rs => units unit rs

/-! ## First ticks -/

/-- **Tick `n` is long enough** for so many dits, at the unit in force on it. -/
def LongOn (us : List Nat) (dits n : Nat) : Prop := ∃ u, us[n - 1]? = some u ∧ dits * u ≤ n

/-- **Tick `n` is the first one after tick `start` that is long enough.** -/
structure FirstLong (us : List Nat) (dits start n : Nat) : Prop where
  late : start < n
  long : LongOn us dits n
  least : ∀ m, start < m → m < n → ¬ LongOn us dits m

/-- **No tick after tick `start` is long enough.** -/
def NeverLong (us : List Nat) (dits start : Nat) : Prop := ∀ m, start < m → ¬ LongOn us dits m

/-- **The gaps of a stretch that a key up begins**, the ticks numbered from the first one after the
    key up. -/
structure Classified (us : List Nat) (reported : List (Nat × Gap)) (up : Nat) : Prop where
  /-- First the character, then the word, and each on a tick of its own. -/
  order : reported.map Prod.snd <+: [.character, .word]
  once : reported.Pairwise fun a b => a.1 < b.1
  /-- A character ends on the first tick that is long enough for two dits, -/
  character : ∀ n, (n, .character) ∈ reported ↔ FirstLong us 2 0 n
  /-- and a word on the first one after that tick that is long enough for five. -/
  word : ∀ n, (n, .word) ∈ reported ↔
    ∃ c, FirstLong us 2 0 c ∧ FirstLong us 5 c n
  /-- The timer counts the ticks until the word has ended. -/
  counts : (∀ n, (n, .word) ∉ reported) → up = us.length
  stands : ∀ n, (n, .word) ∈ reported → up = n

section FirstTicks

variable {us : List Nat} {u dits start m n : Nat}

/-- A tick is only long enough if there is one. -/
theorem LongOn.le_length (h : LongOn us dits n) (hn : 0 < n) : n ≤ us.length := by
  obtain ⟨u, hu, -⟩ := h
  obtain ⟨hlt, -⟩ := List.getElem?_eq_some_iff.mp hu
  omega

/-- One more tick does not change those before it. -/
theorem longOn_append (hn : 0 < n) (h : n ≤ us.length) :
    LongOn (us ++ [u]) dits n ↔ LongOn us dits n := by
  rw [LongOn, LongOn, List.getElem?_append_left (by omega)]

/-- The tick that is added. -/
theorem longOn_append_last : LongOn (us ++ [u]) dits (us.length + 1) ↔ dits * u ≤ us.length + 1 := by
  rw [LongOn, Nat.add_sub_cancel, List.getElem?_concat_length]
  constructor
  · rintro ⟨v, hv, hlong⟩
    rw [Option.some.inj hv]
    exact hlong
  · intro hlong
    exact ⟨u, rfl, hlong⟩

/-- There is one first tick. -/
theorem FirstLong.unique (h : FirstLong us dits start m) (h' : FirstLong us dits start n) :
    m = n := by
  rcases Nat.lt_trichotomy m n with hlt | heq | hgt
  · exact absurd h.long (h'.least m h.late hlt)
  · exact heq
  · exact absurd h'.long (h.least n h'.late hgt)

theorem FirstLong.eq_iff (h : FirstLong us dits start m) : FirstLong us dits start n ↔ n = m := by
  constructor
  · intro hfirst
    exact hfirst.unique h
  · rintro rfl
    exact h

theorem FirstLong.le_length (h : FirstLong us dits start n) : n ≤ us.length :=
  h.long.le_length (Nat.lt_of_le_of_lt (Nat.zero_le start) h.late)

/-- A first tick stays the first one. -/
theorem FirstLong.append (h : FirstLong us dits start n) (u : Nat) :
    FirstLong (us ++ [u]) dits start n where
  late := h.late
  long := (longOn_append (Nat.zero_lt_of_lt h.late) h.le_length).mpr h.long
  least := by
    intro m hstart hm hlong
    have hn := h.le_length
    exact h.least m hstart hm ((longOn_append (by omega) (by omega)).mp hlong)

/-- A tick that is long enough, when none before it has been, is the first one. -/
theorem NeverLong.first (h : NeverLong us dits start) (hstart : start ≤ us.length)
    (hlong : dits * u ≤ us.length + 1) : FirstLong (us ++ [u]) dits start (us.length + 1) where
  late := by omega
  long := longOn_append_last.mpr hlong
  least := by
    intro m hm hlast hearlier
    exact h m hm ((longOn_append (by omega) (by omega)).mp hearlier)

/-- A tick that is not long enough changes nothing. -/
theorem NeverLong.append (h : NeverLong us dits start) (hshort : ¬ dits * u ≤ us.length + 1) :
    NeverLong (us ++ [u]) dits start := by
  intro m hm hlong
  have hle := hlong.le_length (by omega)
  rw [List.length_append, List.length_singleton] at hle
  rcases Nat.eq_or_lt_of_le hle with rfl | hlt
  · exact hshort (longOn_append_last.mp hlong)
  · exact h m hm ((longOn_append (by omega) (by omega)).mp hlong)

/-- The ticks after the last one are none. -/
theorem neverLong_length : NeverLong us dits us.length := by
  intro m hm hlong
  have hle := hlong.le_length (Nat.zero_lt_of_lt hm)
  omega

theorem NeverLong.not_first (h : NeverLong us dits start) : ¬ FirstLong us dits start n :=
  fun hfirst => h n hfirst.late hfirst.long

end FirstTicks

/-! ## A stretch that a key up begins -/

/-- **How far a stretch has come** after ticks with the units `us`: what the timer is left with, and
    what it has reported. -/
inductive Course (us : List Nat) (g : GapTimer) : List (Nat × Gap) → Prop
  | silent (hpending : g.pending = some .character) (hup : g.up = us.length)
      (hnever : NeverLong us 2 0) : Course us g []
  | character (c : Nat) (hpending : g.pending = some .word) (hup : g.up = us.length)
      (hfirst : FirstLong us 2 0 c)
      (hnever : NeverLong us 5 c) : Course us g [(c, .character)]
  | word (c w : Nat) (hpending : g.pending = none) (hup : g.up = w)
      (hfirst : FirstLong us 2 0 c)
      (hword : FirstLong us 5 c w) : Course us g [(c, .character), (w, .word)]

/-- What a wait that is long enough leaves. -/
theorem wait_over_timer {g : GapTimer} {gap : Gap} (hup : g.up < Counter.top)
    (h : gap.dits * g.unit ≤ g.up + 1) :
    g.wait gap = (some gap, { g with up := g.up + 1, pending := gap.following }) := by
  simp only [wait, Counter.saturating_of_lt hup, if_pos h]

section Stretches

variable {us : List Nat} {g : GapTimer} {reported : List (Nat × Gap)}

/-- A tick that does not start a timer over is silent. -/
theorem eq_none_of_quiet {t : Option Transition} (h : (Request.tick t).opens = false) : t = none := by
  cases t with
  | none => rfl
  | some t => nomatch h

/-- A change of the unit leaves a stretch where it is. -/
theorem Course.setUnit (h : Course us g reported) (unit : Nat) :
    Course us (g.setUnit unit) reported := by
  cases h with
  | silent hpending hup hnever => exact .silent hpending hup hnever
  | character c hpending hup hfirst hnever => exact .character c hpending hup hfirst hnever
  | word c w hpending hup hfirst hword => exact .word c w hpending hup hfirst hword

/-- **A silent tick takes a stretch one tick further.** -/
theorem Course.tick (h : Course us g reported) (hfew : us.length < Counter.top) :
    Course (us ++ [g.unit]) (g.tick none).2
      (reported ++ ((g.tick none).1.map fun gap => (us.length + 1, gap)).toList) := by
  have hlength : us.length + 1 = (us ++ [g.unit]).length := by
    rw [List.length_append, List.length_singleton]
  cases h with
  | silent hpending hup hnever =>
    rw [tick_silent hpending]
    by_cases hlong : Gap.character.dits * g.unit ≤ us.length + 1
    · -- the character ends on this tick, and no later one has been there for the word
      have hfirst := hnever.first (Nat.zero_le _) hlong
      rw [wait_over_timer (hup ▸ hfew) (hup ▸ hlong)]
      refine .character (us.length + 1) rfl ?_ hfirst ?_
      · rw [← hlength, ← hup]
      · rw [hlength]
        exact neverLong_length
    · -- not yet
      rw [wait_on (hup ▸ hfew) (hup ▸ hlong)]
      refine .silent hpending ?_ (hnever.append hlong)
      rw [← hlength, ← hup]
  | character c hpending hup hfirst hnever =>
    rw [tick_silent hpending]
    by_cases hlong : Gap.word.dits * g.unit ≤ us.length + 1
    · -- the word ends on this tick
      have hword := hnever.first hfirst.le_length hlong
      rw [wait_over_timer (hup ▸ hfew) (hup ▸ hlong)]
      refine .word c (us.length + 1) rfl ?_ (hfirst.append _) hword
      rw [← hup]
    · -- not yet
      rw [wait_on (hup ▸ hfew) (hup ▸ hlong)]
      refine .character c hpending ?_ (hfirst.append _) (hnever.append hlong)
      rw [← hlength, ← hup]
  | word c w hpending hup hfirst hword =>
    -- the timer has stopped counting
    rw [tick_done hpending]
    exact .word c w hpending hup (hfirst.append _) (hword.append _)

/-- **A whole stretch.** -/
theorem Course.after {rs : List Request} (h : Course us g reported)
    (hquiet : ∀ r ∈ rs, r.opens = false)
    (hfew : us.length + rs.countP Request.isTick ≤ Counter.top) :
    Course (us ++ units g.unit rs) (g.after rs) (reported ++ g.reports us.length rs) := by
  induction rs generalizing us g reported with
  | nil =>
    rw [units, reports, List.append_nil, List.append_nil]
    exact h
  | cons r rs ih =>
    obtain ⟨hfirst, hnext⟩ := List.forall_mem_cons.mp hquiet
    cases r with
    | tick t =>
      obtain rfl := eq_none_of_quiet hfirst
      rw [List.countP_cons_of_pos rfl] at hfew
      have htick := ih (h.tick (by omega)) hnext
        (by rw [List.length_append, List.length_singleton]; omega)
      rw [tick_unit, List.length_append, List.length_singleton, List.append_assoc,
        List.append_assoc] at htick
      exact htick
    | setUnit unit =>
      rw [List.countP_cons_of_neg Bool.false_ne_true] at hfew
      exact ih (h.setUnit unit) hnext hfew
    | reset => nomatch hfirst

/-- What a course says of the gaps. -/
theorem Course.classified (h : Course us g reported) : Classified us reported g.up := by
  cases h with
  | silent hpending hup hnever =>
    refine ⟨⟨[.character, .word], rfl⟩, .nil, fun n => ?_, fun n => ?_, fun _ => hup, nofun⟩
    · exact ⟨nofun, fun hfirst => absurd hfirst hnever.not_first⟩
    · exact ⟨nofun, fun ⟨_, hfirst, _⟩ => absurd hfirst hnever.not_first⟩
  | character c hpending hup hfirst hnever =>
    have hnone : ∀ n, (n, Gap.word) ∉ [(c, Gap.character)] := by simp
    refine ⟨⟨[.word], rfl⟩, List.pairwise_singleton _ _, fun n => ?_, fun n => ?_, fun _ => hup, ?_⟩
    · rw [hfirst.eq_iff]
      simp
    · refine ⟨fun hn => absurd hn (hnone n), fun ⟨d, hd, hword⟩ => ?_⟩
      rw [hfirst.eq_iff.mp hd] at hword
      exact absurd hword hnever.not_first
    · exact fun n hn => absurd hn (hnone n)
  | word c w hpending hup hfirst hword =>
    have hmem : ∀ n, (n, Gap.word) ∈ [(c, Gap.character), (w, Gap.word)] ↔ n = w := by simp
    refine ⟨⟨[], rfl⟩, by simpa using hword.late, fun n => ?_, fun n => ?_, fun hnone => ?_, ?_⟩
    · rw [hfirst.eq_iff]
      simp
    · rw [hmem, ← hword.eq_iff]
      refine ⟨fun hn => ⟨c, hfirst, hn⟩, fun ⟨d, hd, hn⟩ => ?_⟩
      rw [hfirst.eq_iff.mp hd] at hn
      exact hn
    · exact absurd ((hmem w).mpr rfl) (hnone w)
    · exact fun n hn => hup.trans ((hmem n).mp hn).symm

/-! ## Any other stretch -/

/-- **A stretch without a gap to wait for** reports nothing and counts nothing. -/
theorem idle_stretch {rs : List Request} (hpending : g.pending = none)
    (hquiet : ∀ r ∈ rs, r.opens = false) (n : Nat) :
    g.reports n rs = [] ∧ (g.after rs).up = g.up := by
  induction rs generalizing g n with
  | nil => exact ⟨rfl, rfl⟩
  | cons r rs ih =>
    obtain ⟨hfirst, hnext⟩ := List.forall_mem_cons.mp hquiet
    cases r with
    | tick t =>
      obtain rfl := eq_none_of_quiet hfirst
      show ((g.tick none).1.map _).toList ++ (g.tick none).2.reports (n + 1) rs = []
        ∧ ((g.tick none).2.after rs).up = g.up
      rw [tick_done hpending]
      exact ih hpending hnext (n + 1)
    | setUnit unit => exact ih (g := g.setUnit unit) hpending hnext n
    | reset => nomatch hfirst

end Stretches

/-! ## All stretches -/

theorem after_append (g : GapTimer) (rs rs' : List Request) :
    g.after (rs ++ rs') = (g.after rs).after rs' := List.foldl_append

/-- The unit of a timer is the last one that it has been told. -/
theorem unit_after (g : GapTimer) (rs : List Request) :
    (g.after rs).unit = unitAfter g.unit rs := by
  induction rs generalizing g with
  | nil => rfl
  | cons r rs ih =>
    cases r with
    | tick t =>
      have htick := ih (g.tick t).2
      rw [tick_unit] at htick
      exact htick
    | setUnit unit => exact ih (g.setUnit unit)
    | reset => exact ih g.reset

/-- **The timer at the beginning of a stretch**: after a key up it waits for the end of a character,
    and otherwise for nothing. -/
theorem at_opening (v : Nat) {before : List Request}
    (hopens : ∀ r, before.getLast? = some r → r.opens) :
    ((ofUnit v).after before).up = 0 ∧
      ((ofUnit v).after before).pending = if endsInKeyUp before then some .character else none := by
  rcases List.eq_nil_or_concat before with rfl | ⟨earlier, r, rfl⟩
  · exact ⟨rfl, rfl⟩
  · rw [List.concat_eq_append, List.getLast?_concat] at hopens
    rw [List.concat_eq_append, after_append, endsInKeyUp, List.getLast?_concat]
    have hr := hopens r rfl
    rcases r with (_ | e | e) | unit | _
    · nomatch hr
    · exact ⟨rfl, rfl⟩
    · exact ⟨rfl, rfl⟩
    · nomatch hr
    · exact ⟨rfl, rfl⟩

/-- **The gaps under changing units.**  In every run of a new timer, take what it is asked from one
    transition or reset to the next, or any first part of it that has fewer than `2 ^ 32` ticks.  If
    a key up begins it, then the timer reports the end of the character on the first tick that is
    long enough for it, and the end of the word on the first such tick after that; and it counts the
    ticks until then.  Otherwise it reports nothing and counts nothing; nor does it report anything
    on the transition that ends the stretch. -/
theorem gaps_under_changing_units (v : Nat) (before stretch : List Request)
    (hopens : ∀ r, before.getLast? = some r → r.opens)
    (hquiet : ∀ r ∈ stretch, r.opens = false)
    (hfew : stretch.countP Request.isTick < 4294967296) :
    let g := (ofUnit v).after before
    let us := units (unitAfter (max v 1) before) stretch
    (endsInKeyUp before = true → Classified us (g.reports 0 stretch) (g.after stretch).up) ∧
    (endsInKeyUp before = false → g.reports 0 stretch = [] ∧ (g.after stretch).up = 0) ∧
    ∀ t, ((g.after stretch).tick (some t)).1 = none := by
  intro g us
  obtain ⟨hup, hpending⟩ := at_opening v hopens
  refine ⟨fun hkeyUp => ?_, fun hother => ?_, fun t => ?_⟩
  · rw [hkeyUp] at hpending
    have hcourse : Course [] g [] := .silent hpending hup neverLong_length
    have hstretch := hcourse.after hquiet
      (by rw [List.length_nil, Nat.zero_add]; exact Nat.le_of_lt_succ hfew)
    have hunit : g.unit = unitAfter (max v 1) before := unit_after (ofUnit v) before
    rw [List.nil_append, List.nil_append, hunit] at hstretch
    exact hstretch.classified
  · rw [hother] at hpending
    obtain ⟨hsilent, hstands⟩ := idle_stretch hpending hquiet 0
    exact ⟨hsilent, hstands.trans hup⟩
  · cases t <;> rfl

/-- The key goes up, and five ticks later a dit becomes four times as short. -/
def quickened : List Request := List.replicate 5 (.tick none) ++ [.setUnit 1] ++
  List.replicate 2 (.tick none) ++ [.setUnit 9, .tick none]

/-- Six ticks are enough for a character now, and the next tick for a word; the ninefold unit that
    comes after that changes nothing. -/
theorem gaps_under_changing_units_quickened :
    let before : List Request := [.tick (some (.keyDown .dit)), .tick (some (.keyUp .dit))]
    let g := (ofUnit 4).after before
    let us := units (unitAfter (max 4 1) before) quickened
    (∀ r, before.getLast? = some r → r.opens) ∧ (∀ r ∈ quickened, r.opens = false) ∧
      quickened.countP Request.isTick < 4294967296 ∧ us = [4, 4, 4, 4, 4, 1, 1, 9] ∧
      g.reports 0 quickened = [(6, .character), (7, .word)] ∧ FirstLong us 2 0 6 ∧
      (∃ c, FirstLong us 2 0 c ∧ FirstLong us 5 c 7) ∧ (g.after quickened).up = 7 := by
  intro before g us
  have hopens : ∀ r, before.getLast? = some r → r.opens := by
    intro r hr
    rw [← Option.some.inj hr]
    rfl
  have hquiet : ∀ r ∈ quickened, r.opens = false := by decide
  have hfew : quickened.countP Request.isTick < 4294967296 := by decide
  have hreports : g.reports 0 quickened = [(6, .character), (7, .word)] := by decide
  obtain ⟨hbegun, -⟩ := gaps_under_changing_units 4 before quickened hopens hquiet hfew
  have hgaps := hbegun rfl
  refine ⟨hopens, hquiet, hfew, by decide, hreports, (hgaps.character 6).mp ?_,
    (hgaps.word 7).mp ?_, hgaps.stands 7 ?_⟩
  · show _ ∈ g.reports 0 quickened
    rw [hreports]
    decide
  · show _ ∈ g.reports 0 quickened
    rw [hreports]
    decide
  · show _ ∈ g.reports 0 quickened
    rw [hreports]
    decide

end GapTimer

end IambicKeyer

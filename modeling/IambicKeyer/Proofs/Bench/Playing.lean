/-
  A script is a step function of the time since its first sample.

  1. **Onsets** — the running sums of the steps' lengths.  They do not go back, so at most one step is
     `On` at a time, and a step of no length never is.

  2. **The walk** (`paddlesAt_cases`) — taking one step's length after the other off the time that has
     passed ends at the step that is on, or behind the last one if the whole length has passed.  By
     induction over the steps, whose onsets move along with what was taken off.

  3. **Samples** (`sampleAll_anchored`) — the first sample anchors the script and no other moves it,
     so every sample goes by the time since then, in whatever order they come, and so does the end.

  4. **The result** (`script_plays`).  A keying loop samples before the end only, so after its first
     sample it is always a step of the script that it sees.
-/
import IambicKeyer.Proofs.Bench.Rounds
import Mathlib.Data.List.Forall2

namespace IambicKeyer

theorem ScriptStep.span_nonneg (s : ScriptStep) : 0 ≤ s.span := by
  show (0 : Int) ≤ s.held * 1000
  omega

namespace Script

/-! ## Onsets -/

/-- When step number `i` begins: the lengths of those before it, added up. -/
def onset (steps : List ScriptStep) (i : Nat) : Int := totalSpan (steps.take i)

/-- The step `s`, number `i`, is on at `offset` microseconds from the beginning. -/
structure On (steps : List ScriptStep) (i : Nat) (s : ScriptStep) (offset : Int) : Prop where
  step : steps[i]? = some s
  begun : onset steps i ≤ offset
  lasts : offset < onset steps (i + 1)

variable {steps rest : List ScriptStep} {s : ScriptStep} {offset : Int} {i j : Nat}

theorem onset_cons_succ (s : ScriptStep) (rest : List ScriptStep) (i : Nat) :
    onset (s :: rest) (i + 1) = s.span + onset rest i := rfl

/-- Onsets grow by the lengths of the steps. -/
theorem onset_succ_of_step (h : steps[i]? = some s) :
    onset steps (i + 1) = onset steps i + s.span := by
  induction steps generalizing i with
  | nil => nomatch h
  | cons first rest ih =>
    cases i with
    | zero =>
      obtain rfl := Option.some.inj h
      exact Int.add_comm _ _
    | succ i =>
      rw [onset_cons_succ, onset_cons_succ, ih h, Int.add_assoc]

/-- Behind the last step there are no more lengths to add. -/
theorem onset_succ_of_none (h : steps[i]? = none) : onset steps (i + 1) = onset steps i := by
  rw [onset, List.take_add_one, h, Option.toList_none, List.append_nil]
  rfl

/-- **Onsets do not go back.** -/
theorem onset_le_onset (hij : i ≤ j) : onset steps i ≤ onset steps j := by
  induction hij with
  | refl => exact Int.le_refl _
  | @step j hij ih =>
    rcases hstep : steps[j]? with _ | s
    · rw [onset_succ_of_none hstep]
      exact ih
    · have hspan := s.span_nonneg
      rw [onset_succ_of_step hstep]
      omega

theorem onset_length (steps : List ScriptStep) : onset steps steps.length = totalSpan steps :=
  congrArg totalSpan List.take_length

theorem totalSpan_nonneg (steps : List ScriptStep) : 0 ≤ totalSpan steps := by
  rw [← onset_length]
  exact onset_le_onset (Nat.zero_le steps.length)

theorem On.unique {s' : ScriptStep} (h : On steps i s offset) (h' : On steps j s' offset) :
    i = j := by
  have hbegun := h.begun
  have hlasts := h.lasts
  have hbegun' := h'.begun
  have hlasts' := h'.lasts
  rcases Nat.lt_trichotomy i j with hlt | heq | hgt
  · have hle : onset steps (i + 1) ≤ onset steps j := onset_le_onset hlt
    omega
  · exact heq
  · have hle : onset steps (j + 1) ≤ onset steps i := onset_le_onset hgt
    omega

/-- A step of no length is never on. -/
theorem On.held_pos (h : On steps i s offset) : 0 < s.held := by
  have hlasts := h.lasts
  have hbegun := h.begun
  rw [onset_succ_of_step h.step, ScriptStep.span] at hlasts
  omega

theorem On.cons (h : On rest i s offset) (first : ScriptStep) :
    On (first :: rest) (i + 1) s (first.span + offset) where
  step := h.step
  begun := by
    have hbegun := h.begun
    rw [onset_cons_succ]
    omega
  lasts := by
    have hlasts := h.lasts
    rw [onset_cons_succ]
    omega

/-! ## The walk -/

/-- **The walk ends at the step that is on, or behind the last one.** -/
theorem paddlesAt_cases (steps : List ScriptStep) (h : 0 ≤ offset) :
    (offset < totalSpan steps ∧
        ∃ i s, On steps i s offset ∧ paddlesAt steps offset = s.paddles) ∨
      (totalSpan steps ≤ offset ∧ paddlesAt steps offset = .idle) := by
  induction steps generalizing offset with
  | nil => exact Or.inr ⟨h, rfl⟩
  | cons s rest ih =>
    have htotal : totalSpan (s :: rest) = s.span + totalSpan rest := rfl
    have hrest := totalSpan_nonneg rest
    by_cases hfirst : offset < s.span
    · -- the walk ends here
      have hon : On (s :: rest) 0 s offset := by
        refine ⟨rfl, h, ?_⟩
        rw [onset_cons_succ]
        show offset < s.span + 0
        omega
      rw [paddlesAt, if_pos hfirst]
      exact Or.inl ⟨by omega, 0, s, hon, rfl⟩
    · -- it goes on in the rest, which began a span later
      rw [paddlesAt, if_neg hfirst]
      have hleft : 0 ≤ offset - s.span := by omega
      have hsum : s.span + (offset - s.span) = offset := by omega
      rcases ih hleft with ⟨hlt, i, s', hon, hshown⟩ | ⟨hle, hidle⟩
      · have hon' := hon.cons s
        rw [hsum] at hon'
        exact Or.inl ⟨by omega, i + 1, s', hon', hshown⟩
      · exact Or.inr ⟨by omega, hidle⟩

/-- Before the beginning it ends at once. -/
theorem paddlesAt_of_neg (steps : List ScriptStep) (h : offset < 0) :
    paddlesAt steps offset = (steps.head?.map ScriptStep.paddles).getD .idle := by
  cases steps with
  | nil => rfl
  | cons s rest =>
    have hspan := s.span_nonneg
    rw [paddlesAt, if_pos (by omega)]
    rfl

/-- **What a script shows at time `t`**, its first sample having been at `t₀`. -/
structure Shows (steps : List ScriptStep) (t₀ t : Int) (p : Paddles) : Prop where
  /-- Before that, the first step, if there is one. -/
  early : t < t₀ → p = (steps.head?.map ScriptStep.paddles).getD .idle
  /-- Then the step that is on. -/
  during : t₀ ≤ t → t - t₀ < totalSpan steps →
    ∃ i s, On steps i s (t - t₀) ∧ 0 < s.held ∧ p = s.paddles ∧
      ∀ j s', On steps j s' (t - t₀) → j = i
  /-- Then nothing. -/
  ended : totalSpan steps ≤ t - t₀ → p = .idle

theorem shows_paddlesAt (steps : List ScriptStep) (t₀ t : Int) :
    Shows steps t₀ t (paddlesAt steps (t - t₀)) where
  early h := paddlesAt_of_neg steps (by omega)
  during hle hlt := by
    have hsince : 0 ≤ t - t₀ := by omega
    rcases paddlesAt_cases steps hsince with ⟨-, i, s, hon, hshown⟩ | ⟨hover, -⟩
    · exact ⟨i, s, hon, hon.held_pos, hshown, fun j s' hon' => hon'.unique hon⟩
    · omega
  ended hover := by
    have hsince : 0 ≤ t - t₀ := Int.le_trans (totalSpan_nonneg steps) hover
    rcases paddlesAt_cases steps hsince with ⟨hlt, -⟩ | ⟨-, hidle⟩
    · omega
    · exact hidle

/-! ## Samples -/

/-- The paddles at each of a list of times, sampled in this order, and the script after that. -/
def sampleAll (s : Script) : List Int → List Paddles × Script
  | [] => ([], s)
  | t :: ts => ((s.sample t).1 :: ((s.sample t).2.sampleAll ts).1, ((s.sample t).2.sampleAll ts).2)

theorem sample_anchored (steps : List ScriptStep) (t₀ t : Int) :
    Script.sample t ⟨steps, some t₀⟩ = (paddlesAt steps (t - t₀), ⟨steps, some t₀⟩) := rfl

/-- **No sample but the first moves the anchor.** -/
theorem sampleAll_anchored (steps : List ScriptStep) (t₀ : Int) (ts : List Int) :
    (Script.mk steps (some t₀)).sampleAll ts
      = (ts.map fun t => paddlesAt steps (t - t₀), ⟨steps, some t₀⟩) := by
  induction ts with
  | nil => rfl
  | cons t ts ih =>
    rw [sampleAll, sample_anchored, ih]
    rfl

theorem sampleAll_cons (steps : List ScriptStep) (t₀ : Int) (ts : List Int) :
    (Script.mk steps none).sampleAll (t₀ :: ts)
      = ((t₀ :: ts).map fun t => paddlesAt steps (t - t₀), ⟨steps, some t₀⟩) := by
  have hfirst : Script.sample t₀ ⟨steps, none⟩ = (paddlesAt steps (t₀ - t₀), ⟨steps, some t₀⟩) := rfl
  rw [sampleAll, hfirst, sampleAll_anchored]
  rfl

/-- The end of an anchored script. -/
theorem lt_finish_iff (steps : List ScriptStep) (t₀ t : Int) :
    t < (Script.mk steps (some t₀)).finish ↔ t - t₀ < totalSpan steps := by
  show t < t₀ + totalSpan steps ↔ t - t₀ < totalSpan steps
  omega

end Script

/-! ## The samples of a keying loop -/

namespace Loop

variable {κ : Type} [Clock κ] {store : Store} {l : Loop κ}

/-- A loop samples before the end of its script. -/
theorem mem_ticks_anchored {steps : List ScriptStep} {t₀ : Int} {n : Nat} {op : Operation}
    (hscript : l.script = ⟨steps, some t₀⟩) (hop : op ∈ l.ticks store n) :
    ∃ t, op = .tick t (Script.paddlesAt steps (t - t₀)) ∧ t - t₀ < Script.totalSpan steps := by
  induction n generalizing l with
  | zero => nomatch hop
  | succ n ih =>
    rw [ticks] at hop
    by_cases hnow : l.now < l.script.finish
    · -- this round samples, and the anchor stays where it is
      have hnext : (l.following store).script = ⟨steps, some t₀⟩ := by
        show (l.script.sample l.now).2 = _
        rw [hscript]
        rfl
      rw [if_pos hnow] at hop
      rw [hscript] at hnow hop
      rcases List.mem_cons.mp hop with rfl | hlater
      · exact ⟨l.now, rfl, (Script.lt_finish_iff steps t₀ l.now).mp hnow⟩
      · exact ih hnext hlater
    · rw [if_neg hnow] at hop
      exact absurd hop List.not_mem_nil

/-- After its first sample a loop goes by the time of that sample. -/
theorem mem_ticks_later {steps : List ScriptStep} {clock : κ} {n : Nat} {first : Int} {p₀ : Paddles}
    {later : List Operation} {op : Operation}
    (h : (ofScript store steps clock).ticks store n = .tick first p₀ :: later) (hop : op ∈ later) :
    ∃ t, op = .tick t (Script.paddlesAt steps (t - first)) ∧ t - first < Script.totalSpan steps := by
  cases n with
  | zero => nomatch h
  | succ n =>
    rw [ticks] at h
    by_cases hnow : (ofScript store steps clock).now < (ofScript store steps clock).script.finish
    · rw [if_pos hnow] at h
      obtain ⟨hfirst, rfl⟩ := List.cons.inj h
      obtain ⟨rfl, -⟩ := Operation.tick.inj hfirst
      exact mem_ticks_anchored rfl hop
    · rw [if_neg hnow] at h
      exact absurd h.symm (List.cons_ne_nil _ _)

end Loop

namespace Script

/-- **The paddles at time `t` are those of a step**: of the one that is on, or of the first one at a
    time before the first sample. -/
def OfStep (steps : List ScriptStep) (t₀ t : Int) (p : Paddles) : Prop :=
  ∃ s, p = s.paddles ∧
    ((∃ i, On steps i s (t - t₀)) ∨ (t < t₀ ∧ steps.head? = some s))

/-- Before the end of a script that has steps, one of them is seen. -/
theorem ofStep_of_lt {steps : List ScriptStep} (hsteps : steps ≠ []) {t₀ t : Int}
    (hlt : t - t₀ < totalSpan steps) : OfStep steps t₀ t (paddlesAt steps (t - t₀)) := by
  rcases Int.lt_or_le t t₀ with hbefore | hsince
  · obtain ⟨s, rest, rfl⟩ := List.exists_cons_of_ne_nil hsteps
    exact ⟨s, (shows_paddlesAt (s :: rest) t₀ t).early hbefore, Or.inr ⟨hbefore, rfl⟩⟩
  · obtain ⟨i, s, hon, -, hshown, -⟩ := (shows_paddlesAt steps t₀ t).during hsince hlt
    exact ⟨s, hshown, Or.inl ⟨i, hon⟩⟩

/-- **A script is a step function of the time since its first sample**, whatever the times are at
    which it is sampled and in whatever order.  Only the first sample sets the anchor, and from then
    on the script is over when its length has passed.  A keying loop, which does not sample a
    script that is over, therefore sees nothing but the steps of it after its first sample, if there
    are any. -/
theorem script_plays (steps : List ScriptStep) (t₀ : Int) (ts : List Int) :
    let out := (Script.mk steps none).sampleAll (t₀ :: ts)
    List.Forall₂ (Shows steps t₀) (t₀ :: ts) out.1 ∧ out.2 = ⟨steps, some t₀⟩ ∧
      (∀ t, t < out.2.finish ↔ t - t₀ < totalSpan steps) ∧
      ∀ (κ : Type) [Clock κ] (store : Store) (clock : κ) (n : Nat) (first : Int) (p₀ : Paddles)
        (later : List Operation), steps ≠ [] →
        (Loop.ofScript store steps clock).ticks store n = .tick first p₀ :: later →
        ∀ op ∈ later, ∃ t p, op = .tick t p ∧ t - first < totalSpan steps ∧
          OfStep steps first t p := by
  intro out
  have hout : out = _ := sampleAll_cons steps t₀ ts
  rw [hout]
  refine ⟨?_, rfl, lt_finish_iff steps t₀, ?_⟩
  · rw [List.forall₂_map_right_iff, List.forall₂_same]
    exact fun t _ => shows_paddlesAt steps t₀ t
  · intro κ _ store clock n first p₀ later hsteps hticks op hop
    obtain ⟨t, rfl, hlt⟩ := Loop.mem_ticks_later hticks hop
    exact ⟨t, _, rfl, hlt, ofStep_of_lt hsteps hlt⟩

/-- A clock that wakes 1200 microseconds early after the first tick: the second sample lies before
    the first one.  The step in the middle has no length and is never seen. -/
theorem script_plays_early :
    let steps : List ScriptStep := [⟨⟨true, false⟩, 2⟩, ⟨.idle, 0⟩, ⟨.squeezed, 1⟩]
    let store : Store := { settings := { tickRate := 1000 } }
    let clock : BenchClock := { now := 500, delays := [(1, -1200)] }
    let later : List Operation := [.tick 300 ⟨true, false⟩, .tick 2500 .squeezed]
    steps ≠ [] ∧
      (Loop.ofScript store steps clock).ticks store 4 = .tick 500 ⟨true, false⟩ :: later ∧
      (∀ op ∈ later, ∃ t p, op = .tick t p ∧ t - 500 < totalSpan steps ∧ OfStep steps 500 t p) ∧
      List.Forall₂ (Shows steps 500) [500, 300, 2500, 3500]
        [⟨true, false⟩, ⟨true, false⟩, .squeezed, .idle] := by
  intro steps store clock later
  obtain ⟨hshows, -, -, hloop⟩ := script_plays steps 500 [300, 2500, 3500]
  have hsteps : steps ≠ [] := List.cons_ne_nil _ _
  have hticks : (Loop.ofScript store steps clock).ticks store 4
      = .tick 500 ⟨true, false⟩ :: later := by decide +kernel
  exact ⟨hsteps, hticks, hloop BenchClock store clock 4 500 _ later hsteps hticks, hshows⟩

end Script

end IambicKeyer

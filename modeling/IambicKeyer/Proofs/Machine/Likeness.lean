/-
  Two machines side by side.

  1. **Sights** — all that can be seen of a machine while it obeys a list of commands: what its
     ticks give out, the state and the memory after each command.  If a relation between two
     machines is kept by every command, and related machines show the same, they show the same for
     ever (`sights_eq`).

  2. **In step** (`tick_alter`) — a tick reads the window, the memory mode and the tie-break, and on
     the last tick of a space the other two modes as well.  Machines that differ only in what a tick
     does not read make the same tick.

  3. **An idle machine is as good as new** (`idle_forgets`).  It differs from a new one with its
     settings only in the generation, and no tick reads that.

  4. **Settings that make no difference** (`modes_without_effect`).  The release mode decides about
     what is remembered, and without a memory there is nothing to decide.  The squeeze mode decides
     whether two closed paddles count as a squeeze; a window that ends at 100 percent contains the
     last tick of every space, so that the opposite paddle has been seen in it when it matters.
-/
import IambicKeyer.Proofs.Machine.Punctuality
import IambicKeyer.Proofs.Settings.Limits

namespace IambicKeyer

namespace Machine

/-! ## Sights -/

/-- What can be seen of a machine that obeys a command. -/
structure Sight where
  /-- What the tick gave out; a command other than a tick gives out nothing. -/
  output : Output
  /-- The state afterwards. -/
  state : Option (Element × Phase)
  /-- The memory afterwards. -/
  memory : Option Element
  deriving DecidableEq

/-- What a command gives out. -/
def answer (m : Machine) : Command → Output
  | .tick p => (m.tick p).1
  | _ => {}

/-- The sight of a machine that obeys `c`. -/
def sight (m : Machine) (c : Command) : Sight := ⟨m.answer c, (m.obey c).state, (m.obey c).memory⟩

/-- The sights of a run. -/
def sights : Machine → List Command → List Sight
  | _, [] => []
  | m, c :: cs => m.sight c :: (m.obey c).sights cs

/-- **What is alike stays alike.**  If related machines show the same on every command of a kind and
    are related afterwards, they show the same on all lists of such commands. -/
theorem sights_eq {R : Machine → Machine → Prop} {P : Command → Prop}
    (step : ∀ m m' c, R m m' → P c → m.sight c = m'.sight c ∧ R (m.obey c) (m'.obey c))
    {cs : List Command} (hcs : ∀ c ∈ cs, P c) {m m' : Machine} (h : R m m') :
    m.sights cs = m'.sights cs := by
  induction cs generalizing m m' with
  | nil => rfl
  | cons c cs ih =>
    obtain ⟨hsight, hnext⟩ := step m m' c h (hcs c List.mem_cons_self)
    rw [sights, sights, hsight, ih (fun d hd => hcs d (List.mem_cons_of_mem c hd)) hnext]

/-! ## Machines in step -/

/-- The settings differ at most in speed and in what the end of a space reads. -/
structure Kindred (s s' : Settings) : Prop where
  window : s'.window = s.window
  memory : s'.memory = s.memory
  tieBreak : s'.tieBreak = s.tieBreak

/-- The same machine with other settings and another generation, its durations as they were. -/
def alter (s : Settings) (generation : Option UInt16) (m : Machine) : Machine :=
  { m with settings := s, generation := generation }

/-- If the sample `p` ends a space, other settings decide the same. -/
def Agrees (s' : Settings) (p : Paddles) (m : Machine) : Prop :=
  ∀ s, m.sending = some s → s.step.left = 0 → s.phase = .space →
    next? s' (m.seen p s) (m.remember (m.queues p s.step)).memory p
      = next? m.settings (m.seen p s) (m.remember (m.queues p s.step)).memory p

section

variable {m : Machine} {s' : Settings} {g : Option UInt16} {p : Paddles}

theorem first?_kindred (h : Kindred m.settings s') (p : Paddles) :
    first? s' p = first? m.settings p := by
  rw [first?, first?, h.tieBreak]

theorem seen_alter (h : Kindred m.settings s') (p : Paddles) (s : Sending) :
    (m.alter s' g).seen p s = m.seen p s := by
  show s.step.look s'.window p = s.step.look m.settings.window p
  rw [h.window]

theorem queues_alter (h : Kindred m.settings s') (p : Paddles) (s : Sending) :
    (m.alter s' g).queues p s = m.queues p s := by
  show (if s.sees s'.window p && s'.memory.remembers s.element.opposite && m.memory.isNone then
    some s.element.opposite else none) = _
  rw [h.window, h.memory]
  rfl

theorem start_alter (h : Kindred m.settings s') (p : Paddles) (e : Element) :
    (m.alter s' g).start p e = ((m.start p e).1, (m.start p e).2.alter s' g) := by
  have hqueues := queues_alter (g := g) h p (.begin m.timing e)
  have hlook : (Sending.begin m.timing e).look s'.window p
      = (Sending.begin m.timing e).look m.settings.window p := by rw [h.window]
  show ((⟨some (.keyDown e), (m.alter s' g).queues p (.begin m.timing e)⟩ : Output),
    { (m.alter s' g).remember ((m.alter s' g).queues p (.begin m.timing e)) with
      sending := some ((Sending.begin m.timing e).look s'.window p) }) = _
  rw [hqueues, hlook]
  rfl

/-- **Machines in step make the same tick**, and are in step after it. -/
theorem tick_alter (h : Kindred m.settings s') (hagrees : m.Agrees s' p) :
    (m.alter s' g).tick p = ((m.tick p).1, (m.tick p).2.alter s' g) := by
  rcases hs : m.sending with _ | s
  · have hs' : (m.alter s' g).sending = none := hs
    rcases hfirst : first? m.settings p with _ | e
    · rw [tick_rest hs hfirst, tick_rest hs' ((first?_kindred h p).trans hfirst)]
    · rw [tick_start hs hfirst, tick_start hs' ((first?_kindred h p).trans hfirst),
        start_alter h]
  · have hs' : (m.alter s' g).sending = some s := hs
    by_cases hleft : s.step.left = 0
    · cases hphase : s.phase with
      | mark =>
        rw [tick_release hs hleft hphase, tick_release hs' hleft hphase, queues_alter h,
          seen_alter h]
        rfl
      | space =>
        -- the decision is made from the same look, and the settings agree on it
        have hsame : next? s' ((m.alter s' g).seen p s)
            ((m.alter s' g).remember ((m.alter s' g).queues p s.step)).memory p
            = next? m.settings (m.seen p s) (m.remember (m.queues p s.step)).memory p := by
          rw [seen_alter h, queues_alter h]
          exact hagrees s hs hleft hphase
        rcases hnext : next? m.settings (m.seen p s)
            (m.remember (m.queues p s.step)).memory p with _ | e
        · rw [tick_stop hs hleft hphase hnext, tick_stop hs' hleft hphase (hsame.trans hnext)]
          rfl
        · rw [tick_next hs hleft hphase hnext, tick_next hs' hleft hphase (hsame.trans hnext)]
          exact start_alter (m := { m with memory := none }) h p e
    · rw [tick_going hs hleft, tick_going hs' hleft, queues_alter h, seen_alter h]
      rfl

/-- So they show the same on the tick. -/
theorem sight_alter (h : Kindred m.settings s') (hagrees : m.Agrees s' p) :
    m.sight (.tick p) = (m.alter s' g).sight (.tick p) ∧
      (m.alter s' g).obey (.tick p) = (m.obey (.tick p)).alter s' g := by
  have htick := tick_alter (g := g) h hagrees
  have hobey : (m.alter s' g).obey (.tick p) = (m.obey (.tick p)).alter s' g :=
    congrArg Prod.snd htick
  refine ⟨?_, hobey⟩
  have hanswer : (m.alter s' g).answer (.tick p) = m.answer (.tick p) := by
    show ((m.alter s' g).tick p).1 = (m.tick p).1
    rw [htick]
  rw [sight, sight, hanswer, hobey]
  rfl

end

/-! ## An idle machine is as good as new -/

/-- **Nothing of its past is left in an idle machine**: whatever samples, settings and resets are to
    come, it shows what a new machine with its settings shows. -/
theorem idle_forgets {m : Machine} (hm : m.Reachable) (idle : m.sending = none)
    {cs : List Command} (hcs : ∀ store, .sync store ∉ cs) :
    m.state = (ofSettings m.settings).state ∧ m.memory = (ofSettings m.settings).memory ∧
      m.sights cs = (ofSettings m.settings).sights cs := by
  have hmem := hm.sound.memory_of_idle idle
  have hnew : ofSettings m.settings = m.alter m.settings none := by
    rw [ofSettings, ← hm.sound.timing, alter, idle.symm, hmem.symm]
  refine ⟨by rw [state, idle]; rfl, hmem, ?_⟩
  refine sights_eq (R := fun m m' => m' = m.alter m.settings none)
    (P := fun c => ∀ store, c ≠ .sync store) ?_ ?_ hnew
  · rintro m _ c rfl hc
    cases c with
    | tick p =>
      have hsight := sight_alter (m := m) (g := none) (p := p) ⟨rfl, rfl, rfl⟩
        fun _ _ _ _ => rfl
      refine ⟨hsight.1, hsight.2.trans ?_⟩
      show (m.tick p).2.alter m.settings none = (m.tick p).2.alter (m.tick p).2.settings none
      rw [tick_settings]
    | adopt s => exact ⟨rfl, rfl⟩
    | sync store => exact absurd rfl (hc store)
    | reset => exact ⟨rfl, rfl⟩
  · rintro c hc store rfl
    exact hcs store hc

/-- A machine at 100 words a minute that was squeezed, slowed down on the way and left alone until
    it was idle: it answers another squeeze, ended by a reset, as if it had never sent anything. -/
theorem idle_forgets_squeeze :
    let slow : Settings := { wpm := 50, tickRate := 1000 }
    let m := (ofSettings { wpm := 100, tickRate := 1000 }).obeyAll
      (.tick .squeezed :: .adopt slow :: List.replicate 132 (.tick .idle))
    let cs : List Command := [.tick .squeezed, .tick .idle, .reset, .tick ⟨false, true⟩]
    m.Reachable ∧ m.sending = none ∧ (∀ store, .sync store ∉ cs) ∧
      m.sights cs = (ofSettings slow).sights cs ∧
      (m.sights cs).map (·.output.transition)
        = [some (.keyDown .dit), none, none, some (.keyDown .dah)] := by
  intro slow m cs
  have hm : m.Reachable := ⟨_, _, rfl⟩
  have idle : m.sending = none := by decide +kernel
  have hcs : ∀ store, Command.sync store ∉ cs := by
    intro store
    simp [cs]
  have hslow : m.settings = slow := by decide +kernel
  obtain ⟨-, -, halike⟩ := idle_forgets hm idle hcs
  rw [hslow] at halike
  refine ⟨hm, idle, hcs, halike, ?_⟩
  rw [halike]
  decide +kernel

/-! ## Settings that make no difference -/

/-- Without a memory it makes no difference what becomes of it on release. -/
theorem next?_release (s : Settings) (r : ReleaseMode) (done : Sending) (p : Paddles) :
    next? { s with release := r } done none p = next? s done none p := by
  unfold next?
  cases r <;> cases s.release <;> rfl

/-- A look remembers nothing if the memory mode allows nothing. -/
theorem remember_disabled {m : Machine} (hmode : m.settings.memory = .none) (hmem : m.memory = none)
    (p : Paddles) (s : Sending) : (m.remember (m.queues p s)).memory = none := by
  show (m.memory <|> m.queues p s) = none
  rw [hmem, queues, hmode, MemoryMode.remembers, Bool.and_false, Bool.false_and]
  rfl

/-- So the memory stays empty. -/
theorem tick_disabled {m : Machine} (hmode : m.settings.memory = .none) (hmem : m.memory = none)
    (p : Paddles) : (m.tick p).2.memory = none := by
  have hcase := m.ticked p
  generalize m.tick p = r at hcase ⊢
  cases hcase with
  | rest => exact hmem
  | start e => exact remember_disabled hmode hmem p _
  | going s => exact remember_disabled hmode hmem p _
  | release s => exact remember_disabled hmode hmem p _
  | next s e => exact remember_disabled (m := { m with memory := none }) hmode rfl p _
  | stop => rfl

/-- Once the opposite paddle has been seen it makes no difference what else counts as a squeeze. -/
theorem next?_squeeze (s : Settings) (q : SqueezeMode) {done : Sending} {p : Paddles}
    (hseen : p.isSqueeze = true → done.squeezed = true) (memory : Option Element) :
    next? { s with squeeze := q } done memory p = next? s done memory p := by
  unfold next?
  cases hsqueeze : p.isSqueeze with
  | false => rfl
  | true =>
    rw [hseen hsqueeze]
    simp only [or_true, if_true]

/-- The last tick of a phase is its 100 percent, however long the phase is. -/
theorem percent_last {s : Sending} (hpos : 0 < s.length) (hleft : s.step.left = 0) :
    s.step.percent = 100 := by
  show (s.length - s.step.left) * 100 / max s.length 1 = 100
  rw [hleft, Nat.sub_zero, Nat.max_eq_left hpos, Nat.mul_div_cancel_left 100 hpos]

/-- A window that ends at 100 percent sees a squeeze on the last tick of every phase. -/
theorem seen_squeezed {m : Machine} {s : Sending} {p : Paddles}
    (hstart : m.settings.window.start ≤ 100) (hstop : m.settings.window.stop = 100)
    (hpos : 0 < s.length) (hleft : s.step.left = 0) (hsqueeze : p.isSqueeze = true) :
    (m.seen p s).squeezed = true := by
  have hheld : p.holds s.element.opposite = true := by
    obtain ⟨hdit, hdah⟩ := Bool.and_eq_true_iff.mp hsqueeze
    cases s.element with
    | dit => exact hdah
    | dah => exact hdit
  have hin : m.settings.window.contains s.step.percent = true := by
    rw [percent_last hpos hleft, Window.contains, hstop]
    exact Bool.and_eq_true_iff.mpr ⟨decide_eq_true hstart, rfl⟩
  show (s.squeezed || (p.holds s.element.opposite && m.settings.window.contains s.step.percent))
    = true
  rw [hheld, hin, Bool.and_self, Bool.or_true]

/-- Two new machines whose settings make no difference on the way look alike: `Q` holds of the first
    of them all along, and under `Q` the settings agree on every sample. -/
theorem sights_ofSettings {s s' : Settings} (Q : Machine → Prop) (hkin : Kindred s s')
    (htiming : s'.timing = s.timing) (hnew : Q (ofSettings s))
    (hkeeps : ∀ m p, m.settings = s → m.Sound → Q m → Q (m.tick p).2)
    (hagrees : ∀ m p, m.settings = s → m.Sound → Q m → m.Agrees s' p) (ps : List Paddles) :
    (ofSettings s).sights (ps.map .tick) = (ofSettings s').sights (ps.map .tick) := by
  have hstart : ofSettings s' = (ofSettings s).alter s' none := by
    rw [ofSettings, htiming]
    rfl
  refine sights_eq
    (R := fun m m' => m' = m.alter s' none ∧ m.settings = s ∧ m.Sound ∧ Q m)
    (P := fun c => ∃ p, c = .tick p) ?_ ?_ ⟨hstart, rfl, sound_ofSettings s, hnew⟩
  · rintro m _ _ ⟨rfl, hset, hm, hQ⟩ ⟨p, rfl⟩
    have hsight := sight_alter (g := none) (hset ▸ hkin) (hagrees m p hset hm hQ)
    refine ⟨hsight.1, hsight.2, ?_, hm.tick p, hkeeps m p hset hm hQ⟩
    exact (tick_settings p m).trans hset
  · intro c hc
    obtain ⟨p, -, rfl⟩ := List.mem_map.mp hc
    exact ⟨p, rfl⟩

/-- Without a memory the release mode has no effect. -/
theorem sights_release {s : Settings} (hmode : s.memory = .none) (r : ReleaseMode)
    (ps : List Paddles) :
    (ofSettings s).sights (ps.map .tick)
      = (ofSettings { s with release := r }).sights (ps.map .tick) := by
  have hkin : Kindred s { s with release := r } := ⟨rfl, rfl, rfl⟩
  refine sights_ofSettings (fun m => m.memory = none) hkin rfl rfl ?_ ?_ ps
  · rintro m p rfl - hmem
    exact tick_disabled hmode hmem p
  · rintro m p rfl - hmem x - - -
    rw [remember_disabled hmode hmem]
    exact next?_release m.settings r _ p

/-- With a window that ends at 100 percent the squeeze mode has no effect. -/
theorem sights_squeeze {s : Settings} (hs : s.InLimits) (hstop : s.window.stop = 100)
    (q : SqueezeMode) (ps : List Paddles) :
    (ofSettings s).sights (ps.map .tick)
      = (ofSettings { s with squeeze := q }).sights (ps.map .tick) := by
  have hstart : s.window.start ≤ 100 := Nat.le_trans hs.window.1 hs.window.2
  have hkin : Kindred s { s with squeeze := q } := ⟨rfl, rfl, rfl⟩
  refine sights_ofSettings (fun _ => True) hkin rfl trivial (fun _ _ _ _ _ => trivial) ?_ ps
  rintro m p rfl hm - x hx hleft -
  have hpos : 0 < x.length := Nat.lt_of_lt_of_le (hm.left x hx).1 (hm.left x hx).2
  exact next?_squeeze m.settings q (seen_squeezed hstart hstop hpos hleft) _

/-- **Settings that make no difference.**  For settings within the limits and all samples: if
    nothing may be remembered, both release modes give the same outputs and states; if the window
    ends at 100 percent, both squeeze modes do. -/
theorem modes_without_effect {s : Settings} (haccepted : s.check = .ok ()) (ps : List Paddles) :
    (s.memory = .none → ∀ r r',
      (ofSettings { s with release := r }).sights (ps.map .tick)
        = (ofSettings { s with release := r' }).sights (ps.map .tick)) ∧
    (s.window.stop = 100 → ∀ q q',
      (ofSettings { s with squeeze := q }).sights (ps.map .tick)
        = (ofSettings { s with squeeze := q' }).sights (ps.map .tick)) := by
  refine ⟨fun hmode r r' => ?_, fun hstop q q' => ?_⟩
  · exact (sights_release hmode r ps).symm.trans (sights_release hmode r' ps)
  · have hs := s.check_eq_ok_iff.mp haccepted
    exact (sights_squeeze hs hstop q ps).symm.trans (sights_squeeze hs hstop q' ps)

/-- A squeeze through two elements at 100 words a minute, with a window of the last tick alone and
    nothing to be remembered: of the four combinations of the two modes all show the same, and the
    dah follows the dit. -/
theorem modes_without_effect_squeeze :
    let s : Settings := { wpm := 100, tickRate := 1000, window := ⟨100, 100⟩, memory := .none }
    let ps := List.replicate 25 Paddles.squeezed
    s.check = .ok () ∧ s.memory = .none ∧ s.window.stop = 100 ∧
      (∀ r r', (ofSettings { s with release := r }).sights (ps.map .tick)
        = (ofSettings { s with release := r' }).sights (ps.map .tick)) ∧
      (∀ q q', (ofSettings { s with squeeze := q }).sights (ps.map .tick)
        = (ofSettings { s with squeeze := q' }).sights (ps.map .tick)) ∧
      (((ofSettings s).sights (ps.map .tick))[24]?.map (·.output.transition))
        = some (some (.keyDown .dah)) := by
  intro s ps
  have haccepted : s.check = .ok () := rfl
  obtain ⟨hrelease, hsqueeze⟩ := modes_without_effect haccepted ps
  exact ⟨haccepted, rfl, rfl, hrelease rfl, hsqueeze rfl, by decide +kernel⟩

end Machine

end IambicKeyer

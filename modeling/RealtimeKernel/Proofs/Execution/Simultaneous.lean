import RealtimeKernel.Proofs.Execution.Arrivals
import RealtimeKernel.Proofs.Execution.Handling
import RealtimeKernel.Proofs.Kernel.Line

/-!
Waits that run out with the same tick. Timers with one deadline are handled in the reverse order
of their arming. So whoever began to wait last wakes first, and stands ahead of its equals that
waited for longer. This is the reverse of the order in which a signal, a broadcast or a reset
serves them.
-/
namespace RealtimeKernel.Execution
open Kernel

/-- A bounded wait that ended because its time was up, and its place in a history. -/
structure Lapse (h : History) where
  stop : Record
  during : History
  start : Record
  earlier : History
  operation : Operation
  delay : Delay
  happened : stop :: (during ++ start :: earlier) <:+ h
  begins : start.Begins operation delay
  calm : ∀ r ∈ during, r.wakes? start.caller = none
  expires : stop.expires? = some start.caller

variable {x y : Execution} {h earlier later since : History} {r r' : Record} {o : Operation}
  {delay : Delay} {t u v : ThreadId} {m : Move}

namespace Lapse

/-- Who waited. -/
def waiter (a : Lapse h) : ThreadId := a.start.caller

/-- What happened before the wait was over. -/
def before (a : Lapse h) : History := a.during ++ a.start :: a.earlier

end Lapse

/-- Of two threads that waited the second one is served first. -/
structure LastFirst (first last : Lapse h) : Prop where
  /-- Its wait is over first. -/
  order : ∃ mid, first.before = mid ++ last.stop :: last.before
  /-- Unless a callback gives way it is still ready when the other wait is over. -/
  ready : (∀ r ∈ h, r.move.isProper r.before = true) →
    last.waiter ∈ first.stop.before.kernel.members .ready
  /-- And then it stands ahead, as long as it is ready and the two are equals. -/
  ahead : last.waiter ∈ first.stop.before.kernel.members .ready →
    ∀ since, since ++ first.stop :: first.before <:+ h →
      (∀ r ∈ since ++ [first.stop], last.waiter ∈ r.after.kernel.members .ready ∧
        r.after.kernel.priorityOf last.waiter = r.after.kernel.priorityOf first.waiter) →
      ∀ r ∈ since ++ [first.stop],
        [last.waiter, first.waiter].Sublist (r.after.kernel.members .ready)

/-! Nobody passes an equal that is ready. -/

theorem move_pair (hx : x.Fit) (hallows : x.allows m = true) (hmove : x.move m = .ok y)
    (hline : [u, v].Sublist (x.kernel.members .ready))
    (same : x.kernel.priorityOf u = x.kernel.priorityOf v)
    (same' : y.kernel.priorityOf u = y.kernel.priorityOf v)
    (stays : u ∈ y.kernel.members .ready) : [u, v].Sublist (y.kernel.members .ready) := by
  rcases move_lends_or hx hallows hmove with ⟨m, frames, -, hlock⟩ | ⟨-, hunlent⟩
  · exact lock_pair hx.sound.inPlace hlock hline same same' stays
  · exact hunlent.keepsLine hx.sound u v hline stays

theorem Reaches.pair (hr : Reaches (since ++ r :: earlier) x)
    (hj : JoinedOnce (since ++ r :: earlier))
    (hline : [u, v].Sublist (r.after.kernel.members .ready))
    (hsame : ∀ r' ∈ since ++ [r], u ∈ r'.after.kernel.members .ready ∧
      r'.after.kernel.priorityOf u = r'.after.kernel.priorityOf v) :
    [u, v].Sublist (x.kernel.members .ready) ∧ x.kernel.priorityOf u = x.kernel.priorityOf v ∧
      ∀ r' ∈ since ++ [r], [u, v].Sublist (r'.after.kernel.members .ready) := by
  induction since generalizing x with
  | nil =>
      obtain ⟨-, -, -, rfl⟩ := hr.uncons
      refine ⟨hline, (hsame r (by simp)).2, fun r' hr' => ?_⟩
      obtain rfl := List.mem_singleton.mp hr'
      exact hline
  | cons r' since ih =>
      obtain ⟨hbefore, hallows, hmove, rfl⟩ := hr.uncons
      obtain ⟨hpair, hprio, hall⟩ := ih hbefore hj.tail fun r'' hmem =>
        hsame r'' (List.mem_cons_of_mem _ hmem)
      obtain ⟨hstays, hprio'⟩ := hsame r' List.mem_cons_self
      have hpair' := move_pair (hbefore.orderly hj.tail).fit hallows hmove hpair hprio hprio'
        hstays
      exact ⟨hpair', hprio', List.forall_mem_cons.mpr ⟨hpair', hall⟩⟩

/-- A thread wakes because its time is up, and nobody's priority changes. -/
theorem fire_expires {k : Kernel} {step : Step} (hk : k.InPlace) (ht : k.expired? = some t)
    (h : k.fire = .ok step) : step.1.priorityOf = k.priorityOf ∧
      (step.1.thread t).state.isRunnable = true := by
  obtain ⟨timers, hk₁, htimeOut⟩ := fire_of_expired hk ht h
  rcases timeOut_ok hk₁ htimeOut with ⟨hnot, -⟩ | ⟨s, -, hwakes⟩ | ⟨-, hwakes⟩
  · have hblocked := isBlocked_of_isTimed (hk.isTimed_of_expired ht)
    exact absurd (hnot.symm.trans hblocked) nofun
  · refine ⟨hwakes.priorityOf, ?_⟩
    rw [hwakes.moves.thread_self]
    rfl
  · refine ⟨hwakes.priorityOf, ?_⟩
    rw [hwakes.moves.thread_self]
    rfl

/-! When the timer of a wait was armed. -/

/-- Whose wait is about to be over has its timer at the head of those that are due. -/
theorem due_of_expired {k : Kernel} (hk : k.InPlace) (hq : k.timers.Sound)
    (h : k.expired? = some t) : k.timers.due? = some (timeoutSlot t) := by
  obtain ⟨timers, hpop⟩ := popExpired_of_expired h
  obtain ⟨-, ⟨hnone, -⟩ | ⟨slot, a, ha, hdue, haction, -⟩⟩ := hq.popExpired_due hpop
  · cases hnone
  · rw [← Option.some.inj ha] at haction
    rw [hdue, (hk.timed slot _ haction).1]

theorem Record.Begins.armedAt (hb : r.Begins o delay) (hx : r.before.Fit)
    (hq : r.before.kernel.timers.Sound) (hallows : r.before.allows r.move = true)
    (hmove : r.before.move r.move = .ok r.after) (earlier : History) :
    armedAt (timeoutSlot r.caller) (r :: earlier) = earlier.length + 1 := by
  have hturns := (move_timersGo hallows hmove).turns
  have hremaining := (hb.waiting hx hq hallows hmove).remaining
  have harmed : r.after.kernel.timers.isArmed (timeoutSlot r.caller) = true := by
    rw [(hturns.sound hq).isArmed_iff, hremaining]
    rfl
  -- Whoever runs has no timer armed, so this one is new.
  refine if_neg fun hgeneration => ?_
  have hno : r.isTick = false := by
    obtain ⟨hm, hbound, -⟩ := hb
    unfold Record.isTick
    rw [hm]
    cases o with
    | tick => cases hbound
    | _ => rfl
  have hstays := hturns.stays hq hno (spares_iff.mpr ⟨harmed, hgeneration⟩)
  have hrun : (r.before.kernel.thread r.caller).state.isRunnable = true := by
    rw [Record.caller, hx.sound.inPlace.state_current]
    rfl
  have hnone := Locking.unarmed (Or.inl hrun) hx.sound.inPlace
  rw [hstays.remaining, hnone] at hremaining
  cases hremaining

/-- As long as nothing reaches the thread its timer is the one that was armed for the wait. -/
theorem Reaches.armed (hr : Reaches (later ++ r :: earlier) x)
    (hj : JoinedOnce (later ++ r :: earlier)) (ho : OwnTimers (later ++ r :: earlier))
    (hb : r.Begins o delay) (hcalm : ∀ r' ∈ later, r'.wakes? r.caller = none) :
    Waiting r o delay later x ∧
      armedAt (timeoutSlot r.caller) (later ++ r :: earlier) = earlier.length + 1 := by
  induction later generalizing x with
  | nil =>
      obtain ⟨hbefore, hallows, hmove, rfl⟩ := hr.uncons
      have hx := (hbefore.orderly hj.tail).fit
      exact ⟨hb.waiting hx hbefore.in_time hallows hmove,
        hb.armedAt hx hbefore.in_time hallows hmove earlier⟩
  | cons r' later ih =>
      obtain ⟨hbefore, hallows, hmove, rfl⟩ := hr.uncons
      obtain ⟨hnone, hcalm⟩ := List.forall_mem_cons.mp hcalm
      have hx := (hbefore.orderly hj.tail).fit
      have hq := hbefore.in_time
      obtain ⟨hw, harmedAt⟩ := ih hbefore hj.tail ho.2 hcalm
      cases htick : r'.isTick with
      | true =>
          have hadvance := advance_of_tick htick hallows hmove
          refine ⟨hw.of_tick hx hq hmove htick, Eq.trans (if_pos ?_) harmedAt⟩
          exact TimerQueue.generation_advance hadvance _
      | false =>
          have htreats := move_treats hx hq hallows hmove htick (hbefore.slot_of_stops ho)
          refine ⟨hw.of_spared hx hq hallows hmove htick htreats hnone,
            Eq.trans (if_pos ?_) harmedAt⟩
          exact (htreats.spared _ hw.timed hnone).generation

/-! In which order they are over. -/

theorem ticks_append (later earlier : History) :
    ticks (later ++ earlier) = ticks later + ticks earlier := List.countP_append

/-! What holds of a history holds up to any of its moments. -/

theorem Reaches.suffix {l : History} (hr : Reaches h x) (hs : l <:+ h) : ∃ y, Reaches l y := by
  obtain ⟨later, rfl⟩ := hs
  exact hr.earlier

theorem JoinedOnce.suffix {l : History} (hj : JoinedOnce h) (hs : l <:+ h) : JoinedOnce l := by
  obtain ⟨later, rfl⟩ := hs
  exact hj.earlier

theorem OwnTimers.suffix {l : History} (ho : OwnTimers h) (hs : l <:+ h) : OwnTimers l := by
  obtain ⟨later, rfl⟩ := hs
  induction later with
  | nil => exact ho
  | cons r later ih => exact ih ho.2

namespace Lapse
variable {a b : Lapse h}

section Reached
variable (a b) (hj : JoinedOnce h) (ho : OwnTimers h)
include hj ho

/-- What holds at a moment of the wait. -/
theorem holds {mid rest : History} (hsplit : a.during = mid ++ rest)
    (hy : Reaches (rest ++ a.start :: a.earlier) y) : Waiting a.start a.operation a.delay rest y ∧
      armedAt (timeoutSlot a.waiter) (rest ++ a.start :: a.earlier) = a.earlier.length + 1 := by
  have hsuffix : rest ++ a.start :: a.earlier <:+ h := by
    refine List.IsSuffix.trans ⟨a.stop :: mid, ?_⟩ a.happened
    rw [hsplit]
    simp
  exact hy.armed (hj.suffix hsuffix) (ho.suffix hsuffix) a.begins
    fun r hmem => a.calm r (hsplit ▸ List.mem_append_right _ hmem)

/-- What holds when the wait is about to be over. -/
theorem lasts (hr : Reaches h x) :
    Reaches a.before a.stop.before ∧ a.stop.before.allows a.stop.move = true ∧
    a.stop.before.move a.stop.move = .ok a.stop.after ∧
    Waiting a.start a.operation a.delay a.during a.stop.before ∧
    armedAt (timeoutSlot a.waiter) a.before = a.earlier.length + 1 ∧
    ticks a.during = a.delay.ticks := by
  obtain ⟨y, hy⟩ := hr.suffix a.happened
  obtain ⟨hbefore, hallows, hmove, -⟩ := hy.uncons
  obtain ⟨hw, harmed⟩ := a.holds hj ho (List.nil_append a.during).symm hbefore
  refine ⟨hbefore, hallows, hmove, hw, harmed, ?_⟩
  obtain ⟨-, -, hexpired⟩ := expires_eq_some a.expires
  have hx := (hbefore.orderly (hj.suffix a.happened).tail).fit
  have hzero := hx.sound.inPlace.remaining_of_expired hbefore.in_time hexpired
  have hleft : a.delay.ticks - ticks a.during = 0 := Option.some.inj (hw.remaining.symm.trans hzero)
  have hwithin := hw.within
  omega

/-- Who waits does not run. -/
theorem ne_caller (hr : Reaches h x) (b : Record) {mid rest : History}
    (hsplit : a.during = mid ++ b :: rest) : a.waiter ≠ b.caller := by
  obtain ⟨y, hy⟩ := hr.suffix a.happened
  have hbefore := hy.uncons.1
  rw [hsplit, List.append_assoc] at hbefore
  obtain ⟨z, hz⟩ := hbefore.earlier
  have hstart := hz.uncons.1
  have hmid : a.during = (mid ++ [b]) ++ rest := by rw [hsplit]; simp
  have hw := (a.holds hj ho hmid hstart).1
  have hjb : JoinedOnce (rest ++ a.start :: a.earlier) := by
    refine hj.suffix (List.IsSuffix.trans ⟨a.stop :: (mid ++ [b]), ?_⟩ a.happened)
    rw [hsplit]
    simp
  exact (hstart.orderly hjb).sound.inPlace.ne_current_of_timed hw.timed

variable {a b}

/-- If two waits end with the same tick the second one began before the first one was over. -/
theorem exists_rest (hr : Reaches h x) (began : a.earlier.length < b.earlier.length)
    (together : ticks a.before = ticks b.before) : ∃ rest mid,
      a.before = rest ++ b.start :: b.earlier ∧ a.during = rest ++ b.start :: mid ∧
        b.earlier = mid ++ a.start :: a.earlier := by
  have ha : a.before <:+ h := (List.suffix_cons _ _).trans a.happened
  have hb : b.start :: b.earlier <:+ h :=
    ((List.suffix_append _ _).trans (List.suffix_cons _ _)).trans b.happened
  obtain ⟨-, -, -, -, -, hticks⟩ := b.lasts hj ho hr
  have hsum : ticks b.before = ticks b.during + ticks (b.start :: b.earlier) := ticks_append _ _
  have hpos := b.delay.pos
  rcases Nat.lt_or_ge a.before.length (b.start :: b.earlier).length with hlt | hle
  · obtain ⟨l, hl⟩ := List.suffix_of_suffix_length_le ha hb hlt.le
    have hmore := ticks_append l a.before
    rw [hl] at hmore
    omega
  · obtain ⟨rest, hrest⟩ := List.suffix_of_suffix_length_le hb ha hle
    have hstart : a.start :: a.earlier <:+ h :=
      ((List.suffix_append _ _).trans (List.suffix_cons _ _)).trans a.happened
    have hearlier : b.earlier <:+ h := (List.suffix_cons _ _).trans hb
    obtain ⟨mid, hmid⟩ := List.suffix_of_suffix_length_le hstart hearlier began
    refine ⟨rest, mid, hrest.symm, ?_, hmid.symm⟩
    have hsame : a.during ++ a.start :: a.earlier =
        (rest ++ b.start :: mid) ++ a.start :: a.earlier := by
      rw [List.append_assoc, List.cons_append, hmid]
      exact hrest.symm
    exact List.append_cancel_right hsame

/-- The timer that was armed last is handled first. -/
theorem exists_mid (hr : Reaches h x) (began : a.earlier.length < b.earlier.length)
    (together : ticks a.before = ticks b.before) :
    ∃ mid, a.before = mid ++ b.stop :: b.before := by
  obtain ⟨rest, mid, hbefore, hduring, hearlier⟩ := exists_rest hj ho hr began together
  have ha : a.before <:+ h := (List.suffix_cons _ _).trans a.happened
  have hb : b.before <:+ h := (List.suffix_cons _ _).trans b.happened
  rcases Nat.lt_or_ge b.before.length a.before.length with hlt | hle
  · obtain ⟨l, hl⟩ := List.suffix_of_suffix_length_le b.happened ha hlt
    exact ⟨l, hl.symm⟩
  -- Otherwise both timers are due when the first one is handled.
  exfalso
  obtain ⟨hreach, -, -, hwa, harmed, -⟩ := a.lasts hj ho hr
  obtain ⟨-, -, -, -, -, hticks⟩ := b.lasts hj ho hr
  obtain ⟨l, hl⟩ := List.suffix_of_suffix_length_le ha hb hle
  have hsplit : b.during = l ++ rest := by
    have hsame : b.during ++ b.start :: b.earlier = (l ++ rest) ++ b.start :: b.earlier := by
      rw [List.append_assoc, ← hbefore]
      exact hl.symm
    exact List.append_cancel_right hsame
  have hne : b.waiter ≠ a.waiter := (a.ne_caller hj ho hr b.start hduring).symm
  obtain ⟨-, -, hexpired⟩ := expires_eq_some a.expires
  have hdue : a.stop.before.kernel.timers.due? = some (timeoutSlot a.waiter) := by
    have hjoined := (hj.suffix a.happened).tail
    exact due_of_expired (hreach.orderly hjoined).sound.inPlace hreach.in_time hexpired
  have hranked := hreach.ranked
  rw [hbefore] at hreach harmed hranked
  obtain ⟨hwb, harmed'⟩ := b.holds hj ho hsplit hreach
  have hzero : a.stop.before.kernel.timers.remaining (timeoutSlot b.waiter) = some 0 := by
    have hrest : ticks rest = ticks b.during := by
      have hsum := ticks_append rest (b.start :: b.earlier)
      have hsum' := ticks_append b.during (b.start :: b.earlier)
      rw [← hbefore] at hsum
      have htogether : ticks a.before = ticks (b.during ++ b.start :: b.earlier) := together
      omega
    have hremaining := hwb.remaining
    rw [hrest, hticks, Nat.sub_self] at hremaining
    exact hremaining
  have hlt := hranked.rank_lt hdue hzero fun heq => hne (timeoutSlot_injective heq)
  rw [harmed, harmed'] at hlt
  omega

end Reached

/-! How the second one fares until the first one is through. -/

/-- When its wait is over a thread is ready, and the processor has not passed. -/
theorem stops (a : Lapse h) (hr : Reaches h x) (hj : JoinedOnce h) (ho : OwnTimers h) :
    a.stop.after.kernel.current = a.stop.before.kernel.current ∧
      a.waiter ∉ a.stop.before.kernel.members .ready ∧
      a.waiter ∈ a.stop.after.kernel.members .ready ∧
      a.stop.after.kernel.priorityOf = a.stop.before.kernel.priorityOf := by
  obtain ⟨y, hy⟩ := hr.suffix a.happened
  have hjoined := hj.suffix a.happened
  obtain ⟨hbefore, hallows, hmove, hw, -⟩ := a.lasts hj ho hr
  have hx := (hbefore.orderly hjoined.tail).fit
  have hafter : a.stop.after.kernel.InPlace := by
    have hlast := hy.uncons.2.2.2
    rw [hlast]
    exact (hy.orderly hjoined).sound.inPlace
  obtain ⟨hm, ⟨rest, hframes⟩, hexpired⟩ := expires_eq_some a.expires
  rw [hm] at hallows hmove
  obtain ⟨frames, hstep, -⟩ := advance_step hframes hmove
  have hcurrent := (fire_leaves hx.sound.inPlace hstep).1
  have hne := hx.sound.inPlace.ne_current_of_timed hw.timed
  obtain ⟨hpriority, hrun⟩ := fire_expires hx.sound.inPlace hexpired hstep
  refine ⟨hcurrent, ?_, hafter.mem_ready hrun (hcurrent ▸ hne), hpriority⟩
  exact hx.sound.inPlace.not_ready_of_blocked (isBlocked_of_isTimed hw.timed)

/-- No tick passes between the ends of the two waits, so the first one's timer is due all along. -/
theorem due_amid {a b : Lapse h} (hr : Reaches h x) (hj : JoinedOnce h) (ho : OwnTimers h)
    {since mid later : History} (hearlier : b.earlier = since ++ a.start :: a.earlier)
    (together : ticks a.before = ticks b.before)
    (hbetween : a.before = later ++ (mid ++ b.stop :: b.before))
    (hy : Reaches (mid ++ b.stop :: b.before) y) :
    y.kernel.timers.remaining (timeoutSlot a.waiter) = some 0 := by
  have hrest : mid ++ b.stop :: b.before =
      (mid ++ b.stop :: (b.during ++ b.start :: since)) ++ a.start :: a.earlier := by
    rw [before, hearlier]
    simp
  have hduring : a.during = later ++ (mid ++ b.stop :: (b.during ++ b.start :: since)) := by
    rw [hrest, ← List.append_assoc] at hbetween
    exact List.append_cancel_right hbetween
  have hticks := (a.lasts hj ho hr).2.2.2.2.2
  rw [hrest] at hy
  have hremaining := (a.holds hj ho hduring hy).1.remaining
  have hsum := ticks_append later (mid ++ b.stop :: b.before)
  have hsum' := ticks_append mid (b.stop :: b.before)
  have hsum'' := ticks_append [b.stop] b.before
  have hall := ticks_append later (mid ++ b.stop :: (b.during ++ b.start :: since))
  rw [← hbetween] at hsum
  rw [← hduring] at hall
  rw [List.singleton_append] at hsum''
  have hleft : a.delay.ticks - ticks (mid ++ b.stop :: (b.during ++ b.start :: since)) = 0 := by
    omega
  rw [hleft] at hremaining
  exact hremaining

/-- As long as the first one's timer is due nothing but callbacks runs, so the second one stays
ready. -/
theorem ready_amid {a b : Lapse h} (hr : Reaches h x) (hj : JoinedOnce h) (ho : OwnTimers h)
    (proper : ∀ r ∈ h, r.move.isProper r.before = true) {since mid later : History}
    (hearlier : b.earlier = since ++ a.start :: a.earlier)
    (together : ticks a.before = ticks b.before)
    (hbetween : a.before = later ++ (mid ++ b.stop :: b.before))
    (hy : Reaches (mid ++ b.stop :: b.before) y) : b.waiter ∈ y.kernel.members .ready := by
  induction mid generalizing later y with
  | nil =>
      obtain ⟨-, -, -, rfl⟩ := hy.uncons
      exact (b.stops hr hj ho).2.2.1
  | cons r mid ih =>
      have hsuffix : r :: (mid ++ b.stop :: b.before) <:+ h :=
        List.IsSuffix.trans ⟨later, hbetween.symm⟩ ((List.suffix_cons _ _).trans a.happened)
      have hjoined := hj.suffix hsuffix
      have hk := (hy.orderly hjoined).sound.inPlace
      obtain ⟨hbefore, hallows, hmove, rfl⟩ := hy.uncons
      have hbetween' : a.before = (later ++ [r]) ++ (mid ++ b.stop :: b.before) := by
        rw [hbetween]
        simp
      have hready := ih hbetween' hbefore
      have hx := (hbefore.orderly hjoined.tail).fit
      have hzero := due_amid hr hj ho hearlier together hbetween' hbefore
      have hproper : ∀ r' ∈ mid ++ b.stop :: b.before, r'.move.isProper r'.before = true :=
        fun r' hmem => proper r' (hsuffix.subset (List.mem_cons_of_mem _ hmem))
      have hfiring : Firing r.before.frames :=
        (hbefore.coherent hjoined.tail hproper).undue.resolve_right
          fun hundue => hundue _ hzero
      have hcurrent := (firing_handles hfiring hx hbefore.in_time hallows
        (proper r (hsuffix.subset List.mem_cons_self)) hmove).1
      have hne : b.waiter ≠ r.before.kernel.current := hx.sound.inPlace.not_runs_of_mem hready
      have hrun : (r.before.kernel.thread b.waiter).state.isRunnable = true := by
        rw [hx.sound.inPlace.ready_iff.mpr hready]
        rfl
      exact hk.mem_ready (move_keepsRunnable hx hallows hmove hne hrun).1 (hcurrent ▸ hne)

end Lapse

/-- Of two waits that run out with the same tick the one that began last is over first, and its
thread is served first. -/
theorem reaches_lastFirst (h : History) (x : Execution) (first last : Lapse h)
    (hr : Reaches h x) (hj : JoinedOnce h) (ho : OwnTimers h)
    (began : first.earlier.length < last.earlier.length)
    (together : ticks first.before = ticks last.before) : LastFirst first last := by
  obtain ⟨rest, since, hbefore, hduring, hearlier⟩ := Lapse.exists_rest hj ho hr began together
  obtain ⟨mid, hmid⟩ := Lapse.exists_mid hj ho hr began together
  obtain ⟨hreach, hallows, hmove, -⟩ := first.lasts hj ho hr
  refine ⟨⟨mid, hmid⟩, fun proper => ?_, fun hready since' hsince hsame => ?_⟩
  · have hbetween : first.before = [] ++ (mid ++ last.stop :: last.before) := hmid
    refine Lapse.ready_amid hr hj ho proper hearlier together hbetween ?_
    rw [← hmid]
    exact hreach
  · obtain ⟨y, hy⟩ := hr.suffix hsince
    have hx := (hreach.orderly (hj.suffix first.happened).tail).fit
    obtain ⟨z, hz⟩ := hr.suffix first.happened
    have hk : first.stop.after.kernel.InPlace := by
      rw [hz.uncons.2.2.2]
      exact (hz.orderly (hj.suffix first.happened)).sound.inPlace
    obtain ⟨hcurrent, hnot, hnew, hpriority⟩ := first.stops hr hj ho
    obtain ⟨hstays, hequal⟩ := hsame first.stop (by simp)
    have hne : first.waiter ≠ first.stop.before.kernel.current := by
      rw [← hcurrent]
      exact hk.not_runs_of_mem hnew
    have hpair : [last.waiter, first.waiter].Sublist (first.stop.after.kernel.members .ready) := by
      refine move_behind hx hk hallows hmove hnot hnew hne hready ?_ hstays
      rw [← hequal, hpriority]
    exact (hy.pair (hj.suffix hsince) hpair hsame).2.2

/-- The wait that began and ended with these records of a history, counted from the newest one. -/
def Lapse.at (h : History) (i n : Nat) (hlt : i + 1 + n < h.length) (o : Operation) (delay : Delay)
    (begins : (getElem h (i + 1 + n) hlt).Begins o delay)
    (calm : ∀ r ∈ (h.drop (i + 1)).take n, r.wakes? (getElem h (i + 1 + n) hlt).caller = none)
    (expires : (getElem h i (by omega)).expires? = some (getElem h (i + 1 + n) hlt).caller) :
    Lapse h where
  stop := getElem h i (by omega)
  during := (h.drop (i + 1)).take n
  start := getElem h (i + 1 + n) hlt
  earlier := h.drop (i + 1 + n + 1)
  operation := o
  delay := delay
  happened := by
    have hstart : getElem h (i + 1 + n) hlt :: h.drop (i + 1 + n + 1) =
        (h.drop (i + 1)).drop n := by
      rw [List.drop_drop]
      exact List.getElem_cons_drop hlt
    rw [hstart, List.take_append_drop, List.getElem_cons_drop]
    exact List.drop_suffix i h
  begins := begins
  calm := calm
  expires := expires

/-- Two threads of one priority wait for a unit, the second one a tick later than the first one and
for one tick less. -/
def expiring : List Move :=
  [.takeAnswer, .call (.operation (.createSemaphore 0)), .takeAnswer,
    .call (.spawn "first" .critical "wait"), .enter,
    .call (.operation (.waitSemaphore 0 (.ofTicks 2))), .takeAnswer, .call (.operation .tick),
    .advance, .advance, .takeAnswer, .call (.spawn "last" .critical "wait"), .enter,
    .call (.operation (.waitSemaphore 0 (.ofTicks 1))), .takeAnswer, .call (.operation .tick),
    .advance, .advance]

theorem expiring_lapses : ∃ first last : Lapse (enact expiring).1, first.waiter = 2 ∧
    last.waiter = 3 ∧ first.earlier.length < last.earlier.length ∧
    ticks first.before = ticks last.before ∧
    (first.start.after.kernel.thread first.waiter).queue = some (.semaphore 0) ∧
    (last.start.after.kernel.thread last.waiter).queue = some (.semaphore 0) ∧
    (∀ r ∈ first.stop :: (first.during ++ [first.start]),
      r.after.kernel.priorityOf first.waiter = .critical) ∧
    (∀ r ∈ last.stop :: (last.during ++ [last.start]),
      r.after.kernel.priorityOf last.waiter = .critical) ∧
    (enact expiring).1 = first.stop :: first.before := by
  let first : Lapse (enact expiring).1 := .at _ 0 11 (by decide +kernel)
    (.waitSemaphore 0 (.ofTicks 2)) ((Delay.ofTicks? 2).get rfl)
    ⟨by decide +kernel, by decide +kernel, by decide +kernel⟩ (by decide +kernel)
    (by decide +kernel)
  let last : Lapse (enact expiring).1 := .at _ 1 2 (by decide +kernel)
    (.waitSemaphore 0 (.ofTicks 1)) oneTick
    ⟨by decide +kernel, by decide +kernel, by decide +kernel⟩ (by decide +kernel)
    (by decide +kernel)
  refine ⟨first, last, by decide +kernel, by decide +kernel, by decide +kernel, by decide +kernel,
    by decide +kernel, by decide +kernel, by decide +kernel, by decide +kernel, ?_⟩
  exact (first.happened.eq_of_length (by decide +kernel)).symm

theorem lastFirst_expiring : Reaches (enact expiring).1 (enact expiring).2 ∧
    JoinedOnce (enact expiring).1 ∧ OwnTimers (enact expiring).1 ∧
    ∃ first last : Lapse (enact expiring).1, first.waiter = 2 ∧ last.waiter = 3 ∧
      first.earlier.length < last.earlier.length ∧ ticks first.before = ticks last.before ∧
      LastFirst first last := by
  have hr : Reaches (enact expiring).1 (enact expiring).2 := reaches_enact (by decide +kernel)
  have hj : JoinedOnce (enact expiring).1 := by decide +kernel
  have ho : OwnTimers (enact expiring).1 := by decide +kernel
  obtain ⟨first, last, hfirst, hlast, hbegan, htogether, -⟩ := expiring_lapses
  exact ⟨hr, hj, ho, first, last, hfirst, hlast, hbegan, htogether,
    reaches_lastFirst _ _ first last hr hj ho hbegan htogether⟩

/-- Threads of one priority that wait in one queue are not always ready in the order in which they
came into it, when their time is up with the same tick. -/
theorem not_firstFirst_expiring : ¬ ∀ (h : History) (x : Execution) (first last : Lapse h)
    (q : QueueId) (p : Priority), Reaches h x → JoinedOnce h → OwnTimers h →
    first.earlier.length < last.earlier.length → ticks first.before = ticks last.before →
    (first.start.after.kernel.thread first.waiter).queue = some q →
    (last.start.after.kernel.thread last.waiter).queue = some q →
    (∀ r ∈ first.stop :: (first.during ++ [first.start]),
      r.after.kernel.priorityOf first.waiter = p) →
    (∀ r ∈ last.stop :: (last.during ++ [last.start]),
      r.after.kernel.priorityOf last.waiter = p) →
    (h = first.stop :: first.before ∨ h = last.stop :: last.before) →
    [first.waiter, last.waiter].Sublist (x.kernel.members .ready) := by
  intro hclaim
  obtain ⟨first, last, hfirst, hlast, hbegan, htogether, hqueue, hqueue', hprio, hprio', hend⟩ :=
    expiring_lapses
  have hready := hclaim _ (enact expiring).2 first last (.semaphore 0) .critical
    (reaches_enact (by decide +kernel)) (by decide +kernel) (by decide +kernel) hbegan htogether
    hqueue hqueue' hprio hprio' (Or.inl hend)
  rw [hfirst, hlast] at hready
  have hline : (enact expiring).2.kernel.members .ready = [3, 2, 1] := by decide +kernel
  rw [hline] at hready
  exact absurd hready (by decide)

end RealtimeKernel.Execution

import RealtimeKernel.Proofs.Execution.Wakeups

/-!
Bounded waits. A thread that blocks for a number of ticks wakes in one way only: something
reaches it before, or its time is up in the tick that is so many ticks later. It returns with
what woke it, whatever happens until then.
-/
namespace RealtimeKernel

/-- For how long an operation may block its caller at this time, if that is bounded. -/
def Operation.bound? (now : Ticks) : Operation → Option Delay
  | .sleep ticks => Delay.ofTicks? ticks
  | .sleepUntil deadline => Delay.ofTicks? (deadline - now)
  | .suspend (.after delay) | .waitSemaphore _ (.after delay) | .waitCondition _ _ (.after delay)
  | .post _ _ _ (.after delay) | .fetch _ (.after delay) => some delay
  | _ => none

/-- What is left of an operation once its caller is awake. -/
def Operation.Resumes : Operation → Frame → Prop
  | .sleep _, f | .sleepUntil _, f => f = .answer .unit
  | .suspend _, f | .waitSemaphore .., f => f = .answerWakeup
  | .waitCondition _ m _, f => f = .relock m
  | .post b msg ahead _, f => ∃ epoch, f = .store b epoch msg ahead
  | .fetch b _, f => ∃ epoch, f = .fetch b epoch
  | _, _ => False

/-- May a wait at a mailbox that ended like this come to that? A unit is not enough if the
mailbox was reset since. -/
def WakeupResult.Admits {α : Type} (r : WakeupResult) : Except WaitError α → Prop
  | .ok _ => r = .ok
  | .error e => r.toExcept = .error e ∨ r = .ok ∧ e = .reset

/-- May an operation answer this after a wait that ended like this? -/
def Operation.Answers (r : WakeupResult) : Operation → Answer → Prop
  | .sleep _, a | .sleepUntil _, a => a = .unit
  | .suspend _, a | .waitSemaphore .., a | .waitCondition .., a => a = .wakeup r
  | .post .., a => ∃ e, a = .posted e ∧ r.Admits e
  | .fetch .., a => ∃ e, a = .fetched e ∧ r.Admits e
  | _, _ => False

/-- Neither the start of a thread nor a timer callback. -/
theorem Operation.Resumes.plain {o : Operation} {f : Frame} (h : o.Resumes f) :
    f ≠ .start ∧ ∀ e b, f ≠ .callback e b := by
  cases o with
  | sleep _ | sleepUntil _ | suspend _ | waitSemaphore _ _ | waitCondition _ _ _ =>
      obtain rfl := h
      exact ⟨nofun, nofun⟩
  | post _ _ _ _ | fetch _ _ =>
      obtain ⟨epoch, rfl⟩ := h
      exact ⟨nofun, nofun⟩
  | _ => exact h.elim

namespace Kernel

variable {k k' k₁ : Kernel} {r : WakeupResult} {b : MailboxId} {epoch : UInt32} {step : Step}

theorem admission_admits {α : Type} {e : Except WaitError Unit} {f : Unit → α}
    (h : k.admission b epoch r = e) : r.Admits (e.map f) := by
  subst h
  unfold admission
  cases r with
  | ok =>
      by_cases hepoch : (k.mailbox b).epoch = epoch
      · rw [if_pos hepoch]
        exact rfl
      · rw [if_neg hepoch]
        exact Or.inr ⟨rfl, rfl⟩
  | timeout => exact Or.inl rfl
  | reset => exact Or.inl rfl

/-- A thread stores its message, or does not, and may run on. -/
theorem storeAfter_answers {msg : Msg} {ahead : Bool} (hk : k.Sound)
    (h : storeAfter b epoch msg ahead r k = .ok step) :
    (step.1.thread k.current).state.isRunnable = true ∧
      ∃ e, step.2 = [.answer (.posted e)] ∧ r.Admits e := by
  rcases storeAfter_ok h with ⟨e, hadmission, rfl⟩ | ⟨k₁, k', hadmission, hsignal, hpreempt, rfl⟩
  · refine ⟨?_, .error e, rfl, admission_admits (f := id) hadmission⟩
    rw [hk.inPlace.state_current]
    rfl
  · obtain ⟨hk₁, hcurrent⟩ := write_keeps hk hsignal
    have hrun := preempt_runnable hk₁ hpreempt
    rw [hcurrent] at hrun
    exact ⟨hrun, .ok (), rfl, admission_admits (f := id) hadmission⟩

/-- A thread takes a message, or does not, and may run on. -/
theorem fetchAfter_answers (hk : k.Sound)
    (h : fetchAfter b epoch r k = .ok step) :
    (step.1.thread k.current).state.isRunnable = true ∧
      ∃ e, step.2 = [.answer (.fetched e)] ∧ r.Admits e := by
  rcases fetchAfter_ok h with ⟨e, hadmission, rfl⟩ | ⟨k₁, k', hadmission, hsignal, hpreempt, rfl⟩
  · refine ⟨?_, .error e, rfl, ?_⟩
    · rw [hk.inPlace.state_current]
      rfl
    · exact admission_admits (f := fun _ => 0) hadmission
  · obtain ⟨hk₁, hcurrent⟩ := write_keeps hk hsignal
    have hrun := preempt_runnable hk₁ hpreempt
    rw [hcurrent] at hrun
    exact ⟨hrun, .ok _, rfl, admission_admits (f := fun _ => 0) hadmission⟩

/-- A thread locks its mutex again at once, or waits for it. -/
theorem relock_answers {m : MutexId} (hk : k.InPlace) (h : k.relock m r = .ok step) :
    (step.2 = [.answer (.wakeup r)] ∧ (step.1.thread k.current).state.isRunnable = true) ∨
      step.2 = [.locked m, .answer (.wakeup r)] ∧ step.1.Locking k.current := by
  obtain ⟨⟨k', frames⟩, hlock, h⟩ := bind_eq_ok.mp h
  obtain rfl := Except.ok.inj h
  rcases lock_steps hk hlock with ⟨rfl, -, rfl⟩ | ⟨rfl, o, k₁, -, -, hlends, hblocks⟩
  · have hsame := acquire_sameStand k m k.current k.current
    refine Or.inl ⟨rfl, ?_⟩
    rw [hsame.state, hk.state_current]
    rfl
  · have hk₁ : k₁.InPlace := by
      rw [InPlace, hlends.current]
      exact hlends.arranged hk
    have hthread := hblocks.thread_current hk₁
    rw [hlends.current] at hthread
    refine Or.inr ⟨rfl, Or.inr ?_⟩
    rw [hthread]

/-! How a bounded wait begins. -/

theorem Waits.of_current {delay : Delay} (h : Waits delay k₁ k')
    (hcurrent : k₁.current = k.current) :
    Waits delay k k' := by
  obtain ⟨htimed, hrem⟩ := h
  rw [hcurrent] at htimed hrem
  exact ⟨htimed, hrem⟩

theorem InPlace.not_blocked (hk : k.InPlace) (hcurrent : k.current = k₁.current) :
    (k.thread k₁.current).state.isBlocked ≠ true := by
  rw [← hcurrent, hk.state_current]
  exact nofun

theorem waitSemaphore_waits {s : SemaphoreId} {delay : Delay} {wait : Wait} (hk : k.Sound)
    (hq : k.timers.Sound) (hwait : k.waitUnit s (.after delay) .waitingSemaphore = .ok wait)
    (hblocked : (wait.thenAnswer.1.thread k.current).state.isBlocked = true) :
    wait.thenAnswer.2 = [.awake, .answerWakeup] ∧ Waits delay k wait.thenAnswer.1 := by
  rcases waitUnit_waits hk hq (Or.inl rfl) hwait with
    ⟨r, k₁, rfl, hk₁, hcurrent⟩ | ⟨k', rfl, hwaits⟩
  · exact absurd hblocked (hk₁.inPlace.not_blocked hcurrent)
  · exact ⟨rfl, hwaits⟩

/-- A wait at a mailbox that blocks: what follows it at once does not. -/
theorem thenDo_waits {s : SemaphoreId} {delay : Delay} {wait : Wait} {later : Frame}
    {now : WakeupResult → Kernel → Outcome Step} (hk : k.Sound) (hq : k.timers.Sound)
    (hwait : k.waitUnit s (.after delay) .waitingMailbox = .ok wait)
    (hnow : ∀ r k₁ step, k₁.Sound → now r k₁ = .ok step →
      (step.1.thread k₁.current).state.isRunnable = true)
    (hblocked : (step.1.thread k.current).state.isBlocked = true)
    (h : wait.thenDo now later = .ok step) : step.2 = [.awake, later] ∧ Waits delay k step.1 := by
  rcases waitUnit_waits hk hq (Or.inr rfl) hwait with
    ⟨r, k₁, rfl, hk₁, hcurrent⟩ | ⟨k', rfl, hwaits⟩
  · have hrun := hnow r k₁ step hk₁ h
    rw [hcurrent] at hrun
    exact absurd hrun (not_isRunnable_of_isBlocked hblocked)
  · obtain rfl := Except.ok.inj h
    exact ⟨rfl, hwaits⟩

theorem waitCondition_waits {c : CondVarId} {m : MutexId} {delay : Delay} (hk : k.Sound)
    (hq : k.timers.Sound) (h : k.waitCondition c m (.after delay) = .ok step) :
    step.2 = [.awake, .relock m] ∧ Waits delay k step.1 := by
  unfold waitCondition at h
  split at h
  · rw [if_neg nofun] at h
    obtain ⟨k₁, hrelease, h⟩ := bind_eq_ok.mp h
    obtain ⟨k₂, hqueue, h⟩ := bind_eq_ok.mp h
    obtain ⟨wait, hwait, h⟩ := bind_eq_ok.mp h
    have hrelease : Effect (· = .mutex m) k k₁ := release_effect hk.inPlace rfl hrelease
    have hk₁ := hrelease.inPlace hk.inPlace
    have hq₁ := (hrelease.keepsTime hq nofun).sound
    obtain ⟨-, htimers, hmoves⟩ := enqueue_ok hk₁.toLinked hqueue
    obtain ⟨k', rfl, hwaits⟩ := await_waits hk₁ hq₁ hmoves htimers rfl rfl rfl hwait
    obtain rfl := Except.ok.inj h
    exact ⟨rfl, hwaits.of_current hrelease.current⟩
  · cases h

/-- A bounded operation that blocks leaves its caller waiting for all of its time. -/
theorem operation_waits {o : Operation} {delay : Delay} (hk : k.Sound) (hq : k.timers.Sound)
    (hbound : o.bound? k.clock.now = some delay)
    (hblocked : (step.1.thread k.current).state.isBlocked = true) (h : o.run k = .ok step) :
    ∃ f, step.2 = [.awake, f] ∧ o.Resumes f ∧ Waits delay k step.1 := by
  have hblock : ∀ {state k'}, state.isTimed = true → state.isBlocked = true →
      state.fits none = true → k.blockFor state delay = .ok k' → Waits delay k k' :=
    fun timed blocked fits => blockFor_waits hk.inPlace hq hk.inPlace.stays rfl timed blocked fits
  cases o with
  | sleep ticks =>
      change Delay.ofTicks? ticks = some delay at hbound
      rcases sleep_ok h with ⟨delay', k', hdelay, hsleep, rfl⟩ | ⟨k', hnone, -, -⟩
      · obtain rfl := Option.some.inj (hdelay.symm.trans hbound)
        exact ⟨_, rfl, rfl, hblock rfl rfl rfl hsleep⟩
      · rw [hnone] at hbound
        cases hbound
  | sleepUntil deadline =>
      change Delay.ofTicks? (deadline - k.clock.now) = some delay at hbound
      rcases sleepUntil_ok h with ⟨delay', k', hdelay, hsleep, rfl⟩ | ⟨hnone, -⟩
      · obtain rfl := Option.some.inj (hdelay.symm.trans hbound)
        exact ⟨_, rfl, rfl, hblock rfl rfl rfl hsleep⟩
      · rw [hnone] at hbound
        cases hbound
  | suspend timeout =>
      cases timeout with
      | after delay' =>
          obtain rfl := Option.some.inj hbound
          obtain ⟨wait, hwait, h⟩ := bind_eq_ok.mp h
          obtain rfl := Except.ok.inj h
          obtain ⟨k', rfl, hwaits⟩ :=
            await_waits hk.inPlace hq hk.inPlace.stays rfl rfl rfl rfl hwait
          exact ⟨_, rfl, rfl, hwaits⟩
      | _ => cases hbound
  | waitSemaphore s timeout =>
      cases timeout with
      | after delay' =>
          obtain rfl := Option.some.inj hbound
          obtain ⟨wait, hwait, h⟩ := bind_eq_ok.mp h
          obtain rfl := Except.ok.inj h
          obtain ⟨hleft, hwaits⟩ := waitSemaphore_waits hk hq hwait hblocked
          exact ⟨_, hleft, rfl, hwaits⟩
      | _ => cases hbound
  | waitCondition c m timeout =>
      cases timeout with
      | after delay' =>
          obtain rfl := Option.some.inj hbound
          obtain ⟨hleft, hwaits⟩ := waitCondition_waits hk hq h
          exact ⟨_, hleft, rfl, hwaits⟩
      | _ => cases hbound
  | post b msg ahead timeout =>
      cases timeout with
      | after delay' =>
          obtain rfl := Option.some.inj hbound
          obtain ⟨wait, hwait, h⟩ := post_ok h
          obtain ⟨hleft, hwaits⟩ := thenDo_waits hk hq hwait
            (fun r k₁ step hk₁ hnow => (storeAfter_answers hk₁ hnow).1) hblocked h
          exact ⟨_, hleft, ⟨_, rfl⟩, hwaits⟩
      | _ => cases hbound
  | fetch b timeout =>
      cases timeout with
      | after delay' =>
          obtain rfl := Option.some.inj hbound
          obtain ⟨wait, hwait, h⟩ := fetch_ok h
          obtain ⟨hleft, hwaits⟩ := thenDo_waits hk hq hwait
            (fun r k₁ step hk₁ hnow => (fetchAfter_answers hk₁ hnow).1) hblocked h
          exact ⟨_, hleft, ⟨_, rfl⟩, hwaits⟩
      | _ => cases hbound
  | _ => cases hbound

end Kernel

namespace Execution
open Kernel

/-- The ticks that passed. -/
def ticks (h : History) : Nat := h.countP Record.isTick

/-- No timer is due any more. -/
def Record.endsTick (r : Record) : Bool :=
  match r.move, r.before.frames with
  | .advance, .fire :: _ => r.before.kernel.timers.popExpired.1.isNone
  | _, _ => false

/-- Is the last tick still under way? -/
def ticking : History → Bool
  | [] => false
  | r :: h => r.isTick || (!r.endsTick && ticking h)

def Record.caller (r : Record) : ThreadId := r.before.kernel.current

/-- A bounded operation blocks its caller. -/
structure Record.Begins (r : Record) (o : Operation) (delay : Delay) : Prop where
  move : r.move = .call (.operation o)
  bound : o.bound? r.before.kernel.clock.now = some delay
  blocked : (r.after.kernel.thread r.caller).state.isBlocked = true

/-- The wait that began with this record goes on: nothing reached the thread. -/
structure Waiting (r : Record) (o : Operation) (delay : Delay) (later : History) (x : Execution) :
    Prop where
  calm : ∀ r' ∈ later, r'.wakes? r.caller = none
  timed : (x.kernel.thread r.caller).state.isTimed = true
  stand : SameStand (r.after.kernel.thread r.caller) (x.kernel.thread r.caller)
  frames : ∃ f, x.framesOf r.caller = [.awake, f] ∧ o.Resumes f
  clock : x.kernel.clock.now = r.before.kernel.clock.now + .ofNat (ticks later)
  remaining : x.kernel.timers.remaining (timeoutSlot r.caller) = some (delay.ticks - ticks later)
  within : ticks later ≤ delay.ticks
  /-- Once its time is up the tick is not over before it wakes. -/
  due : ticks later = delay.ticks → ticking later = true

/-- The time of the wait is up, and nothing else reaches the thread. -/
structure TimesUp (r : Record) (delay : Delay) (during : History) (r' : Record) : Prop where
  event : r'.event? r.caller = none
  expires : r'.expires? = some r.caller
  ticks : ticks during = delay.ticks
  ticking : ticking during = true
  trace : TimesOut r.caller r'.before.kernel r'.after.kernel

/-- How the wait ends. -/
structure Ends (r : Record) (delay : Delay) (during : History) (r' : Record) (w : WakeupResult) :
    Prop where
  calm : ∀ r'' ∈ during, r''.wakes? r.caller = none
  cause : r'.event? r.caller = some w ∨ w = .timeout ∧ TimesUp r delay during r'
  within : Execution.ticks during ≤ delay.ticks
  clock : r'.after.kernel.clock.now = r.before.kernel.clock.now + .ofNat (Execution.ticks during)
  runnable : (r'.after.kernel.thread r.caller).state.isRunnable = true
  wakeup : (r'.after.kernel.thread r.caller).wakeup = w
  disarmed : r'.after.kernel.timers.remaining (timeoutSlot r.caller) = none
  /-- It stands nowhere but among the ready threads. -/
  free : ∀ q, r.caller ∈ r'.after.kernel.members q → q = .ready

/-- The wait is over and the operation did not return so far. -/
inductive Returning (o : Operation) (w : WakeupResult) (u : ThreadId) (x : Execution) : Prop
  | resumes {checks : List Frame} {f : Frame} : checks = [] ∨ checks = [.awake] →
    x.framesOf u = checks ++ [f] → o.Resumes f →
    (x.kernel.thread u).state.isRunnable = true → (x.kernel.thread u).wakeup = w →
    Returning o w u x
  /-- The mutex is locked again, for which the thread may have to wait. -/
  | locks {m : MutexId} : x.framesOf u = [.locked m, .answer (.wakeup w)] →
    o.Answers w (.wakeup w) → x.kernel.Locking u → Returning o w u x
  | answers {a : Answer} : x.framesOf u = [.answer a] → o.Answers w a →
    (x.kernel.thread u).state.isRunnable = true → Returning o w u x

/-- The wait that began with this record ended, once and for all. -/
structure Over (r : Record) (o : Operation) (delay : Delay) (after : History) (r' : Record)
    (during : History) (w : WakeupResult) (x : Execution) : Prop where
  ends : Ends r delay during r' w
  once : ∀ r'' ∈ after, r''.wakes? r.caller = none
  unarmed : x.kernel.timers.remaining (timeoutSlot r.caller) = none
  returning : Returning o w r.caller x

variable {x y : Execution} {h later earlier during : History} {m : Move} {t u : ThreadId}
  {r : Record} {o : Operation} {delay : Delay} {w : WakeupResult}

/-! Moves of the others, and of a thread amid an operation. -/

/-- What another thread has left to do is not for this one to change. -/
theorem framesOf_of_move (hx : x.Fit) (hallows : x.allows m = true) (hmove : x.move m = .ok y)
    (hu : u ≠ x.kernel.current) (hactive : (x.kernel.thread u).state ≠ .inactive) :
    y.framesOf u = x.framesOf u :=
  (move_others hx hallows hmove hu).resolve_right fun hs => hactive hs.1

theorem locking_of_move (hx : x.Fit) (hallows : x.allows m = true) (hmove : x.move m = .ok y)
    (hu : u ≠ x.kernel.current) (hlocking : x.kernel.Locking u) : y.kernel.Locking u :=
  (move_does hx hallows hmove).locking hx.sound hu hlocking

/-- Amid an operation nothing else can be done. -/
theorem move_amid {f : Frame} {rest : List Frame} (hframes : x.frames = f :: rest)
    (hstart : f ≠ .start) (hcallback : ∀ e b, f ≠ .callback e b) (hallows : x.allows m = true) :
    m = .advance ∧ (∀ a, f ≠ .answer a) ∨ m = .takeAnswer ∨ m = .collectLog := by
  cases m with
  | call c =>
      obtain ⟨hnil, -⟩ := allows_call hallows
      rw [hframes] at hnil
      cases hnil
  | interrupt c =>
      obtain ⟨hnil | ⟨e, rest', hcons⟩, -⟩ := allows_interrupt hallows
      · rw [hframes] at hnil
        cases hnil
      · rw [hframes] at hcons
        exact absurd (List.cons.inj hcons).1 (hcallback e true)
  | takeAnswer => exact Or.inr (Or.inl rfl)
  | enter =>
      obtain ⟨rest', hcons⟩ | ⟨e, rest', hcons⟩ := allows_enter hallows
      · rw [hframes] at hcons
        exact absurd (List.cons.inj hcons).1 hstart
      · rw [hframes] at hcons
        exact absurd (List.cons.inj hcons).1 (hcallback e false)
  | leave =>
      obtain ⟨e, rest', hcons⟩ := allows_leave hallows
      rw [hframes] at hcons
      exact absurd (List.cons.inj hcons).1 (hcallback e true)
  | advance =>
      obtain ⟨f', rest', hcons, hanswer, -⟩ := allows_advance hallows
      rw [hframes] at hcons
      rw [(List.cons.inj hcons).1]
      exact Or.inl ⟨rfl, hanswer⟩
  | collectLog => exact Or.inr (Or.inr rfl)

/-! How the operation returns. -/

theorem Returning.locking (hr : Returning o w u x) : x.kernel.Locking u := by
  cases hr with
  | resumes _ _ _ hrun => exact Or.inl hrun
  | locks _ _ hlocking => exact hlocking
  | answers _ _ hrun => exact Or.inl hrun

theorem Returning.withoutLog (hr : Returning o w u x) : Returning o w u x.withoutLog := by
  cases hr with
  | resumes hc hframes hf hrun hwakeup => exact .resumes hc hframes hf hrun hwakeup
  | locks hframes ha hlocking => exact .locks hframes ha hlocking
  | answers hframes ha hrun => exact .answers hframes ha hrun

theorem Returning.of_other (hr : Returning o w u x) (hx : x.Fit) (hallows : x.allows m = true)
    (hmove : x.move m = .ok y) (hu : u ≠ x.kernel.current) : Returning o w u y := by
  have hlocking := locking_of_move hx hallows hmove hu hr.locking
  have hkeeps := move_keepsRunnable hx hallows hmove hu
  have hactive : (x.kernel.thread u).state ≠ .inactive := by
    intro hs
    rcases hr.locking with hrun | hs'
    · rw [hs] at hrun
      cases hrun
    · rw [hs] at hs'
      cases hs'
  have hframesOf := framesOf_of_move hx hallows hmove hu hactive
  cases hr with
  | resumes hc hframes hf hrun hwakeup =>
      obtain ⟨hrun', hwakeup'⟩ := hkeeps hrun
      exact .resumes hc (hframesOf.trans hframes) hf hrun' (hwakeup'.trans hwakeup)
  | locks hframes ha => exact .locks (hframesOf.trans hframes) ha hlocking
  | answers hframes ha hrun => exact .answers (hframesOf.trans hframes) ha (hkeeps hrun).1

/-- The thread goes on with what is left of the operation. -/
theorem Returning.of_resumed {f : Frame} (hx : x.Fit) (hf : o.Resumes f)
    (hframes : x.frames = [f]) (hwakeup : x.kernel.running.wakeup = w)
    (hanswer : ∀ a, f ≠ .answer a) (hmove : x.move .advance = .ok y) :
    Returning o w x.kernel.current y := by
  obtain ⟨frames, hstep, hleft⟩ := advance_step hframes hmove
  rw [List.append_nil] at hleft
  have hrun : (x.kernel.thread x.kernel.current).state.isRunnable = true := by
    rw [hx.sound.inPlace.state_current]
    rfl
  subst hwakeup
  cases o with
  | sleep ticks => exact absurd hf (hanswer _)
  | sleepUntil deadline => exact absurd hf (hanswer _)
  | suspend timeout | waitSemaphore s timeout =>
      obtain rfl : f = .answerWakeup := hf
      obtain ⟨hkernel, rfl⟩ := Prod.mk.inj (Except.ok.inj hstep)
      refine .answers hleft rfl ?_
      rw [← hkernel]
      exact hrun
  | waitCondition c m timeout =>
      obtain rfl : f = .relock m := hf
      rcases relock_answers hx.sound.inPlace hstep with ⟨rfl, hrun⟩ | ⟨rfl, hlocking⟩
      · exact .answers hleft rfl hrun
      · exact .locks hleft rfl hlocking
  | post b msg ahead timeout =>
      obtain ⟨epoch, rfl⟩ := hf
      obtain ⟨hrun, e, rfl, he⟩ := storeAfter_answers hx.sound hstep
      exact .answers hleft ⟨e, rfl, he⟩ hrun
  | fetch b timeout =>
      obtain ⟨epoch, rfl⟩ := hf
      obtain ⟨hrun, e, rfl, he⟩ := fetchAfter_answers hx.sound hstep
      exact .answers hleft ⟨e, rfl, he⟩ hrun
  | _ => exact hf.elim

/-- A check that a thread does before it goes on changes nothing. -/
theorem advance_check {f : Frame} {rest : List Frame} (hframes : x.frames = f :: rest)
    (hf : f = .awake ∨ ∃ m, f = .locked m) (hmove : x.move .advance = .ok y) :
    y.kernel = x.kernel ∧ y.framesOf x.kernel.current = rest := by
  obtain ⟨frames, hstep, hleft⟩ := advance_step hframes hmove
  have hsame : y.kernel = x.kernel ∧ frames = [] := by
    rcases hf with rfl | ⟨m, rfl⟩
    all_goals
      unfold frameStep at hstep
      dsimp only at hstep
      split at hstep
    · cases hstep
    · obtain ⟨hkernel, hnil⟩ := Prod.mk.inj (Except.ok.inj hstep)
      exact ⟨hkernel.symm, hnil.symm⟩
    · obtain ⟨hkernel, hnil⟩ := Prod.mk.inj (Except.ok.inj hstep)
      exact ⟨hkernel.symm, hnil.symm⟩
    · cases hstep
  refine ⟨hsame.1, ?_⟩
  rw [hleft, hsame.2]
  rfl

theorem Returning.of_own (hr : Returning o w x.kernel.current x) (hx : x.Fit)
    (hallows : x.allows m = true) (hmove : x.move m = .ok y) (hnot : m ≠ .takeAnswer) :
    Returning o w x.kernel.current y := by
  have hlog : m = .collectLog → Returning o w x.kernel.current y := by
    rintro rfl
    obtain rfl := Except.ok.inj hmove
    exact hr.withoutLog
  have hrun : (x.kernel.thread x.kernel.current).state.isRunnable = true := by
    rw [hx.sound.inPlace.state_current]
    rfl
  cases hr with
  | @resumes checks f hc hframes hf _ hwakeup =>
      rcases hc with rfl | rfl
      · have hframes : x.frames = [f] := hframes
        have hplain := hf.plain
        rcases move_amid hframes hplain.1 hplain.2 hallows with ⟨rfl, hanswer⟩ | htake | hcollect
        · exact .of_resumed hx hf hframes hwakeup hanswer hmove
        · exact absurd htake hnot
        · exact hlog hcollect
      · have hframes : x.frames = [.awake, f] := hframes
        rcases move_amid hframes nofun nofun hallows with ⟨rfl, -⟩ | htake | hcollect
        · obtain ⟨hkernel, hleft⟩ := advance_check hframes (Or.inl rfl) hmove
          refine .resumes (Or.inl rfl) hleft hf ?_ ?_
          · rw [hkernel]
            exact hrun
          · rw [hkernel]
            exact hwakeup
        · exact absurd htake hnot
        · exact hlog hcollect
  | @locks mutex hframes ha _ =>
      have hframes : x.frames = [.locked mutex, .answer (.wakeup w)] := hframes
      rcases move_amid hframes nofun nofun hallows with ⟨rfl, -⟩ | htake | hcollect
      · obtain ⟨hkernel, hleft⟩ := advance_check hframes (Or.inr ⟨mutex, rfl⟩) hmove
        refine .answers hleft ha ?_
        rw [hkernel]
        exact hrun
      · exact absurd htake hnot
      · exact hlog hcollect
  | @answers a hframes ha _ =>
      have hframes : x.frames = [.answer a] := hframes
      rcases move_amid hframes nofun nofun hallows with ⟨-, hanswer⟩ | htake | hcollect
      · exact absurd rfl (hanswer a)
      · exact absurd htake hnot
      · exact hlog hcollect

theorem Returning.step (hr : Returning o w u x) (hx : x.Fit) (hallows : x.allows m = true)
    (hmove : x.move m = .ok y) (hnot : m = .takeAnswer → x.kernel.current ≠ u) :
    Returning o w u y := by
  by_cases hu : u = x.kernel.current
  · subst hu
    exact hr.of_own hx hallows hmove fun htake => hnot htake rfl
  · exact hr.of_other hx hallows hmove hu

/-! How the wait goes on, and how it ends. -/

theorem wakes_of_tick (htick : r.isTick = true) : r.wakes? = fun _ => none := by
  obtain ⟨x, m, y⟩ := r
  unfold Record.isTick at htick
  dsimp only at htick
  split at htick
  · exact wakes_eq_notices (fun _ => rfl) (fun _ => rfl) rfl
  · exact wakes_eq_notices (fun _ => rfl) (fun _ => rfl) rfl
  · cases htick

theorem ticks_of_tick (htick : r.isTick = true) : ticks (r :: h) = ticks h + 1 :=
  List.countP_cons_of_pos htick

theorem ticks_of_not_tick (htick : r.isTick = false) : ticks (r :: h) = ticks h :=
  List.countP_cons_of_neg (by rw [htick]; exact nofun)

/-- When the handling of timers ends, the time of nobody is up. -/
theorem not_endsTick {slot : TimerSlot} (hq : r.before.kernel.timers.Sound)
    (hzero : r.before.kernel.timers.remaining slot = some 0) : r.endsTick = false := by
  unfold Record.endsTick
  split
  · cases hpop : r.before.kernel.timers.popExpired with
    | mk a timers =>
        obtain ⟨-, ⟨-, -, hnone⟩ | ⟨-, a', rfl, -⟩⟩ := hq.popExpired hpop
        · exact absurd hzero (hnone slot)
        · rfl
  · rfl

theorem expires_eq_some (hexpires : r.expires? = some u) : r.move = .advance ∧
    (∃ rest, r.before.frames = .fire :: rest) ∧ r.before.kernel.expired? = some u := by
  unfold Record.expires? at hexpires
  split at hexpires
  · rename_i hm hframes
    exact ⟨hm, ⟨_, hframes⟩, hexpires⟩
  · cases hexpires

theorem Waiting.of_tick (hw : Waiting r o delay later x) (hx : x.Fit) (hq : x.kernel.timers.Sound)
    (hmove : x.move m = .ok y) (htick : Record.isTick ⟨x, m, y⟩ = true) :
    Waiting r o delay (⟨x, m, y⟩ :: later) y := by
  have hne := hx.sound.inPlace.ne_current_of_timed hw.timed
  obtain ⟨hbegin, hframesOf⟩ := tick_ok hmove htick
  obtain ⟨hthreads, hclock, -, hzero, hless⟩ := beginTick_passes hq hbegin
  have hthread : y.kernel.thread r.caller = x.kernel.thread r.caller := by
    simp only [thread, hthreads]
  have hleft : delay.ticks - ticks later ≠ 0 := by
    intro heq
    exact hzero _ (heq ▸ hw.remaining)
  have hticks : ticks (⟨x, m, y⟩ :: later) = ticks later + 1 := ticks_of_tick htick
  refine ⟨?_, ?_, ?_, ?_, ?_, ?_, ?_, ?_⟩
  · intro r' hmem
    rcases List.mem_cons.mp hmem with rfl | hmem
    · rw [wakes_of_tick htick]
    · exact hw.calm r' hmem
  · rw [hthread]
    exact hw.timed
  · rw [hthread]
    exact hw.stand
  · rw [hframesOf _ hne]
    exact hw.frames
  · rw [hclock, hw.clock, hticks, UInt32.add_assoc, UInt32.ofNat_add]
    rfl
  · rw [hless, hticks, hw.remaining]
    congr 1
    omega
  · rw [hticks]
    omega
  · intro _
    rw [ticking, htick]
    rfl

theorem Waiting.active (hw : Waiting r o delay later x) :
    (x.kernel.thread r.caller).state ≠ .inactive := by
  intro hs
  have htimed := hw.timed
  rw [hs] at htimed
  cases htimed

theorem Waiting.of_spared (hw : Waiting r o delay later x) (hx : x.Fit)
    (hq : x.kernel.timers.Sound) (hallows : x.allows m = true) (hmove : x.move m = .ok y)
    (htick : Record.isTick ⟨x, m, y⟩ = false)
    (htreats : Treats (Record.wakes? ⟨x, m, y⟩) x.kernel y.kernel)
    (hnone : Record.wakes? ⟨x, m, y⟩ r.caller = none) :
    Waiting r o delay (⟨x, m, y⟩ :: later) y := by
  have hne := hx.sound.inPlace.ne_current_of_timed hw.timed
  have hspared := htreats.spared _ hw.timed hnone
  have hticks : ticks (⟨x, m, y⟩ :: later) = ticks later := ticks_of_not_tick htick
  refine ⟨?_, hspared.timed hw.timed, hw.stand.trans hspared.stand, ?_, ?_, ?_, ?_, ?_⟩
  · intro r' hmem
    rcases List.mem_cons.mp hmem with rfl | hmem
    · exact hnone
    · exact hw.calm r' hmem
  · rw [framesOf_of_move hx hallows hmove hne hw.active]
    exact hw.frames
  · rw [htreats.clock, hticks]
    exact hw.clock
  · rw [hspared.remaining, hticks]
    exact hw.remaining
  · rw [hticks]
    exact hw.within
  · intro hdue
    rw [hticks] at hdue
    have hzero : x.kernel.timers.remaining (timeoutSlot r.caller) = some 0 := by
      rw [hw.remaining, hdue, Nat.sub_self]
    rw [ticking, htick, not_endsTick hq hzero, hw.due hdue]
    rfl

/-- The thread wakes: something reached it, or its time is up. -/
theorem Waiting.ends (hw : Waiting r o delay later x) (hx : x.Fit) (hq : x.kernel.timers.Sound)
    (hallows : x.allows m = true) (hmove : x.move m = .ok y) (hy : y.kernel.InPlace)
    (htreats : Treats (Record.wakes? ⟨x, m, y⟩) x.kernel y.kernel)
    (hsome : Record.wakes? ⟨x, m, y⟩ r.caller = some w) :
    Ends r delay later ⟨x, m, y⟩ w ∧ Returning o w r.caller y := by
  have hne := hx.sound.inPlace.ne_current_of_timed hw.timed
  obtain ⟨hrun, hwakeup⟩ := htreats.woken _ w hw.timed hsome
  have hcause : Record.event? ⟨x, m, y⟩ r.caller = some w ∨
      w = .timeout ∧ TimesUp r delay later ⟨x, m, y⟩ := by
    cases hevent : Record.event? ⟨x, m, y⟩ r.caller with
    | some w' =>
        rw [Record.wakes?, hevent, Option.some_or] at hsome
        exact Or.inl hsome
    | none =>
        rw [Record.wakes?, hevent, Option.none_or] at hsome
        split at hsome
        · rename_i hexpires
          obtain ⟨hm, ⟨rest, hframes⟩, hexpired⟩ := expires_eq_some hexpires
          have hzero := hx.sound.inPlace.remaining_of_expired hq hexpired
          have hdue : ticks later = delay.ticks := by
            have hleft := hw.remaining.symm.trans hzero
            have hwithin := hw.within
            have hleft : delay.ticks - ticks later = 0 := Option.some.inj hleft
            omega
          have hm : m = .advance := hm
          subst hm
          obtain ⟨frames, hstep, -⟩ := advance_step hframes hmove
          exact Or.inr ⟨(Option.some.inj hsome).symm, hevent, hexpires, hdue, hw.due hdue,
            fire_timesOut hx.sound.inPlace hexpired hstep⟩
        · cases hsome
  obtain ⟨f, hframes, hf⟩ := hw.frames
  have hclock := hw.clock
  rw [← htreats.clock] at hclock
  refine ⟨⟨hw.calm, hcause, hw.within, hclock, hrun, hwakeup, ?_, ?_⟩, ?_⟩
  · exact Locking.unarmed (Or.inl hrun) hy
  · intro q hmem
    by_contra hready
    have hblocked := hy.isBlocked_of_queue ((hy.mem_iff r.caller q).mp hmem) hready
    exact not_isRunnable_of_isBlocked hblocked hrun
  · refine .resumes (Or.inr rfl) ?_ hf hrun hwakeup
    rw [framesOf_of_move hx hallows hmove hne hw.active]
    exact hframes

/-- The wait begins. -/
theorem Record.Begins.waiting (hb : r.Begins o delay) (hx : r.before.Fit)
    (hq : r.before.kernel.timers.Sound) (hallows : r.before.allows r.move = true)
    (hmove : r.before.move r.move = .ok r.after) : Waiting r o delay [] r.after := by
  obtain ⟨hm, hbound, hblocked⟩ := hb
  have hstep := operation_left hm hallows hmove
  obtain ⟨f, hleft, hf, hwaits⟩ := operation_waits hx.sound hq hbound hblocked hstep
  have hclock : r.after.kernel.clock = r.before.kernel.clock := by
    rw [hm] at hallows hmove
    refine (operation_treats hx hq hallows hmove ?_ ?_).clock
    · rintro rfl
      cases hbound
    · rintro id rfl
      cases hbound
  refine ⟨fun _ hmem => absurd hmem List.not_mem_nil, hwaits.timed, .refl _, ⟨f, hleft, hf⟩, ?_,
    ?_, Nat.zero_le _, ?_⟩
  · rw [hclock]
    simp [ticks]
  · exact hwaits.remaining
  · intro hzero
    have hzero : 0 = delay.ticks := hzero
    exact absurd hzero delay.pos.ne

theorem Waiting.step (hw : Waiting r o delay later x) (hx : x.Fit) (hq : x.kernel.timers.Sound)
    (hallows : x.allows m = true) (hmove : x.move m = .ok y) (hy : y.kernel.InPlace)
    (hown : ∀ id ∈ Record.stops? ⟨x, m, y⟩, maxThreads ≤ id.slot.val) :
    Waiting r o delay (⟨x, m, y⟩ :: later) y ∨
      ∃ w, Over r o delay [] ⟨x, m, y⟩ later w y := by
  cases htick : Record.isTick ⟨x, m, y⟩ with
  | true => exact Or.inl (hw.of_tick hx hq hmove htick)
  | false =>
      have htreats := move_treats hx hq hallows hmove htick hown
      cases hwakes : Record.wakes? ⟨x, m, y⟩ r.caller with
      | none => exact Or.inl (hw.of_spared hx hq hallows hmove htick htreats hwakes)
      | some w =>
          obtain ⟨hends, hreturning⟩ := hw.ends hx hq hallows hmove hy htreats hwakes
          refine Or.inr ⟨w, hends, ?_, hends.disarmed, hreturning⟩
          exact fun _ hmem => absurd hmem List.not_mem_nil

theorem Over.step {after : History} {r' : Record} (hv : Over r o delay after r' during w x)
    (hx : x.Fit) (hallows : x.allows m = true) (hmove : x.move m = .ok y) (hy : y.kernel.InPlace)
    (hnot : m = .takeAnswer → x.kernel.current ≠ r.caller) :
    Over r o delay (⟨x, m, y⟩ :: after) r' during w y := by
  have hreturning := hv.returning.step hx hallows hmove hnot
  refine ⟨hv.ends, ?_, hreturning.locking.unarmed hy, hreturning⟩
  intro r'' hmem
  rcases List.mem_cons.mp hmem with rfl | hmem
  · exact wakes_eq_none hx hmove hv.returning.locking.not_timed
  · exact hv.once r'' hmem

/-! All histories. -/

/-- A bounded wait goes on or is over, as long as the operation did not return. -/
theorem Reaches.waits (hr : Reaches (later ++ r :: earlier) x)
    (hj : JoinedOnce (later ++ r :: earlier)) (ho : OwnTimers (later ++ r :: earlier))
    (hb : r.Begins o delay)
    (hnot : ∀ r' ∈ later, r'.move = .takeAnswer → r'.caller ≠ r.caller) :
    Waiting r o delay later x ∨
      ∃ after r' during w, later = after ++ r' :: during ∧ Over r o delay after r' during w x := by
  induction later generalizing x with
  | nil =>
      obtain ⟨hbefore, hallows, hmove, rfl⟩ := hr.uncons
      have hx := (hbefore.orderly hj.tail).fit
      exact Or.inl (hb.waiting hx (hbefore.timers_sound hj.tail ho.2) hallows hmove)
  | cons r' later ih =>
      have hy := (hr.orderly hj).sound.inPlace
      obtain ⟨hbefore, hallows, hmove, rfl⟩ := hr.uncons
      have hx := (hbefore.orderly hj.tail).fit
      have hq := hbefore.timers_sound hj.tail ho.2
      have hbefore_not := hnot r' List.mem_cons_self
      rcases ih hbefore hj.tail ho.2 (fun r' hr' => hnot r' (List.mem_cons_of_mem _ hr')) with
        hw | ⟨after, r'', during, w, rfl, hv⟩
      · rcases hw.step hx hq hallows hmove hy (hbefore.slot_of_stops ho) with hw | ⟨w, hv⟩
        · exact Or.inl hw
        · exact Or.inr ⟨[], r', later, w, rfl, hv⟩
      · exact Or.inr ⟨r' :: after, r'', during, w, rfl,
          hv.step hx hallows hmove hy hbefore_not⟩

structure Punctual (h : History) (x : Execution) : Prop where
  waits : ∀ later r earlier o delay, h = later ++ r :: earlier → r.Begins o delay →
    (∀ r' ∈ later, r'.move = .takeAnswer → r'.caller ≠ r.caller) →
      Waiting r o delay later x ∨ ∃ after r' during w, later = after ++ r' :: during ∧
        Over r o delay after r' during w x
  /-- The handling of timers never stops short of one that is due. -/
  fires : ∀ rest, x.frames = .fire :: rest → ∃ y, x.move .advance = .ok y

theorem reaches_punctual (hr : Reaches h x) (hj : JoinedOnce h) (ho : OwnTimers h) :
    Punctual h x := by
  refine ⟨?_, ?_⟩
  · rintro later r earlier o delay rfl hb hnot
    exact hr.waits hj ho hb hnot
  · intro rest hframes
    obtain ⟨⟨k, frames⟩, hfire⟩ := fire_total (hr.orderly hj).sound (hr.timers_sound hj ho)
    refine ⟨{ x.setFrames (frames ++ rest) with kernel := k }, ?_⟩
    change x.advance = _
    rw [advance_eq hframes]
    exact bind_eq_ok.mpr ⟨(k, frames), hfire, rfl⟩

/-- A thread waits twice for a unit: the first time in vain, the second time it is handed one.
The boot thread counts the ticks and stops its own timer. -/
def pausing : List Move :=
  [.takeAnswer, .call (.operation (.createSemaphore 0)), .takeAnswer,
    .interrupt (.setTimer ⟨9, by decide, by decide⟩ "alarm"), .takeAnswer,
    .call (.spawn "worker" .normal "work"), .takeAnswer, .call (.operation .yieldTurn), .enter,
    .call (.operation (.waitSemaphore 0 (.after ⟨2, by decide, by decide⟩))), .takeAnswer,
    .interrupt .tick, .advance, .takeAnswer, .interrupt .tick, .advance, .advance, .takeAnswer,
    .call (.operation .yieldTurn), .advance, .advance, .takeAnswer,
    .call (.operation (.waitSemaphore 0 (.after ⟨3, by decide, by decide⟩))), .takeAnswer,
    .interrupt .tick, .advance, .takeAnswer, .interrupt (.resetTimer ⟨16, 1⟩), .takeAnswer,
    .call (.operation (.signal 0)), .takeAnswer, .call (.operation .yieldTurn), .advance, .advance]

theorem punctual_pausing : Reaches (enact pausing).1 (enact pausing).2 ∧
    JoinedOnce (enact pausing).1 ∧ OwnTimers (enact pausing).1 ∧
    ((enact pausing).1.filterMap Record.expires?, (enact pausing).1.filterMap (·.event? 2)) =
      ([2], [.ok]) ∧ Punctual (enact pausing).1 (enact pausing).2 :=
  have hr := reaches_enact (by decide +kernel)
  have hj : JoinedOnce (enact pausing).1 := by decide +kernel
  have ho : OwnTimers (enact pausing).1 := by decide +kernel
  ⟨hr, hj, ho, by decide +kernel, reaches_punctual hr hj ho⟩

end Execution

end RealtimeKernel

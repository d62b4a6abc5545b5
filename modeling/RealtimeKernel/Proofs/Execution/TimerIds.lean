import RealtimeKernel.Proofs.Execution.Wakeups
import RealtimeKernel.Proofs.Kernel.Timers

/-!
What a timer id stands for, in every execution of a kernel whatever its threads do. An id is the
slot of a timer and the number of that timer in the slot, modulo `2^16`. So it stands for the timer
that it was given for until that timer fires or is stopped, and then for none, except that it
stands again for the 65536th timer after it in the same slot, for the 131072nd, and so on.
-/
namespace RealtimeKernel

/-- Does a call start or stop timers, or bring them nearer? -/
def InterruptCall.onTimers : InterruptCall → Bool
  | .tick | .setTimer .. | .resetTimer _ => true
  | _ => false

def Operation.onTimers : Operation → Bool
  | .tick | .setTimer .. | .resetTimer _ => true
  | _ => false

namespace Execution
open Kernel

/-- The executions of kernels that were never brought up, by any code. -/
inductive Arises : History → Execution → Prop
  | fresh (config : Config) (platform : Platform) : Arises [] (fresh config platform)
  | move {h : History} {x y : Execution} {m : Move} :
    Arises h x → x.allows m = true → x.move m = .ok y → Arises (⟨x, m, y⟩ :: h) y

/-- The slot whose timer fires. -/
def Record.fires? (r : Record) : Option TimerSlot :=
  match r.move, r.before.frames with
  | .advance, .fire :: _ => r.before.kernel.timers.due?
  | _, _ => none

/-- Does the timer of a slot fire, or is it stopped? -/
def Record.ends (s : TimerSlot) (r : Record) : Bool :=
  r.fires? = some s || r.stops?.map TimerId.slot = some s

/-- Is a timer of the application started in a slot? -/
def Record.arms (s : TimerSlot) (r : Record) : Bool := r.starts?.map TimerId.slot = some s

/-- The timers of the application that were started in a slot. -/
def armings (s : TimerSlot) (h : History) : Nat := h.countP (Record.arms s)

/-- The timer that a slot had before these moves neither fired nor was stopped in them. -/
def Pending (s : TimerSlot) (later : History) : Prop := ∀ r ∈ later, r.ends s = false

/-- Has a slot a timer after these moves, if it had one before? -/
def occupied (s : TimerSlot) : History → Bool
  | [] => true
  | r :: later => r.arms s || !r.ends s && occupied s later

/-- What the id of a timer is good for once `later` happened. -/
structure Names (later : History) (id : TimerId) (k : Kernel) : Prop where
  armed_iff : k.isTimerArmed id = true ↔ Pending id.slot later
  remaining_iff : (k.timerRemaining id).isSome = true ↔ Pending id.slot later
  /-- To stop the timer while it is to come stops this timer and no other one. -/
  reset : Pending id.slot later → ∃ k', k.resetTimer id = .ok k' ∧ k'.isTimerArmed id = false ∧
    ∀ id', id' ≠ id → k'.isTimerArmed id' = k.isTimerArmed id' ∧
      k'.timerRemaining id' = k.timerRemaining id'
  /-- To stop it later is misuse. -/
  stale : ¬ Pending id.slot later → k.resetTimer id = .error ⟨.timerStale id, k⟩

variable {x y : Execution} {h later : History} {m : Move} {r : Record} {s : TimerSlot}
  {id : TimerId} {k k' : Kernel} {step : Step}

/-! What one move does to the timers of the application. -/

/-- What a move does to the queue of timers: it cancels some and then arms one at most, or it lets a
tick pass, or it takes out what is due and cancels others. -/
inductive Turns (r : Record) : Prop
  | adjusts : r.isTick = false → r.fires? = none →
    r.before.kernel.timers.Adjusts (fun _ => True) r.after.kernel.timers → Turns r
  | advances : r.isTick = true → r.fires? = none →
    r.before.kernel.timers.advance = .ok r.after.kernel.timers → Turns r
  | fires {o : Option TimerAction} {timers : TimerQueue timerSlots TimerAction} :
    r.isTick = false → r.fires? = r.before.kernel.timers.due? →
    r.before.kernel.timers.popExpired = (o, timers) →
    timers.Cuts (fun _ => True) r.after.kernel.timers → Turns r

/-- A move starts a timer in a slot that has none, ends timers, or leaves them as they are. -/
structure TimersGo (r : Record) : Prop where
  turns : Turns r
  started : ∀ id, r.starts? = some id → r.before.kernel.timers.isArmed id.slot = false ∧
    id.generation = r.after.kernel.timers.generation id.slot
  armed : ∀ s, maxThreads ≤ s.val → r.after.kernel.timers.isArmed s =
    (r.arms s || !r.ends s && r.before.kernel.timers.isArmed s)
  generation : ∀ s, maxThreads ≤ s.val → r.after.kernel.timers.generation s =
    if r.arms s then r.before.kernel.timers.generation s + 1
    else r.before.kernel.timers.generation s

theorem Turns.sound (h : Turns r) (hq : r.before.kernel.timers.Sound) :
    r.after.kernel.timers.Sound := by
  cases h with
  | adjusts _ _ hadjusts => exact hadjusts.sound hq
  | advances _ _ hadvance => exact (hq.advance hadvance).1
  | fires _ _ hpop hcuts => exact hcuts.sound (hq.popExpired hpop).1

/-- Only with a tick do timers become due. -/
theorem Turns.undue (h : Turns r) (hq : r.before.kernel.timers.Sound) (tick : r.isTick = false)
    (hu : r.before.kernel.timers.Undue) : r.after.kernel.timers.Undue := by
  cases h with
  | adjusts _ _ hadjusts => exact hadjusts.undue hq hu
  | advances htick =>
      rw [tick] at htick
      cases htick
  | fires _ _ hpop hcuts =>
      exact hcuts.undue (hq.popExpired hpop).1 (hq.undue_popExpired hu hpop)

theorem TimersGo.of_kept (tick : r.isTick = false) (starts : r.starts? = none)
    (stops : r.stops? = none) (fires : r.fires? = none)
    (h : TimersKept r.before.kernel r.after.kernel) : TimersGo r := by
  have harms : ∀ s, r.arms s = false := by
    intro s
    simp [Record.arms, starts]
  have hends : ∀ s, r.ends s = false := by
    intro s
    simp [Record.ends, stops, fires]
  refine ⟨.adjusts tick fires (h.mono fun _ _ => trivial), ?_, ?_, ?_⟩
  · rw [starts]
    exact nofun
  · intro s hs
    rw [h.armed s hs, harms, hends]
    rfl
  · intro s hs
    rw [h.generation s hs, harms]
    rfl

theorem cutsTimeouts_return {e : Outcome Kernel} {frames : List Frame}
    (he : ∀ k', e = .ok k' → CutsTimeouts k k')
    (h : (do return (← e, frames) : Outcome Step) = .ok step) : CutsTimeouts k step.1 := by
  obtain ⟨k', hstep, h⟩ := bind_eq_ok.mp h
  rw [← Except.ok.inj h]
  exact he k' hstep

theorem cutsTimeouts_finish {e : Outcome Kernel} (he : ∀ k', e = .ok k' → CutsTimeouts k k')
    (h : (do Operation.finish (← e) : Outcome Step) = .ok step) : CutsTimeouts k step.1 := by
  obtain ⟨k₁, hstep, h⟩ := bind_eq_ok.mp h
  obtain ⟨k₂, hpreempt, h⟩ := bind_eq_ok.mp h
  rw [← Except.ok.inj h]
  exact (he k₁ hstep).trans (.of_eq (preempt_timers hpreempt))

theorem interrupt_cutsTimeouts {c : InterruptCall} (hc : c.onTimers = false)
    (h : c.run k = .ok step) : CutsTimeouts k step.1 := by
  cases c with
  | tick | setTimer delay e | resetTimer id => cases hc
  | preempt => exact cutsTimeouts_return (fun _ hstep => .of_eq (preempt_timers hstep)) h
  | resume t => exact cutsTimeouts_return (fun _ => resume_cutsTimeouts) h
  | signal s => exact cutsTimeouts_return (fun _ => signal_cutsTimeouts) h
  | resetSemaphore s count => exact cutsTimeouts_return (fun _ => resetSemaphore_cutsTimeouts) h
  | signalCondition c => exact cutsTimeouts_return (fun _ => wakeFirst_cutsTimeouts) h
  | broadcast c => exact cutsTimeouts_return (fun _ => wakeUpTo_cutsTimeouts) h
  | resetMailbox b => exact cutsTimeouts_return (fun _ => resetMailbox_cutsTimeouts) h
  | tryLock m =>
      obtain ⟨⟨locked, k₁⟩, hlock, h⟩ := bind_eq_ok.mp h
      rw [← Except.ok.inj h]
      exact .of_eq (tryLock_timers hlock)
  | post b msg ahead =>
      obtain ⟨⟨e, k₁⟩, hpost, h⟩ := bind_eq_ok.mp h
      rw [← Except.ok.inj h]
      exact postNow_cutsTimeouts hpost
  | fetch b =>
      obtain ⟨⟨e, k₁⟩, hfetch, h⟩ := bind_eq_ok.mp h
      rw [← Except.ok.inj h]
      exact fetchNow_cutsTimeouts hfetch

theorem operation_keepsTimers {c : Operation} (hc : c.onTimers = false)
    (h : c.run k = .ok step) : TimersKept k step.1 := by
  cases c with
  | tick | setTimer delay e | resetTimer id => cases hc
  | join t => exact .of_eq (join_timers h)
  | sleep ticks => exact sleep_keepsTimers h
  | sleepUntil deadline => exact sleepUntil_keepsTimers h
  | suspend timeout => exact suspend_keepsTimers h
  | setPriority p => exact .of_eq (setPriority_timers h)
  | signalAndWait s₁ s₂ => exact (signalAndWait_cutsTimeouts h).kept
  | waitCondition c m timeout => exact waitCondition_keepsTimers h
  | post b msg ahead timeout => exact post_keepsTimers h
  | fetch b timeout => exact fetch_keepsTimers h
  | tryLock m => exact (interrupt_cutsTimeouts (c := .tryLock m) rfl h).kept
  | yieldTurn =>
      exact (cutsTimeouts_return (fun _ hstep => .of_eq (yieldTurn_timers hstep)) h).kept
  | resume t => exact (cutsTimeouts_finish (fun _ => resume_cutsTimeouts) h).kept
  | signal s => exact (cutsTimeouts_finish (fun _ => signal_cutsTimeouts) h).kept
  | resetSemaphore s count =>
      exact (cutsTimeouts_finish (fun _ => resetSemaphore_cutsTimeouts) h).kept
  | unlock m => exact (cutsTimeouts_finish (fun _ => release_cutsTimeouts) h).kept
  | unlockAll => exact (cutsTimeouts_finish (fun _ => releaseUpTo_cutsTimeouts) h).kept
  | signalCondition c => exact (cutsTimeouts_finish (fun _ => wakeFirst_cutsTimeouts) h).kept
  | broadcast c => exact (cutsTimeouts_finish (fun _ => wakeUpTo_cutsTimeouts) h).kept
  | resetMailbox b => exact (cutsTimeouts_finish (fun _ => resetMailbox_cutsTimeouts) h).kept
  | requestTerminate t =>
      rw [← Except.ok.inj h]
      exact .of_eq rfl
  | createMutex =>
      rw [← Except.ok.inj h]
      exact .of_eq createMutex_timers
  | createCondVar =>
      rw [← Except.ok.inj h]
      exact .of_eq createCondVar_timers
  | createSemaphore count =>
      obtain ⟨⟨made, k₁⟩, hcreate, h⟩ := bind_eq_ok.mp h
      rw [← Except.ok.inj h]
      exact .of_eq (createSemaphore_timers hcreate)
  | createMailbox capacity =>
      obtain ⟨⟨made, k₁⟩, hcreate, h⟩ := bind_eq_ok.mp h
      rw [← Except.ok.inj h]
      exact .of_eq (createMailbox_timers hcreate)
  | waitSemaphore s timeout =>
      obtain ⟨wait, hwait, h⟩ := bind_eq_ok.mp h
      rw [← Except.ok.inj h, thenAnswer_kernel]
      exact (waitUnit_keepsTimers hwait).kept
  | lock m =>
      obtain ⟨step', hlock, h⟩ := bind_eq_ok.mp h
      have htimers := lock_timers hlock
      rw [← Except.ok.inj h]
      exact .of_eq htimers

/-- What the kernel goes on with, but for the timers that are due. -/
theorem frameStep_cutsTimeouts {f : Frame} (hf : f ≠ .fire) (h : frameStep k f = .ok step) :
    CutsTimeouts k step.1 := by
  cases f with
  | fire => exact absurd rfl hf
  | start => exact cutsTimeouts_return (fun _ => exit_cutsTimeouts) h
  | preempt => exact cutsTimeouts_return (fun _ hstep => .of_eq (preempt_timers hstep)) h
  | relock m => exact .of_eq (relock_timers h)
  | store b epoch msg ahead => exact storeAfter_cutsTimeouts h
  | fetch b epoch => exact fetchAfter_cutsTimeouts h
  | awake =>
      rw [awake_ok h]
      exact .refl k
  | locked m =>
      rw [locked_ok h]
      exact .refl k
  | _ =>
      rw [← Except.ok.inj h]
      exact .of_eq rfl

/-! Threads that are created, and the kernel brought up. -/

theorem create_timers {name : String} {p : Priority} {e : Entry}
    {made : Except KernelError ThreadId} (h : x.create name p e = .ok (made, y)) :
    y.kernel.timers = x.kernel.timers := by
  rcases create_ok h with ⟨err, -, -, hsame | ⟨t, -, hsame⟩⟩ | ⟨t, -, -, -, hsame⟩ <;> rw [hsame]
  · rfl
  · rfl

theorem spawn_cutsTimeouts {name : String} {p : Priority} {e : Routine}
    (h : x.spawn name p e = .ok y) : CutsTimeouts x.kernel y.kernel := by
  unfold spawn at h
  split at h
  · cases h
  · obtain ⟨⟨made, x₁⟩, hcreate, h⟩ := bind_eq_ok.mp h
    refine CutsTimeouts.of_before ?_ (create_timers hcreate)
    obtain ⟨frames, hstep, -⟩ := perform_ok h
    cases made with
    | error err =>
        rw [(Prod.mk.inj (Except.ok.inj hstep)).1]
        exact .refl _
    | ok t =>
        obtain ⟨k₁, hready, hstep⟩ := bind_eq_ok.mp hstep
        exact (ready_cutsTimeouts hready).trans
          (cutsTimeouts_return (fun _ hpreempt => .of_eq (preempt_timers hpreempt)) hstep)

theorem boot_cutsTimeouts (h : x.boot = .ok y) : CutsTimeouts x.kernel y.kernel := by
  unfold boot at h
  split at h
  · rw [← Except.ok.inj h]
    exact .refl x.kernel
  · rename_i k hboot
    obtain ⟨⟨made, x₁⟩, hcreate, h⟩ := bind_eq_ok.mp h
    have htimers : k.timers = x.kernel.timers := by
      unfold Kernel.boot at hboot
      split at hboot
      · cases hboot
      · split at hboot
        · cases hboot
        · rw [← Except.ok.inj hboot]
          rfl
    refine CutsTimeouts.of_before ?_ ((create_timers hcreate).trans htimers)
    obtain ⟨frames, hstep, -⟩ := perform_ok h
    cases made with
    | error err =>
        rw [(Prod.mk.inj (Except.ok.inj hstep)).1]
        exact .refl _
    | ok t =>
        obtain ⟨k₁, hready, hstep⟩ := bind_eq_ok.mp hstep
        have hkept := (ready_cutsTimeouts hready).of_before (k := x₁.kernel) rfl
        rw [← (Prod.mk.inj (Except.ok.inj hstep)).1]
        exact hkept.trans (.of_eq rfl)

/-! Moves that are about timers. -/

theorem arms_eq_true : r.arms s = true ↔ ∃ id, r.starts? = some id ∧ id.slot = s := by
  simp [Record.arms]

theorem arms_of_none (starts : r.starts? = none) (s : TimerSlot) : r.arms s = false := by
  simp [Record.arms, starts]

theorem ends_of_none (fires : r.fires? = none) (stops : r.stops? = none) (s : TimerSlot) :
    r.ends s = false := by
  simp [Record.ends, fires, stops]

theorem setTimer_answers {delay : Delay} {e : Routine} {frames : List Frame}
    (h : InterruptCall.run k (.setTimer delay e) = .ok (k', frames)) :
    ∃ made, k.setTimer delay e = .ok (made, k') ∧ frames = [.answer (.timer made)] := by
  obtain ⟨⟨made, k₁⟩, hset, h⟩ := bind_eq_ok.mp h
  obtain ⟨rfl, rfl⟩ := Prod.mk.inj (Except.ok.inj h)
  exact ⟨made, hset, rfl⟩

theorem starts_setTimer {delay : Delay} {e : Routine} {made : Except KernelError TimerId}
    {rest : List Frame}
    (hm : m = .call (.operation (.setTimer delay e)) ∨ m = .interrupt (.setTimer delay e))
    (hleft : y.framesOf x.kernel.current = [.answer (.timer made)] ++ rest) :
    Record.starts? ⟨x, m, y⟩ = made.toOption := by
  unfold Record.starts? Record.left
  dsimp only
  rw [hleft]
  rcases hm with rfl | rfl <;> cases made <;> rfl

/-- A timer is started, or there is no slot left for it. -/
theorem setTimer_timersGo {delay : Delay} {e : Routine} {made : Except KernelError TimerId}
    (h : x.kernel.setTimer delay e = .ok (made, y.kernel)) (tick : Record.isTick ⟨x, m, y⟩ = false)
    (starts : Record.starts? ⟨x, m, y⟩ = made.toOption) (stops : Record.stops? ⟨x, m, y⟩ = none)
    (fires : Record.fires? ⟨x, m, y⟩ = none) : TimersGo ⟨x, m, y⟩ := by
  rcases setTimer_ok h with ⟨rfl, -, hsame⟩ | ⟨slot, timers, rfl, hslot, harm, hsame⟩
  · exact .of_kept tick starts stops fires (.of_eq (congrArg Kernel.timers hsame))
  · have htimers : y.kernel.timers = timers := congrArg Kernel.timers hsame
    have harms : ∀ s, Record.arms s ⟨x, m, y⟩ = decide (s = slot) := by
      intro s
      simp [Record.arms, starts, Except.toOption, eq_comm]
    refine ⟨.adjusts tick fires ?_, ?_, ?_, ?_⟩
    · rw [htimers]
      exact .arms .refl trivial harm
    · intro id hid
      rw [starts] at hid
      rw [← Option.some.inj hid, htimers]
      exact ⟨TimerQueue.isArmed_of_arm harm, rfl⟩
    · intro s hs
      rw [htimers, TimerQueue.isArmed_arm harm, harms, ends_of_none fires stops]
      by_cases heq : s = slot <;> simp [heq]
    · intro s hs
      rw [htimers, TimerQueue.generation_arm harm, harms]
      by_cases heq : s = slot <;> simp [heq]

/-- A timer is stopped. -/
theorem resetTimer_timersGo (h : x.kernel.resetTimer id = .ok y.kernel)
    (tick : Record.isTick ⟨x, m, y⟩ = false) (starts : Record.starts? ⟨x, m, y⟩ = none)
    (stops : Record.stops? ⟨x, m, y⟩ = some id) (fires : Record.fires? ⟨x, m, y⟩ = none) :
    TimersGo ⟨x, m, y⟩ := by
  obtain ⟨-, timers, hdisarm, hsame⟩ := resetTimer_ok h
  have htimers : y.kernel.timers = timers := congrArg Kernel.timers hsame
  have hends : ∀ s, Record.ends s ⟨x, m, y⟩ = decide (s = id.slot) := by
    intro s
    simp [Record.ends, stops, fires, eq_comm]
  refine ⟨.adjusts tick fires (.cuts ?_), ?_, ?_, ?_⟩
  · rw [htimers]
    exact .single trivial (TimerQueue.cancel_of_disarm hdisarm)
  · rw [starts]
    exact nofun
  · intro s hs
    rw [htimers, TimerQueue.isArmed_disarm hdisarm, arms_of_none starts, hends]
    by_cases heq : s = id.slot <;> simp [heq]
  · intro s hs
    rw [htimers, TimerQueue.generation_disarm hdisarm, arms_of_none starts]
    rfl

/-- A tick brings all timers nearer. -/
theorem tick_timersGo (h : x.kernel.beginTick = .ok y.kernel)
    (tick : Record.isTick ⟨x, m, y⟩ = true) (starts : Record.starts? ⟨x, m, y⟩ = none)
    (stops : Record.stops? ⟨x, m, y⟩ = none) (fires : Record.fires? ⟨x, m, y⟩ = none) :
    TimersGo ⟨x, m, y⟩ := by
  obtain ⟨clock, timers, -, hadvance, hsame⟩ := beginTick_ok h
  have htimers : y.kernel.timers = timers := congrArg Kernel.timers hsame
  refine ⟨.advances tick fires ?_, ?_, fun s _ => ?_, fun s _ => ?_⟩
  · rw [htimers]
    exact hadvance
  · rw [starts]
    exact nofun
  · rw [htimers, TimerQueue.isArmed_advance hadvance, arms_of_none starts, ends_of_none fires stops]
    rfl
  · rw [htimers, TimerQueue.generation_advance hadvance, arms_of_none starts]
    rfl

/-- The timer that is due is taken out, and so is no other one. -/
theorem fire_timersGo (h : x.kernel.fire = .ok step) (hstep : y.kernel = step.1)
    (tick : Record.isTick ⟨x, m, y⟩ = false) (starts : Record.starts? ⟨x, m, y⟩ = none)
    (stops : Record.stops? ⟨x, m, y⟩ = none)
    (fires : Record.fires? ⟨x, m, y⟩ = x.kernel.timers.due?) : TimersGo ⟨x, m, y⟩ := by
  have hpop : ∃ o timers, x.kernel.timers.popExpired = (o, timers) ∧
      CutsTimeouts { x.kernel with timers } y.kernel := by
    obtain ⟨timers, ⟨hpop, rfl⟩ | ⟨t, k', hpop, htimeOut, rfl⟩ | ⟨e, hpop, rfl⟩⟩ := fire_ok h
    · exact ⟨_, timers, hpop, .of_eq (congrArg Kernel.timers hstep)⟩
    · exact ⟨_, timers, hpop, hstep ▸ timeOut_cutsTimeouts htimeOut⟩
    · exact ⟨_, timers, hpop, .of_eq (congrArg Kernel.timers hstep)⟩
  obtain ⟨o, timers, hpop, hcuts⟩ := hpop
  have hends : ∀ s, Record.ends s ⟨x, m, y⟩ = decide (x.kernel.timers.due? = some s) := by
    intro s
    simp [Record.ends, stops, fires]
  refine ⟨.fires tick fires hpop (hcuts.mono fun _ _ => trivial), ?_, ?_, ?_⟩
  · rw [starts]
    exact nofun
  · intro s hs
    have harmed := TimerQueue.isArmed_popExpired hpop s
    rw [hcuts.kept.armed s hs, arms_of_none starts, hends]
    by_cases hdue : x.kernel.timers.due? = some s <;> simpa [hdue] using harmed
  · intro s hs
    rw [hcuts.kept.generation s hs, arms_of_none starts]
    exact TimerQueue.generation_popExpired hpop s

/-- What any move does to the timers of the application. -/
theorem move_timersGo (hallows : x.allows m = true) (hmove : x.move m = .ok y) :
    TimersGo ⟨x, m, y⟩ := by
  cases m with
  | call c =>
      cases c with
      | boot => exact .of_kept rfl rfl rfl rfl (boot_cutsTimeouts hmove).kept
      | spawn name p e => exact .of_kept rfl rfl rfl rfl (spawn_cutsTimeouts hmove).kept
      | exit msg =>
          have hexit : x.exit msg = .ok y := hmove
          obtain ⟨frames, hstep, -⟩ := perform_ok hexit
          have hcuts := cutsTimeouts_return (fun _ => exit_cutsTimeouts) hstep
          exact .of_kept rfl rfl rfl rfl hcuts.kept
      | operation c =>
          obtain ⟨frames, hstep, hleft⟩ := operation_step hmove
          cases c with
          | tick =>
              obtain ⟨k₁, hbegin, hstep⟩ := bind_eq_ok.mp hstep
              rw [(Prod.mk.inj (Except.ok.inj hstep)).1] at hbegin
              exact tick_timersGo hbegin rfl rfl rfl rfl
          | setTimer delay e =>
              obtain ⟨made, hset, rfl⟩ := setTimer_answers hstep
              refine setTimer_timersGo hset rfl ?_ rfl rfl
              exact starts_setTimer (Or.inl rfl) hleft
          | resetTimer id =>
              obtain ⟨k₁, hreset, hstep⟩ := bind_eq_ok.mp hstep
              rw [(Prod.mk.inj (Except.ok.inj hstep)).1] at hreset
              exact resetTimer_timersGo hreset rfl rfl rfl rfl
          | _ => exact .of_kept rfl rfl rfl rfl (operation_keepsTimers rfl hstep)
  | interrupt c =>
      obtain ⟨frames, hstep, hleft⟩ := interrupt_step hmove
      cases c with
      | tick =>
          obtain ⟨k₁, hbegin, hstep⟩ := bind_eq_ok.mp hstep
          rw [(Prod.mk.inj (Except.ok.inj hstep)).1] at hbegin
          exact tick_timersGo hbegin rfl rfl rfl rfl
      | setTimer delay e =>
          obtain ⟨made, hset, rfl⟩ := setTimer_answers hstep
          refine setTimer_timersGo hset rfl ?_ rfl rfl
          exact starts_setTimer (Or.inr rfl) hleft
      | resetTimer id =>
          obtain ⟨k₁, hreset, hstep⟩ := bind_eq_ok.mp hstep
          rw [(Prod.mk.inj (Except.ok.inj hstep)).1] at hreset
          exact resetTimer_timersGo hreset rfl rfl rfl rfl
      | _ => exact .of_kept rfl rfl rfl rfl (interrupt_cutsTimeouts rfl hstep).kept
  | advance =>
      obtain ⟨f, rest, hframes, -⟩ := allows_advance hallows
      obtain ⟨frames, hstep, -⟩ := advance_step hframes hmove
      by_cases hf : f = .fire
      · subst hf
        refine fire_timersGo hstep rfl rfl rfl rfl ?_
        unfold Record.fires?
        dsimp only
        rw [hframes]
      · refine .of_kept rfl rfl rfl ?_ (frameStep_cutsTimeouts hf hstep).kept
        unfold Record.fires?
        dsimp only
        rw [hframes]
        cases f <;> first | rfl | exact absurd rfl hf
  | enter =>
      obtain rfl := Except.ok.inj hmove
      refine .of_kept rfl rfl rfl rfl (.of_eq ?_)
      change x.enter.kernel.timers = _
      unfold enter
      split <;> rfl
  | _ =>
      obtain rfl := Except.ok.inj hmove
      exact .of_kept rfl rfl rfl rfl (.of_eq rfl)

/-! Runs. -/

theorem Arises.uncons (hr : Arises (r :: h) x) : Arises h r.before ∧
    r.before.allows r.move = true ∧ r.before.move r.move = .ok r.after ∧ r.after = x := by
  cases hr with
  | move hr hallows hmove => exact ⟨hr, hallows, hmove, rfl⟩

theorem Arises.earlier (hr : Arises (later ++ h) x) : ∃ y, Arises h y := by
  induction later generalizing x with
  | nil => exact ⟨x, hr⟩
  | cons r later ih => exact ih hr.uncons.1

/-- A kernel that is brought up was not up before. -/
theorem Reaches.arises (hr : Reaches h x) : ∃ r, Arises (h ++ [r]) x := by
  induction hr with
  | @boot x hb =>
      obtain ⟨config, platform, hboot, -⟩ := hb
      have hallows : (fresh config platform).allows (.call .boot) = true := rfl
      exact ⟨_, (Arises.fresh config platform).move hallows hboot⟩
  | move _ hallows hmove ih =>
      obtain ⟨r, hx⟩ := ih
      exact ⟨r, hx.move hallows hmove⟩

theorem Arises.sound (hr : Arises h x) : x.kernel.timers.Sound := by
  induction hr with
  | fresh config platform => exact TimerQueue.sound_empty _ _
  | move _ hallows hmove ih => exact (move_timersGo hallows hmove).turns.sound ih

theorem Reaches.in_time (hr : Reaches h x) : x.kernel.timers.Sound := by
  obtain ⟨r, harises⟩ := hr.arises
  exact harises.sound

theorem Arises.timersGo (hr : Arises (r :: h) x) : TimersGo r := by
  obtain ⟨-, hallows, hmove, -⟩ := hr.uncons
  exact move_timersGo hallows hmove

theorem armings_cons (s : TimerSlot) (r : Record) (h : History) :
    armings s (r :: h) = armings s h + if r.arms s then 1 else 0 := List.countP_cons

/-- The slot of a timer that was started has as many more timers behind it as were started in it
since, and a timer now as long as the last one of them is to come. -/
theorem Arises.slot (hr : Arises (later ++ r :: h) x) (hid : r.starts? = some id) :
    x.kernel.timers.isArmed id.slot = occupied id.slot later ∧
      x.kernel.timers.generation id.slot = id.generation + .ofNat (armings id.slot later) := by
  induction later generalizing x with
  | nil =>
      obtain ⟨-, -, hmove, rfl⟩ := hr.uncons
      have hgo := hr.timersGo
      have hslot := slot_of_starts hmove hid
      have harms : r.arms id.slot = true := arms_eq_true.mpr ⟨id, hid, rfl⟩
      refine ⟨?_, ?_⟩
      · rw [hgo.armed _ hslot, harms]
        rfl
      · rw [(hgo.started id hid).2]
        exact (UInt16.add_zero _).symm
  | cons r' later ih =>
      obtain ⟨hbefore, -, hmove, rfl⟩ := hr.uncons
      obtain ⟨harmed, hgeneration⟩ := ih hbefore
      have hgo := hr.timersGo
      obtain ⟨y, hy⟩ := hbefore.earlier
      have hslot := slot_of_starts hy.uncons.2.2.1 hid
      refine ⟨?_, ?_⟩
      · rw [hgo.armed _ hslot, harmed]
        rfl
      · rw [hgo.generation _ hslot, hgeneration, armings_cons]
        split
        · rw [UInt16.ofNat_add, UInt16.add_assoc]
          rfl
        · rfl

/-- While its timer is to come no other one is started in a slot. -/
theorem Arises.pending_iff (hr : Arises (later ++ r :: h) x) (hid : r.starts? = some id) :
    Pending id.slot later ↔ occupied id.slot later = true ∧ armings id.slot later = 0 := by
  induction later generalizing x with
  | nil => exact iff_of_true (fun _ hmem => absurd hmem List.not_mem_nil) ⟨rfl, rfl⟩
  | cons r' later ih =>
      obtain ⟨hbefore, -⟩ := hr.uncons
      have hiff := ih hbefore
      constructor
      · intro hpending
        obtain ⟨hends, hpending⟩ := List.forall_mem_cons.mp hpending
        obtain ⟨hoccupied, hzero⟩ := hiff.mp hpending
        have harms : r'.arms id.slot = false := by
          rw [Bool.eq_false_iff]
          intro harms
          obtain ⟨id', hid', hslot⟩ := arms_eq_true.mp harms
          have hfree := (hr.timersGo.started id' hid').1
          rw [hslot, (hbefore.slot hid).1, hoccupied] at hfree
          cases hfree
        refine ⟨?_, ?_⟩
        · rw [occupied, hends, hoccupied, harms]
          rfl
        · rw [armings_cons, hzero, harms]
          rfl
      · rintro ⟨hoccupied, hzero⟩
        rw [armings_cons] at hzero
        have harms : r'.arms id.slot = false := by
          rw [Bool.eq_false_iff]
          intro harms
          rw [harms] at hzero
          exact Nat.succ_ne_zero _ hzero
        rw [occupied, harms, Bool.false_or, Bool.and_eq_true, Bool.not_eq_true'] at hoccupied
        have hpending := hiff.mpr ⟨hoccupied.2, Nat.eq_zero_of_add_eq_zero_right hzero⟩
        exact List.forall_mem_cons.mpr ⟨hoccupied.1, hpending⟩

theorem generation_eq_iff (g : UInt16) (n : Nat) : g + .ofNat n = g ↔ n % 65536 = 0 := by
  rw [← UInt16.toNat_inj, UInt16.toNat_add, UInt16.toNat_ofNat']
  have := g.toNat_lt
  omega

/-- An id stands for every 65536th timer of its slot from its own one on. -/
theorem Arises.isTimerArmed_iff (hr : Arises (later ++ r :: h) x) (hid : r.starts? = some id) :
    x.kernel.isTimerArmed id = true ↔
      occupied id.slot later = true ∧ armings id.slot later % 65536 = 0 := by
  obtain ⟨harmed, hgeneration⟩ := hr.slot hid
  rw [isTimerArmed, harmed, hgeneration, Bool.and_eq_true, beq_iff_eq, generation_eq_iff]

/-- A timer id stands for its own timer and for no other one, as long as its slot does not hold the
65536th timer after that, the 131072nd, and so on. -/
theorem arises_names (hr : Arises (later ++ r :: h) x) (hid : r.starts? = some id)
    (hround : occupied id.slot later = true → armings id.slot later % 65536 = 0 →
      armings id.slot later = 0) : Names later id x.kernel := by
  have harmed : x.kernel.isTimerArmed id = true ↔ Pending id.slot later := by
    rw [hr.isTimerArmed_iff hid, hr.pending_iff hid]
    constructor
    · rintro ⟨hoccupied, hmod⟩
      exact ⟨hoccupied, hround hoccupied hmod⟩
    · rintro ⟨hoccupied, hzero⟩
      exact ⟨hoccupied, by rw [hzero]⟩
  refine ⟨harmed, ?_, ?_, ?_⟩
  · rw [timerRemaining_isSome hr.sound, harmed]
  · intro hpending
    obtain ⟨timers, hreset, hfree, hothers⟩ := exists_resetTimer hr.sound (harmed.mpr hpending)
    refine ⟨_, hreset, ?_, hothers⟩
    rw [isTimerArmed, hfree]
    rfl
  · intro hnot
    exact resetTimer_stale (Bool.eq_false_iff.mpr fun htrue => hnot (harmed.mp htrue))

/-! Playing moves from the start. -/

/-- What comes of moves of an execution. -/
def trace (x : Execution) (ms : List Move) : History × Execution := (play ms [] x).getD ([], x)

theorem trace_induction {P : History → Execution → Prop} {ms : List Move}
    (step : ∀ {h x y m}, P h x → x.allows m = true → x.move m = .ok y → P (⟨x, m, y⟩ :: h) y)
    (hx : P [] x) (hp : (play ms [] x).isSome = true) : P (trace x ms).1 (trace x ms).2 := by
  unfold trace
  cases hplay : play ms [] x with
  | none =>
      rw [hplay] at hp
      cases hp
  | some p => exact play_induction step hx hplay

theorem Arises.trace {ms : List Move} (hr : Arises h x)
    (hp : (play ms [] x).isSome = true) :
    Arises ((trace x ms).1 ++ h) (trace x ms).2 :=
  trace_induction (P := fun l y => Arises (l ++ h) y)
    (fun hx hallows hmove => hx.move hallows hmove) hr hp

/-- A timer is started, stopped and followed by another one in its slot. -/
def starting : Record :=
  let x := fresh .standard fun _ => .ok ()
  let m := .call (.operation (.setTimer ((Delay.ofTicks? 5).get rfl) "first"))
  ⟨x, m, (trace x [m]).2⟩

def restarting : List Move :=
  [.takeAnswer, .call (.operation (.resetTimer ⟨16, 1⟩)), .takeAnswer,
    .call (.operation (.setTimer ((Delay.ofTicks? 9).get rfl) "second")), .takeAnswer]

theorem names_restarting :
    Arises ((trace starting.after restarting).1 ++ starting :: [])
      (trace starting.after restarting).2 ∧
      starting.starts? = some ⟨16, 1⟩ ∧ armings 16 (trace starting.after restarting).1 = 1 ∧
      Names (trace starting.after restarting).1 ⟨16, 1⟩
        (trace starting.after restarting).2.kernel :=
  have hstart : Arises [starting] starting.after :=
    (Arises.fresh .standard fun _ => .ok ()).move rfl rfl
  have hr := hstart.trace (by decide +kernel)
  have hid : starting.starts? = some ⟨16, 1⟩ := by decide +kernel
  have hone : armings 16 (trace starting.after restarting).1 = 1 := by decide +kernel
  ⟨hr, hid, hone, arises_names hr hid fun _ hmod => by rw [hone] at hmod; cases hmod⟩

/-! Slots that come round. -/

/-- An operation that only answers comes back to the code that called it. -/
theorem Arises.answers {c : Operation} {a : Answer} (hr : Arises h x) (hframes : x.frames = [])
    (hexist : c.handlesExist x.kernel = true) (hrun : c.run x.kernel = .ok (k, [.answer a]))
    (hcurrent : k.current = x.kernel.current) :
    ∃ y z, Arises (⟨y, .takeAnswer, z⟩ :: ⟨x, .call (.operation c), y⟩ :: h) z ∧
      y.framesOf x.kernel.current = [.answer a] ∧ y.kernel = k ∧ z.kernel = k ∧ z.frames = [] := by
  have hcode : x.turn = .code := by
    unfold turn
    rw [hframes]
  have hcall : x.allows (.call (.operation c)) = true := by
    unfold allows
    rw [hcode]
    exact hexist
  let y : Execution := { x.setFrames ([.answer a] ++ x.frames) with kernel := k }
  have hmove : x.move (.call (.operation c)) = .ok y := by
    change x.perform x.frames c.run = .ok y
    unfold perform
    dsimp only
    rw [hrun]
    rfl
  have hleft : y.framesOf x.kernel.current = [.answer a] := by
    change (x.setFrames ([.answer a] ++ x.frames)).framesOf x.kernel.current = _
    rw [framesOf_setFrames, if_pos rfl, hframes]
    rfl
  have hmine : y.frames = [.answer a] := by
    change y.framesOf k.current = _
    rw [hcurrent, hleft]
  have htake : y.allows .takeAnswer = true := by
    unfold allows turn
    rw [hmine]
  refine ⟨y, y.dropFrame, (hr.move hcall hmove).move htake rfl, hleft, rfl, rfl, ?_⟩
  change y.dropFrame.framesOf y.kernel.current = []
  rw [dropFrame, framesOf_setFrames, if_pos rfl, hmine]
  rfl

/-- Application code is about to go on, and the first slot for its timers is free. -/
structure Vacant (h : History) (x : Execution) : Prop where
  arises : Arises h x
  code : x.frames = []
  free : x.kernel.timers.isArmed 16 = false

theorem Vacant.freeTimerSlot (hv : Vacant h x) : x.kernel.freeTimerSlot? = some 16 := by
  unfold freeTimerSlot?
  rw [List.find?_eq_some_iff_append]
  refine ⟨by rw [hv.free]; rfl, (List.finRange timerSlots).take 16,
    (List.finRange timerSlots).drop 17, by decide, ?_⟩
  intro s hs
  have hlt : ¬ maxThreads ≤ s.val := by
    revert s
    decide
  simp [hlt]

/-- A timer is started in the first slot. -/
theorem Vacant.start (hv : Vacant h x) : ∃ r y z id, Arises (⟨y, .takeAnswer, z⟩ :: r :: h) z ∧
    r.starts? = some id ∧ id.slot = 16 ∧ z.frames = [] ∧ z.kernel.isTimerArmed id = true := by
  obtain ⟨timers, id, hset, hslot, harmed⟩ :=
    exists_setTimer hv.arises.sound hv.freeTimerSlot ⟨1, by decide, by decide⟩ "again"
  have hrun : Operation.run x.kernel (.setTimer ⟨1, by decide, by decide⟩ "again") =
      .ok ({ x.kernel with timers }, [.answer (.timer (.ok id))]) := by
    change (x.kernel.setTimer _ _ >>= fun p => .ok (p.2, [.answer (.timer p.1)]) : Outcome Step) = _
    rw [hset]
    rfl
  obtain ⟨y, z, hz, hleft, -, hkernel, hcode⟩ := hv.arises.answers hv.code rfl hrun rfl
  refine ⟨_, y, z, id, hz, starts_setTimer (Or.inl rfl) (hleft.trans rfl), hslot, hcode, ?_⟩
  rw [hkernel]
  exact harmed

/-- A timer is started in the first slot and stopped again. -/
theorem Vacant.cycle (hv : Vacant h x) : ∃ later r z id, Vacant (later ++ r :: h) z ∧
    r.starts? = some id ∧ id.slot = 16 ∧ armings 16 later = 0 ∧ ¬ Pending 16 later := by
  obtain ⟨r, y, z, id, hz, hid, hslot, hcode, harmed⟩ := hv.start
  obtain ⟨timers, hreset, hfree, -⟩ := exists_resetTimer hz.sound harmed
  have hrun : Operation.run z.kernel (.resetTimer id) =
      .ok ({ z.kernel with timers }, [.answer .unit]) := by
    change (do return (← z.kernel.resetTimer id, [.answer .unit]) : Outcome Step) = _
    rw [hreset]
    rfl
  obtain ⟨y', z', hz', -, -, hkernel, hcode'⟩ := hz.answers hcode rfl hrun rfl
  refine ⟨[⟨y', .takeAnswer, z'⟩, ⟨z, .call (.operation (.resetTimer id)), y'⟩,
    ⟨y, .takeAnswer, z⟩], r, z', id, ⟨hz', hcode', ?_⟩, hid, hslot, rfl, ?_⟩
  · rw [hkernel, ← hslot]
    exact hfree
  · intro hpending
    have hends := hpending _ (List.mem_cons_of_mem _ List.mem_cons_self)
    rw [← hslot] at hends
    simp [Record.ends, Record.stops?] at hends

/-- The first slot has as many timers as one likes, one after the other. -/
theorem Vacant.churn (hv : Vacant h x) (n : Nat) :
    ∃ later z, Vacant (later ++ h) z ∧ armings 16 later = n := by
  induction n with
  | zero => exact ⟨[], x, hv, rfl⟩
  | succ n ih =>
      obtain ⟨later, z, hz, hn⟩ := ih
      obtain ⟨later', r, z', id, hz', hid, hslot, hzero, -⟩ := hz.cycle
      refine ⟨later' ++ r :: later, z', ?_, ?_⟩
      · rw [List.append_assoc]
        exact hz'
      · have hone : r.arms 16 = true := arms_eq_true.mpr ⟨id, hid, hslot⟩
        rw [armings, List.countP_append]
        change armings 16 later' + armings 16 (r :: later) = _
        rw [hzero, armings_cons, hone, hn]
        exact Nat.zero_add _

/-- A timer id may come to stand for another timer: one that is started 65536 timers later in the
same slot. -/
theorem not_names_forever : ¬ ∀ (later h : History) (r : Record) (id : TimerId) (x : Execution),
    Arises (later ++ r :: h) x → r.starts? = some id → Names later id x.kernel := by
  intro hall
  have hfresh : Vacant [] (fresh .standard fun _ => .ok ()) :=
    ⟨.fresh .standard fun _ => .ok (), rfl, rfl⟩
  obtain ⟨ended, r, x, id, hx, hid, hslot, hzero, hended⟩ := hfresh.cycle
  obtain ⟨churned, y, hy, hn⟩ := hx.churn 65535
  obtain ⟨r', y', z, id', hz, hid', hslot', -, -⟩ := hy.start
  let later : History := ⟨y', .takeAnswer, z⟩ :: r' :: (churned ++ ended)
  have hr : Arises (later ++ r :: []) z := by
    rw [← List.append_assoc] at hz
    exact hz
  have harms : r'.arms 16 = true := arms_eq_true.mpr ⟨id', hid', hslot'⟩
  have hcount : armings 16 later = 65536 := by
    change armings 16 (⟨y', .takeAnswer, z⟩ :: r' :: (churned ++ ended)) = _
    rw [armings_cons, armings_cons, harms, armings, List.countP_append]
    change armings 16 churned + armings 16 ended + 1 + 0 = _
    rw [hn, hzero]
  have hoccupied : occupied 16 later = true := by
    change occupied 16 (⟨y', .takeAnswer, z⟩ :: r' :: (churned ++ ended)) = true
    rw [occupied, occupied, harms]
    rfl
  have harmed : z.kernel.isTimerArmed id = true := by
    rw [hr.isTimerArmed_iff hid, hslot, hcount]
    exact ⟨hoccupied, rfl⟩
  have hpending := (hall later [] r id z hr hid).armed_iff.mp harmed
  rw [hslot] at hpending
  refine hended fun r₁ hmem => hpending r₁ ?_
  exact List.mem_cons_of_mem _ (List.mem_cons_of_mem _ (List.mem_append_right _ hmem))

end Execution

end RealtimeKernel

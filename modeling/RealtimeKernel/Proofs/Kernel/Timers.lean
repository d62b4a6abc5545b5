import RealtimeKernel.Kernel.CondVar
import RealtimeKernel.Kernel.Lifecycle
import RealtimeKernel.Kernel.Mailbox
import RealtimeKernel.Kernel.Timer
import RealtimeKernel.Proofs.TimerQueue.Adjustments
import RealtimeKernel.Proofs.Kernel.Waits

/-!
The timers of the application, which have the slots past those of the threads. No operation but
those on timers reaches them, whatever the kernel looks like otherwise: all that the others do to
the queue of timers is to arm and to cancel timeouts.
-/
namespace RealtimeKernel

/-- The kernel that a wait leaves. -/
def Wait.kernel : Wait → Kernel
  | .over _ k => k
  | .blocked _ k => k

namespace Kernel
variable {k k' k₁ : Kernel} {t : ThreadId} {q : QueueId} {r : WakeupResult} {s : SemaphoreId}
  {m : MutexId} {c : CondVarId} {b : MailboxId} {state : ThreadState} {timeout : Timeout}
  {step : Step} {wait : Wait} {msg : Msg} {ahead : Bool} {epoch : UInt32}

/-- Timeouts of threads are cancelled, and all other timers stay. -/
def CutsTimeouts (k k' : Kernel) : Prop :=
  TimerQueue.Cuts (fun s => s.val < maxThreads) k.timers k'.timers

/-- The timers of the application are those of before: timeouts of threads are cancelled, and then
one may be armed. -/
def TimersKept (k k' : Kernel) : Prop :=
  TimerQueue.Adjusts (fun s => s.val < maxThreads) k.timers k'.timers

namespace CutsTimeouts

theorem of_eq (h : k'.timers = k.timers) : CutsTimeouts k k' := by
  unfold CutsTimeouts
  rw [h]
  exact .refl

theorem refl (k : Kernel) : CutsTimeouts k k := of_eq rfl

theorem trans (h : CutsTimeouts k k₁) (h' : CutsTimeouts k₁ k') : CutsTimeouts k k' :=
  TimerQueue.Cuts.trans h h'

theorem of_before (h : CutsTimeouts k₁ k') (same : k₁.timers = k.timers) : CutsTimeouts k k' :=
  (of_eq same).trans h

theorem kept (h : CutsTimeouts k k') : TimersKept k k' := .cuts h

end CutsTimeouts

namespace TimersKept

theorem of_eq (h : k'.timers = k.timers) : TimersKept k k' := (CutsTimeouts.of_eq h).kept

theorem refl (k : Kernel) : TimersKept k k := of_eq rfl

theorem after (h : TimersKept k₁ k') (hcuts : CutsTimeouts k k₁) : TimersKept k k' :=
  TimerQueue.Adjusts.after h hcuts

theorem of_before (h : TimersKept k₁ k') (same : k₁.timers = k.timers) : TimersKept k k' :=
  h.after (.of_eq same)

theorem congr (h : TimersKept k k₁) (same : k'.timers = k₁.timers) : TimersKept k k' := by
  unfold TimersKept
  rw [same]
  exact h

theorem armed (h : TimersKept k k') (s : TimerSlot) (hs : maxThreads ≤ s.val) :
    k'.timers.isArmed s = k.timers.isArmed s := h.isArmed (Nat.not_lt.mpr hs)

theorem generation (h : TimersKept k k') (s : TimerSlot) (hs : maxThreads ≤ s.val) :
    k'.timers.generation s = k.timers.generation s :=
  TimerQueue.Adjusts.generation h (Nat.not_lt.mpr hs)

end TimersKept

/-- Only a wait that blocks its caller arms a timeout. -/
inductive KeepsTimers (k : Kernel) : Wait → Prop
  | returns {r : WakeupResult} {k' : Kernel} : CutsTimeouts k k' → KeepsTimers k (.over r k')
  | blocked {checks : List Frame} {k' : Kernel} : TimersKept k k' →
    KeepsTimers k (.blocked checks k')

theorem KeepsTimers.kept (h : KeepsTimers k wait) : TimersKept k wait.kernel := by
  cases h with
  | returns h => exact h.kept
  | blocked h => exact h

theorem KeepsTimers.of_before (h : KeepsTimers k₁ wait) (same : k₁.timers = k.timers) :
    KeepsTimers k wait := by
  cases h with
  | returns h => exact .returns (h.of_before same)
  | blocked h => exact .blocked (h.of_before same)

/-! Queues of threads, and the threads that come and go at them. -/

theorem relink_timers {f : Fault} {o : Option (ThreadQueue maxThreads × Links maxThreads)}
    (h : k.relink q f o = .ok k') : k'.timers = k.timers := by
  rw [relink_frame h]

theorem enqueue_timers (h : k.enqueue q t = .ok k') : k'.timers = k.timers := by
  unfold enqueue at h
  split at h
  · obtain ⟨k₁, hlink, h⟩ := bind_eq_ok.mp h
    have htimers := relink_timers hlink
    rw [← Except.ok.inj h]
    exact htimers
  · cases h

theorem unlink_timers (h : k.unlink t = .ok k') : k'.timers = k.timers := by
  unfold unlink at h
  split at h
  · rw [Except.ok.inj h]
  · obtain ⟨k₁, hunlink, h⟩ := bind_eq_ok.mp h
    have htimers := relink_timers hunlink
    rw [← Except.ok.inj h]
    exact htimers

theorem requeue_timers (h : k.requeue t = .ok k') : k'.timers = k.timers := by
  unfold requeue at h
  split at h
  · rw [Except.ok.inj h]
  · obtain ⟨k₁, hunlink, h⟩ := bind_eq_ok.mp h
    exact (relink_timers h).trans (relink_timers hunlink)

theorem dispatch_timers {source target : ThreadId} (h : k.dispatch source target = .ok k') :
    k'.timers = k.timers := by
  unfold dispatch at h
  dsimp only at h
  split at h
  · cases h
  · rw [← Except.ok.inj h]
    rfl

theorem giveWay_timers {ahead : Bool} (h : k.giveWay ahead = .ok k') : k'.timers = k.timers := by
  obtain ⟨⟨next, k₁⟩, hnext, h⟩ := bind_eq_ok.mp h
  obtain ⟨k₂, hrejoin, h⟩ := bind_eq_ok.mp h
  have htimers : k₂.timers = k₁.timers := by rw [rejoin_frame hrejoin]
  exact (dispatch_timers h).trans (htimers.trans (takeNext_timers hnext))

theorem preempt_timers (h : k.preempt = .ok k') : k'.timers = k.timers := by
  unfold preempt at h
  split at h
  · exact giveWay_timers h
  · rw [Except.ok.inj h]

theorem yieldTurn_timers (h : k.yieldTurn = .ok k') : k'.timers = k.timers := by
  unfold yieldTurn at h
  split at h
  · rw [Except.ok.inj h]
  · split at h
    · rw [Except.ok.inj h]
    · exact giveWay_timers h

theorem addUnit_timers (h : k.addUnit s = .ok k') : k'.timers = k.timers := by
  unfold addUnit at h
  dsimp only at h
  split at h
  · cases h
  · rw [← Except.ok.inj h]

theorem cancelWait_timers (h : k.cancelWait t = .ok k') : k'.timers = k.timers := by
  unfold cancelWait at h
  dsimp only at h
  split at h
  · obtain ⟨k₁, hadd, h⟩ := bind_eq_ok.mp h
    exact (unlink_timers h).trans (addUnit_timers hadd)
  · exact unlink_timers h

/-- Making a thread ready cancels its timeout. -/
theorem ready_cutsTimeouts (h : k.ready t r = .ok k') : CutsTimeouts k k' := by
  obtain ⟨timers, hcancel, h⟩ := bind_eq_ok.mp h
  rw [require_eq_ok] at hcancel
  dsimp only at h
  split at h
  · cases h
  · have htimers : k'.timers = timers := enqueue_timers h
    unfold CutsTimeouts
    rw [htimers]
    exact .single t.isLt hcancel

theorem resume_cutsTimeouts (h : k.resume t = .ok k') : CutsTimeouts k k' := by
  unfold resume at h
  split at h
  · exact ready_cutsTimeouts h
  · cases h

/-- A bounded wait arms the timeout of the running thread. -/
theorem blockFor_keepsTimers {delay : Delay} (h : k.blockFor state delay = .ok k') :
    TimersKept k k' := by
  obtain ⟨timers, harm, h⟩ := bind_eq_ok.mp h
  rw [require_eq_ok] at harm
  have htimers : k'.timers = timers := block_timers h
  unfold TimersKept
  rw [htimers]
  exact .arms .refl k.current.isLt harm

theorem await_keepsTimers (h : k.await state timeout = .ok wait) : KeepsTimers k wait := by
  unfold await at h
  split at h
  all_goals
    obtain ⟨k₁, hstep, h⟩ := bind_eq_ok.mp h
    rw [← Except.ok.inj h]
  · exact .blocked (.of_eq (block_timers hstep))
  · exact .blocked (blockFor_keepsTimers hstep)
  · exact .returns (.of_eq (cancelWait_timers hstep))

theorem timeOut_cutsTimeouts (h : k.timeOut t = .ok k') : CutsTimeouts k k' := by
  unfold timeOut at h
  dsimp only at h
  split at h
  · obtain ⟨k₁, hcancel, h⟩ := bind_eq_ok.mp h
    exact (ready_cutsTimeouts h).of_before (cancelWait_timers hcancel)
  · rw [← Except.ok.inj h]
    exact .of_eq rfl

theorem wakeFirst_cutsTimeouts (h : k.wakeFirst q r = .ok k') : CutsTimeouts k k' := by
  obtain ⟨o, hdequeue, h⟩ := bind_eq_ok.mp h
  cases o with
  | none => exact .of_eq (by rw [Except.ok.inj h])
  | some p => exact (ready_cutsTimeouts h).of_before (dequeue_timers hdequeue)

theorem wakeUpTo_cutsTimeouts {bound : Nat} (h : wakeUpTo q r bound k = .ok k') :
    CutsTimeouts k k' := by
  induction bound generalizing k with
  | zero =>
      unfold wakeUpTo at h
      split at h
      · exact .of_eq (by rw [Except.ok.inj h])
      · cases h
  | succ bound ih =>
      obtain ⟨o, hdequeue, h⟩ := bind_eq_ok.mp h
      cases o with
      | none => exact .of_eq (by rw [Except.ok.inj h])
      | some p =>
          obtain ⟨k₁, hready, h⟩ := bind_eq_ok.mp h
          exact ((ready_cutsTimeouts hready).of_before (dequeue_timers hdequeue)).trans (ih h)

/-! Semaphores. -/

theorem addSemaphore_timers {count : Nat} {made : Except KernelError SemaphoreId}
    (h : k.addSemaphore count = .ok (made, k')) : k'.timers = k.timers := by
  unfold addSemaphore at h
  split at h
  · split at h
    all_goals
      obtain ⟨-, rfl⟩ := Prod.mk.inj (Except.ok.inj h)
      rfl
  · cases h

theorem createSemaphore_timers {count : Nat} {made : Except KernelError SemaphoreId}
    (h : k.createSemaphore count = .ok (made, k')) : k'.timers = k.timers := by
  obtain ⟨⟨made', k₁⟩, hadd, h⟩ := bind_eq_ok.mp h
  have htimers := addSemaphore_timers hadd
  cases made' with
  | error e =>
      obtain ⟨-, rfl⟩ := Prod.mk.inj (Except.ok.inj h)
      exact htimers
  | ok s =>
      obtain ⟨-, rfl⟩ := Prod.mk.inj (Except.ok.inj h)
      exact htimers

theorem waitUnit_keepsTimers (h : k.waitUnit s timeout state = .ok wait) :
    KeepsTimers k wait := by
  unfold waitUnit at h
  dsimp only at h
  split at h
  · rw [← Except.ok.inj h]
    exact .returns (.of_eq rfl)
  · split at h
    · rw [← Except.ok.inj h]
      exact .returns (.refl k)
    · obtain ⟨k₁, hqueue, h⟩ := bind_eq_ok.mp h
      have htimers := enqueue_timers hqueue
      exact (await_keepsTimers h).of_before htimers

theorem signal_cutsTimeouts (h : k.signal s = .ok k') : CutsTimeouts k k' := by
  obtain ⟨k₁, hadd, h⟩ := bind_eq_ok.mp h
  split at h
  · exact (wakeFirst_cutsTimeouts h).of_before (addUnit_timers hadd)
  · rw [← Except.ok.inj h]
    exact .of_eq (addUnit_timers hadd)

theorem resetSemaphore_cutsTimeouts {count : Nat} (h : k.resetSemaphore s count = .ok k') :
    CutsTimeouts k k' := by
  unfold resetSemaphore at h
  split at h
  · exact (wakeUpTo_cutsTimeouts h).of_before rfl
  · cases h

theorem signalAndWait_cutsTimeouts {signalled awaited : SemaphoreId}
    (h : k.signalAndWait signalled awaited = .ok step) : CutsTimeouts k step.1 := by
  obtain ⟨k₁, hsignal, h⟩ := bind_eq_ok.mp h
  refine (signal_cutsTimeouts hsignal).trans ?_
  dsimp only at h
  split at h
  · obtain ⟨k₂, hpreempt, h⟩ := bind_eq_ok.mp h
    have htimers := preempt_timers hpreempt
    rw [← Except.ok.inj h]
    exact .of_eq htimers
  · obtain ⟨k₂, hqueue, h⟩ := bind_eq_ok.mp h
    obtain ⟨k₃, hblock, h⟩ := bind_eq_ok.mp h
    have htimers := (block_timers hblock).trans (enqueue_timers hqueue)
    rw [← Except.ok.inj h]
    exact .of_eq htimers

/-! Mutexes and condition variables. -/

theorem createMutex_timers : k.createMutex.2.timers = k.timers := by
  unfold createMutex
  split <;> rfl

theorem takeMutex_timers (h : k.takeMutex m t = .ok k') : k'.timers = k.timers := by
  rw [takeMutex_ok h]
  rfl

theorem lend_timers {hops : Nat} (h : lend hops k t = .ok k') : k'.timers = k.timers := by
  induction hops generalizing k t with
  | zero =>
      unfold lend at h
      dsimp only at h
      split at h
      · cases h
      · rw [Except.ok.inj h]
  | succ hops ih =>
      unfold lend at h
      dsimp only at h
      split at h
      · obtain ⟨k₁, hrequeue, h⟩ := bind_eq_ok.mp h
        have htimers := requeue_timers hrequeue
        change k₁.timers = k.timers at htimers
        split at h
        · split at h
          · exact (ih h).trans htimers
          · rw [← Except.ok.inj h, htimers]
        · rw [← Except.ok.inj h, htimers]
      · rw [Except.ok.inj h]

theorem lock_timers (h : k.lock m = .ok step) : step.1.timers = k.timers := by
  unfold lock at h
  split at h
  · obtain ⟨k₁, htake, h⟩ := bind_eq_ok.mp h
    rw [← Except.ok.inj h]
    exact takeMutex_timers htake
  · split at h
    · cases h
    · obtain ⟨k₁, hlend, h⟩ := bind_eq_ok.mp h
      obtain ⟨k₂, hqueue, h⟩ := bind_eq_ok.mp h
      obtain ⟨k₃, hblock, h⟩ := bind_eq_ok.mp h
      rw [← Except.ok.inj h]
      exact (block_timers hblock).trans ((enqueue_timers hqueue).trans (lend_timers hlend))

theorem tryLock_timers {locked : Bool} (h : k.tryLock m = .ok (locked, k')) :
    k'.timers = k.timers := by
  rcases tryLock_ok h with ⟨-, -, rfl⟩ | ⟨-, -, rfl⟩ <;> rfl

theorem release_cutsTimeouts (h : k.release m = .ok k') : CutsTimeouts k k' := by
  unfold release at h
  dsimp only at h
  split at h
  · obtain ⟨o, hdequeue, h⟩ := bind_eq_ok.mp h
    cases o with
    | none =>
        rw [← Except.ok.inj h]
        exact .of_eq rfl
    | some p =>
        obtain ⟨k₁, htake, h⟩ := bind_eq_ok.mp h
        have htimers := dequeue_timers hdequeue
        exact (ready_cutsTimeouts h).of_before ((takeMutex_timers htake).trans htimers)
  · cases h

theorem releaseUpTo_cutsTimeouts {bound : Nat} (h : releaseUpTo bound k = .ok k') :
    CutsTimeouts k k' := by
  induction bound generalizing k with
  | zero => exact .of_eq (by rw [Except.ok.inj h])
  | succ bound ih =>
      unfold releaseUpTo at h
      split at h
      · exact .of_eq (by rw [Except.ok.inj h])
      · obtain ⟨k₁, hrelease, h⟩ := bind_eq_ok.mp h
        exact (release_cutsTimeouts hrelease).trans (ih h)

theorem createCondVar_timers : k.createCondVar.2.timers = k.timers := by
  unfold createCondVar
  split <;> rfl

theorem relock_timers (h : k.relock m r = .ok step) : step.1.timers = k.timers := by
  obtain ⟨step', hlock, h⟩ := bind_eq_ok.mp h
  have htimers := lock_timers hlock
  rw [← Except.ok.inj h]
  exact htimers

theorem waitCondition_keepsTimers (h : k.waitCondition c m timeout = .ok step) :
    TimersKept k step.1 := by
  unfold waitCondition at h
  split at h
  · split at h
    · rw [← Except.ok.inj h]
      exact .refl k
    · obtain ⟨k₁, hrelease, h⟩ := bind_eq_ok.mp h
      obtain ⟨k₂, hqueue, h⟩ := bind_eq_ok.mp h
      obtain ⟨wait, hawait, h⟩ := bind_eq_ok.mp h
      have hwait := (await_keepsTimers hawait).kept.of_before (enqueue_timers hqueue)
      have hwait := hwait.after (release_cutsTimeouts hrelease)
      rcases wait with ⟨r, k₃⟩ | ⟨checks, k₃⟩
      · exact hwait.congr (relock_timers h)
      · rw [← Except.ok.inj h]
        exact hwait
  · cases h

/-! Mailboxes. -/

theorem createMailbox_timers {capacity : Nat} {made : Except KernelError MailboxId}
    (h : k.createMailbox capacity = .ok (made, k')) : k'.timers = k.timers := by
  unfold createMailbox at h
  split at h
  · split at h
    · rw [← (Prod.mk.inj (Except.ok.inj h)).2]
    · split at h
      · rw [← (Prod.mk.inj (Except.ok.inj h)).2]
      · obtain ⟨⟨empty, k₁⟩, hempty, h⟩ := bind_eq_ok.mp h
        have htimers := addSemaphore_timers hempty
        cases empty with
        | error e =>
            rw [← (Prod.mk.inj (Except.ok.inj h)).2]
            exact htimers
        | ok empty =>
            obtain ⟨⟨full, k₂⟩, hfull, h⟩ := bind_eq_ok.mp h
            have htimers := (addSemaphore_timers hfull).trans htimers
            cases full with
            | error e =>
                rw [← (Prod.mk.inj (Except.ok.inj h)).2]
                exact htimers
            | ok full =>
                dsimp only at h
                split at h
                all_goals
                  rw [← (Prod.mk.inj (Except.ok.inj h)).2]
                  exact htimers
  · rw [← (Prod.mk.inj (Except.ok.inj h)).2]

theorem storeAfter_cutsTimeouts (h : storeAfter b epoch msg ahead r k = .ok step) :
    CutsTimeouts k step.1 := by
  rcases storeAfter_ok h with ⟨e, -, rfl⟩ | ⟨k₁, k₂, -, hsignal, hpreempt, rfl⟩
  · exact .refl k
  · have hkept := (signal_cutsTimeouts hsignal).trans (.of_eq (preempt_timers hpreempt))
    exact hkept.of_before rfl

theorem fetchAfter_cutsTimeouts (h : fetchAfter b epoch r k = .ok step) :
    CutsTimeouts k step.1 := by
  rcases fetchAfter_ok h with ⟨e, -, rfl⟩ | ⟨k₁, k₂, -, hsignal, hpreempt, rfl⟩
  · exact .refl k
  · have hkept := (signal_cutsTimeouts hsignal).trans (.of_eq (preempt_timers hpreempt))
    exact hkept.of_before rfl

theorem thenDo_keepsTimers {now : WakeupResult → Kernel → Outcome Step} {later : Frame}
    (hwait : KeepsTimers k wait)
    (hnow : ∀ r k step, now r k = .ok step → CutsTimeouts k step.1)
    (h : wait.thenDo now later = .ok step) : TimersKept k step.1 := by
  cases hwait with
  | @returns r k₁ hcuts => exact (hcuts.trans (hnow r k₁ step h)).kept
  | blocked hkept =>
      rw [← Except.ok.inj h]
      exact hkept

theorem post_keepsTimers (h : k.post b msg ahead timeout = .ok step) : TimersKept k step.1 := by
  obtain ⟨wait, hwait, h⟩ := bind_eq_ok.mp h
  exact thenDo_keepsTimers (waitUnit_keepsTimers hwait) (fun _ _ _ => storeAfter_cutsTimeouts) h

theorem fetch_keepsTimers (h : k.fetch b timeout = .ok step) : TimersKept k step.1 := by
  obtain ⟨wait, hwait, h⟩ := bind_eq_ok.mp h
  exact thenDo_keepsTimers (waitUnit_keepsTimers hwait) (fun _ _ _ => fetchAfter_cutsTimeouts) h

theorem takeUnit_timers (h : k.takeUnit? s = some k') : k'.timers = k.timers := by
  rw [(takeUnit_ok h).2]
  rfl

theorem postNow_cutsTimeouts {e : Except WaitError Unit} (h : k.postNow b msg ahead = .ok (e, k')) :
    CutsTimeouts k k' := by
  rcases postNow_ok h with ⟨-, -, rfl⟩ | ⟨k₁, -, hunit, hsignal⟩
  · exact .refl _
  · have htimers := takeUnit_timers hunit
    exact (signal_cutsTimeouts hsignal).of_before htimers

theorem fetchNow_cutsTimeouts {e : Except WaitError Msg} (h : k.fetchNow b = .ok (e, k')) :
    CutsTimeouts k k' := by
  rcases fetchNow_ok h with ⟨-, -, rfl⟩ | ⟨k₁, -, hunit, hsignal⟩
  · exact .refl _
  · have htimers := takeUnit_timers hunit
    exact (signal_cutsTimeouts hsignal).of_before htimers

theorem resetMailbox_cutsTimeouts (h : k.resetMailbox b = .ok k') : CutsTimeouts k k' := by
  obtain ⟨k₁, hempty, h⟩ := bind_eq_ok.mp h
  have hkept := (resetSemaphore_cutsTimeouts hempty).trans (resetSemaphore_cutsTimeouts h)
  exact hkept.of_before rfl

/-! Threads. -/

theorem join_timers (h : k.join t = .ok step) : step.1.timers = k.timers := by
  unfold join at h
  split at h
  · cases h
  · split at h
    · cases h
    · split at h
      · rw [← Except.ok.inj h]
        rfl
      · split at h
        · cases h
        · obtain ⟨k₁, hqueue, h⟩ := bind_eq_ok.mp h
          obtain ⟨k₂, hblock, h⟩ := bind_eq_ok.mp h
          rw [← Except.ok.inj h]
          exact (block_timers hblock).trans (enqueue_timers hqueue)

theorem exit_cutsTimeouts (h : k.exit msg = .ok k') : CutsTimeouts k k' := by
  unfold exit at h
  dsimp only at h
  split at h
  · obtain ⟨k₁, hwake, h⟩ := bind_eq_ok.mp h
    obtain ⟨⟨next, k₂⟩, hnext, h⟩ := bind_eq_ok.mp h
    have hwake := (wakeUpTo_cutsTimeouts hwake).of_before (k := k) rfl
    refine hwake.trans (.of_eq ?_)
    rw [← takeNext_timers hnext, ← Except.ok.inj h]
    rfl
  · cases h

theorem setPriority_timers {p : Priority} (h : k.setPriority p = .ok step) :
    step.1.timers = k.timers := by
  unfold setPriority at h
  split at h
  · cases h
  · obtain ⟨k₁, hpreempt, h⟩ := bind_eq_ok.mp h
    have htimers := preempt_timers hpreempt
    rw [← Except.ok.inj h]
    exact htimers

theorem sleep_keepsTimers {ticks : Ticks} (h : k.sleep ticks = .ok step) :
    TimersKept k step.1 := by
  rcases sleep_ok h with ⟨delay, k', -, hblock, rfl⟩ | ⟨k', -, hyield, rfl⟩
  · exact blockFor_keepsTimers hblock
  · exact .of_eq (yieldTurn_timers hyield)

theorem sleepUntil_keepsTimers {deadline : Ticks} (h : k.sleepUntil deadline = .ok step) :
    TimersKept k step.1 := by
  rcases sleepUntil_ok h with ⟨delay, k', -, hblock, rfl⟩ | ⟨-, rfl⟩
  · exact blockFor_keepsTimers hblock
  · exact .refl k

theorem thenAnswer_kernel : wait.thenAnswer.1 = wait.kernel := by cases wait <;> rfl

theorem suspend_keepsTimers (h : k.suspend timeout = .ok step) : TimersKept k step.1 := by
  obtain ⟨wait, hwait, h⟩ := bind_eq_ok.mp h
  rw [← Except.ok.inj h, thenAnswer_kernel]
  exact (await_keepsTimers hwait).kept

/-! Timers of the application, by their ids. -/

theorem isTimerArmed_iff {id : TimerId} : k.isTimerArmed id = true ↔
    k.timers.isArmed id.slot = true ∧ k.timers.generation id.slot = id.generation := by
  rw [isTimerArmed, Bool.and_eq_true, beq_iff_eq]

/-- A timer has ticks left as long as it is to come. -/
theorem timerRemaining_isSome (hq : k.timers.Sound) (id : TimerId) :
    (k.timerRemaining id).isSome = k.isTimerArmed id := by
  unfold timerRemaining
  split
  · rename_i harmed
    rw [harmed]
    exact hq.isArmed_iff.mp (isTimerArmed_iff.mp harmed).1
  · rename_i hnot
    rw [Bool.eq_false_of_not_eq_true hnot]
    rfl

/-- A timer that is to come can be stopped, and no other one stops. -/
theorem exists_resetTimer (hq : k.timers.Sound) {id : TimerId} (harmed : k.isTimerArmed id = true) :
    ∃ timers, k.resetTimer id = .ok { k with timers } ∧
      timers.isArmed id.slot = false ∧
      ∀ id', id' ≠ id → ({ k with timers } : Kernel).isTimerArmed id' = k.isTimerArmed id' ∧
        ({ k with timers } : Kernel).timerRemaining id' = k.timerRemaining id' := by
  obtain ⟨hslot, hgeneration⟩ := isTimerArmed_iff.mp harmed
  obtain ⟨timers, hdisarm, -, hothers⟩ := hq.exists_disarm hslot
  have hapart : ∀ id' : TimerId, id' ≠ id → k.timers.generation id'.slot = id'.generation →
      id'.slot ≠ id.slot := by
    rintro ⟨slot', generation'⟩ hid' hgeneration' hslot'
    dsimp only at hslot' hgeneration'
    rw [hslot', hgeneration] at hgeneration'
    exact hid' (by rw [hslot', ← hgeneration'])
  refine ⟨timers, ?_, ?_, fun id' hid' => ?_⟩
  · rw [resetTimer, if_pos harmed, hdisarm]
    rfl
  · rw [TimerQueue.isArmed_disarm hdisarm, if_pos rfl]
  · have hsame : ({ k with timers } : Kernel).isTimerArmed id' = k.isTimerArmed id' := by
      rw [Bool.eq_iff_iff, isTimerArmed_iff, isTimerArmed_iff]
      dsimp only
      rw [TimerQueue.isArmed_disarm hdisarm, TimerQueue.generation_disarm hdisarm]
      refine and_congr_left fun hgeneration' => ?_
      rw [if_neg (hapart id' hid' hgeneration')]
    refine ⟨hsame, ?_⟩
    unfold timerRemaining
    rw [hsame]
    split
    · rename_i harmed'
      exact hothers id'.slot (hapart id' hid' (isTimerArmed_iff.mp harmed').2)
    · rfl

/-- Stopping a timer that is not to come is misuse. -/
theorem resetTimer_stale {id : TimerId} (hnot : k.isTimerArmed id = false) :
    k.resetTimer id = .error ⟨.timerStale id, k⟩ := by
  rw [resetTimer, hnot]
  rfl

/-- A timer is started if there is a slot left for it. -/
theorem exists_setTimer (hq : k.timers.Sound) {slot : TimerSlot}
    (hfree : k.freeTimerSlot? = some slot)
    (delay : Delay) (e : Routine) :
    ∃ timers id, k.setTimer delay e = .ok (.ok id, { k with timers }) ∧
      id.slot = slot ∧ ({ k with timers } : Kernel).isTimerArmed id = true := by
  have hslot := List.find?_some hfree
  rw [Bool.and_eq_true, Bool.not_eq_true'] at hslot
  obtain ⟨timers, harm, -⟩ := hq.exists_arm hslot.2 delay (.callback e)
  refine ⟨timers, ⟨slot, timers.generation slot⟩, ?_, rfl, ?_⟩
  · rw [setTimer, hfree]
    dsimp only
    rw [harm]
    rfl
  · rw [isTimerArmed_iff]
    dsimp only
    rw [TimerQueue.isArmed_arm harm, if_pos rfl]
    exact ⟨rfl, rfl⟩

end Kernel

end RealtimeKernel

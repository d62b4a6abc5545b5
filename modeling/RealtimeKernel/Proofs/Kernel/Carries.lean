import RealtimeKernel.Execution.Call
import Mathlib.Logic.Basic

/-!
Two kernels that differ in their mailboxes only. Most operations never look at a mailbox, so
they do the same to both and carry the difference along: the result for the one kernel is the
result for the other with its mailboxes exchanged, or both fail with the same fault.
-/
namespace RealtimeKernel

variable {α β γ δ : Type}

/-- Both come to a result and the results are related, or both come to the same fault. -/
inductive Pairs (R : α → β → Prop) : Outcome α → Outcome β → Prop
  | ok {a : α} {b : β} : R a b → Pairs R (.ok a) (.ok b)
  | fault (f : Fault) (k k' : Kernel) : Pairs R (.error ⟨f, k⟩) (.error ⟨f, k'⟩)

/-- The second outcome is the first one, changed by `s`. -/
abbrev Carries (s : α → α) : Outcome α → Outcome α → Prop := Pairs fun a a' => a' = s a

namespace Pairs
variable {R : α → β → Prop} {S : γ → δ → Prop} {o o₁ : Outcome α} {o' o₁' : Outcome β}

theorem bind {f : α → Outcome γ} {f' : β → Outcome δ} (h : Pairs R o o')
    (hf : ∀ a a', o = .ok a → R a a' → Pairs S (f a) (f' a')) :
    Pairs S (o >>= f) (o' >>= f') := by
  cases h with
  | ok h => exact hf _ _ rfl h
  | fault f k k' => exact .fault f k k'

theorem ite {c : Prop} [Decidable c] (h : Pairs R o o') (h₁ : Pairs R o₁ o₁') :
    Pairs R (if c then o else o₁) (if c then o' else o₁') := by
  split
  · exact h
  · exact h₁

theorem of_ok {a : α} (h : Pairs R (.ok a) o') : ∃ b, o' = .ok b ∧ R a b := by
  cases h with
  | ok h => exact ⟨_, rfl, h⟩

theorem mono {R' : α → β → Prop} (h : Pairs R o o')
    (hR : ∀ a a', o = .ok a → R a a' → R' a a') : Pairs R' o o' := by
  cases h with
  | ok h => exact .ok (hR _ _ rfl h)
  | fault f k k' => exact .fault f k k'

end Pairs

theorem Carries.bind {s : α → α} {S : γ → δ → Prop} {o o' : Outcome α} {f : α → Outcome γ}
    {f' : α → Outcome δ} (h : Carries s o o') (hf : ∀ a, Pairs S (f a) (f' (s a))) :
    Pairs S (o >>= f) (o' >>= f') := by
  refine Pairs.bind h ?_
  rintro a _ - rfl
  exact hf a

/-- The mailboxes of a kernel. -/
abbrev Boxes := Pool maxMailboxes Mailbox

/-- A wait for a mailbox as it was begun, if that mailbox were so many resets younger. -/
def Frame.backdate (b : MailboxId) (resets : UInt32) : Frame → Frame
  | .store b' epoch msg ahead => .store b' (if b' = b then epoch - resets else epoch) msg ahead
  | .fetch b' epoch => .fetch b' (if b' = b then epoch - resets else epoch)
  | f => f

def Kernel.withMailboxes (p : Boxes) (k : Kernel) : Kernel := { k with mailboxes := p }

/-- A step with other mailboxes, of which one is so many resets younger. -/
def Step.renew (b : MailboxId) (resets : UInt32) (p : Boxes) : Step → Step :=
  Prod.map (Kernel.withMailboxes p) (List.map (Frame.backdate b resets))

def Wait.renew (b : MailboxId) (resets : UInt32) (p : Boxes) : Wait → Wait
  | .over r k => .over r (k.withMailboxes p)
  | .blocked checks k => .blocked (checks.map (Frame.backdate b resets)) (k.withMailboxes p)

namespace Kernel

variable {k : Kernel} {p : Boxes} {b : MailboxId} {n : UInt32} {q : QueueId} {t u : ThreadId}
  {r : WakeupResult} {s s' : SemaphoreId} {m : MutexId} {c : CondVarId} {state : ThreadState}
  {timeout : Timeout} {count : Nat} {hops bound : Nat} {ahead : Bool} {delay : Delay}
  {ticks : Ticks} {msg : Msg} {timer : TimerId}

section
variable (k : Kernel) (p : Boxes)

@[simp] theorem thread_withMailboxes (t : ThreadId) :
    (k.withMailboxes p).thread t = k.thread t := rfl
@[simp] theorem queues_withMailboxes : (k.withMailboxes p).queues = k.queues := rfl
@[simp] theorem semaphores_withMailboxes : (k.withMailboxes p).semaphores = k.semaphores := rfl
@[simp] theorem mutexes_withMailboxes : (k.withMailboxes p).mutexes = k.mutexes := rfl
@[simp] theorem condVars_withMailboxes : (k.withMailboxes p).condVars = k.condVars := rfl
@[simp] theorem owner?_withMailboxes (m : MutexId) :
    (k.withMailboxes p).owner? m = k.owner? m := rfl
@[simp] theorem clock_withMailboxes : (k.withMailboxes p).clock = k.clock := rfl
@[simp] theorem timers_withMailboxes : (k.withMailboxes p).timers = k.timers := rfl
@[simp] theorem freeTimerSlot?_withMailboxes :
    (k.withMailboxes p).freeTimerSlot? = k.freeTimerSlot? := rfl

end

theorem require_carries (e : Except Fault α) :
    Carries id (k.require e) ((k.withMailboxes p).require e) := by
  cases e with
  | ok a => exact .ok rfl
  | error f => exact .fault ..

/-! Queues. -/

theorem relink_carries (f : Fault) (o : Option (ThreadQueue maxThreads × Links maxThreads)) :
    Carries (withMailboxes p) (k.relink q f o) ((k.withMailboxes p).relink q f o) := by
  cases o with
  | none => exact .fault ..
  | some r => exact .ok rfl

theorem unlinkFrom_carries :
    Carries (withMailboxes p) (k.unlinkFrom q t) ((k.withMailboxes p).unlinkFrom q t) :=
  relink_carries _ _

theorem link_carries : Carries (withMailboxes p) (k.link q t) ((k.withMailboxes p).link q t) :=
  relink_carries _ _

theorem linkAhead_carries :
    Carries (withMailboxes p) (k.linkAhead q t) ((k.withMailboxes p).linkAhead q t) :=
  relink_carries _ _

theorem enqueue_carries :
    Carries (withMailboxes p) (k.enqueue q t) ((k.withMailboxes p).enqueue q t) :=
  .ite (link_carries.bind fun _ => .ok rfl) (.fault ..)

theorem unlink_carries : Carries (withMailboxes p) (k.unlink t) ((k.withMailboxes p).unlink t) := by
  simp only [unlink, thread_withMailboxes]
  split
  · exact .ok rfl
  · exact unlinkFrom_carries.bind fun _ => .ok rfl

theorem dequeue_carries : Carries (Option.map (Prod.map id (withMailboxes p))) (k.dequeue q)
    ((k.withMailboxes p).dequeue q) := by
  simp only [dequeue, queues_withMailboxes]
  split
  · exact .fault ..
  · exact .ok rfl
  · exact .ok rfl

theorem requeue_carries :
    Carries (withMailboxes p) (k.requeue t) ((k.withMailboxes p).requeue t) := by
  simp only [requeue, thread_withMailboxes]
  split
  · exact .ok rfl
  · exact unlinkFrom_carries.bind fun _ => link_carries

/-! The processor. -/

theorem ready_carries :
    Carries (withMailboxes p) (k.ready t r) ((k.withMailboxes p).ready t r) :=
  (require_carries _).bind fun _ => .ite (.fault ..) enqueue_carries

theorem resume_carries :
    Carries (withMailboxes p) (k.resume t) ((k.withMailboxes p).resume t) :=
  .ite ready_carries (.fault ..)

theorem takeNext_carries :
    Carries (Prod.map id (withMailboxes p)) k.takeNext (k.withMailboxes p).takeNext := by
  refine dequeue_carries.bind fun next => ?_
  cases next with
  | none => exact .fault ..
  | some next => exact .ok rfl

theorem dispatch_carries :
    Carries (withMailboxes p) (k.dispatch t u) ((k.withMailboxes p).dispatch t u) :=
  .ite (.fault ..) (.ok rfl)

theorem rejoin_carries :
    Carries (withMailboxes p) (k.rejoin t ahead) ((k.withMailboxes p).rejoin t ahead) :=
  .ite linkAhead_carries link_carries

theorem giveWay_carries :
    Carries (withMailboxes p) (k.giveWay ahead) ((k.withMailboxes p).giveWay ahead) :=
  takeNext_carries.bind fun _ => rejoin_carries.bind fun _ => dispatch_carries

theorem preempt_carries : Carries (withMailboxes p) k.preempt (k.withMailboxes p).preempt :=
  .ite giveWay_carries (.ok rfl)

theorem yieldTurn_carries :
    Carries (withMailboxes p) k.yieldTurn (k.withMailboxes p).yieldTurn := by
  simp only [yieldTurn, queues_withMailboxes]
  split
  · exact .ok rfl
  · exact .ite (.ok rfl) giveWay_carries

theorem block_carries :
    Carries (withMailboxes p) (k.block state) ((k.withMailboxes p).block state) :=
  .ite (.fault ..) (takeNext_carries.bind fun ⟨_, _⟩ => dispatch_carries)

theorem blockFor_carries :
    Carries (withMailboxes p) (k.blockFor state delay) ((k.withMailboxes p).blockFor state delay) :=
  (require_carries _).bind fun _ => block_carries

theorem addUnit_carries :
    Carries (withMailboxes p) (k.addUnit s) ((k.withMailboxes p).addUnit s) :=
  .ite (.fault ..) (.ok rfl)

theorem cancelWait_carries :
    Carries (withMailboxes p) (k.cancelWait t) ((k.withMailboxes p).cancelWait t) := by
  simp only [cancelWait, thread_withMailboxes]
  split
  · exact addUnit_carries.bind fun _ => unlink_carries
  · exact unlink_carries

theorem await_carries : Carries (Wait.renew b n p) (k.await state timeout)
    ((k.withMailboxes p).await state timeout) := by
  cases timeout with
  | infinite => exact block_carries.bind fun _ => .ok rfl
  | after delay => exact blockFor_carries.bind fun _ => .ok rfl
  | immediate => exact cancelWait_carries.bind fun _ => .ok rfl

theorem timeOut_carries :
    Carries (withMailboxes p) (k.timeOut t) ((k.withMailboxes p).timeOut t) :=
  .ite (cancelWait_carries.bind fun _ => ready_carries) (.ok rfl)

theorem wakeFirst_carries :
    Carries (withMailboxes p) (k.wakeFirst q r) ((k.withMailboxes p).wakeFirst q r) := by
  refine dequeue_carries.bind fun first => ?_
  cases first with
  | none => exact .ok rfl
  | some first => exact ready_carries

theorem wakeUpTo_carries :
    Carries (withMailboxes p) (wakeUpTo q r bound k) (wakeUpTo q r bound (k.withMailboxes p)) := by
  induction bound generalizing k with
  | zero => exact .ite (.ok rfl) (.fault ..)
  | succ bound ih =>
      refine dequeue_carries.bind fun first => ?_
      cases first with
      | none => exact .ok rfl
      | some first => exact ready_carries.bind fun _ => ih

theorem wakeAll_carries :
    Carries (withMailboxes p) (k.wakeAll q r) ((k.withMailboxes p).wakeAll q r) :=
  wakeUpTo_carries

/-! Semaphores. -/

theorem addSemaphore_carries : Carries (Prod.map id (withMailboxes p)) (k.addSemaphore count)
    ((k.withMailboxes p).addSemaphore count) := by
  simp only [addSemaphore, semaphores_withMailboxes]
  refine .ite ?_ (.fault ..)
  split
  · exact .ok rfl
  · exact .ok rfl

theorem createSemaphore_carries : Carries (Prod.map id (withMailboxes p))
    (k.createSemaphore count) ((k.withMailboxes p).createSemaphore count) := by
  refine addSemaphore_carries.bind fun ⟨made, k₁⟩ => ?_
  cases made with
  | ok s => exact .ok rfl
  | error e => exact .ok rfl

theorem waitUnit_carries : Carries (Wait.renew b n p) (k.waitUnit s timeout state)
    ((k.withMailboxes p).waitUnit s timeout state) :=
  .ite (.ok rfl) (.ite (.ok rfl) (enqueue_carries.bind fun _ => await_carries))

theorem signal_carries : Carries (withMailboxes p) (k.signal s) ((k.withMailboxes p).signal s) :=
  addUnit_carries.bind fun _ => .ite wakeFirst_carries (.ok rfl)

theorem resetSemaphore_carries : Carries (withMailboxes p) (k.resetSemaphore s count)
    ((k.withMailboxes p).resetSemaphore s count) :=
  .ite wakeAll_carries (.fault ..)

theorem signalAndWait_carries : Carries (Step.renew b n p) (k.signalAndWait s s')
    ((k.withMailboxes p).signalAndWait s s') :=
  signal_carries.bind fun _ => .ite (preempt_carries.bind fun _ => .ok rfl)
    (enqueue_carries.bind fun _ => block_carries.bind fun _ => .ok rfl)

/-! Mutexes and condition variables. -/

theorem createMutex_withMailboxes (k : Kernel) (p : Boxes) :
    (k.withMailboxes p).createMutex = Prod.map id (withMailboxes p) k.createMutex := by
  simp only [createMutex, mutexes_withMailboxes]
  split
  · rfl
  · rfl

theorem takeMutex_carries :
    Carries (withMailboxes p) (k.takeMutex m t) ((k.withMailboxes p).takeMutex m t) :=
  .ite (.ok rfl) (.fault ..)

theorem lend_carries :
    Carries (withMailboxes p) (lend hops k t) (lend hops (k.withMailboxes p) t) := by
  induction hops generalizing k t with
  | zero => exact .ite (.fault ..) (.ok rfl)
  | succ hops ih =>
      refine .ite (requeue_carries.bind fun k₁ => ?_) (.ok rfl)
      simp only [thread_withMailboxes, owner?_withMailboxes]
      split
      · split
        · exact ih
        · exact .ok rfl
      · exact .ok rfl

theorem lock_carries : Carries (Step.renew b n p) (k.lock m) ((k.withMailboxes p).lock m) := by
  simp only [lock, owner?_withMailboxes]
  split
  · exact takeMutex_carries.bind fun _ => .ok rfl
  · exact .ite (.fault ..) (lend_carries.bind fun _ => enqueue_carries.bind fun _ =>
      block_carries.bind fun _ => .ok rfl)

theorem tryLock_carries :
    Carries (Prod.map id (withMailboxes p)) (k.tryLock m) ((k.withMailboxes p).tryLock m) := by
  simp only [tryLock, owner?_withMailboxes]
  split
  · exact .ok rfl
  · exact takeMutex_carries.bind fun _ => .ok rfl

theorem release_carries :
    Carries (withMailboxes p) (k.release m) ((k.withMailboxes p).release m) := by
  refine .ite (dequeue_carries.bind fun first => ?_) (.fault ..)
  cases first with
  | none => exact .ok rfl
  | some first => exact takeMutex_carries.bind fun k₁ => ready_carries (k := k₁)

theorem releaseUpTo_carries :
    Carries (withMailboxes p) (releaseUpTo bound k) (releaseUpTo bound (k.withMailboxes p)) := by
  induction bound generalizing k with
  | zero => exact .ok rfl
  | succ bound ih =>
      unfold releaseUpTo
      rw [show (k.withMailboxes p).running = k.running from rfl]
      cases k.running.held.getLast? with
      | none => exact .ok rfl
      | some m => exact release_carries.bind fun _ => ih

theorem createCondVar_withMailboxes (k : Kernel) (p : Boxes) :
    (k.withMailboxes p).createCondVar = Prod.map id (withMailboxes p) k.createCondVar := by
  simp only [createCondVar, condVars_withMailboxes]
  split
  · rfl
  · rfl

theorem renew_append (k : Kernel) (left rest : List Frame) : Step.renew b n p (k, left ++ rest) =
    (k.withMailboxes p, left.map (Frame.backdate b n) ++ rest.map (Frame.backdate b n)) :=
  congrArg (Prod.mk _) List.map_append

theorem relock_carries :
    Carries (Step.renew b n p) (k.relock m r) ((k.withMailboxes p).relock m r) :=
  (lock_carries (b := b) (n := n)).bind fun ⟨k₁, left⟩ =>
    .ok (renew_append k₁ left [.answer (.wakeup r)]).symm

theorem waitCondition_carries : Carries (Step.renew b n p) (k.waitCondition c m timeout)
    ((k.withMailboxes p).waitCondition c m timeout) := by
  refine .ite (.ite (.ok rfl) (release_carries.bind fun _ => enqueue_carries.bind fun _ =>
    (await_carries (b := b) (n := n)).bind fun wait => ?_)) (.fault ..)
  match wait with
  | .over r k₁ => exact relock_carries
  | .blocked checks k₁ => exact .ok (renew_append k₁ checks [.relock m]).symm

/-! Threads. -/

theorem boot_withMailboxes (k : Kernel) (p : Boxes) :
    (k.withMailboxes p).boot = k.boot.map (withMailboxes p) := by
  unfold boot
  dsimp only [withMailboxes]
  cases k.config.validate with
  | error e => rfl
  | ok u =>
      by_cases hup : k.initialized = true
      · simp only [hup, if_true]
        rfl
      · simp only [hup]
        rfl

theorem join_carries : Carries (Step.renew b n p) (k.join t) ((k.withMailboxes p).join t) :=
  .ite (.fault ..) (.ite (.fault ..) (.ite (.ok rfl) (.ite (.fault ..)
    (enqueue_carries.bind fun _ => block_carries.bind fun _ => .ok rfl))))

theorem exit_carries : Carries (withMailboxes p) (k.exit msg) ((k.withMailboxes p).exit msg) :=
  .ite (wakeAll_carries.bind fun _ => takeNext_carries.bind fun ⟨_, _⟩ => .ok rfl) (.fault ..)

theorem setPriority_carries (priority : Priority) : Carries (Step.renew b n p)
    (k.setPriority priority) ((k.withMailboxes p).setPriority priority) :=
  .ite (.fault ..) (preempt_carries.bind fun _ => .ok rfl)

theorem sleep_carries : Carries (Step.renew b n p) (k.sleep ticks)
    ((k.withMailboxes p).sleep ticks) := by
  unfold sleep
  split
  · exact blockFor_carries.bind fun _ => .ok rfl
  · exact yieldTurn_carries.bind fun _ => .ok rfl

theorem sleepUntil_carries : Carries (Step.renew b n p) (k.sleepUntil ticks)
    ((k.withMailboxes p).sleepUntil ticks) := by
  simp only [sleepUntil, clock_withMailboxes]
  split
  · exact blockFor_carries.bind fun _ => .ok rfl
  · exact .ok rfl

theorem thenAnswer_renew (wait : Wait) :
    (wait.renew b n p).thenAnswer = Step.renew b n p wait.thenAnswer := by
  match wait with
  | .over r k => rfl
  | .blocked checks k => exact (renew_append k checks [.answerWakeup]).symm

theorem suspend_carries : Carries (Step.renew b n p) (k.suspend timeout)
    ((k.withMailboxes p).suspend timeout) :=
  (await_carries (b := b) (n := n)).bind fun wait => .ok (thenAnswer_renew wait)

/-! Timers. -/

theorem setTimer_carries (routine : Routine) : Carries (Prod.map id (withMailboxes p))
    (k.setTimer delay routine) ((k.withMailboxes p).setTimer delay routine) := by
  simp only [setTimer, freeTimerSlot?_withMailboxes]
  split
  · exact .ok rfl
  · exact (require_carries _).bind fun _ => .ok rfl

theorem resetTimer_carries :
    Carries (withMailboxes p) (k.resetTimer timer) ((k.withMailboxes p).resetTimer timer) :=
  .ite ((require_carries _).bind fun _ => .ok rfl) (.fault ..)

theorem beginTick_carries :
    Carries (withMailboxes p) k.beginTick (k.withMailboxes p).beginTick := by
  simp only [beginTick, clock_withMailboxes]
  split
  · exact .fault ..
  · exact (require_carries _).bind fun _ => .ok rfl

theorem fire_carries : Carries (Step.renew b n p) k.fire (k.withMailboxes p).fire := by
  simp only [fire, timers_withMailboxes]
  split
  · exact .ok rfl
  · exact timeOut_carries.bind fun _ => .ok rfl
  · exact .ok rfl

end Kernel

end RealtimeKernel

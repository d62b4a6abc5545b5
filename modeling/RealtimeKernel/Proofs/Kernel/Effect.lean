import Mathlib.Logic.Relation
import RealtimeKernel.Kernel.Lifecycle
import RealtimeKernel.Kernel.Mailbox
import RealtimeKernel.Kernel.Mutex
import RealtimeKernel.Proofs.Kernel.Switches
import RealtimeKernel.Proofs.TimerQueue.Remaining

/-!
Everything that the kernel can do. An operation is made of effects, after which the same
thread runs, and at most one switch, which comes last. Both are listed here once, each with
what was checked before it, so an invariant is proved by one case for each of them and not
by one for each operation. The objects that an operation was given bound what it may touch;
the rest of the kernel can only be changed by timeouts.
-/
namespace RealtimeKernel

inductive Object where
  | semaphore (s : SemaphoreId)
  | mutex (m : MutexId)
  | condVar (c : CondVarId)
  | thread (t : ThreadId)
  | mailbox (b : MailboxId)
  /-- The base priority of a thread that owns mutexes. -/
  | ownerBase
  /-- A thread that waits to be resumed. -/
  | suspended (t : ThreadId)
  /-- The clock, and the waits that end with it. -/
  | time

namespace Kernel

/-- A thread is lent the priority of the running one, and takes its new place in its queue. -/
def Boosts (o : ThreadId) (k k' : Kernel) : Prop :=
  k'.timers = k.timers ∧
    Moves false o { k.thread o with priority := k.running.priority } k k'

/-- The running thread lends its priority to a thread, and on along the mutexes that this and
the next ones wait for. -/
inductive Lends : Kernel → ThreadId → Kernel → Prop
  | enough {k : Kernel} {o : ThreadId} :
    ¬ k.running.priority.level < (k.priorityOf o).level → Lends k o k
  | last {k k' : Kernel} {o : ThreadId} :
    k.running.priority.level < (k.priorityOf o).level → Boosts o k k' →
    (∀ m, (k.thread o).queue = some (.mutex m) → k.owner? m = none) → Lends k o k'
  | on {k k₁ k' : Kernel} {o next : ThreadId} {m : MutexId} :
    k.running.priority.level < (k.priorityOf o).level → Boosts o k k₁ →
    (k.thread o).queue = some (.mutex m) → k.owner? m = some next → Lends k₁ next k' →
    Lends k o k'

/-- The running thread does without a mutex, and is left with what its others lend. -/
def strike (k : Kernel) (m : MutexId) : Kernel :=
  let me := k.current
  let k := k.modifyThread me fun th => { th with held := th.held.erase m }
  (k.modifyThread me fun th => { th with priority := k.residualPriority me }).setOwner m none

/-- A thread is the owner of a mutex from now on. -/
def acquire (k : Kernel) (m : MutexId) (t : ThreadId) : Kernel :=
  (k.setOwner m (some t)).modifyThread t fun th => { th with held := th.held ++ [m] }

/-- The running thread's code is through. -/
def finishCurrent (k : Kernel) (msg : Msg) : Kernel :=
  k.modifyThread k.current fun th => { th with exitMsg := msg, state := .final }

/-- The clock stands still, and no wait that a timeout bounds is any shorter or begins anew. -/
structure Timeless (k : Kernel) (clock : Clock) (timers : TimerQueue timerSlots TimerAction) :
    Prop where
  clock : clock = k.clock
  generation : ∀ t, timers.generation (timeoutSlot t) = k.timers.generation (timeoutSlot t)
  remaining : k.timers.Sound → timers.Sound ∧
    ∀ t, timers.remaining (timeoutSlot t) = k.timers.remaining (timeoutSlot t)

/-- A thread goes ahead of its equals only if one of a higher priority takes the processor from it
while it has some of its quantum left. -/
def StaysAhead (k : Kernel) : Prop :=
  0 < k.quantumLeft ∧ ∀ t, (k.members .ready).head? = some t →
    (k.priorityOf t).level < k.running.priority.level

inductive Effect (touched : Object → Prop) : Kernel → Kernel → Prop
  | quiet {k : Kernel} (quantumLeft : Nat) (journal : List LogRecord) :
    quantumLeft ≤ k.quantumLeft → Effect touched k { k with quantumLeft, journal }
  | timers {k : Kernel} (clock : Clock) (timers : TimerQueue timerSlots TimerAction) :
    (∀ s a, (timers.cell s).action = some a → (k.timers.cell s).action = some a ∨
      ∃ r, a = .callback r ∧ maxThreads ≤ s.val) →
    touched .time ∨ Timeless k clock timers → Effect touched k { k with clock, timers }
  /-- A thread is asked to end, or the running one takes up its code. -/
  | mark {k : Kernel} (t : ThreadId) (terminate : Bool) (entry : Option Entry) :
    entry = (k.thread t).entry ∨ t = k.current →
    Effect touched k (k.modifyThread t fun th => { th with terminate, entry })
  | setBase {k : Kernel} (p : Priority) : (k.running.held ≠ [] → touched .ownerBase) →
    Effect touched k (k.modifyThread k.current fun th =>
      { th with
        priority := if th.priority = th.base || p.isHigherThan th.priority then p else th.priority
        base := p })
  | resume {k k' : Kernel} {t : ThreadId} : touched (.suspended t) ∨ touched (.thread t) →
    (k.thread t).state = .suspended → Wakes t .ok k k' → Effect touched k k'
  | timeOut {k k' : Kernel} {t : ThreadId} : touched .time →
    (k.thread t).state.isTimed = true → (∀ s, (k.thread t).queue ≠ some (.semaphore s)) →
    Wakes t .timeout k k' → Effect touched k k'
  /-- A timeout takes back a claim on a semaphore. -/
  | expire {k k' : Kernel} {t : ThreadId} {s : SemaphoreId} : touched .time →
    (k.thread t).queue = some (.semaphore s) →
    Wakes t .timeout (k.setSemaphoreCount s (k.semaphoreCount s + 1)) k' → Effect touched k k'
  /-- A waiter is given a unit. -/
  | grant {k k' : Kernel} {t : ThreadId} {s : SemaphoreId} : touched (.semaphore s) →
    (k.members (.semaphore s)).head? = some t →
    Wakes t .ok (k.setSemaphoreCount s (k.semaphoreCount s + 1)) k' → Effect touched k k'
  | recount {k : Kernel} {s : SemaphoreId} {count : Int} : touched (.semaphore s) →
    0 ≤ k.semaphoreCount s → 0 ≤ count → Effect touched k (k.setSemaphoreCount s count)
  /-- All waiters are sent away. -/
  | dismiss {k k' : Kernel} {s : SemaphoreId} {count : Int} : touched (.semaphore s) → 0 ≤ count →
    Rouses .reset (k.members (.semaphore s)) (k.setSemaphoreCount s count) k' →
    Effect touched k k'
  | notify {k k' : Kernel} {t : ThreadId} {c : CondVarId} {r : WakeupResult} :
    touched (.condVar c) → (k.members (.condVar c)).head? = some t → Wakes t r k k' →
    Effect touched k k'
  | take {k : Kernel} {m : MutexId} : touched (.mutex m) → k.mutexes.contains m = true →
    k.owner? m = none → Effect touched k (k.acquire m k.current)
  | free {k : Kernel} {m : MutexId} : touched (.mutex m) → k.owner? m = some k.current →
    k.members (.mutex m) = [] → Effect touched k (k.strike m)
  | handOver {k k' : Kernel} {m : MutexId} {next : ThreadId} : touched (.mutex m) →
    k.owner? m = some k.current → (k.members (.mutex m)).head? = some next →
    Wakes next .ok ((k.strike m).acquire m next) k' → Effect touched k k'
  | create {k : Kernel} {t : ThreadId} (name : String) (p : Priority) (e : Entry) :
    touched (.thread t) → (k.thread t).state = .inactive →
    Effect touched k (k.replaceThread t (.create name p (some e)))
  /-- The record of a free slot is written anew. -/
  | blank {k : Kernel} {t : ThreadId} : (k.thread t).state = .inactive →
    Effect touched k (k.vacate t)
  | vacate {k : Kernel} {t : ThreadId} : touched (.thread t) → (k.thread t).state = .final →
    Effect touched k (k.vacate t)
  | newSemaphore {k : Kernel} {s : SemaphoreId} {pool : Pool maxSemaphores Semaphore}
    {count : Nat} : k.semaphores.push? { count } = some (s, pool) →
    Effect touched k { k with semaphores := pool }
  | newMutex {k : Kernel} {m : MutexId} {pool : Pool maxMutexes Mutex} :
    k.mutexes.push? {} = some (m, pool) → Effect touched k { k with mutexes := pool }
  | newCondVar {k : Kernel} {c : CondVarId} {pool : Pool maxCondVars CondVar} :
    k.condVars.push? {} = some (c, pool) → Effect touched k { k with condVars := pool }
  /-- A mailbox is made of two semaphores that no other one has. -/
  | newMailbox {k : Kernel} {b : MailboxId} {pool : Pool maxMailboxes Mailbox} {box : Mailbox} :
    k.mailboxes.push? box = some (b, pool) → touched (.mailbox b) →
    k.semaphores.contains box.empty = true → k.semaphores.contains box.full = true →
    box.empty ≠ box.full →
    (∀ b', k.mailboxes.contains b' = true →
      ((k.mailbox b').empty ≠ box.empty ∧ (k.mailbox b').empty ≠ box.full) ∧
        (k.mailbox b').full ≠ box.empty ∧ (k.mailbox b').full ≠ box.full) →
    box.capacity ≤ maxMessages →
    Effect touched k { k with mailboxes := pool }
  | write {k : Kernel} {b : MailboxId} (ring : Ring Msg (k.mailbox b).capacity) (epoch : UInt32) :
    touched (.mailbox b) → Effect touched k (k.setMailbox b { k.mailbox b with ring, epoch })

inductive Switch (touched : Object → Prop) : Kernel → Kernel → Prop
  | giveWay {k k' : Kernel} {ahead : Bool} : GivesWay ahead k k' →
    (ahead = true → k.StaysAhead) → Switch touched k k'
  | park {k k' : Kernel} {state : ThreadState} : state = .sleeping ∨ state = .suspended →
    Blocks state none k k' → Switch touched k k'
  | awaitUnit {k k' : Kernel} {s : SemaphoreId} {state : ThreadState} : touched (.semaphore s) →
    k.semaphores.contains s = true → k.semaphoreCount s ≤ 0 →
    state = .waitingSemaphore ∨ state = .waitingMailbox →
    Blocks state (some (.semaphore s)) (k.setSemaphoreCount s (k.semaphoreCount s - 1)) k' →
    Switch touched k k'
  | awaitMutex {k k₁ k' : Kernel} {m : MutexId} {o : ThreadId} : touched (.mutex m) →
    k.owner? m = some o → o ≠ k.current → Lends k o k₁ →
    Blocks .waitingMutex (some (.mutex m)) k₁ k' → Switch touched k k'
  | awaitCondition {k k' : Kernel} {c : CondVarId} : touched (.condVar c) →
    Blocks .waitingCondVar (some (.condVar c)) k k' → Switch touched k k'
  | awaitExit {k k' : Kernel} {t : ThreadId} : touched (.thread t) → t ≠ k.current →
    (k.thread t).isActive = true → (k.thread t).state ≠ .final → k.members (.exit t) = [] →
    Blocks .waitingExit (some (.exit t)) k k' → Switch touched k k'
  | exit {k k₁ k' : Kernel} {msg : Msg} {next : ThreadId} : touched (.thread k.current) →
    k.running.held = [] → Rouses .ok (k.members (.exit k.current)) (k.finishCurrent msg) k₁ →
    Dispatches next k₁ k' → Switch touched k k'

/-- What an operation does: effects, and then perhaps a switch. -/
def Does (touched : Object → Prop) (k k' : Kernel) : Prop :=
  ∃ k₁, Relation.ReflTransGen (Effect touched) k k₁ ∧ (k' = k₁ ∨ Switch touched k₁ k')

variable {k k' : Kernel} {o t : ThreadId} {m : MutexId} {msg : Msg} {th : Thread}
  {runs : ThreadId → Prop} {touched : Object → Prop}

/-! Effects and switches keep the order. -/

theorem Arranged.queue_eq_none_of_state (hk : k.Arranged runs)
    (hs : (k.thread t).state = .inactive ∨ (k.thread t).state = .running ∨
      (k.thread t).state = .suspended ∨ (k.thread t).state = .sleeping ∨
      (k.thread t).state = .final) : (k.thread t).queue = none := by
  have hfit := hk.fits t
  cases hq : (k.thread t).queue with
  | none => rfl
  | some q => rcases hs with hs | hs | hs | hs | hs <;> rw [hs, hq] at hfit <;> cases hfit

theorem Boosts.arranged (h : Boosts o k k') (hk : k.Arranged runs) : k'.Arranged runs := by
  refine hk.moves_untimed h.2 h.1 (hk.fits o) ?_ id
  intro u
  split
  · rename_i hu
    rw [hu]
    exact (hk.running_iff o).symm
  · exact Iff.rfl

theorem Lends.arranged (h : Lends k o k') (hk : k.Arranged runs) : k'.Arranged runs := by
  induction h with
  | enough _ => exact hk
  | last _ hboost _ => exact hboost.arranged hk
  | on _ hboost _ _ _ ih => exact ih (hboost.arranged hk)

theorem Lends.current (h : Lends k o k') : k'.current = k.current := by
  induction h with
  | enough _ => rfl
  | last _ hboost _ => exact hboost.2.current
  | on _ hboost _ _ _ ih => exact ih.trans hboost.2.current

theorem Rouses.current {r : WakeupResult} {l : List ThreadId} (h : Rouses r l k k') :
    k'.current = k.current := by
  induction h with
  | nil => rfl
  | cons hw _ ih => exact ih.trans hw.moves.current

theorem Rouses.semaphores {r : WakeupResult} {l : List ThreadId} (h : Rouses r l k k') :
    k'.semaphores = k.semaphores := by
  induction h with
  | nil => rfl
  | cons hw _ ih => exact ih.trans hw.moves.semaphores

/-- The running thread is in no queue, so its record may be written as one likes. -/
theorem InPlace.setRunning (hk : k.InPlace) (queue : th.queue = none)
    (state : th.state = .running) : (k.setThread k.current th).InPlace := by
  have hrun : (k.thread k.current).state = .running := hk.state_current
  have hq := hk.queue_eq_none (t := k.current) rfl
  refine hk.moves_untimed (hk.toLinked.moves_setThread false hq queue) rfl ?_ ?_ ?_
  · rw [queue, state]
    rfl
  · intro u
    split
    · rename_i hu
      exact iff_of_true hu state
    · exact Iff.rfl
  · intro htimed
    rw [hrun] at htimed
    cases htimed

/-- What striking off a mutex makes of the records. -/
theorem thread_strike (k : Kernel) (m : MutexId) (u : ThreadId) :
    (k.strike m).thread u = if u = k.current then
      { k.running with
        held := k.running.held.erase m
        priority := (k.modifyThread k.current fun th =>
          { th with held := th.held.erase m }).residualPriority k.current }
      else k.thread u := by
  have howner : ∀ k : Kernel, (k.setOwner m none).thread u = k.thread u := fun _ => rfl
  unfold strike
  dsimp only
  rw [howner, thread_modifyThread, thread_modifyThread, thread_modifyThread, if_pos rfl]
  split <;> rfl

theorem InPlace.strike (hk : k.InPlace) (m : MutexId) : (k.strike m).InPlace := by
  have hq : k.running.queue = none := hk.queue_eq_none rfl
  have hrun : k.running.state = .running := hk.state_current
  have hk₁ : (k.modifyThread k.current fun th => { th with held := th.held.erase m }).InPlace :=
    hk.setRunning hq hrun
  refine (hk₁.setRunning ?_ ?_).congr rfl rfl fun _ _ ha => Or.inl ha
  · rw [thread_modifyThread, if_pos rfl]
    exact hq
  · rw [thread_modifyThread, if_pos rfl]
    exact hrun

theorem Linked.acquire (hk : k.Linked) (m : MutexId) (t : ThreadId) : (k.acquire m t).Linked :=
  Linked.setThread (k := k.setOwner m (some t)) ⟨hk.hold, hk.mem_iff⟩ rfl

theorem Arranged.acquire (hk : k.Arranged runs) (m : MutexId) (t : ThreadId) :
    (k.acquire m t).Arranged runs :=
  (hk.congr rfl rfl fun _ _ ha => Or.inl ha : (k.setOwner m (some t)).Arranged runs).setThread
    rfl rfl rfl

/-- A slot whose thread is gone gets the record of another one that does not run yet. -/
theorem InPlace.replaceThread (hk : k.InPlace)
    (gone : (k.thread t).state = .inactive ∨ (k.thread t).state = .final)
    (fits : th.state.fits none = true) (queue : th.queue = none) (state : th.state ≠ .running) :
    (k.replaceThread t th).InPlace := by
  have hq : (k.thread t).queue = none :=
    hk.queue_eq_none_of_state (by tauto)
  refine hk.moves_untimed (hk.toLinked.moves_replaceThread false hq queue) rfl ?_ ?_ ?_
  · rw [queue]
    exact fits
  · intro u
    split
    · rename_i hu
      refine iff_of_false ?_ state
      intro hcur
      have hrun := (hk.running_iff u).mpr hcur
      rw [hu] at hrun
      rcases gone with hg | hg <;> rw [hg] at hrun <;> cases hrun
    · exact Iff.rfl
  · intro htimed
    rcases gone with hg | hg <;> rw [hg] at htimed <;> cases htimed

theorem InPlace.setSemaphoreCount (hk : k.Arranged runs) (s : SemaphoreId) (count : Int) :
    (k.setSemaphoreCount s count).Arranged runs := hk.congr rfl rfl fun _ _ ha => Or.inl ha

theorem Wakes.inPlace {r : WakeupResult} (h : Wakes t r k k') (hk : k.InPlace) : k'.InPlace := by
  have hk' := h.arranged hk
  rw [← h.moves.current] at hk'
  exact hk'

theorem Rouses.inPlace {r : WakeupResult} {l : List ThreadId} (h : Rouses r l k k')
    (hk : k.InPlace) : k'.InPlace := by
  have hk' := h.arranged hk
  rw [← h.current] at hk'
  exact hk'

theorem Effect.inPlace (h : Effect touched k k') (hk : k.InPlace) : k'.InPlace := by
  cases h with
  | quiet => exact hk.congr rfl rfl fun _ _ ha => Or.inl ha
  | timers clock timers armed => exact hk.congr rfl rfl armed
  | mark t terminate entry => exact hk.setThread rfl rfl rfl
  | setBase p _ =>
      refine hk.setRunning ?_ ?_
      · exact hk.queue_eq_none (t := k.current) rfl
      · exact hk.state_current
  | resume _ _ hw => exact hw.inPlace hk
  | timeOut _ _ _ hw => exact hw.inPlace hk
  | expire _ _ hw => exact hw.inPlace (InPlace.setSemaphoreCount hk _ _)
  | grant _ _ hw => exact hw.inPlace (InPlace.setSemaphoreCount hk _ _)
  | recount => exact InPlace.setSemaphoreCount hk _ _
  | dismiss _ _ hr => exact hr.inPlace (InPlace.setSemaphoreCount hk _ _)
  | notify _ _ hw => exact hw.inPlace hk
  | take => exact hk.acquire _ _
  | free => exact hk.strike _
  | handOver _ _ _ hw => exact hw.inPlace ((hk.strike _).acquire _ _)
  | create name p e _ hs => exact hk.replaceThread (Or.inl hs) rfl rfl nofun
  | blank hs => exact hk.replaceThread (Or.inl hs) rfl rfl nofun
  | vacate _ hs => exact hk.replaceThread (Or.inr hs) rfl rfl nofun
  | newSemaphore => exact hk.congr rfl rfl fun _ _ ha => Or.inl ha
  | newMutex => exact hk.congr rfl rfl fun _ _ ha => Or.inl ha
  | newCondVar => exact hk.congr rfl rfl fun _ _ ha => Or.inl ha
  | newMailbox => exact hk.congr rfl rfl fun _ _ ha => Or.inl ha
  | write => exact hk.congr rfl rfl fun _ _ ha => Or.inl ha

/-- The same thread runs after an effect. -/
theorem Effect.current (h : Effect touched k k') : k'.current = k.current := by
  cases h with
  | resume _ _ hw => exact hw.moves.current
  | timeOut _ _ _ hw => exact hw.moves.current
  | expire _ _ hw => exact hw.moves.current
  | grant _ _ hw => exact hw.moves.current
  | dismiss _ _ hr => exact hr.current
  | notify _ _ hw => exact hw.moves.current
  | handOver _ _ _ hw => exact hw.moves.current
  | _ => rfl

theorem InPlace.finishCurrent (hk : k.InPlace) (msg : Msg) :
    (k.finishCurrent msg).Arranged fun _ => False := by
  have hrun : (k.thread k.current).state = .running := hk.state_current
  have hq := hk.queue_eq_none (t := k.current) rfl
  refine hk.moves_untimed (hk.toLinked.moves_setThread false hq ?_) rfl ?_ ?_ ?_
  · exact hq
  · change ThreadState.fits .final (k.thread k.current).queue = true
    rw [hq]
    rfl
  · intro u
    split
    · exact iff_of_false id nofun
    · rename_i hu
      exact iff_of_false id hu
  · intro htimed
    rw [hrun] at htimed
    cases htimed

theorem Switch.inPlace (h : Switch touched k k') (hk : k.InPlace) : k'.InPlace := by
  cases h with
  | giveWay h => exact h.inPlace hk
  | park _ h => exact h.inPlace hk
  | awaitUnit _ _ _ _ h => exact h.inPlace (InPlace.setSemaphoreCount hk _ _)
  | awaitMutex _ _ _ hlends h =>
      have hk₁ := hlends.arranged hk
      rw [← hlends.current] at hk₁
      exact h.inPlace hk₁
  | awaitCondition _ h => exact h.inPlace hk
  | awaitExit _ _ _ _ _ h => exact h.inPlace hk
  | exit _ _ hr hd => exact hd.inPlace (hr.arranged (hk.finishCurrent _))

theorem Does.inPlace (h : Does touched k k') (hk : k.InPlace) : k'.InPlace := by
  obtain ⟨k₁, heffects, hswitch⟩ := h
  have hk₁ : k₁.InPlace := by
    clear hswitch
    induction heffects with
    | refl => exact hk
    | tail _ he ih => exact he.inPlace ih
  rcases hswitch with rfl | hswitch
  · exact hk₁
  · exact hswitch.inPlace hk₁

end Kernel

end RealtimeKernel

import RealtimeKernel.Proofs.Execution.History

/-!
Queues, records and states agree with one another, at every boundary of an operation and at
every switch between threads.
-/
namespace RealtimeKernel

namespace Kernel
variable {k : Kernel}

structure Consistent (k : Kernel) : Prop where
  /-- One thread runs, and it is in no queue. -/
  running_iff : ∀ t, (k.thread t).state = .running ↔ t = k.current
  current_free : ∀ q, k.current ∉ k.members q
  /-- A thread is in the queue that its record names, once, and in no other one. -/
  count_members : ∀ t q, (k.members q).count t = if (k.thread t).queue = some q then 1 else 0
  apart : ∀ t q p, t ∈ k.members q → t ∈ k.members p → q = p
  /-- The links lead through the queue in both directions. -/
  links : ∀ q, (k.queues.get q).Holds k.queues.links (k.members q)
  /-- Every queue is in the order of priorities. -/
  sorted : ∀ q, InOrder k.priorityOf (k.members q)
  /-- The record names the queue that the state asks for. -/
  ready_iff : ∀ t, (k.thread t).state = .ready ↔ (k.thread t).queue = some .ready
  waitingUnit_iff : ∀ t,
    (k.thread t).state = .waitingSemaphore ∨ (k.thread t).state = .waitingMailbox ↔
      ∃ s, (k.thread t).queue = some (.semaphore s)
  waitingMutex_iff : ∀ t,
    (k.thread t).state = .waitingMutex ↔ ∃ m, (k.thread t).queue = some (.mutex m)
  waitingCondVar_iff : ∀ t,
    (k.thread t).state = .waitingCondVar ↔ ∃ c, (k.thread t).queue = some (.condVar c)
  waitingExit_iff : ∀ t,
    (k.thread t).state = .waitingExit ↔ ∃ u, (k.thread t).queue = some (.exit u)
  free_iff : ∀ t, (k.thread t).state ∈
    [.inactive, .running, .suspended, .sleeping, .final] ↔ (k.thread t).queue = none

theorem InPlace.consistent (hk : k.InPlace) : k.Consistent := by
  have hnodup : ∀ q, (k.members q).Nodup := fun q => hk.hold.nodup q
  refine ⟨hk.running_iff, ?_, ?_, fun _ _ _ => hk.hold.apart, ?_, hk.sorted, ?_, ?_, ?_, ?_, ?_, ?_⟩
  · exact hk.toLinked.free (hk.queue_eq_none rfl)
  · intro t q
    split
    · rename_i hq
      exact List.count_eq_one_of_mem (hnodup q) ((hk.mem_iff t q).mpr hq)
    · rename_i hq
      exact List.count_eq_zero_of_not_mem fun hmem => hq ((hk.mem_iff t q).mp hmem)
  · exact fun q => hk.hold.holds q
  all_goals
    intro t
    have hfit := hk.fits t
    revert hfit
    cases (k.thread t).state <;> rcases (k.thread t).queue with _ | (_ | _ | _ | _ | _) <;>
      simp [ThreadState.fits]

end Kernel

namespace Execution
variable {h : History} {x : Execution}

theorem reaches_consistent (hr : Reaches h x) (hj : JoinedOnce h) : x.kernel.Consistent :=
  (hr.orderly hj).sound.inPlace.consistent

/-- The boot thread joins a thread that ends only then. -/
def joining : List Move :=
  [.takeAnswer, .call (.spawn "worker" .normal "work"), .takeAnswer,
    .call (.operation (.join 2)), .enter, .call (.exit 7), .advance]

theorem consistent_joining : Reaches (enact joining).1 (enact joining).2 ∧
    JoinedOnce (enact joining).1 ∧ (enact joining).2.kernel.Consistent :=
  have hr := reaches_enact (by decide +kernel)
  have hj : JoinedOnce (enact joining).1 := by decide +kernel
  ⟨hr, hj, reaches_consistent hr hj⟩

end Execution

end RealtimeKernel

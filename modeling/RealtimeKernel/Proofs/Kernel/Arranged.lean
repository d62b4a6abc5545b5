import RealtimeKernel.Proofs.Kernel.Moves

/-!
The order that the kernel keeps. `Kernel.Arranged` says that the queues hold what the records
say, each in the order of priorities, that every thread stands where its state asks for, and
that a timeout is pending only for a thread that it may wake. The threads that run are a
parameter: between two operations it is the current one alone, amid a switch it is none.
-/
namespace RealtimeKernel

/-- May a thread in this state stand there? -/
def ThreadState.fits : ThreadState → Option QueueId → Bool
  | .ready, some .ready => true
  | .waitingSemaphore, some (.semaphore _) => true
  | .waitingMailbox, some (.semaphore _) => true
  | .waitingMutex, some (.mutex _) => true
  | .waitingCondVar, some (.condVar _) => true
  | .waitingExit, some (.exit _) => true
  | .inactive, none | .running, none | .suspended, none | .sleeping, none | .final, none => true
  | _, _ => false

/-- May a timeout end a wait in this state? -/
def ThreadState.isTimed : ThreadState → Bool
  | .suspended | .sleeping | .waitingSemaphore | .waitingCondVar | .waitingMailbox => true
  | _ => false

theorem timeoutSlot_injective {t u : ThreadId} (h : timeoutSlot t = timeoutSlot u) : t = u :=
  Fin.castLE_injective _ h

theorem timeoutSlot_lt (t : ThreadId) : (timeoutSlot t).val < maxThreads := t.isLt

theorem timeoutSlot_ne {s : TimerSlot} (h : maxThreads ≤ s.val) (t : ThreadId) :
    timeoutSlot t ≠ s := by
  rintro rfl
  exact absurd (timeoutSlot_lt t) (Nat.not_lt_of_le h)

namespace Kernel
variable {k k' k₁ : Kernel} {t u : ThreadId} {th : Thread} {ahead : Bool}
  {runs runs' : ThreadId → Prop}

/-- Is the slot of a timer the right one, and does the thread that it wakes wait for it? -/
def TimerFits (k : Kernel) (s : TimerSlot) : TimerAction → Prop
  | .wakeup t => s = timeoutSlot t ∧ (k.thread t).state.isTimed = true
  | .callback _ => maxThreads ≤ s.val

structure Arranged (runs : ThreadId → Prop) (k : Kernel) : Prop extends k.Linked where
  sorted : ∀ q, InOrder k.priorityOf (k.members q)
  fits : ∀ t, (k.thread t).state.fits (k.thread t).queue = true
  running_iff : ∀ t, (k.thread t).state = .running ↔ runs t
  timed : ∀ s a, (k.timers.cell s).action = some a → k.TimerFits s a

/-- The order between two operations. -/
abbrev InPlace (k : Kernel) : Prop := k.Arranged (· = k.current)

namespace Arranged

/-- Only threads, queues and timers count. -/
theorem congr (h : k.Arranged runs) (threads : k'.threads = k.threads)
    (queues : k'.queues = k.queues)
    (timers : ∀ s a, (k'.timers.cell s).action = some a → (k.timers.cell s).action = some a ∨
      ∃ r, a = .callback r ∧ maxThreads ≤ s.val) : k'.Arranged runs := by
  have hthread : k'.thread = k.thread := by
    funext t
    simp only [thread, threads]
  have hmembers : k'.members = k.members := by
    funext q
    simp only [members, queues]
  have hprio : k'.priorityOf = k.priorityOf := by
    funext t
    simp only [priorityOf, hthread]
  refine ⟨⟨?_, ?_⟩, ?_, ?_, ?_, ?_⟩
  · rw [queues, hmembers]
    exact h.hold
  · rw [hmembers, hthread]
    exact h.mem_iff
  · rw [hmembers, hprio]
    exact h.sorted
  · rw [hthread]
    exact h.fits
  · rw [hthread]
    exact h.running_iff
  · intro s a ha
    rcases timers s a ha with ha | ⟨r, rfl, hs⟩
    · have hfit := h.timed s a ha
      cases a with
      | wakeup t =>
          simp only [TimerFits, hthread] at hfit ⊢
          exact hfit
      | callback r => exact hfit
    · exact hs

theorem queue_eq_none (h : k.Arranged runs) (ht : runs t) : (k.thread t).queue = none := by
  have hfit := h.fits t
  rw [(h.running_iff t).mpr ht] at hfit
  cases hq : (k.thread t).queue with
  | none => rfl
  | some q =>
      rw [hq] at hfit
      cases hfit

/-- Who stands in a queue does not run. -/
theorem not_runs (h : k.Arranged runs) (hq : (k.thread t).queue = some q) : ¬ runs t := by
  intro ht
  rw [h.queue_eq_none ht] at hq
  cases hq

theorem not_runs_of_mem (h : k.Arranged runs) (ht : t ∈ k.members q) : ¬ runs t :=
  h.not_runs ((h.mem_iff t q).mp ht)

/-- No timeout is pending for a thread that does not wait for one. -/
theorem unarmed (h : k.Arranged runs) (ht : (k.thread t).state.isTimed = false) :
    (k.timers.cell (timeoutSlot t)).action = none := by
  cases ha : (k.timers.cell (timeoutSlot t)).action with
  | none => rfl
  | some a =>
      have hfit := h.timed _ a ha
      cases a with
      | wakeup u =>
          obtain ⟨hslot, htimed⟩ := hfit
          obtain rfl := timeoutSlot_injective hslot
          rw [ht] at htimed
          cases htimed
      | callback r => exact absurd (timeoutSlot_lt t) (Nat.not_lt_of_le hfit)

/-- A thread moves: the order is kept if the thread's new record fits its new place, and its
timeout is as the new record asks for. -/
theorem moves (hk : k.Arranged runs) (h : Moves ahead t th k k')
    (fits : th.state.fits th.queue = true)
    (running : ∀ u, runs' u ↔ if u = t then th.state = .running else runs u)
    (others : ∀ s, s ≠ timeoutSlot t → (k'.timers.cell s).action = (k.timers.cell s).action)
    (own : ∀ a, (k'.timers.cell (timeoutSlot t)).action = some a →
      a = .wakeup t ∧ th.state.isTimed = true) : k'.Arranged runs' := by
  refine ⟨h.linked hk.toLinked, fun q => h.sorted hk.toLinked (hk.sorted q), ?_, ?_, ?_⟩
  · intro u
    rw [h.thread]
    split
    · exact fits
    · exact hk.fits u
  · intro u
    rw [h.thread, running]
    split
    · exact Iff.rfl
    · exact hk.running_iff u
  · intro s a ha
    by_cases hs : s = timeoutSlot t
    · subst hs
      obtain ⟨rfl, htimed⟩ := own a ha
      refine ⟨rfl, ?_⟩
      rw [h.thread_self]
      exact htimed
    · rw [others s hs] at ha
      have hfit := hk.timed s a ha
      cases a with
      | wakeup u =>
          obtain ⟨rfl, htimed⟩ := hfit
          refine ⟨rfl, ?_⟩
          rw [h.thread_of_ne]
          · exact htimed
          · rintro rfl
            exact hs rfl
      | callback r => exact hfit

/-- A thread moves that has no timeout, or keeps it. -/
theorem moves_untimed (hk : k.Arranged runs) (h : Moves ahead t th k k')
    (timers : k'.timers = k.timers) (fits : th.state.fits th.queue = true)
    (running : ∀ u, runs' u ↔ if u = t then th.state = .running else runs u)
    (timed : (k.thread t).state.isTimed = true → th.state.isTimed = true) :
    k'.Arranged runs' := by
  refine hk.moves h fits running (fun s _ => by rw [timers]) ?_
  intro a ha
  rw [timers] at ha
  have hfit := hk.timed _ a ha
  cases a with
  | wakeup u =>
      obtain ⟨hslot, htimed⟩ := hfit
      obtain rfl := timeoutSlot_injective hslot
      exact ⟨rfl, timed htimed⟩
  | callback r => exact absurd (timeoutSlot_lt t) (Nat.not_lt_of_le hfit)

/-- The record of a thread is written, but for its place. -/
theorem setThread (hk : k.Arranged runs) (queue : th.queue = (k.thread t).queue)
    (state : th.state = (k.thread t).state)
    (priority : th.priority = (k.thread t).priority) : (k.setThread t th).Arranged runs := by
  refine ⟨hk.toLinked.setThread queue, ?_, ?_, ?_, ?_⟩
  · rw [priorityOf_setThread priority]
    exact hk.sorted
  · intro u
    rw [thread_setThread]
    split
    · rename_i hu
      rw [queue, state]
      exact hk.fits t
    · exact hk.fits u
  · intro u
    rw [thread_setThread]
    split
    · rename_i hu
      rw [hu, state]
      exact hk.running_iff t
    · exact hk.running_iff u
  · intro s a ha
    have hfit := hk.timed s a ha
    cases a with
    | wakeup u =>
        refine ⟨hfit.1, ?_⟩
        rw [thread_setThread]
        split
        · rename_i hu
          rw [state, ← hu]
          exact hfit.2
        · exact hfit.2
    | callback r => exact hfit

end Arranged

theorem InPlace.state_current (hk : k.InPlace) : (k.thread k.current).state = .running :=
  (hk.running_iff k.current).mpr rfl

end Kernel

end RealtimeKernel

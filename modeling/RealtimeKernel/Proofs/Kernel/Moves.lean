import RealtimeKernel.Kernel.Scheduler
import RealtimeKernel.Proofs.Kernel.Queues
import RealtimeKernel.Proofs.TimerQueue.Actions

/-!
What the kernel does to one thread. Every change of a thread's place comes down to one shape,
`Kernel.Moves`: the thread is taken out of the queue that it stands in, its record is written,
and it enters the queue that its record then names. The primitives of the scheduler are read
as such moves here, so nothing after this module looks at links again.
-/
namespace RealtimeKernel

namespace Lines

/-- A thread leaves its queue and enters another one, if any. -/
def settle (L : Lines) (ahead : Bool) (prio : ThreadId → Priority) (t : ThreadId) :
    Option QueueId → Lines
  | none => L.leave t
  | some q => (L.leave t).enter ahead prio q t

end Lines

namespace Kernel
variable {k k' k₁ k₂ : Kernel} {t u : ThreadId} {th th' : Thread} {q p : QueueId} {ahead : Bool}

theorem thread_setThread (k : Kernel) (t u : ThreadId) (th : Thread) :
    (k.setThread t th).thread u = if u = t then th else k.thread u := by
  simp only [thread, setThread, get_set_fin, eq_comm]

theorem thread_modifyThread (k : Kernel) (t u : ThreadId) (f : Thread → Thread) :
    (k.modifyThread t f).thread u = if u = t then f (k.thread t) else k.thread u :=
  thread_setThread k t u _

/-- A field that the new record of a thread has as the old one is as it was for all threads. -/
theorem field_of_thread {α : Type} (f : Thread → α)
    (h : ∀ u, k'.thread u = if u = t then th else k.thread u) (same : f th = f (k.thread t))
    (u : ThreadId) : f (k'.thread u) = f (k.thread u) := by
  rw [h]
  split
  · rename_i hu
    rw [hu, same]
  · rfl

theorem require_eq_ok {α : Type} {x : Except Fault α} {a : α} :
    k.require x = .ok a ↔ x = .ok a := by
  cases x with
  | error f => simp [require, fail]
  | ok b => simp [require]

/-- The queues hold what the records say. -/
structure Linked (k : Kernel) : Prop where
  hold : k.queues.Hold k.members
  mem_iff : ∀ t q, t ∈ k.members q ↔ (k.thread t).queue = some q

theorem Linked.free (h : k.Linked) (ht : (k.thread t).queue = none) : ∀ q, t ∉ k.members q := by
  intro q hq
  rw [h.mem_iff, ht] at hq
  cases hq

theorem Linked.queue_of_head (h : k.Linked) (head : (k.members q).head? = some t) :
    (k.thread t).queue = some q :=
  (h.mem_iff t q).mp (List.mem_of_head? head)

theorem Linked.head_eq (h : k.Linked) (q : QueueId) :
    (k.queues.get q).head = (k.members q).head? := h.hold.head_eq q

/-- Nobody has entered a queue yet. -/
theorem linked_of_blank (queues : k.queues = {}) (hthread : ∀ t, (k.thread t).queue = none) :
    k.Linked := by
  have hmembers : k.members = fun _ => [] := by
    rw [← Queues.hold_empty.members_eq, ← queues]
    rfl
  refine ⟨?_, fun t q => ?_⟩
  · rw [hmembers, queues]
    exact Queues.hold_empty
  · rw [hmembers, hthread]
    exact iff_of_false List.not_mem_nil nofun

/-- One thread gets a new record and stands where that says; its timeout may change too. -/
structure Moves (ahead : Bool) (t : ThreadId) (th : Thread) (k k' : Kernel) : Prop where
  thread : ∀ u, k'.thread u = if u = t then th else k.thread u
  hold : k'.queues.Hold (Lines.settle k.members ahead k'.priorityOf t th.queue)
  frame : k' = { k with threads := k'.threads, queues := k'.queues, timers := k'.timers }

/-- Membership after a thread was settled. -/
theorem Linked.mem_settle (h : k.Linked) {prio : ThreadId → Priority} {o : Option QueueId} :
    u ∈ Lines.settle k.members ahead prio t o p ↔
      if u = t then o = some p else u ∈ k.members p := by
  have hleave := h.hold.mem_leave (t := t) (u := u) (p := p)
  cases o with
  | none =>
      simp only [Lines.settle, hleave, reduceCtorEq]
      split <;> simp_all
  | some q =>
      simp only [Lines.settle, Lines.mem_enter, hleave, Option.some.injEq]
      split <;> simp_all [eq_comm]

namespace Moves

theorem members (h : Moves ahead t th k k') :
    k'.members = Lines.settle k.members ahead k'.priorityOf t th.queue := h.hold.members_eq

theorem thread_self (h : Moves ahead t th k k') : k'.thread t = th := by
  rw [h.thread, if_pos rfl]

theorem thread_of_ne (h : Moves ahead t th k k') (hu : u ≠ t) : k'.thread u = k.thread u := by
  rw [h.thread, if_neg hu]

theorem current (h : Moves ahead t th k k') : k'.current = k.current := by rw [h.frame]

theorem semaphores (h : Moves ahead t th k k') : k'.semaphores = k.semaphores := by rw [h.frame]

theorem mutexes (h : Moves ahead t th k k') : k'.mutexes = k.mutexes := by rw [h.frame]

theorem mailboxes (h : Moves ahead t th k k') : k'.mailboxes = k.mailboxes := by rw [h.frame]

theorem mem_iff (h : Moves ahead t th k k') (hk : k.Linked) :
    u ∈ k'.members p ↔ if u = t then th.queue = some p else u ∈ k.members p := by
  rw [h.members]
  exact hk.mem_settle

/-- A queue that the thread neither leaves nor enters. -/
theorem members_of_ne (h : Moves ahead t th k k') (hk : k.Linked)
    (old : (k.thread t).queue ≠ some p) (new : th.queue ≠ some p) :
    k'.members p = k.members p := by
  have hleave : Lines.leave k.members t p = k.members p := by
    refine List.erase_of_not_mem ?_
    rw [hk.mem_iff]
    exact old
  rw [h.members]
  cases hq : th.queue with
  | none => exact hleave
  | some q =>
      have hp : p ≠ q := by
        rintro rfl
        exact new hq
      rw [Lines.settle, Lines.enter_of_ne hp]
      exact hleave

theorem length_members (h : Moves ahead t th k k') (hk : k.Linked) (p : QueueId) :
    (k'.members p).length + (if (k.thread t).queue = some p then 1 else 0) =
      (k.members p).length + if th.queue = some p then 1 else 0 := by
  have hleave : (Lines.leave k.members t p).length +
      (if (k.thread t).queue = some p then 1 else 0) = (k.members p).length := by
    have hmem := hk.mem_iff t p
    split
    · rename_i hq
      have hpos := List.length_pos_of_mem (hmem.mpr hq)
      rw [Lines.leave, List.length_erase_of_mem (hmem.mpr hq)]
      omega
    · rename_i hq
      rw [Lines.leave, List.erase_of_not_mem (fun hm => hq (hmem.mp hm))]
      rfl
  rw [h.members]
  cases th.queue with
  | none =>
      rw [Lines.settle, hleave]
      simp
  | some q =>
      rw [Lines.settle, Lines.length_enter]
      simp only [Option.some.injEq, eq_comm (a := q)]
      omega

theorem linked (h : Moves ahead t th k k') (hk : k.Linked) : k'.Linked := by
  refine ⟨?_, ?_⟩
  · rw [h.members]
    exact h.hold
  · intro u p
    rw [h.mem_iff hk, h.thread]
    split
    · exact Iff.rfl
    · exact hk.mem_iff u p

/-- Without the thread every queue is as it was. -/
theorem leave_eq (h : Moves ahead t th k k') (hk : k.Linked) :
    Lines.leave k'.members t = Lines.leave k.members t := by
  rw [h.members]
  cases hq : th.queue with
  | none => exact Lines.leave_of_free hk.hold.free_of_leave
  | some q =>
      funext p
      by_cases hp : p = q
      · subst hp
        simp only [Lines.settle, Lines.leave, Lines.enter_self]
        exact List.erase_orderedInsert_of_notMem (hk.hold.free_of_leave p)
      · have henter : Lines.settle k.members ahead k'.priorityOf t (some q) p =
            Lines.leave k.members t p := Lines.enter_of_ne hp
        simp only [Lines.leave] at henter ⊢
        rw [henter]
        exact List.erase_of_not_mem (hk.hold.free_of_leave p)

/-- A queue in the order of priorities is so again. -/
theorem sorted (h : Moves ahead t th k k') (hk : k.Linked)
    (hp : InOrder k.priorityOf (k.members p)) : InOrder k'.priorityOf (k'.members p) := by
  have hleave : InOrder k'.priorityOf (Lines.leave k.members t p) := by
    refine (hp.sublist List.erase_sublist).congr fun u hu => ?_
    simp only [priorityOf, h.thread_of_ne (hk.hold.mem_leave.mp hu).1]
  rw [h.members]
  cases th.queue with
  | none => exact hleave
  | some q =>
      by_cases hpq : p = q
      · subst hpq
        rw [Lines.settle, Lines.enter_self]
        exact hleave.lineUp
      · rw [Lines.settle, Lines.enter_of_ne hpq]
        exact hleave

/-- A thread that has moved on was never where it was in between. -/
theorem trans (h : Moves ahead t th k k₁) (hk : k.Linked) {ahead' : Bool}
    (h' : Moves ahead' t th' k₁ k') : Moves ahead' t th' k k' := by
  have hleave := h.leave_eq hk
  refine ⟨?_, ?_, ?_⟩
  · intro u
    rw [h'.thread, h.thread]
    split <;> rfl
  · have hsettle : Lines.settle k₁.members ahead' k'.priorityOf t th'.queue =
        Lines.settle k.members ahead' k'.priorityOf t th'.queue := by
      cases th'.queue with
      | none => exact hleave
      | some q => simp only [Lines.settle, hleave]
    rw [← hsettle]
    exact h'.hold
  · rw [h'.frame, h.frame]

end Moves

/-! The primitives. -/

theorem Linked.setThread (hk : k.Linked) (hq : th.queue = (k.thread t).queue) :
    (k.setThread t th).Linked := by
  refine ⟨hk.hold, ?_⟩
  intro u p
  rw [thread_setThread]
  split
  · rename_i hu
    subst hu
    rw [hq]
    exact hk.mem_iff u p
  · exact hk.mem_iff u p

/-- A thread that stands in no queue gets a new record that names none. -/
theorem Linked.moves_setThread (hk : k.Linked) (ahead : Bool) (hq : (k.thread t).queue = none)
    (hth : th.queue = none) : Moves ahead t th k (k.setThread t th) := by
  refine ⟨fun u => thread_setThread k t u th, ?_, rfl⟩
  rw [hth]
  change k.queues.Hold (Lines.leave k.members t)
  rw [Lines.leave_of_free (hk.free hq)]
  exact hk.hold

/-- A slot that stands in no queue gets a new record. -/
theorem Linked.moves_replaceThread (hk : k.Linked) (ahead : Bool) (hq : (k.thread t).queue = none)
    (hth : th.queue = none) : Moves ahead t th k (k.replaceThread t th) := by
  refine ⟨fun u => thread_setThread k t u th, ?_, rfl⟩
  rw [hth, Lines.settle, Lines.leave_of_free (hk.free hq)]
  exact hk.hold.clear (hk.free hq)

theorem priorityOf_setThread (h : th.priority = (k.thread t).priority) :
    (k.setThread t th).priorityOf = k.priorityOf := by
  funext u
  simp only [priorityOf, thread_setThread]
  split
  · rename_i hu
    rw [h, hu]
  · rfl

section Relink
variable {f : Fault} {o : Option (ThreadQueue maxThreads × Links maxThreads)} {L : Lines}

theorem relink_eq_ok : k.relink q f o = .ok k' ↔ ∃ r, o = some r ∧ k' = k.putQueue q r := by
  cases o with
  | none => simp [relink, fail]
  | some r => simp [relink, eq_comm]

/-- No more than the queues change. -/
theorem relink_frame (h : k.relink q f o = .ok k') : k' = { k with queues := k'.queues } := by
  obtain ⟨r, -, rfl⟩ := relink_eq_ok.mp h
  rfl

variable (ho : ∃ r, o = some r ∧ ({ k.queues with links := r.2 }.set q r.1).Hold L)
include ho

theorem relink_total (f : Fault) : ∃ k', k.relink q f o = .ok k' := by
  obtain ⟨r, hr, -⟩ := ho
  exact ⟨_, relink_eq_ok.mpr ⟨r, hr, rfl⟩⟩

theorem relink_hold (h : k.relink q f o = .ok k') : k'.queues.Hold L := by
  obtain ⟨r, hr, hold⟩ := ho
  obtain ⟨r', hr', rfl⟩ := relink_eq_ok.mp h
  obtain rfl := Option.some.inj (hr.symm.trans hr')
  exact hold

end Relink

section Enter
variable {L : Lines} (hold : k.queues.Hold L) (free : ∀ p, t ∉ L p)
include hold free

/-- Whoever is in no queue can be put into any. -/
theorem link_total (q : QueueId) : ∃ k', k.link q t = .ok k' :=
  relink_total (hold.insert free q k.priorityOf) _

theorem linkAhead_total (q : QueueId) : ∃ k', k.linkAhead q t = .ok k' :=
  relink_total (hold.insertAhead free q k.priorityOf) _

theorem link_hold (h : k.link q t = .ok k') :
    k'.queues.Hold (L.enter false k.priorityOf q t) :=
  relink_hold (hold.insert free q k.priorityOf) h

theorem linkAhead_hold (h : k.linkAhead q t = .ok k') :
    k'.queues.Hold (L.enter true k.priorityOf q t) :=
  relink_hold (hold.insertAhead free q k.priorityOf) h

end Enter

theorem enqueue_total (hk : k.Linked) (hq : (k.thread t).queue = none) (q : QueueId) :
    ∃ k', k.enqueue q t = .ok k' := by
  obtain ⟨k₁, hlink⟩ := link_total hk.hold (hk.free hq) q
  rw [enqueue, if_pos hq, hlink]
  exact ⟨_, rfl⟩

theorem enqueue_ok (hk : k.Linked) (h : k.enqueue q t = .ok k') :
    (k.thread t).queue = none ∧ k'.timers = k.timers ∧
      Moves false t { k.thread t with queue := some q } k k' := by
  unfold enqueue at h
  split at h
  · rename_i hq
    obtain ⟨k₁, hlink, h⟩ := bind_eq_ok.mp h
    obtain rfl := Except.ok.inj h
    have hframe := relink_frame hlink
    have hold := link_hold hk.hold (hk.free hq) hlink
    have hprio : (k₁.setQueue t (some q)).priorityOf = k.priorityOf := by
      rw [hframe]
      exact priorityOf_setThread (k := k) rfl
    refine ⟨hq, ?_, fun u => ?_, ?_, ?_⟩
    · rw [hframe]
      rfl
    · rw [hframe]
      exact thread_setThread k t u _
    · rw [hprio, Lines.settle, Lines.leave_of_free (hk.free hq)]
      exact hold
    · rw [hframe]
      rfl
  · cases h

/-- A thread that stands in no queue is put into the one that its new record names. -/
theorem Linked.moves_link (hk : k.Linked) (hq : (k.thread t).queue = none)
    (hth : th.queue = some q) (h : (k.setThread t th).link q t = .ok k') :
    Moves false t th k k' ∧ k'.timers = k.timers := by
  have free := hk.free hq
  have hold := link_hold (k := k.setThread t th) hk.hold free h
  rw [relink_frame h]
  refine ⟨⟨fun u => thread_setThread k t u th, ?_, rfl⟩, rfl⟩
  rw [hth, Lines.settle, Lines.leave_of_free free]
  exact hold

theorem rejoin_frame (h : k.rejoin t ahead = .ok k') :
    k' = { k with threads := k'.threads, queues := k'.queues } := by
  cases ahead with
  | false => rw [relink_frame h]; rfl
  | true => rw [relink_frame h]; rfl

theorem rejoin_total (hk : k.Linked) (hq : (k.thread t).queue = none) (ahead : Bool) :
    ∃ k', k.rejoin t ahead = .ok k' := by
  cases ahead with
  | false => exact link_total (k := k.setThread t _) hk.hold (hk.free hq) .ready
  | true => exact linkAhead_total (k := k.setThread t _) hk.hold (hk.free hq) .ready

theorem rejoin_ok (hk : k.Linked) (hq : (k.thread t).queue = none)
    (h : k.rejoin t ahead = .ok k') :
    Moves ahead t { k.thread t with state := .ready, queue := some .ready } k k' ∧
      k'.timers = k.timers := by
  have free := hk.free hq
  cases ahead with
  | false => exact hk.moves_link hq rfl h
  | true =>
      have hold := linkAhead_hold (k := k.setThread t _) hk.hold free h
      rw [relink_frame h]
      refine ⟨⟨fun u => thread_setThread k t u _, ?_, rfl⟩, rfl⟩
      rw [Lines.settle, Lines.leave_of_free free]
      exact hold

/-- Whoever stands in a queue can be taken out of it. -/
theorem unlinkFrom_total (hk : k.Linked) (hq : (k.thread t).queue = some q) :
    ∃ k', k.unlinkFrom q t = .ok k' :=
  relink_total (hk.hold.remove ((hk.mem_iff t q).mpr hq)) _

/-- What `unlinkFrom` does to the queues. -/
theorem Linked.unlinkFrom_ok (hk : k.Linked) (hq : (k.thread t).queue = some q)
    (h : k.unlinkFrom q t = .ok k') :
    k' = { k with queues := k'.queues } ∧ k'.queues.Hold (Lines.leave k.members t) :=
  ⟨relink_frame h, relink_hold (hk.hold.remove ((hk.mem_iff t q).mpr hq)) h⟩

theorem Linked.moves_unlinkFrom (hk : k.Linked) (hq : (k.thread t).queue = some q)
    (h : k.unlinkFrom q t = .ok k₁) :
    Moves false t { k.thread t with queue := none } k (k₁.setQueue t none) ∧
      (k₁.setQueue t none).timers = k.timers := by
  obtain ⟨hframe, hold⟩ := hk.unlinkFrom_ok hq h
  rw [hframe]
  exact ⟨⟨fun u => thread_setThread k t u _, hold, rfl⟩, rfl⟩

theorem unlink_ok (hk : k.Linked) (h : k.unlink t = .ok k') :
    Moves false t { k.thread t with queue := none } k k' ∧ k'.timers = k.timers := by
  unfold unlink at h
  split at h
  · rename_i hq
    obtain rfl := Except.ok.inj h
    refine ⟨⟨fun u => ?_, ?_, rfl⟩, rfl⟩
    · split
      · rename_i hu
        rw [hu, ← hq]
      · rfl
    · change k.queues.Hold (Lines.leave k.members t)
      rw [Lines.leave_of_free (hk.free hq)]
      exact hk.hold
  · rename_i q hq
    obtain ⟨k₁, h₁, h⟩ := bind_eq_ok.mp h
    obtain rfl := Except.ok.inj h
    exact hk.moves_unlinkFrom hq h₁

/-- What a queue pops is its head, taken out as any other member is. -/
theorem dequeue_eq (k : Kernel) (q : QueueId) :
    k.dequeue q = match (k.queues.get q).head with
      | none => .ok none
      | some t => do return some (t, (← k.unlinkFrom q t).setQueue t none) := by
  unfold dequeue ThreadQueue.popFront unlinkFrom
  cases (k.queues.get q).head with
  | none => rfl
  | some t =>
      dsimp only
      cases (k.queues.get q).remove k.queues.links t with
      | none => rfl
      | some r => rfl

/-- The first thread of a queue is taken out of it. -/
theorem dequeue_ok (hk : k.Linked) (h : k.dequeue q = .ok (some (t, k'))) :
    (k.members q).head? = some t ∧ (k.thread t).queue = some q ∧
      Moves false t { k.thread t with queue := none } k k' ∧ k'.timers = k.timers := by
  rw [dequeue_eq, hk.head_eq] at h
  split at h
  · cases h
  · rename_i u hu
    obtain ⟨k₁, h₁, h⟩ := bind_eq_ok.mp h
    obtain ⟨rfl, rfl⟩ := Prod.mk.inj (Option.some.inj (Except.ok.inj h))
    have hq := hk.queue_of_head hu
    exact ⟨hu, hq, hk.moves_unlinkFrom hq h₁⟩

theorem dequeue_none (hk : k.Linked) (h : k.dequeue q = .ok none) : k.members q = [] := by
  rw [dequeue_eq, hk.head_eq] at h
  split at h
  · rename_i hu
    exact List.head?_eq_none_iff.mp hu
  · obtain ⟨k₁, -, h⟩ := bind_eq_ok.mp h
    cases h

/-- A thread goes to the place in its queue that its priority asks for. -/
theorem requeue_ok (hk : k.Linked) (h : k.requeue t = .ok k') :
    Moves false t (k.thread t) k k' ∧ k'.timers = k.timers := by
  unfold requeue at h
  split at h
  · rename_i hq
    obtain rfl := Except.ok.inj h
    refine ⟨⟨fun u => ?_, ?_, rfl⟩, rfl⟩
    · split
      · rename_i hu
        rw [hu]
      · rfl
    · rw [hq, Lines.settle, Lines.leave_of_free (hk.free hq)]
      exact hk.hold
  · rename_i q hq
    obtain ⟨k₁, h₁, h⟩ := bind_eq_ok.mp h
    obtain ⟨hframe₁, hold₁⟩ := hk.unlinkFrom_ok hq h₁
    have hold := link_hold hold₁ hk.hold.free_of_leave h
    rw [hframe₁] at hold
    rw [relink_frame h, hframe₁]
    refine ⟨⟨fun u => ?_, ?_, rfl⟩, rfl⟩
    · change k.thread u = _
      split
      · rename_i hu
        rw [hu]
      · rfl
    · rw [hq, Lines.settle]
      exact hold

theorem requeue_total (hk : k.Linked) (t : ThreadId) : ∃ k', k.requeue t = .ok k' := by
  unfold requeue
  split
  · exact ⟨k, rfl⟩
  · rename_i q hq
    obtain ⟨k₁, hunlink⟩ := unlinkFrom_total hk hq
    obtain ⟨-, hold⟩ := hk.unlinkFrom_ok hq hunlink
    rw [hunlink]
    exact link_total hold hk.hold.free_of_leave q

/-- A thread becomes ready, and its timeout, if any, is void. -/
theorem ready_ok {r : WakeupResult} (hk : k.Linked) (h : k.ready t r = .ok k') :
    (k.thread t).queue = none ∧ (k.thread t).state.isRunnable = false ∧
      k.timers.cancel (timeoutSlot t) = .ok k'.timers ∧
      Moves false t { k.thread t with state := .ready, wakeup := r, queue := some .ready }
        k k' := by
  unfold ready at h
  obtain ⟨timers, ht, h⟩ := bind_eq_ok.mp h
  rw [require_eq_ok] at ht
  dsimp only at h
  split at h
  · cases h
  · rename_i hr
    have hk₁ : ({ k with timers }.setThread t
        { k.thread t with state := .ready, wakeup := r }).Linked :=
      Linked.setThread (k := { k with timers }) ⟨hk.hold, hk.mem_iff⟩ rfl
    obtain ⟨hq, htimers, hmoves⟩ := enqueue_ok hk₁ h
    rw [thread_setThread, if_pos rfl] at hq hmoves
    refine ⟨hq, eq_false_of_ne_true hr, ?_, ?_, hmoves.hold, ?_⟩
    · rw [htimers]
      exact ht
    · intro u
      rw [hmoves.thread, thread_setThread]
      split <;> rfl
    · rw [hmoves.frame]
      rfl

theorem takeNext_ok (hk : k.Linked) (h : k.takeNext = .ok (t, k')) :
    (k.members .ready).head? = some t ∧ (k.thread t).queue = some .ready ∧
      Moves false t { k.thread t with queue := none } k k' ∧ k'.timers = k.timers := by
  unfold takeNext at h
  obtain ⟨o, ho, h⟩ := bind_eq_ok.mp h
  split at h
  · obtain rfl := Except.ok.inj h
    exact dequeue_ok hk ho
  · cases h

end Kernel

end RealtimeKernel

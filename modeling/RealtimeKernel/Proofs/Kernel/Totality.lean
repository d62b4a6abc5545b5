import RealtimeKernel.Proofs.Kernel.Events
import RealtimeKernel.Proofs.Kernel.Inheritance
import RealtimeKernel.Proofs.Kernel.Settled
import RealtimeKernel.Proofs.Kernel.Timers

/-!
Where the kernel fails. Its checks are of two kinds: some find misuse by the caller, the others can
find nothing as long as the kernel is whole. So each operation comes with the faults that it is
left with, each under the condition that makes it one.
-/
namespace RealtimeKernel

/-- Whatever goes wrong is one of these faults. -/
def FailsOnly {α : Type} (P : Fault → Prop) (o : Outcome α) : Prop :=
  ∀ halt, o = .error halt → P halt.fault

namespace FailsOnly
variable {α β : Type} {P : Fault → Prop} {o : Outcome α} {f : α → Outcome β}

theorem ok (a : α) : FailsOnly P (.ok a : Outcome α) := by
  intro halt h
  cases h

theorem fail {k : Kernel} {e : Fault} (h : P e) : FailsOnly P (k.fail e : Outcome α) := by
  rintro halt ⟨⟩
  exact h

theorem of_exists (h : ∃ a, o = .ok a) : FailsOnly P o := by
  obtain ⟨a, rfl⟩ := h
  exact ok a

/-- What cannot fail in any way succeeds. -/
theorem total (h : FailsOnly P o) (never : ∀ e, ¬ P e) : ∃ a, o = .ok a := by
  cases o with
  | ok a => exact ⟨a, rfl⟩
  | error halt => exact absurd (h halt rfl) (never halt.fault)

theorem bind (ho : FailsOnly P o) (hf : ∀ a, o = .ok a → FailsOnly P (f a)) :
    FailsOnly P (o >>= f) := by
  cases o with
  | ok a => exact hf a rfl
  | error halt =>
      rintro halt' ⟨⟩
      exact ho halt rfl

/-- Nothing goes wrong after the last step. -/
theorem map (ho : FailsOnly P o) (g : α → β) : FailsOnly P (o >>= fun a => pure (g a)) :=
  ho.bind fun a _ => ok (g a)

theorem require {k : Kernel} {e : Except Fault α} (h : ∃ a, e = .ok a) :
    FailsOnly P (k.require e) := by
  obtain ⟨a, rfl⟩ := h
  exact ok a

end FailsOnly

namespace Kernel
variable {k k' k₀ k₁ : Kernel} {touched : Object → Prop} {t u o : ThreadId} {q : QueueId}
  {r : WakeupResult} {s : SemaphoreId} {m : MutexId} {c : CondVarId} {b : MailboxId}
  {state : ThreadState} {timeout : Timeout} {msg : Msg} {ahead : Bool} {epoch : UInt32}
  {place : Option QueueId} {P : Fault → Prop}

/-! There is always somebody to run. -/

/-- The idle thread is able to run. -/
def Staffed (k : Kernel) : Prop :=
  ∃ i, k.idle = some i ∧ (k.thread i).state.isRunnable = true

/-- The kernel between two operations, with its timers in order and its idle thread able to run. -/
structure Whole (k : Kernel) : Prop extends k.Sound where
  timers : k.timers.Sound
  staffed : k.Staffed

theorem Staffed.mono (hs : k.Staffed) (idle : k'.idle = k.idle)
    (runnable : ∀ u, (k.thread u).state.isRunnable = true → (k'.thread u).state.isRunnable = true) :
    k'.Staffed := by
  obtain ⟨i, hi, hrun⟩ := hs
  exact ⟨i, idle.trans hi, runnable i hrun⟩

theorem Moves.idle {th : Thread} (h : Moves ahead t th k k') : k'.idle = k.idle := by rw [h.frame]

theorem Rouses.idle {l : List ThreadId} (h : Rouses r l k k') : k'.idle = k.idle := by
  induction h with
  | nil => rfl
  | cons hw _ ih => exact ih.trans hw.moves.idle

theorem Lends.idle (h : Lends k o k') : k'.idle = k.idle := by
  induction h with
  | enough _ => rfl
  | last _ hb _ => exact hb.2.idle
  | on _ hb _ _ _ ih => exact ih.trans hb.2.idle

theorem Dispatches.idle (h : Dispatches t k k') : k'.idle = k.idle := h.moves.idle

theorem Blocks.idle (h : Blocks state place k k') : k'.idle = k.idle := by
  obtain ⟨-, k₁, next, hpark, hdispatch⟩ := h
  exact hdispatch.idle.trans hpark.moves.idle

theorem Effect.idle (h : Effect touched k k') : k'.idle = k.idle := by
  cases h with
  | resume _ _ hw => exact hw.moves.idle
  | timeOut _ _ _ hw => exact hw.moves.idle
  | expire _ _ hw => exact hw.moves.idle
  | grant _ _ hw => exact hw.moves.idle
  | dismiss _ _ hr => exact hr.idle
  | notify _ _ hw => exact hw.moves.idle
  | handOver _ _ _ hw => exact hw.moves.idle
  | _ => rfl

theorem Switch.idle (h : Switch touched k k') : k'.idle = k.idle := by
  cases h with
  | giveWay h =>
      obtain ⟨k₁, next, hdispatch, -, hmoves⟩ := h
      exact hmoves.idle.trans hdispatch.idle
  | park _ h => exact h.idle
  | awaitUnit _ _ _ _ h => exact h.idle
  | awaitMutex _ _ _ hlends h => exact h.idle.trans hlends.idle
  | awaitCondition _ h => exact h.idle
  | awaitExit _ _ _ _ _ h => exact h.idle
  | exit _ _ hr hd => exact hd.idle.trans hr.idle

theorem Effect.whole (h : Effect touched k k') (hk : k.Whole) (ht : CutsTimeouts k k') :
    k'.Whole :=
  ⟨h.sound hk.toSound, ht.sound hk.timers,
    hk.staffed.mono h.idle fun u hrun => (h.keepsRunnable hk.inPlace u hrun).1⟩

theorem InPlace.ready_ne_nil (hk : k.InPlace) (hs : k.Staffed) (hne : k.idle ≠ some k.current) :
    k.members .ready ≠ [] := by
  obtain ⟨i, hi, hrun⟩ := hs
  have hready : (k.thread i).state = .ready := by
    cases hstate : (k.thread i).state with
    | ready => rfl
    | running => exact absurd (hi.trans (congrArg some ((hk.running_iff i).mp hstate))) hne
    | _ =>
        rw [hstate] at hrun
        cases hrun
  exact List.ne_nil_of_mem (hk.ready_iff.mp hready)

/-! Queues. -/

theorem unlinkFrom_fails (hk : k.Linked) (hq : (k.thread t).queue = some q) :
    FailsOnly P (k.unlinkFrom q t) := .of_exists (unlinkFrom_total hk hq)

theorem enqueue_fails (hk : k.Linked) (hq : (k.thread t).queue = none) :
    FailsOnly P (k.enqueue q t) := .of_exists (enqueue_total hk hq q)

theorem dequeue_fails (hk : k.Linked) (q : QueueId) : FailsOnly P (k.dequeue q) := by
  rw [dequeue_eq, hk.head_eq]
  split
  · exact .ok _
  · rename_i t hhead
    exact (unlinkFrom_fails hk (hk.queue_of_head hhead)).map _

/-! Scheduling. -/

theorem wakes_fails (hk : k.Arranged runs) (hq : k.timers.Sound) (hne : q ≠ .ready)
    (h : k.dequeue q = .ok (some (t, k₁))) (r : WakeupResult) : FailsOnly P (k₁.ready t r) := by
  obtain ⟨-, hwaits, hmoves, htimers⟩ := dequeue_ok hk.toLinked h
  have hblocked := hk.isBlocked_of_queue hwaits hne
  refine .of_exists (ready_total (hmoves.linked hk.toLinked) (htimers ▸ hq) ?_ ?_ r)
  · rw [hmoves.thread_self]
  · rw [hmoves.thread_self]
    exact Bool.eq_false_of_not_eq_true (not_isRunnable_of_isBlocked hblocked)

theorem wakeFirst_fails (hk : k.Arranged runs) (hq : k.timers.Sound) (hne : q ≠ .ready) :
    FailsOnly P (k.wakeFirst q r) := by
  refine (dequeue_fails hk.toLinked q).bind fun o ho => ?_
  cases o with
  | none => exact .ok _
  | some p => exact wakes_fails hk hq hne ho r

theorem wakeUpTo_fails (hk : k.Arranged runs) (hq : k.timers.Sound) (hne : q ≠ .ready)
    {bound : Nat} (hbound : (k.members q).length ≤ bound) : FailsOnly P (wakeUpTo q r bound k) := by
  induction bound generalizing k with
  | zero =>
      have hnil := List.eq_nil_of_length_eq_zero (Nat.le_zero.mp hbound)
      unfold wakeUpTo
      rw [hk.head_eq, hnil]
      exact .ok _
  | succ bound ih =>
      unfold wakeUpTo
      refine (dequeue_fails hk.toLinked q).bind fun o ho => ?_
      cases o with
      | none => exact .ok _
      | some p =>
          obtain ⟨t, k₁⟩ := p
          refine (wakes_fails hk hq hne ho r).bind fun k₂ hready => ?_
          obtain ⟨hhead, hwaits, hmoves, htimers⟩ := dequeue_ok hk.toLinked ho
          have hwakes := wakes_of_ready hk.toLinked (hk.isBlocked_of_queue hwaits hne) hmoves
            htimers hready
          obtain ⟨l, hl⟩ := List.head?_eq_some_iff.mp hhead
          refine ih (hwakes.arranged hk) (hwakes.keepsTime hq).sound ?_
          rw [hwakes.members_tail hne hl]
          rw [hl, List.length_cons] at hbound
          omega

theorem wakeAll_fails (hk : k.Arranged runs) (hq : k.timers.Sound) (hne : q ≠ .ready) :
    FailsOnly P (k.wakeAll q r) :=
  wakeUpTo_fails hk hq hne (hk.hold.holds q).length_eq.ge

theorem takeNext_fails (hk : k.Linked) (hready : k.members .ready ≠ []) :
    FailsOnly P k.takeNext := by
  refine (dequeue_fails hk .ready).bind fun o ho => ?_
  cases o with
  | none => exact absurd (dequeue_none hk ho) hready
  | some next => exact .ok _

/-- The running thread stands among no ready ones, so it is not the next. -/
theorem ne_of_takeNext (hk : k.Linked) (hme : (k.thread t).queue ≠ some .ready)
    (h : k.takeNext = .ok (u, k₁)) : t ≠ u := by
  obtain ⟨-, hqueue, -⟩ := takeNext_ok hk h
  rintro rfl
  exact hme hqueue

theorem dispatch_fails (hk : k.Linked) (hme : (k.thread t).queue ≠ some .ready)
    (h : k.takeNext = .ok (u, k₁)) (k₂ : Kernel) : FailsOnly P (k₂.dispatch t u) := by
  rw [dispatch, if_neg (ne_of_takeNext hk hme h)]
  exact .ok _

theorem giveWay_fails (hk : k.InPlace) (hready : k.members .ready ≠ []) (ahead : Bool) :
    FailsOnly P (k.giveWay ahead) := by
  have hqueue : (k.thread k.current).queue = none := hk.queue_eq_none rfl
  have hme : (k.thread k.current).queue ≠ some .ready := by
    rw [hqueue]
    exact nofun
  refine (takeNext_fails hk.toLinked hready).bind fun p hnext => ?_
  obtain ⟨next, k₁⟩ := p
  obtain ⟨-, -, hmoves, -⟩ := takeNext_ok hk.toLinked hnext
  have hfree : (k₁.thread k.current).queue = none := by
    rw [hmoves.thread_of_ne (ne_of_takeNext hk.toLinked hme hnext), hqueue]
  refine .bind (.of_exists (rejoin_total (hmoves.linked hk.toLinked) hfree ahead)) fun k₂ _ => ?_
  exact dispatch_fails hk.toLinked hme hnext _

theorem preempt_fails (hk : k.InPlace) : FailsOnly P k.preempt := by
  unfold preempt
  split
  · rename_i hrequired
    refine giveWay_fails hk ?_ _
    intro hnil
    have hhead : k.queues.ready.head = (k.members .ready).head? := hk.head_eq .ready
    rw [isPreemptionRequired, hhead, hnil] at hrequired
    cases hrequired
  · exact .ok _

theorem yieldTurn_fails (hk : k.InPlace) : FailsOnly P k.yieldTurn := by
  unfold yieldTurn
  split
  · exact .ok _
  · rename_i t hhead
    split
    · exact .ok _
    · refine giveWay_fails hk ?_ _
      have hfirst : k.queues.ready.head = (k.members .ready).head? := hk.head_eq .ready
      rw [hfirst] at hhead
      exact List.ne_nil_of_mem (List.mem_of_head? hhead)

/-! Blocking. Before it blocks the caller is put where it waits; `place` stands for that. -/

section Parked
variable (hk : k.InPlace) (hs : k.Staffed)
  (hidle : k.idle = some k.current → P .idleThreadBlocks)
  (h : Moves false k.current { k.running with queue := place } k k₀) (hplace : place ≠ some .ready)
include hk hs hidle h hplace

theorem block_fails (state : ThreadState) : FailsOnly P (k₀.block state) := by
  have hcurrent : k₀.current = k.current := h.current
  unfold block
  dsimp only
  rw [h.idle, hcurrent]
  split
  · rename_i hme
    exact .fail (hidle hme)
  · rename_i hne
    have hk₀ : (k₀.modifyThread k.current fun th => { th with state }).Linked :=
      (h.linked hk.toLinked).setThread rfl
    have hready : (k₀.modifyThread k.current fun th => { th with state }).members .ready =
        k.members .ready := h.members_of_ne hk.toLinked
      (by rw [hk.queue_eq_none rfl]; exact nofun) hplace
    refine (takeNext_fails hk₀ ?_).bind fun next hnext => dispatch_fails hk₀ ?_ hnext _
    · rw [hready]
      exact hk.ready_ne_nil hs hne
    · rw [thread_modifyThread, if_pos rfl, h.thread_self]
      exact hplace

theorem blockFor_fails (hq : k.timers.Sound) (timers : k₀.timers = k.timers)
    (state : ThreadState) (delay : Delay) : FailsOnly P (k₀.blockFor state delay) := by
  have hcurrent : k₀.current = k.current := h.current
  obtain ⟨timers', harm, -⟩ := hq.exists_arm hk.isArmed_current delay (.wakeup k.current)
  rw [← timers, ← hcurrent] at harm
  unfold blockFor
  dsimp only
  rw [harm]
  have harmed : Moves false k.current { k.running with queue := place } k
      { k₀ with timers := timers' } := by
    refine ⟨h.thread, h.hold, ?_⟩
    rw [h.frame]
  exact block_fails hk hs hidle harmed hplace state

theorem await_fails (hq : k.timers.Sound) (timers : k₀.timers = k.timers)
    (htimeout : timeout ≠ .immediate) (state : ThreadState) :
    FailsOnly P (k₀.await state timeout) := by
  cases timeout with
  | immediate => exact absurd rfl htimeout
  | infinite => exact (block_fails hk hs hidle h hplace state).map _
  | after delay => exact (blockFor_fails hk hs hidle h hplace hq timers state delay).map _

end Parked

/-- The running thread stands nowhere, so it can be put anywhere. -/
theorem InPlace.enqueue_fails (hk : k.InPlace) : FailsOnly P (k.enqueue q k.current) :=
  Kernel.enqueue_fails hk.toLinked (hk.queue_eq_none rfl)

theorem InPlace.moves_of_enqueue (hk : k.InPlace) (h : k.enqueue q k.current = .ok k₀) :
    Moves false k.current { k.running with queue := some q } k k₀ ∧ k₀.timers = k.timers :=
  have ⟨_, htimers, hmoves⟩ := enqueue_ok hk.toLinked h
  ⟨hmoves, htimers⟩

/-! Semaphores. -/

theorem addUnit_fails (hcount : k.semaphoreCount s ≠ maxCount) : FailsOnly P (k.addUnit s) := by
  have hcount : (k.semaphores.get s).count ≠ 2147483647 := hcount
  rw [addUnit, if_neg hcount]
  exact .ok _

theorem signal_fails (hk : k.InPlace) (hq : k.timers.Sound)
    (hcount : k.semaphoreCount s ≠ maxCount) : FailsOnly P (k.signal s) := by
  unfold signal
  refine (addUnit_fails hcount).bind fun k₁ hunit => ?_
  have hunit := addUnit_ok hunit
  have hk₁ : k₁.InPlace := by
    rw [hunit]
    exact InPlace.setSemaphoreCount hk _ _
  have hq₁ : k₁.timers.Sound := by
    rw [hunit]
    exact hq
  split
  · exact wakeFirst_fails hk₁ hq₁ nofun
  · exact .ok _

theorem resetSemaphore_fails (hk : k.InPlace) (hq : k.timers.Sound) {count : Nat}
    (hrange : maxCount < count → P .semaphoreCountRange) :
    FailsOnly P (k.resetSemaphore s count) := by
  unfold resetSemaphore
  split
  · have hk₁ : (k.setSemaphoreCount s count).InPlace := InPlace.setSemaphoreCount hk _ _
    exact wakeAll_fails hk₁ hq nofun
  · rename_i hover
    exact .fail (hrange (Nat.lt_of_not_le hover))

theorem addSemaphore_fails {count : Nat} (hrange : maxCount < count → P .semaphoreCountRange) :
    FailsOnly P (k.addSemaphore count) := by
  unfold addSemaphore
  split
  · split
    · exact .ok _
    · exact .ok _
  · rename_i hover
    exact .fail (hrange (Nat.lt_of_not_le hover))

theorem createSemaphore_fails {count : Nat} (hrange : maxCount < count → P .semaphoreCountRange) :
    FailsOnly P (k.createSemaphore count) := by
  refine (addSemaphore_fails hrange).bind fun p _ => ?_
  obtain ⟨made, k₁⟩ := p
  cases made with
  | ok s => exact .ok _
  | error e => exact .ok _

theorem waitUnit_fails (hk : k.Whole)
    (hidle : timeout ≠ .immediate → k.idle = some k.current → P .idleThreadBlocks) :
    FailsOnly P (k.waitUnit s timeout state) := by
  unfold waitUnit
  dsimp only
  split
  · exact .ok _
  · split
    · exact .ok _
    · rename_i htimeout
      have hk₁ : (k.setSemaphoreCount s (k.semaphoreCount s - 1)).InPlace :=
        InPlace.setSemaphoreCount hk.inPlace _ _
      refine hk₁.enqueue_fails.bind fun k₂ hqueue => ?_
      obtain ⟨hmoves, htimers⟩ := hk₁.moves_of_enqueue hqueue
      exact await_fails hk₁ hk.staffed (hidle htimeout) hmoves nofun hk.timers htimers htimeout
        state

theorem signal_whole (hk : k.Whole) (h : k.signal s = .ok k') : k'.Whole :=
  have heffect : Effect (fun _ => True) k k' := signal_effect hk.toSound trivial h
  heffect.whole hk (signal_cutsTimeouts h)

theorem signalAndWait_fails {s' : SemaphoreId} (hk : k.Whole)
    (hidle : k.idle = some k.current → P .idleThreadBlocks)
    (hcount : k.semaphoreCount s ≠ maxCount) : FailsOnly P (k.signalAndWait s s') := by
  refine (signal_fails hk.inPlace hk.timers hcount).bind fun k₁ hsignal => ?_
  have hk₁ := signal_whole hk hsignal
  have heffect : Effect (fun _ => True) k k₁ := signal_effect hk.toSound trivial hsignal
  have hk₂ : (k₁.setSemaphoreCount s' (k₁.semaphoreCount s' - 1)).InPlace :=
    InPlace.setSemaphoreCount hk₁.inPlace _ _
  rw [← heffect.idle, ← heffect.current] at hidle
  dsimp only
  split
  · exact (preempt_fails hk₂).map _
  · refine hk₂.enqueue_fails.bind fun k₃ hqueue => ?_
    have hmoves := (hk₂.moves_of_enqueue hqueue).1
    exact (block_fails hk₂ hk₁.staffed hidle hmoves nofun _).map _

/-! Mutexes. -/

theorem takeMutex_fails (hnodup : (k.thread t).held.Nodup) (hnot : m ∉ (k.thread t).held) :
    FailsOnly P (k.takeMutex m t) := by
  have hlength : (m :: (k.thread t).held).length ≤ maxMutexes := by
    simpa using (List.nodup_cons.mpr ⟨hnot, hnodup⟩).length_le_card
  have hlength : ((k.setOwner m (some t)).thread t).held.length < maxMutexes := hlength
  unfold takeMutex
  dsimp only
  rw [if_pos hlength]
  exact .ok _

/-- The threads that the running one comes before. -/
def outranked (k : Kernel) : Finset ThreadId :=
  Finset.univ.filter fun u => k.running.priority.level < (k.priorityOf u).level

/-- Whoever is lent the priority of the running thread does not stand behind it any more. -/
theorem Boosts.card_outranked (hb : Boosts o k k₁)
    (hlow : k.running.priority.level < (k.priorityOf o).level) :
    k₁.outranked.card < k.outranked.card := by
  refine Finset.card_lt_card ((Finset.ssubset_iff_of_subset fun u hu => ?_).mpr ⟨o, ?_, ?_⟩)
  · rw [outranked, Finset.mem_filter, hb.running_priority] at hu
    rw [outranked, Finset.mem_filter]
    refine ⟨Finset.mem_univ u, ?_⟩
    by_cases ho : u = o
    · rw [ho]
      exact hlow
    · rw [← hb.priorityOf_of_ne ho]
      exact hu.2
  · exact Finset.mem_filter.mpr ⟨Finset.mem_univ o, hlow⟩
  · rw [outranked, Finset.mem_filter, hb.running_priority, hb.priorityOf_self]
    exact fun hmem => absurd hmem.2 (Nat.lt_irrefl _)

/-- The way along the owners is no longer than there are threads. -/
theorem lend_fails {hops : Nat} (hk : k.InPlace) (hops_ge : k.outranked.card ≤ hops) :
    FailsOnly P (lend hops k o) := by
  induction hops generalizing k o with
  | zero =>
      by_cases hhigh : k.running.priority.level < (k.priorityOf o).level
      · have hmem : o ∈ k.outranked := Finset.mem_filter.mpr ⟨Finset.mem_univ o, hhigh⟩
        rw [Finset.card_eq_zero.mp (Nat.le_zero.mp hops_ge)] at hmem
        cases hmem
      · rw [lend_of_enough hhigh]
        exact .ok _
  | succ hops ih =>
      by_cases hhigh : k.running.priority.level < (k.priorityOf o).level
      · obtain ⟨k₁, hboost, hlend⟩ := lend_of_high hk.toLinked hhigh
        have hk₁ : k₁.InPlace := by
          rw [InPlace, hboost.2.current]
          exact hboost.arranged hk
        have hcard := hboost.card_outranked hhigh
        rw [hlend]
        cases k.awaited? o with
        | none => exact .ok _
        | some next => exact ih hk₁ (by omega)
      · rw [lend_of_enough hhigh]
        exact .ok _

theorem lock_fails (hk : k.Whole) (hidle : k.idle = some k.current → P .idleThreadBlocks)
    (hown : k.owner? m = some k.current → P (.mutexNotRecursive m)) : FailsOnly P (k.lock m) := by
  unfold lock
  split
  · rename_i hfree
    refine (takeMutex_fails (hk.owned.nodup _) fun hmem => ?_).map _
    rw [(hk.owned.owner_iff m _).mpr hmem] at hfree
    cases hfree
  · rename_i owner howner
    split
    · rename_i hme
      exact .fail (hown (hme ▸ howner))
    · have hcard : k.outranked.card ≤ maxThreads := by
        simpa using Finset.card_le_univ k.outranked
      refine (lend_fails hk.inPlace hcard).bind fun k₁ hlend => ?_
      have hlends := lend_ok hk.inPlace hlend
      have hcurrent := hlends.current
      have hk₁ : k₁.InPlace := by
        rw [InPlace, hcurrent]
        exact hlends.arranged hk.inPlace
      have hs₁ : k₁.Staffed := hk.staffed.mono hlends.idle fun u hrun => by
        rw [(hlends.sameStand u).state]
        exact hrun
      rw [← hlends.idle, ← hcurrent] at hidle
      refine hk₁.enqueue_fails.bind fun k₂ hqueue => ?_
      exact (block_fails hk₁ hs₁ hidle (hk₁.moves_of_enqueue hqueue).1 nofun _).map _

theorem tryLock_fails (ho : k.Owned) : FailsOnly P (k.tryLock m) := by
  unfold tryLock
  split
  · exact .ok _
  · rename_i hfree
    refine (takeMutex_fails (ho.nodup _) fun hmem => ?_).map _
    rw [(ho.owner_iff m _).mpr hmem] at hfree
    cases hfree

theorem release_fails (hk : k.Sound) (hq : k.timers.Sound)
    (hown : k.owner? m ≠ some k.current → P (.mutexNotOwned m)) : FailsOnly P (k.release m) := by
  by_cases howner : k.owner? m = some k.current
  · rw [release_of_owner howner]
    have hlinked := hk.inPlace.disown_linked m
    have hother : ∀ u, u ≠ k.current → (k.disown m).thread u = k.thread u := by
      intro u hu
      rw [thread_disown, thread_strike, if_neg hu]
    have hmine : ((k.disown m).thread k.current).queue = none := by
      rw [thread_disown, thread_strike, if_pos rfl]
      exact hk.inPlace.queue_eq_none rfl
    refine (dequeue_fails hlinked _).bind fun next? hdequeue => ?_
    cases next? with
    | none => exact .ok _
    | some p =>
        obtain ⟨next, k₃⟩ := p
        obtain ⟨-, hwaits, hmoves, htimers₃⟩ := dequeue_ok hlinked hdequeue
        have hne : next ≠ k.current := by
          rintro rfl
          rw [hmine] at hwaits
          cases hwaits
        have hrecord : k₃.thread next = { k.thread next with queue := none } := by
          rw [hmoves.thread_self, hother next hne]
        rw [hother next hne] at hwaits
        have hblocked := hk.inPlace.isBlocked_of_queue hwaits nofun
        refine FailsOnly.bind (takeMutex_fails ?_ ?_) fun k₄ htake => ?_
        · change (k₃.thread next).held.Nodup
          rw [hrecord]
          exact hk.owned.nodup next
        · change m ∉ (k₃.thread next).held
          rw [hrecord]
          intro hmem
          have hnext := (hk.owned.owner_iff m next).mpr hmem
          rw [howner] at hnext
          exact hne (Option.some.inj hnext).symm
        · have htake := takeMutex_ok htake
          have hnext : k₄.thread next = { k₃.thread next with
              held := (k₃.thread next).held ++ [m] } := by
            rw [htake, thread_acquire, if_pos rfl]
            rfl
          refine .of_exists (ready_total ?_ ?_ ?_ ?_ .ok)
          · have hk₃ := hmoves.linked hlinked
            rw [htake]
            exact Linked.acquire (k := k₃.setOwner m none) ⟨hk₃.hold, hk₃.mem_iff⟩ m next
          · rw [htake]
            change k₃.timers.Sound
            rw [htimers₃]
            exact hq
          · rw [hnext, hrecord]
          · rw [hnext, hrecord]
            exact Bool.eq_false_of_not_eq_true (not_isRunnable_of_isBlocked hblocked)
  · rw [release_of_not_owner howner]
    exact .fail (hown howner)

theorem release_whole (hk : k.Whole) (h : k.release m = .ok k') : k'.Whole :=
  have heffect : Effect (fun _ => True) k k' := release_effect hk.inPlace trivial h
  heffect.whole hk (release_cutsTimeouts h)

theorem releaseUpTo_fails {bound : Nat} (hk : k.Whole) : FailsOnly P (releaseUpTo bound k) := by
  induction bound generalizing k with
  | zero => exact .ok _
  | succ bound ih =>
      unfold releaseUpTo
      split
      · exact .ok _
      · rename_i m hlast
        have howner := (hk.owned.owner_iff m k.current).mpr (List.mem_of_getLast? hlast)
        refine (release_fails hk.toSound hk.timers fun hnot => absurd howner hnot).bind ?_
        intro k₁ hrelease
        exact ih (release_whole hk hrelease)

/-! Condition variables. -/

theorem relock_fails (hk : k.Whole) (hidle : k.idle = some k.current → P .idleThreadBlocks)
    (hown : k.owner? m = some k.current → P (.mutexNotRecursive m)) :
    FailsOnly P (k.relock m r) := (lock_fails hk hidle hown).map _

theorem waitCondition_fails (hk : k.Whole)
    (hidle : timeout ≠ .immediate → k.idle = some k.current → P .idleThreadBlocks)
    (hown : k.owner? m ≠ some k.current → P (.waitWithoutMutex m)) :
    FailsOnly P (k.waitCondition c m timeout) := by
  unfold waitCondition
  split
  · rename_i howner
    split
    · exact .ok _
    · rename_i htimeout
      refine (release_fails hk.toSound hk.timers fun hnot => absurd howner hnot).bind ?_
      intro k₁ hrelease
      have hk₁ := release_whole hk hrelease
      have heffect : Effect (fun _ => True) k k₁ := release_effect hk.inPlace trivial hrelease
      have hidle := hidle htimeout
      rw [← heffect.idle, ← heffect.current] at hidle
      refine hk₁.inPlace.enqueue_fails.bind fun k₂ hqueue => ?_
      obtain ⟨hmoves, htimers⟩ := hk₁.inPlace.moves_of_enqueue hqueue
      refine (await_fails hk₁.inPlace hk₁.staffed hidle hmoves nofun hk₁.timers htimers htimeout
        _).bind fun w hwait => ?_
      rcases await_ok hk₁.inPlace.toLinked hmoves htimers rfl rfl rfl hwait with
        ⟨himm, -⟩ | ⟨checks, k', rfl, -⟩
      · exact absurd himm htimeout
      · exact .ok _
  · rename_i hnot
    exact .fail (hown hnot)

/-! Mailboxes. -/

/-- A mailbox is made with counts that semaphores can have. -/
theorem createMailbox_fails {capacity : Nat} : FailsOnly P (k.createMailbox capacity) := by
  unfold createMailbox
  split
  · rename_i hcapacity
    split
    · exact .ok _
    · split
      · exact .ok _
      · refine (addSemaphore_fails fun hover => ?_).bind fun p _ => ?_
        · exact absurd hover (Nat.not_lt.mpr (hcapacity.2.trans (by decide)))
        · obtain ⟨made, k₁⟩ := p
          cases made with
          | error e => exact .ok _
          | ok empty =>
              refine (addSemaphore_fails fun hover => absurd hover (Nat.not_lt_zero _)).bind
                fun p _ => ?_
              obtain ⟨made, k₂⟩ := p
              cases made with
              | error e => exact .ok _
              | ok full =>
                  dsimp only
                  split
                  · exact .ok _
                  · exact .ok _
  · exact .ok _

theorem signal_preempt_fails {frames : List Frame} (hk : k.Sound) (hq : k.timers.Sound)
    (hcount : k.semaphoreCount s ≠ maxCount) :
    FailsOnly P (do
      let k₁ ← k.signal s
      return (← k₁.preempt, frames) : Outcome Step) := by
  refine (signal_fails hk.inPlace hq hcount).bind fun k₁ hsignal => ?_
  have heffect : Effect (fun _ => True) k k₁ := signal_effect hk trivial hsignal
  exact (preempt_fails (heffect.inPlace hk.inPlace)).map _

theorem putMessage_sound (hk : k.Sound) (b : MailboxId) (msg : Msg) (ahead : Bool) :
    (k.putMessage b msg ahead).Sound :=
  have hwrite : Effect (fun _ => True) k (k.putMessage b msg ahead) :=
    putMessage_effect trivial msg ahead
  hwrite.sound hk

theorem takeMessage_sound (hk : k.Sound) (b : MailboxId) : (k.takeMessage b).2.Sound :=
  have hwrite : Effect (fun _ => True) k (k.takeMessage b).2 := takeMessage_effect trivial
  hwrite.sound hk

theorem storeAfter_fails (hk : k.Sound) (hq : k.timers.Sound)
    (hcount : k.admission b epoch r = .ok () →
      k.semaphoreCount (k.mailbox b).full ≠ maxCount) :
    FailsOnly P (storeAfter b epoch msg ahead r k) := by
  unfold storeAfter
  split
  · exact .ok _
  · rename_i hadmission
    exact signal_preempt_fails (putMessage_sound hk b msg ahead) hq (hcount hadmission)

theorem fetchAfter_fails (hk : k.Sound) (hq : k.timers.Sound)
    (hcount : k.admission b epoch r = .ok () →
      k.semaphoreCount (k.mailbox b).empty ≠ maxCount) :
    FailsOnly P (fetchAfter b epoch r k) := by
  unfold fetchAfter
  split
  · exact .ok _
  · rename_i hadmission
    have hempty : ((k.takeMessage b).2.mailbox b).empty = (k.mailbox b).empty := by
      rw [mailbox_takeMessage]
    refine signal_preempt_fails (takeMessage_sound hk b) hq ?_
    change k.semaphoreCount ((k.takeMessage b).2.mailbox b).empty ≠ _
    rw [hempty]
    exact hcount hadmission

/-- A unit that was there is taken. -/
theorem takeUnit_sound (hk : k.Sound) (h : k.takeUnit? s = some k') : k'.Sound :=
  have heffect : Effect (fun _ => True) k k' := takeUnit_effect trivial h
  heffect.sound hk

theorem takeUnit_count {s' : SemaphoreId} (hne : s' ≠ s) (h : k.takeUnit? s = some k') :
    k'.semaphoreCount s' = k.semaphoreCount s' := by
  obtain ⟨-, rfl⟩ := takeUnit_ok h
  rw [semaphoreCount_setSemaphoreCount, if_neg hne]

/-- What comes after a wait for a unit comes with the unit, or without one and is refused. -/
theorem thenDo_fails {now : WakeupResult → Kernel → Outcome Step} {later : Frame} (hk : k.Whole)
    (hidle : timeout ≠ .immediate → k.idle = some k.current → P .idleThreadBlocks)
    (unit : ∀ k₁, k.takeUnit? s = some k₁ → FailsOnly P (now .ok k₁))
    (refused : FailsOnly P (now .timeout k)) :
    FailsOnly P (do
      (← k.waitUnit s timeout .waitingMailbox).thenDo now later : Outcome Step) := by
  refine (waitUnit_fails hk hidle).bind fun w hwait => ?_
  rcases waitUnit_ok hk.inPlace (Or.inr rfl) hwait with
    ⟨hpos, rfl⟩ | ⟨-, -, rfl⟩ | ⟨-, -, _, _, rfl, -⟩
  · exact unit _ (if_pos hpos)
  · exact refused
  · exact .ok _

theorem post_fails (hk : k.Whole) (hb : k.mailboxes.contains b = true)
    (hidle : timeout ≠ .immediate → k.idle = some k.current → P .idleThreadBlocks)
    (hcount : 0 < k.semaphoreCount (k.mailbox b).empty →
      k.semaphoreCount (k.mailbox b).full ≠ maxCount) :
    FailsOnly P (k.post b msg ahead timeout) := by
  refine thenDo_fails hk hidle (fun k₁ htake => ?_) (storeAfter_fails hk.toSound hk.timers nofun)
  have hunit := takeUnit_ok htake
  have hbox : k₁.mailbox b = k.mailbox b := by rw [hunit.2]; rfl
  refine storeAfter_fails (takeUnit_sound hk.toSound htake) ?_ fun _ => ?_
  · rw [hunit.2]
    exact hk.timers
  · rw [hbox, takeUnit_count (hk.boxed.created b hb).2.2.symm htake]
    exact hcount hunit.1

theorem fetch_fails (hk : k.Whole) (hb : k.mailboxes.contains b = true)
    (hidle : timeout ≠ .immediate → k.idle = some k.current → P .idleThreadBlocks)
    (hcount : 0 < k.semaphoreCount (k.mailbox b).full →
      k.semaphoreCount (k.mailbox b).empty ≠ maxCount) :
    FailsOnly P (k.fetch b timeout) := by
  refine thenDo_fails hk hidle (fun k₁ htake => ?_) (fetchAfter_fails hk.toSound hk.timers nofun)
  have hunit := takeUnit_ok htake
  have hbox : k₁.mailbox b = k.mailbox b := by rw [hunit.2]; rfl
  refine fetchAfter_fails (takeUnit_sound hk.toSound htake) ?_ fun _ => ?_
  · rw [hunit.2]
    exact hk.timers
  · rw [hbox, takeUnit_count (hk.boxed.created b hb).2.2 htake]
    exact hcount hunit.1

theorem postNow_fails (hk : k.Sound) (hq : k.timers.Sound)
    (hb : k.mailboxes.contains b = true)
    (hcount : 0 < k.semaphoreCount (k.mailbox b).empty →
      k.semaphoreCount (k.mailbox b).full ≠ maxCount) :
    FailsOnly P (k.postNow b msg ahead) := by
  unfold postNow
  dsimp only
  split
  · exact .ok _
  · rename_i k₁ htake
    have hunit := takeUnit_ok htake
    have hk₁ := putMessage_sound (takeUnit_sound hk htake) b msg ahead
    refine (signal_fails hk₁.inPlace ?_ ?_).map _
    · rw [hunit.2]
      exact hq
    · change k₁.semaphoreCount _ ≠ _
      rw [takeUnit_count (hk.boxed.created b hb).2.2.symm htake]
      exact hcount hunit.1

theorem fetchNow_fails (hk : k.Sound) (hq : k.timers.Sound)
    (hb : k.mailboxes.contains b = true)
    (hcount : 0 < k.semaphoreCount (k.mailbox b).full →
      k.semaphoreCount (k.mailbox b).empty ≠ maxCount) :
    FailsOnly P (k.fetchNow b) := by
  unfold fetchNow
  dsimp only
  split
  · exact .ok _
  · rename_i k₁ htake
    have hunit := takeUnit_ok htake
    have hk₁ := takeMessage_sound (takeUnit_sound hk htake) b
    refine (signal_fails hk₁.inPlace ?_ ?_).map _
    · rw [hunit.2]
      exact hq
    · change k₁.semaphoreCount _ ≠ _
      rw [takeUnit_count (hk.boxed.created b hb).2.2 htake]
      exact hcount hunit.1

theorem resetMailbox_fails (hk : k.Sound) (hq : k.timers.Sound)
    (hb : k.mailboxes.contains b = true) : FailsOnly P (k.resetMailbox b) := by
  have hcapacity : (k.mailbox b).capacity ≤ maxCount := (hk.boxed.size b hb).trans (by decide)
  have hwrite : Effect (fun _ => True) k (k.setMailbox b { k.mailbox b with
      ring := (k.mailbox b).ring.rewind, epoch := (k.mailbox b).epoch + 1 }) :=
    .write _ _ trivial
  have hk₁ := hwrite.inPlace hk.inPlace
  refine (resetSemaphore_fails hk₁ hq fun hover => ?_).bind fun k₁ hreset => ?_
  · exact absurd hover (Nat.not_lt.mpr hcapacity)
  · have heffect : Effect (fun _ => True) _ k₁ := resetSemaphore_effect hk₁ trivial hreset
    refine resetSemaphore_fails (heffect.inPlace hk₁) ?_ fun hover => ?_
    · exact (resetSemaphore_cutsTimeouts hreset).sound hq
    · exact absurd hover (Nat.not_lt_zero _)

/-! Timers. -/

theorem setTimer_fails {delay : Delay} {e : Routine} (hq : k.timers.Sound) :
    FailsOnly P (k.setTimer delay e) := by
  unfold setTimer
  split
  · exact .ok _
  · rename_i slot hslot
    have hfree := List.find?_some hslot
    rw [Bool.and_eq_true, Bool.not_eq_true'] at hfree
    obtain ⟨timers, harm, -⟩ := hq.exists_arm hfree.2 delay (.callback e)
    exact (FailsOnly.require ⟨timers, harm⟩).map _

theorem resetTimer_fails {id : TimerId} (hq : k.timers.Sound)
    (hstale : k.isTimerArmed id = false → P (.timerStale id)) : FailsOnly P (k.resetTimer id) := by
  unfold resetTimer
  split
  · rename_i harmed
    obtain ⟨timers, hdisarm, -⟩ := hq.exists_disarm (isTimerArmed_iff.mp harmed).1
    exact (FailsOnly.require ⟨timers, hdisarm⟩).map _
  · rename_i hnot
    exact .fail (hstale (Bool.eq_false_of_not_eq_true hnot))

theorem beginTick_fails (hq : k.timers.Sound) (hu : k.timers.Undue)
    (hclock : k.clock.advance ≠ none) : FailsOnly P k.beginTick := by
  unfold beginTick
  split
  · rename_i hnone
    exact absurd hnone hclock
  · exact (FailsOnly.require (hq.exists_advance hu)).map _

/-! Threads. -/

theorem resume_fails (hk : k.InPlace) (hq : k.timers.Sound)
    (hstate : (k.thread t).state ≠ .suspended → P .notSuspended) : FailsOnly P (k.resume t) := by
  unfold resume
  split
  · rename_i hs
    refine .of_exists (ready_total hk.toLinked hq (hk.queue_eq_none_of_state (by tauto)) ?_ .ok)
    rw [hs]
    rfl
  · rename_i hs
    exact .fail (hstate hs)

theorem join_fails (hk : k.Whole) (hidle : k.idle = some k.current → P .idleThreadBlocks)
    (self : t = k.current → P .joinsItself)
    (free : (k.thread t).state = .inactive → P .joinsFreeSlot)
    (taken : k.members (.exit t) ≠ [] → P (.hasJoiner t)) : FailsOnly P (k.join t) := by
  unfold join
  split
  · rename_i hself
    exact .fail (self hself)
  · split
    · rename_i hfree
      exact .fail (free (by simpa [Thread.isActive] using hfree))
    · split
      · exact .ok _
      · split
        · rename_i hhead
          rw [hk.inPlace.head_eq] at hhead
          refine .fail (taken fun hnil => ?_)
          rw [hnil] at hhead
          cases hhead
        · refine hk.inPlace.enqueue_fails.bind fun k₁ hqueue => ?_
          have hmoves := (hk.inPlace.moves_of_enqueue hqueue).1
          exact (block_fails hk.inPlace hk.staffed hidle hmoves (by simp) _).map _

theorem exit_fails (hk : k.Whole) (hidle : k.idle ≠ some k.current)
    (holding : k.running.held ≠ [] → P (.exitHoldingMutexes k.running.name)) :
    FailsOnly P (k.exit msg) := by
  unfold exit
  dsimp only
  split
  · generalize LogRecord.threadExited _ msg = record
    have hnote : Effect (fun _ => False) k (k.note record) := note_effect k record
    have hfinish := (hnote.inPlace hk.inPlace).finishCurrent msg
    refine FailsOnly.bind (wakeAll_fails hfinish hk.timers nofun) fun k₁ hwake => ?_
    have hrouses := wakeAll_ok (q := .exit k.current) hfinish nofun hwake
    have hk₁ := hrouses.arranged hfinish
    refine FailsOnly.map (takeNext_fails hk₁.toLinked ?_) _
    -- The idle thread was ready before, and nobody takes its place.
    obtain ⟨i, hi, -⟩ := hk.staffed
    obtain ⟨u, hu⟩ := List.exists_mem_of_ne_nil _ (hk.inPlace.ready_ne_nil hk.staffed hidle)
    have hne : u ≠ k.current := by
      rintro rfl
      have hready := hk.inPlace.ready_iff.mpr hu
      rw [hk.inPlace.state_current] at hready
      cases hready
    refine List.ne_nil_of_mem (a := u) (hk₁.ready_iff.mp ?_)
    rw [hrouses.thread hfinish.toLinked (q := .exit k.current) nofun rfl]
    split
    · rfl
    · change (((k.note _).modifyThread k.current _).thread u).state = _
      rw [thread_modifyThread, if_neg hne]
      exact hk.inPlace.ready_iff.mpr hu
  · rename_i hheld
    exact .fail (holding fun hnil => hheld (List.isEmpty_iff.mpr hnil))

theorem setPriority_fails {p : Priority} (hk : k.InPlace)
    (reserved : p = .idle → P .idlePriorityReserved) : FailsOnly P (k.setPriority p) := by
  unfold setPriority
  split
  · rename_i hp
    exact .fail (reserved hp)
  · refine (preempt_fails ?_).map _
    exact InPlace.setRunning hk (hk.queue_eq_none rfl) hk.state_current

/-- A thread that sleeps is in no queue before, and in none after. -/
theorem sleeping_fails {delay : Delay} (hk : k.Whole)
    (hidle : k.idle = some k.current → P .idleThreadBlocks) :
    FailsOnly P (k.blockFor .sleeping delay) :=
  blockFor_fails hk.inPlace hk.staffed hidle hk.inPlace.stays nofun hk.timers rfl _ _

theorem sleep_fails {ticks : Ticks} (hk : k.Whole)
    (hidle : (Delay.ofTicks? ticks).isSome = true → k.idle = some k.current →
      P .idleThreadBlocks) : FailsOnly P (k.sleep ticks) := by
  unfold sleep
  split
  · rename_i delay hdelay
    exact (sleeping_fails hk (hidle (by rw [hdelay]; rfl))).map _
  · exact (yieldTurn_fails hk.inPlace).map _

theorem sleepUntil_fails {deadline : Ticks} (hk : k.Whole)
    (hidle : (Delay.ofTicks? (deadline - k.clock.now)).isSome = true →
      k.idle = some k.current → P .idleThreadBlocks) : FailsOnly P (k.sleepUntil deadline) := by
  unfold sleepUntil
  split
  · rename_i delay hdelay
    exact (sleeping_fails hk (hidle (by rw [hdelay]; rfl))).map _
  · exact .ok _

theorem suspend_fails (hk : k.Whole)
    (hidle : timeout ≠ .immediate → k.idle = some k.current → P .idleThreadBlocks) :
    FailsOnly P (k.suspend timeout) := by
  refine FailsOnly.map ?_ _
  cases timeout with
  | immediate =>
      obtain ⟨k', hcancel, -⟩ := cancelWait_total hk.inPlace hk.counted k.current
      exact (FailsOnly.of_exists ⟨k', hcancel⟩).map _
  | infinite =>
      have hne : Timeout.infinite ≠ .immediate := nofun
      exact await_fails hk.inPlace hk.staffed (hidle hne) hk.inPlace.stays nofun hk.timers rfl hne _
  | after delay =>
      have hne : Timeout.after delay ≠ .immediate := nofun
      exact await_fails hk.inPlace hk.staffed (hidle hne) hk.inPlace.stays nofun hk.timers rfl hne _

end Kernel

end RealtimeKernel

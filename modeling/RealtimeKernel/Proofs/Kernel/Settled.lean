import RealtimeKernel.Proofs.Kernel.Lives
import RealtimeKernel.Proofs.Kernel.Operations

/-!
Who has the processor. A kernel is settled if no ready thread has a better claim to run than
the thread that does. Whenever the processor passes, it passes to the first of all that could
run, so a switch settles the kernel, and so does giving way where that is required.
-/
namespace RealtimeKernel.Kernel

variable {k k' k₁ : Kernel} {touched : Object → Prop} {t u o next : ThreadId}
  {l : List ThreadId} {r : WakeupResult} {ahead : Bool} {runs : ThreadId → Prop}
  {state : ThreadState} {p : Option QueueId}

/-- No ready thread comes before the running one, nor next to it once its quantum is over. -/
structure Settled (k : Kernel) : Prop where
  le : ∀ t, (k.thread t).state = .ready → k.running.priority.level ≤ (k.priorityOf t).level
  lt : k.quantumLeft = 0 → ∀ t, (k.thread t).state = .ready →
    k.running.priority.level < (k.priorityOf t).level

theorem Arranged.ready_iff (hk : k.Arranged runs) :
    (k.thread t).state = .ready ↔ t ∈ k.members .ready := by
  rw [hk.mem_iff]
  constructor
  · intro hs
    have hfit := hk.fits t
    rw [hs] at hfit
    cases hq : (k.thread t).queue with
    | none =>
        rw [hq] at hfit
        cases hfit
    | some q =>
        rw [hq] at hfit
        cases q <;> first | rfl | cases hfit
  · exact hk.state_of_ready

/-- The first ready thread has the highest priority of them all. -/
theorem Arranged.first_le (hk : k.Arranged runs) (hhead : (k.members .ready).head? = some t)
    (hu : (k.thread u).state = .ready) : (k.priorityOf t).level ≤ (k.priorityOf u).level := by
  obtain ⟨l, hl⟩ := List.head?_eq_some_iff.mp hhead
  have hsorted := hk.sorted .ready
  have hmem := hk.ready_iff.mp hu
  rw [hl] at hsorted hmem
  rcases List.mem_cons.mp hmem with rfl | hmem
  · exact Nat.le_refl _
  · exact (List.pairwise_cons.mp hsorted).1 u hmem

/-- A kernel is settled if the check that precedes giving way says so. -/
theorem Arranged.settled_iff (hk : k.Arranged runs) :
    k.Settled ↔ k.isPreemptionRequired = false := by
  cases hhead : (k.members .ready).head? with
  | none =>
      have hnone : ∀ t, (k.thread t).state ≠ .ready := by
        intro t hs
        have hmem := hk.ready_iff.mp hs
        rw [List.head?_eq_none_iff.mp hhead] at hmem
        cases hmem
      have hqueue : k.queues.ready.head = none := (hk.head_eq .ready).trans hhead
      refine iff_of_true ⟨fun t hs => absurd hs (hnone t), fun _ t hs => absurd hs (hnone t)⟩ ?_
      unfold isPreemptionRequired
      rw [hqueue]
  | some t =>
      have hready : (k.thread t).state = .ready := hk.ready_iff.mpr (List.mem_of_head? hhead)
      rw [isPreemptionRequired_of_head hk.toLinked hhead]
      constructor
      · intro hs
        have hle := hs.le t hready
        split
        · simpa [Priority.isHigherThan] using hle
        · simpa [Priority.isHigherThan] using hs.lt (by omega) t hready
      · intro hcheck
        have hfirst := fun u => hk.first_le (u := u) hhead
        split at hcheck
        · rename_i hleft
          have hle : k.running.priority.level ≤ (k.priorityOf t).level := by
            simpa [Priority.isHigherThan] using hcheck
          exact ⟨fun u hu => hle.trans (hfirst u hu), fun hzero => absurd hzero (by omega)⟩
        · have hlt : k.running.priority.level < (k.priorityOf t).level := by
            simpa [Priority.isHigherThan] using hcheck
          exact ⟨fun u hu => hlt.le.trans (hfirst u hu), fun _ u hu => hlt.trans_le (hfirst u hu)⟩

/-! Switches. -/

theorem Dispatches.first_le (h : Dispatches next k k') (hk : k.Arranged runs)
    (hu : (k'.thread u).state = .ready) :
    (k'.priorityOf next).level ≤ (k'.priorityOf u).level := by
  have hne : u ≠ next := by
    rintro rfl
    rw [h.thread, if_pos rfl] at hu
    cases hu
  rw [h.thread, if_neg hne] at hu
  have hle := hk.first_le h.head hu
  simp only [priorityOf, h.thread, if_pos, if_neg hne] at hle ⊢
  exact hle

theorem Moves.config {th : Thread} (h : Moves ahead t th k k') : k'.config = k.config := by
  rw [h.frame]

theorem Rouses.config (h : Rouses r l k k') : k'.config = k.config := by
  induction h with
  | nil => rfl
  | cons hw _ ih => exact ih.trans hw.moves.config

theorem Lends.config (h : Lends k o k') : k'.config = k.config := by
  induction h with
  | enough _ => rfl
  | last _ hboost _ => exact hboost.2.config
  | on _ hboost _ _ _ ih => exact ih.trans hboost.2.config

theorem Effect.config (h : Effect touched k k') : k'.config = k.config := by
  cases h with
  | resume _ _ hw => exact hw.moves.config
  | timeOut _ _ _ hw => exact hw.moves.config
  | expire _ _ hw => exact hw.moves.config
  | grant _ _ hw => exact hw.moves.config
  | dismiss _ _ hr => exact hr.config
  | notify _ _ hw => exact hw.moves.config
  | handOver _ _ _ hw => exact hw.moves.config
  | _ => rfl

/-- What the processor passes to. -/
structure Passes (k k' : Kernel) : Prop where
  config : k'.config = k.config
  quantumLeft : k'.quantumLeft = k.config.quantum
  /-- Of all that could run, but for the thread that leaves, none comes first. -/
  le : ∀ u, u ≠ k.current → (k'.thread u).state = .ready →
    k'.running.priority.level ≤ (k'.priorityOf u).level

theorem Dispatches.passes (h : Dispatches next k₁ k') (hk : k₁.Arranged runs)
    (config : k₁.config = k.config) : Passes k k' := by
  have hconfig : k'.config = k₁.config := h.moves.config
  refine ⟨hconfig.trans config, ?_, ?_⟩
  · rw [h.quantumLeft, config]
  · intro u _ hu
    rw [running, h.current]
    exact h.first_le hk hu

/-- If nobody but the thread that is dispatched was running, nobody is left to come first. -/
theorem Dispatches.settled (h : Dispatches next k k') (hk : k.Arranged runs)
    (quantum : 0 < k.config.quantum) : k'.Settled := by
  have hquantum := h.quantumLeft
  refine ⟨?_, fun hzero => absurd hzero (by omega)⟩
  intro u hu
  rw [running, h.current]
  exact h.first_le hk hu

theorem Blocks.passes {k₀ : Kernel} (h : Blocks state p k₀ k') (hk : k₀.InPlace)
    (config : k₀.config = k.config) : Passes k k' := by
  obtain ⟨-, k₁, next, hpark, hdispatch⟩ := h
  exact hdispatch.passes (hpark.arranged hk) (hpark.moves.config.trans config)

theorem GivesWay.passes (h : GivesWay ahead k k') (hk : k.InPlace) : Passes k k' := by
  obtain ⟨k₁, next, hdispatch, -, hmoves⟩ := h
  have hpasses := hdispatch.passes hk (k := k) rfl
  have hne := hdispatch.ne_current hk
  have hcurrent : k'.current = k₁.current := hmoves.current
  have hquantum : k'.quantumLeft = k₁.quantumLeft := by rw [hmoves.frame]
  have hrunning : k'.running = k₁.running := by
    rw [running, running, hcurrent, hdispatch.current]
    exact hmoves.thread_of_ne hne
  refine ⟨hmoves.config.trans hpasses.config, hquantum.trans hpasses.quantumLeft, ?_⟩
  intro u hu hs
  rw [hmoves.thread_of_ne hu] at hs
  have hle := hpasses.le u hu hs
  rw [hrunning, priorityOf, hmoves.thread_of_ne hu]
  exact hle

theorem Switch.passes (h : Switch touched k k') (hk : k.InPlace) : Passes k k' := by
  cases h with
  | giveWay h => exact h.passes hk
  | park _ h => exact h.passes hk rfl
  | awaitUnit _ _ _ _ h => exact h.passes (InPlace.setSemaphoreCount hk _ _) rfl
  | awaitMutex _ _ _ hlends h =>
      have hk₁ := hlends.arranged hk
      rw [← hlends.current] at hk₁
      exact h.passes hk₁ hlends.config
  | awaitCondition _ h => exact h.passes hk rfl
  | awaitExit _ _ _ _ _ h => exact h.passes hk rfl
  | exit _ _ hr hd => exact hd.passes (hr.arranged (hk.finishCurrent _)) hr.config

theorem Does.config (h : Does touched k k') (hk : k.Sound) : k'.config = k.config := by
  obtain ⟨k₁, heffects, hswitch⟩ := h
  obtain ⟨hk₁, hconfig⟩ := effects_induction (P := fun k₁ => k₁.config = k.config) heffects hk
    (fun _ _ _ he h => he.config.trans h) rfl
  rcases hswitch with rfl | hswitch
  · exact hconfig
  · exact (hswitch.passes hk₁.inPlace).config.trans hconfig

/-- Who is given the processor comes first among all that could run, but for the thread that
leaves. -/
theorem Does.first_le (h : Does touched k k') (hk : k.Sound) (passes : k'.current ≠ k.current)
    (hu : u ≠ k.current) (runs : (k'.thread u).state.isRunnable = true) :
    k'.running.priority.level ≤ (k'.priorityOf u).level := by
  have hk' := (h.sound hk).inPlace
  obtain ⟨k₁, heffects, hswitch⟩ := h
  obtain ⟨hk₁, hcurrent⟩ := effects_induction (P := fun k₁ => k₁.current = k.current) heffects hk
    (fun _ _ _ he h => he.current.trans h) rfl
  rcases hswitch with rfl | hswitch
  · exact absurd hcurrent passes
  · cases hs : (k'.thread u).state <;> rw [hs] at runs <;> try cases runs
    · rw [← hcurrent] at hu
      exact (hswitch.passes hk₁.inPlace).le u hu hs
    · have hrun : u = k'.current := (hk'.running_iff u).mp hs
      rw [hrun]
      exact Nat.le_refl _

theorem Passes.settled (h : Passes k k') (quantum : 0 < k.config.quantum)
    (left : (k'.thread k.current).state = .ready →
      k'.running.priority.level ≤ (k'.priorityOf k.current).level) : k'.Settled := by
  have hquantum := h.quantumLeft
  refine ⟨?_, fun hzero => absurd hzero (by omega)⟩
  intro u hu
  by_cases hleft : u = k.current
  · rw [hleft] at hu ⊢
    exact left hu
  · exact h.le u hleft hu

/-- Giving way to a thread that is not behind the running one. -/
theorem GivesWay.settled (h : GivesWay ahead k k') (hk : k.InPlace)
    (quantum : 0 < k.config.quantum)
    (first : ∀ t, (k.members .ready).head? = some t →
      (k.priorityOf t).level ≤ k.running.priority.level) : k'.Settled := by
  refine (h.passes hk).settled quantum ?_
  intro _
  obtain ⟨k₁, next, hdispatch, -, hmoves⟩ := h
  have hne := hdispatch.ne_current hk
  have hle := first next hdispatch.head
  have hrunning : k'.running.priority = k.priorityOf next := by
    rw [running, hmoves.current, hdispatch.current, hmoves.thread_of_ne hne, hdispatch.thread,
      if_pos rfl]
    rfl
  have hme : k'.priorityOf k.current = k.running.priority := by
    rw [priorityOf, hmoves.thread_self]
  rw [hrunning, hme]
  exact hle

theorem preempt_settled (hk : k.InPlace) (quantum : 0 < k.config.quantum)
    (h : k.preempt = .ok k') : k'.Settled := by
  rcases preempt_ok hk h with ⟨hrequired, hgives⟩ | ⟨hnot, rfl⟩
  · refine hgives.settled hk quantum ?_
    intro t hhead
    rw [isPreemptionRequired_of_head hk.toLinked hhead] at hrequired
    split at hrequired
    · exact (Priority.isHigherThan_iff.mp hrequired).le
    · simpa [Priority.isHigherThan] using hrequired
  · exact hk.settled_iff.mpr hnot

/-- After a yield only threads of lower priorities are ready, or the processor has passed. -/
theorem yieldTurn_settled (hk : k.InPlace) (quantum : 0 < k.config.quantum)
    (h : k.yieldTurn = .ok k') : k'.Settled := by
  have hqueue : k.queues.ready.head = (k.members .ready).head? := hk.head_eq .ready
  unfold yieldTurn at h
  rw [hqueue] at h
  split at h
  · rename_i hhead
    obtain rfl := Except.ok.inj h
    refine hk.settled_iff.mpr ?_
    unfold isPreemptionRequired
    rw [hqueue, hhead]
  · rename_i t hhead
    split at h
    · rename_i hhigher
      obtain rfl := Except.ok.inj h
      have hlt := Priority.isHigherThan_iff.mp hhigher
      exact ⟨fun u hu => hlt.le.trans (hk.first_le hhead hu),
        fun _ u hu => hlt.trans_le (hk.first_le hhead hu)⟩
    · rename_i hnot
      refine (giveWay_ok hk h).settled hk quantum ?_
      intro t' hhead'
      rw [hhead] at hhead'
      cases hhead'
      simpa [Priority.isHigherThan] using hnot

/-- A thread that blocks leaves the processor to the first of the others. -/
theorem Blocks.settled (h : Blocks state p k k') (hk : k.InPlace)
    (quantum : 0 < k.config.quantum) : k'.Settled := by
  obtain ⟨-, k₁, next, hpark, hdispatch⟩ := h
  rw [← hpark.moves.config] at quantum
  exact hdispatch.settled (hpark.arranged hk) quantum

/-! What disturbs no one. -/

/-- The running thread goes on as it was, and so do the ready ones; others may join them. -/
structure Mild (k k' : Kernel) : Prop where
  current : k'.current = k.current
  quantumLeft : k'.quantumLeft = k.quantumLeft
  running : k'.running.priority = k.running.priority
  ready : ∀ t, (k.thread t).state = .ready →
    (k'.thread t).state = .ready ∧ k'.priorityOf t = k.priorityOf t

theorem Mild.refl (k : Kernel) : Mild k k := ⟨rfl, rfl, rfl, fun _ hs => ⟨hs, rfl⟩⟩

theorem Mild.trans (h : Mild k k₁) (h' : Mild k₁ k') : Mild k k' := by
  refine ⟨h'.current.trans h.current, h'.quantumLeft.trans h.quantumLeft,
    h'.running.trans h.running, ?_⟩
  intro t hs
  obtain ⟨hs₁, hp₁⟩ := h.ready t hs
  obtain ⟨hs', hp'⟩ := h'.ready t hs₁
  exact ⟨hs', hp'.trans hp₁⟩

theorem Mild.of_threads (threads : k'.threads = k.threads) (current : k'.current = k.current)
    (quantumLeft : k'.quantumLeft = k.quantumLeft) : Mild k k' := by
  have hthread : k'.thread = k.thread := by
    funext t
    simp only [thread, threads]
  refine ⟨current, quantumLeft, ?_, ?_⟩
  · rw [Kernel.running, Kernel.running, hthread, current]
  · intro t hs
    simp only [priorityOf, hthread, and_true]
    exact hs

/-- A thread whose record is written was not ready, or keeps its state and its priority. -/
theorem Mild.of_thread {th : Thread} (thread : ∀ u, k'.thread u = if u = t then th else k.thread u)
    (current : k'.current = k.current) (quantumLeft : k'.quantumLeft = k.quantumLeft)
    (priority : th.priority = (k.thread t).priority)
    (state : (k.thread t).state = .ready → th.state = .ready) : Mild k k' := by
  have hpriority : k'.priorityOf = k.priorityOf := by
    funext u
    simp only [priorityOf, thread]
    split
    · rename_i hu
      rw [priority, hu]
    · rfl
  refine ⟨current, quantumLeft, ?_, ?_⟩
  · rw [Kernel.running, current]
    exact congrFun hpriority k.current
  · intro u hs
    refine ⟨?_, congrFun hpriority u⟩
    rw [thread]
    split
    · rename_i hu
      exact state (hu ▸ hs)
    · exact hs

theorem Wakes.mild (h : Wakes t r k k') : Mild k k' :=
  .of_thread h.moves.thread h.moves.current (by rw [h.moves.frame]) rfl fun _ => rfl

theorem Rouses.mild (h : Rouses r l k k') : Mild k k' := by
  induction h with
  | nil => exact .refl _
  | cons hw _ ih => exact hw.mild.trans ih

theorem mild_acquire (k : Kernel) (m : MutexId) (t : ThreadId) : Mild k (k.acquire m t) :=
  .of_thread (thread_acquire k m t) rfl rfl rfl id

/-- The slot of a thread that is gone is written anew. -/
theorem InPlace.mild_replaceThread (hk : k.InPlace) (gone : (k.thread t).state.isGone = true)
    (th : Thread) : Mild k (k.replaceThread t th) := by
  have hthread := thread_replaceThread k t
  refine ⟨rfl, rfl, ?_, ?_⟩
  · have hne : k.current ≠ t := by
      rintro rfl
      rw [hk.state_current] at gone
      cases gone
    change ((k.replaceThread t th).thread k.current).priority = _
    rw [hthread, if_neg hne]
    rfl
  · intro u hs
    have hne : u ≠ t := by
      rintro rfl
      rw [hs] at gone
      cases gone
    simp only [priorityOf, hthread, if_neg hne, and_true]
    exact hs

/-- Nobody joins the ready threads either. -/
structure Calm (k k' : Kernel) : Prop extends Mild k k' where
  joins : ∀ t, (k'.thread t).state = .ready → (k.thread t).state = .ready

theorem Calm.of_threads (threads : k'.threads = k.threads) (current : k'.current = k.current)
    (quantumLeft : k'.quantumLeft = k.quantumLeft) : Calm k k' := by
  refine ⟨.of_threads threads current quantumLeft, ?_⟩
  intro t hs
  simp only [thread, threads] at hs
  exact hs

theorem Calm.refl (k : Kernel) : Calm k k := .of_threads rfl rfl rfl

theorem calm_acquire (k : Kernel) (m : MutexId) (t : ThreadId) : Calm k (k.acquire m t) := by
  refine ⟨mild_acquire k m t, ?_⟩
  intro u hs
  rw [← (acquire_sameStand k m t u).state]
  exact hs

theorem InPlace.calm_vacate (hk : k.InPlace) (gone : (k.thread t).state.isGone = true) :
    Calm k (k.vacate t) := by
  refine ⟨hk.mild_replaceThread gone {}, ?_⟩
  intro u hs
  change ((k.replaceThread t {}).thread u).state = .ready at hs
  rw [thread_replaceThread] at hs
  split at hs
  · cases hs
  · exact hs

/-- If nobody becomes ready, the kernel is settled as before. -/
theorem Calm.settled (h : Calm k k') (hs : k.Settled) : k'.Settled := by
  have hpriority : ∀ t, (k'.thread t).state = .ready → k'.priorityOf t = k.priorityOf t :=
    fun t ht => (h.ready t (h.joins t ht)).2
  refine ⟨?_, ?_⟩
  · intro t ht
    rw [h.running, hpriority t ht]
    exact hs.le t (h.joins t ht)
  · intro hzero t ht
    rw [h.quantumLeft] at hzero
    rw [h.running, hpriority t ht]
    exact hs.lt hzero t (h.joins t ht)

end RealtimeKernel.Kernel

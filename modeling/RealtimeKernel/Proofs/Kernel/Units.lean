import RealtimeKernel.Proofs.Kernel.Effect
import RealtimeKernel.Proofs.Pool

/-!
Semaphore counters and the threads that wait: as many threads stand in the queue of a
semaphore as its count is below zero, whatever happens.
-/
namespace RealtimeKernel.Kernel

variable {k k' k₁ : Kernel} {s : SemaphoreId} {count : Int} {t o : ThreadId} {q : QueueId}
  {r : WakeupResult} {l : List ThreadId} {touched : Object → Prop}

structure Counted (k : Kernel) : Prop where
  length_eq : ∀ s, (k.members (.semaphore s)).length = (-k.semaphoreCount s).toNat
  unused : ∀ s, k.semaphores.contains s = false → 0 ≤ k.semaphoreCount s

theorem semaphoreCount_setSemaphoreCount (k : Kernel) (s s' : SemaphoreId) (count : Int) :
    (k.setSemaphoreCount s count).semaphoreCount s' =
      if s' = s then count else k.semaphoreCount s' := by
  simp only [semaphoreCount, setSemaphoreCount, Pool.get_set]
  split <;> rfl

theorem Counted.congr (hc : k.Counted) (semaphores : k'.semaphores = k.semaphores)
    (length : ∀ s, (k'.members (.semaphore s)).length = (k.members (.semaphore s)).length) :
    k'.Counted := by
  have hcount : ∀ s, k'.semaphoreCount s = k.semaphoreCount s := by
    intro s
    simp only [semaphoreCount, semaphores]
  refine ⟨?_, ?_⟩
  · intro s
    rw [length, hcount]
    exact hc.length_eq s
  · intro s hs
    rw [semaphores] at hs
    rw [hcount]
    exact hc.unused s hs

theorem Counted.members_eq_nil (hc : k.Counted) (h : 0 ≤ k.semaphoreCount s) :
    k.members (.semaphore s) = [] := by
  have hlen := hc.length_eq s
  rw [← List.length_eq_zero_iff]
  omega

/-- One count changes, and the number of waiters with it. -/
theorem Counted.recount (hc : k.Counted) (semaphores : k'.semaphores =
      (k.setSemaphoreCount s count).semaphores)
    (own : (k'.members (.semaphore s)).length = (-count).toNat)
    (unused : k.semaphores.contains s = false → 0 ≤ count)
    (others : ∀ s', s' ≠ s →
      (k'.members (.semaphore s')).length = (k.members (.semaphore s')).length) :
    k'.Counted := by
  have hcount : ∀ s', k'.semaphoreCount s' = if s' = s then count else k.semaphoreCount s' := by
    intro s'
    rw [← semaphoreCount_setSemaphoreCount]
    simp only [semaphoreCount, semaphores]
  refine ⟨?_, ?_⟩
  · intro s'
    rw [hcount]
    split
    · rename_i hs
      rw [hs]
      exact own
    · rename_i hs
      rw [others s' hs]
      exact hc.length_eq s'
  · intro s' hs'
    rw [semaphores] at hs'
    rw [hcount]
    split
    · rename_i hs
      rw [hs] at hs'
      exact unused hs'
    · exact hc.unused s' hs'

/-- Waking a thread that waits for no unit. -/
theorem Wakes.counted (h : Wakes t r k k') (hk : k.Linked) (hc : k.Counted)
    (other : ∀ s, (k.thread t).queue ≠ some (.semaphore s)) : k'.Counted := by
  refine hc.congr h.moves.semaphores ?_
  intro s
  rw [h.members_of_ne (q := .semaphore s) hk nofun (other s)]

/-- Waking a thread that waits for a unit, which is counted again. -/
theorem Wakes.counted_again (h : Wakes t r (k.setSemaphoreCount s (k.semaphoreCount s + 1)) k')
    (hk : k.Linked) (hc : k.Counted) (hq : (k.thread t).queue = some (.semaphore s)) :
    k'.Counted := by
  have hk₁ : (k.setSemaphoreCount s (k.semaphoreCount s + 1)).Linked := ⟨hk.hold, hk.mem_iff⟩
  have hpos : 0 < (k.members (.semaphore s)).length :=
    List.length_pos_of_mem ((hk.mem_iff t _).mpr hq)
  have hown := hc.length_eq s
  have hlen := h.moves.length_members hk₁ (.semaphore s)
  rw [show ((k.setSemaphoreCount s (k.semaphoreCount s + 1)).thread t).queue =
    some (.semaphore s) from hq, if_pos rfl, if_neg nofun] at hlen
  change _ = (k.members (.semaphore s)).length + 0 at hlen
  refine hc.recount h.moves.semaphores ?_ ?_ ?_
  · omega
  · intro hs
    have := hc.unused s hs
    omega
  · intro s' hs
    rw [h.members_of_ne (q := .semaphore s') hk₁ nofun]
    · rfl
    · rw [show ((k.setSemaphoreCount s (k.semaphoreCount s + 1)).thread t).queue =
        some (.semaphore s) from hq]
      intro he
      exact hs (QueueId.semaphore.inj (Option.some.inj he)).symm

theorem replaceThread_members (hk : k.Linked) (hq : (k.thread t).queue = none) {th : Thread}
    (hth : th.queue = none) (p : QueueId) : (k.replaceThread t th).members p = k.members p := by
  refine (hk.moves_replaceThread false hq hth).members_of_ne hk ?_ ?_
  · rw [hq]
    exact nofun
  · rw [hth]
    exact nofun

theorem Counted.replaceThread (hc : k.Counted) (hk : k.InPlace)
    (gone : (k.thread t).state = .inactive ∨ (k.thread t).state = .final) {th : Thread}
    (hth : th.queue = none) : (k.replaceThread t th).Counted := by
  refine hc.congr rfl ?_
  intro s
  rw [replaceThread_members hk.toLinked (hk.queue_eq_none_of_state (by tauto)) hth]

theorem Effect.counted (h : Effect touched k k') (hk : k.InPlace) (hc : k.Counted) :
    k'.Counted := by
  cases h with
  | quiet => exact hc.congr rfl fun _ => rfl
  | timers => exact hc.congr rfl fun _ => rfl
  | mark => exact hc.congr rfl fun _ => rfl
  | setBase => exact hc.congr rfl fun _ => rfl
  | resume _ hs hw =>
      refine hw.counted hk.toLinked hc ?_
      intro s
      rw [hk.queue_eq_none_of_state (by tauto)]
      exact nofun
  | timeOut _ _ hq hw => exact hw.counted hk.toLinked hc hq
  | expire _ hq hw => exact hw.counted_again hk.toLinked hc hq
  | grant _ hhead hw =>
      exact hw.counted_again hk.toLinked hc (hk.queue_of_head hhead)
  | @recount s count _ hold hnew =>
      refine hc.recount rfl ?_ (fun _ => hnew) (fun _ _ => rfl)
      have hlen := hc.length_eq s
      change (k.members (.semaphore s)).length = _
      omega
  | @dismiss _ s count _ hcount hr =>
      have hk₁ : (k.setSemaphoreCount s count).Linked := ⟨hk.hold, hk.mem_iff⟩
      obtain ⟨hnil, hothers⟩ := hr.members (q := .semaphore s) hk₁ nofun rfl
      refine hc.recount (s := s) hr.semaphores ?_ (fun _ => hcount) ?_
      · rw [hnil, List.length_nil]
        omega
      · intro s' hs
        rw [hothers (.semaphore s') nofun (fun he => hs (QueueId.semaphore.inj he))]
        rfl
  | notify _ hhead hw =>
      refine hw.counted hk.toLinked hc ?_
      intro s
      rw [hk.queue_of_head hhead]
      exact nofun
  | take => exact hc.congr rfl fun _ => rfl
  | free => exact hc.congr rfl fun _ => rfl
  | @handOver _ m next _ _ hhead hw =>
      have hk₁ : ((k.strike m).acquire m next).InPlace := (hk.strike m).acquire m next
      have hc₁ : ((k.strike m).acquire m next).Counted := hc.congr rfl fun _ => rfl
      refine hw.counted hk₁.toLinked hc₁ ?_
      intro s
      rw [hk₁.queue_of_head hhead]
      exact nofun
  | create name p e _ hs => exact hc.replaceThread hk (Or.inl hs) rfl
  | blank hs => exact hc.replaceThread hk (Or.inl hs) rfl
  | vacate _ hs => exact hc.replaceThread hk (Or.inr hs) rfl
  | @newSemaphore s pool count hpush =>
      have hnew := Pool.not_contains_of_push hpush
      refine ⟨?_, ?_⟩
      · intro s'
        have hlen := hc.length_eq s'
        change (k.members (.semaphore s')).length = (-(pool.get s').count).toNat
        rw [Pool.get_push hpush]
        split
        · rename_i hs
          have hold := hc.unused s hnew
          rw [hs] at hlen ⊢
          rw [hlen]
          change _ = (-(count : Int)).toNat
          omega
        · exact hlen
      · intro s' hs'
        change 0 ≤ (pool.get s').count
        rw [Pool.get_push hpush]
        split
        · exact Int.natCast_nonneg count
        · rename_i hs
          refine hc.unused s' ?_
          rw [← Bool.not_eq_true] at hs' ⊢
          intro hin
          exact hs' ((Pool.contains_push hpush).mpr (Or.inr hin))
  | newMutex => exact hc.congr rfl fun _ => rfl
  | newCondVar => exact hc.congr rfl fun _ => rfl
  | newMailbox => exact hc.congr rfl fun _ => rfl
  | write => exact hc.congr rfl fun _ => rfl

theorem Lends.semaphores (h : Lends k o k') : k'.semaphores = k.semaphores := by
  induction h with
  | enough _ => rfl
  | last _ hboost _ => exact hboost.2.semaphores
  | on _ hboost _ _ _ ih => exact ih.trans hboost.2.semaphores

/-- A boost moves threads within their queues only. -/
theorem Boosts.length_members (h : Boosts o k k') (hk : k.Linked) (p : QueueId) :
    (k'.members p).length = (k.members p).length := by
  have hlen := h.2.length_members hk p
  dsimp only at hlen
  omega

theorem Lends.length_members (h : Lends k o k') (hk : k.Linked) (p : QueueId) :
    (k'.members p).length = (k.members p).length := by
  induction h with
  | enough _ => rfl
  | last _ hboost _ => exact hboost.length_members hk p
  | on _ hboost _ _ _ ih =>
      rw [ih (hboost.2.linked hk), hboost.length_members hk p]

theorem Dispatches.semaphores {next : ThreadId} (h : Dispatches next k k') :
    k'.semaphores = k.semaphores := h.moves.semaphores

theorem Blocks.semaphores {state : ThreadState} {p : Option QueueId} (h : Blocks state p k k') :
    k'.semaphores = k.semaphores := by
  obtain ⟨-, k₁, next, hpark, hdispatch⟩ := h
  rw [hdispatch.semaphores, hpark.moves.semaphores]

theorem GivesWay.semaphores {ahead : Bool} (h : GivesWay ahead k k') :
    k'.semaphores = k.semaphores := by
  obtain ⟨k₁, next, hdispatch, -, hmoves⟩ := h
  rw [hmoves.semaphores, hdispatch.semaphores]

theorem Blocks.length_members {state : ThreadState} (h : Blocks state (some q) k k')
    (hk : k.InPlace) (ready : q ≠ .ready) :
    (k'.members q).length = (k.members q).length + 1 := by
  obtain ⟨-, k₁, next, hpark, hdispatch⟩ := h
  have hlen := hpark.moves.length_members hk.toLinked q
  rw [hk.queue_eq_none rfl, if_neg nofun, if_pos rfl] at hlen
  rw [hdispatch.members_of_ne (hpark.arranged hk).toLinked ready]
  exact hlen

/-- The running thread waits, but for no unit. -/
theorem Blocks.counted {state : ThreadState} {p : Option QueueId} (h : Blocks state p k k')
    (hk : k.InPlace) (hc : k.Counted) (other : ∀ s, p ≠ some (.semaphore s)) : k'.Counted := by
  refine hc.congr h.semaphores ?_
  intro s
  rw [h.members_of_ne (q := .semaphore s) hk nofun (other s)]

theorem Switch.counted (h : Switch touched k k') (hk : k.InPlace) (hc : k.Counted) :
    k'.Counted := by
  cases h with
  | giveWay h =>
      refine hc.congr h.semaphores ?_
      intro s
      rw [h.members_of_ne (q := .semaphore s) hk nofun]
  | park _ h => exact h.counted hk hc nofun
  | @awaitUnit _ s state _ hin hcount hstate h =>
      have hk₁ : (k.setSemaphoreCount s (k.semaphoreCount s - 1)).InPlace :=
        InPlace.setSemaphoreCount hk _ _
      have hown := hc.length_eq s
      refine hc.recount h.semaphores ?_ ?_ ?_
      · rw [h.length_members hk₁ nofun]
        change (k.members (.semaphore s)).length + 1 = _
        omega
      · intro hs
        rw [hin] at hs
        cases hs
      · intro s' hs
        rw [h.members_of_ne (q := .semaphore s') hk₁ nofun]
        · rfl
        · intro he
          exact hs (QueueId.semaphore.inj (Option.some.inj he)).symm
  | awaitMutex _ _ _ hlends h =>
      have hk₁ := hlends.arranged hk
      rw [← hlends.current] at hk₁
      have hc₁ := hc.congr hlends.semaphores fun s => hlends.length_members hk.toLinked _
      exact h.counted hk₁ hc₁ nofun
  | awaitCondition _ h => exact h.counted hk hc nofun
  | awaitExit _ _ _ _ _ h => exact h.counted hk hc nofun
  | @exit k₁ _ msg next _ _ hr hd =>
      have hk₁ := hk.finishCurrent msg
      obtain ⟨-, hothers⟩ := hr.members (q := .exit k.current) hk₁.toLinked nofun rfl
      refine hc.congr ?_ ?_
      · rw [hd.semaphores, hr.semaphores]
        rfl
      · intro s
        rw [hd.members_of_ne (q := .semaphore s) (hr.arranged hk₁).toLinked nofun,
          hothers (.semaphore s) nofun nofun]
        rfl

end RealtimeKernel.Kernel

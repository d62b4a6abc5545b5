import RealtimeKernel.Proofs.Kernel.Tallies

/-!
What happens at a condition variable. A signal wakes the first waiter, a broadcast all of them, and
no other operation lets anybody in or out: a thread gets into the queue by waiting, and leaves it
by one of these two or because its time is up.
-/
namespace RealtimeKernel.Kernel

variable {k k' k₁ : Kernel} {touched : Object → Prop} {u : ThreadId} {q : QueueId}
  {c : CondVarId} {w : WakeupResult} {woken left : List ThreadId}

/-- The first threads of a queue are woken, the others and all other queues are left alone. -/
structure Releases (q : QueueId) (woken left : List ThreadId) (w : WakeupResult)
    (k k' : Kernel) : Prop where
  before : k.members q = woken ++ left
  after : k'.members q = left
  others : ∀ p, p ≠ .ready → p ≠ q → k'.members p = k.members p
  runnable : ∀ u ∈ woken, (k'.thread u).state.isRunnable = true ∧ (k'.thread u).wakeup = w

theorem Wakes.releases {t : ThreadId} (h : Wakes t w k k') (hk : k.Linked) (hne : q ≠ .ready)
    (hq : k.members q = t :: left) : Releases q [t] left w k k' := by
  have hqueue : (k.thread t).queue = some q := by
    rw [← hk.mem_iff, hq]
    exact List.mem_cons_self
  refine ⟨hq, h.members_tail hne hq, fun p hp hpq => h.members_of_ne hk hp ?_, ?_⟩
  · rw [hqueue]
    exact fun heq => hpq (Option.some.inj heq).symm
  · intro u hu
    rw [List.mem_singleton.mp hu, h.moves.thread_self]
    exact ⟨rfl, rfl⟩

theorem Rouses.releases (h : Rouses w (k.members q) k k') (hk : k.Linked) (hne : q ≠ .ready) :
    Releases q (k.members q) [] w k k' := by
  obtain ⟨hnil, hothers⟩ := h.members hk hne rfl
  refine ⟨(List.append_nil _).symm, hnil, hothers, fun u hu => ?_⟩
  rw [h.thread hk hne rfl, if_pos ((hk.mem_iff u q).mp hu)]
  exact ⟨rfl, rfl⟩

/-- Another thread may have to run afterwards. -/
theorem Releases.preempt (h : Releases q woken left w k k₁) (hk : k.InPlace) (hk₁ : k₁.InPlace)
    (hne : q ≠ .ready) (hcurrent : k₁.current = k.current) (hp : k₁.preempt = .ok k') :
    Releases q woken left w k k' := by
  have hmembers : ∀ p, p ≠ .ready → k'.members p = k₁.members p := by
    intro p hpne
    rcases preempt_ok hk₁ hp with ⟨-, hgives⟩ | ⟨-, rfl⟩
    · exact hgives.members_of_ne hk₁ hpne
    · rfl
  refine ⟨h.before, (hmembers q hne).trans h.after, fun p hpne hpq => ?_, fun u hu => ?_⟩
  · exact (hmembers p hpne).trans (h.others p hpne hpq)
  · obtain ⟨hrun, hwakeup⟩ := h.runnable u hu
    have hmem : u ∈ k.members q := by
      rw [h.before]
      exact List.mem_append_left _ hu
    have hu : u ≠ k₁.current := by
      rw [hcurrent]
      exact hk.not_runs_of_mem hmem
    obtain ⟨hrun', hwakeup'⟩ := preempt_keeps hk₁ hp hu hrun
    exact ⟨hrun', hwakeup'.trans hwakeup⟩

theorem signalCondition_releases (hk : k.InPlace) (h : k.signalCondition c = .ok k') :
    Releases (.condVar c) ((k.members (.condVar c)).take 1) ((k.members (.condVar c)).drop 1) .ok
      k k' ∧ (k.members (.condVar c) = [] → k' = k) := by
  rcases wakeFirst_ok (q := .condVar c) hk nofun h with ⟨hnil, rfl⟩ | ⟨t, hhead, hwakes⟩
  · refine ⟨⟨(List.take_append_drop 1 _).symm, ?_, fun _ _ _ => rfl, fun u hu => ?_⟩, fun _ => rfl⟩
    · rw [hnil]
      rfl
    · rw [hnil] at hu
      cases hu
  · obtain ⟨l, hl⟩ := List.head?_eq_some_iff.mp hhead
    rw [hl]
    exact ⟨hwakes.releases hk.toLinked nofun hl, nofun⟩

theorem broadcast_releases (hk : k.InPlace) (h : k.broadcast c = .ok k') :
    Releases (.condVar c) (k.members (.condVar c)) [] .reset k k' :=
  (wakeAll_ok (q := .condVar c) hk nofun h).releases hk.toLinked nofun

/-! Who comes to wait. -/

/-- A switch makes nobody wait but the thread that ran. -/
theorem Switch.waited (h : Switch touched k k') (hk : k.InPlace) (hne : q ≠ .ready)
    (hq : (k'.thread u).queue = some q) (hu : u ≠ k.current) : (k.thread u).queue = some q := by
  have hblocked := (h.inPlace hk).isBlocked_of_queue hq hne
  cases h.passage hk u with
  | same h => exact h.queue.symm.trans hq
  | dispatched _ _ hs =>
      rw [hs] at hblocked
      cases hblocked
  | waits hcur => exact absurd hcur hu
  | parked hcur => exact absurd hcur hu
  | ended hcur => exact absurd hcur hu
  | roused _ _ _ hrun => exact absurd hrun (not_isRunnable_of_isBlocked hblocked)

/-- The thread that ran waits for a condition only if the operation was given that. -/
theorem Switch.waited_current (h : Switch touched k k') (hk : k.InPlace)
    (hq : (k'.thread k.current).queue = some (.condVar c)) : touched (.condVar c) := by
  have hblocks : ∀ {k₁ state p}, Blocks state p k₁ k' → k₁.InPlace → k₁.current = k.current →
      p = some (.condVar c) := by
    intro k₁ state p hblocks hk₁ hcurrent
    have hthread := hblocks.thread_current hk₁
    rw [hcurrent] at hthread
    rw [hthread] at hq
    exact hq
  cases h with
  | giveWay h =>
      obtain ⟨k₁, next, -, -, hmoves⟩ := h
      rw [hmoves.thread_self] at hq
      cases hq
  | park _ h => cases hblocks h hk rfl
  | awaitUnit _ _ _ _ h => cases hblocks h (InPlace.setSemaphoreCount hk _ _) rfl
  | awaitMutex _ _ _ hlends h =>
      have hk₁ := hlends.arranged hk
      rw [← hlends.current] at hk₁
      cases hblocks h hk₁ hlends.current
  | awaitCondition ht h =>
      cases hblocks h hk rfl
      exact ht
  | awaitExit _ _ _ _ _ h => cases hblocks h hk rfl
  | exit _ _ hr hd =>
      have hended := hr.thread_ended hk hd
      rw [hended] at hq
      have hqueue : k.running.queue = none := hk.queue_eq_none rfl
      rw [hqueue] at hq
      cases hq

/-- Who waits for a condition that an operation was not given did so before. -/
theorem Does.waited (h : Does touched k k') (hk : k.Sound)
    (hq : (k'.thread u).queue = some (.condVar c)) (hu : u ≠ k.current ∨ ¬ touched (.condVar c)) :
    (k.thread u).queue = some (.condVar c) := by
  obtain ⟨k₁, heffects, hswitch⟩ := h
  obtain ⟨hk₁, hcurrent, hwaited⟩ := effects_induction
    (P := fun k₁ => k₁.current = k.current ∧ ((k₁.thread u).queue = some (.condVar c) →
      (k.thread u).queue = some (.condVar c))) heffects hk
    (fun k₁ k₂ hk₁ he h => ⟨he.current.trans h.1, fun hq => h.2 (he.waited hk₁.inPlace nofun hq)⟩)
    ⟨rfl, id⟩
  rcases hswitch with rfl | hswitch
  · exact hwaited hq
  · by_cases hne : u = k₁.current
    · subst hne
      have ht := hswitch.waited_current hk₁.inPlace hq
      rcases hu with hu | hnot
      · exact absurd hcurrent hu
      · exact absurd ht hnot
    · exact hwaited (hswitch.waited hk₁.inPlace nofun hq hne)

end RealtimeKernel.Kernel

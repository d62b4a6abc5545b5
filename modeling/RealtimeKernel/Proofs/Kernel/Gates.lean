import RealtimeKernel.Proofs.Kernel.Lives

/-!
What an operation does to a semaphore and to a mailbox that it was not given: a wait may time
out, and that is all.
-/
namespace RealtimeKernel.Kernel

variable {k k' k₁ : Kernel} {touched : Object → Prop} {s : SemaphoreId} {b : MailboxId}
  {u : ThreadId} {q : QueueId}

/-- Nothing happens to a semaphore but that waits time out. -/
structure Leaves (s : SemaphoreId) (k k' : Kernel) : Prop where
  count : max (k'.semaphoreCount s) 0 = max (k.semaphoreCount s) 0
  stays : ∀ u, (k.thread u).queue = some (.semaphore s) →
    (k'.thread u).queue = some (.semaphore s) ∨
      (k'.thread u).state.isRunnable = true ∧ (k'.thread u).wakeup = .timeout
  enters : ∀ u, (k'.thread u).queue = some (.semaphore s) →
    (k.thread u).queue = some (.semaphore s)

/-- A thread that may run, may still, and for the same reason. -/
def KeepsRunnable (k k' : Kernel) (u : ThreadId) : Prop :=
  (k.thread u).state.isRunnable = true →
    (k'.thread u).state.isRunnable = true ∧ (k'.thread u).wakeup = (k.thread u).wakeup

theorem Leaves.refl (s : SemaphoreId) (k : Kernel) : Leaves s k k :=
  ⟨rfl, fun _ => Or.inl, fun _ => id⟩

theorem KeepsRunnable.refl (k : Kernel) (u : ThreadId) : KeepsRunnable k k u :=
  fun hrun => ⟨hrun, rfl⟩

theorem KeepsRunnable.trans (h : KeepsRunnable k k₁ u) (h' : KeepsRunnable k₁ k' u) :
    KeepsRunnable k k' u := by
  intro hrun
  obtain ⟨hrun₁, hw⟩ := h hrun
  obtain ⟨hrun', hw'⟩ := h' hrun₁
  exact ⟨hrun', hw'.trans hw⟩

theorem Leaves.trans (h : Leaves s k k₁) (h' : Leaves s k₁ k')
    (keeps : ∀ u, (k.thread u).queue = some (.semaphore s) → KeepsRunnable k₁ k' u) :
    Leaves s k k' := by
  refine ⟨h'.count.trans h.count, ?_, fun u hq => h.enters u (h'.enters u hq)⟩
  intro u hq
  rcases h.stays u hq with hq₁ | ⟨hrun, hw⟩
  · exact h'.stays u hq₁
  · obtain ⟨hrun', hw'⟩ := keeps u hq hrun
    exact Or.inr ⟨hrun', hw'.trans hw⟩

theorem not_isRunnable_of_isBlocked {state : ThreadState} (h : state.isBlocked = true) :
    state.isRunnable ≠ true := by
  cases state <;> simp [ThreadState.isBlocked, ThreadState.isRunnable] at h ⊢

theorem not_isRunnable_of_isGone {state : ThreadState} (h : state.isGone = true) :
    state.isRunnable ≠ true := by
  cases state <;> simp [ThreadState.isGone, ThreadState.isRunnable] at h ⊢

theorem Effect.keepsRunnable (h : Effect touched k k') (hk : k.InPlace) (u : ThreadId) :
    KeepsRunnable k k' u := by
  intro hrun
  cases h.fate hk u with
  | same h => exact ⟨by rw [h.state, hrun], h.wakeup⟩
  | woken hb => exact absurd hrun (not_isRunnable_of_isBlocked hb)
  | replaced hg => exact absurd hrun (not_isRunnable_of_isGone hg)

theorem Switch.keepsRunnable (h : Switch touched k k') (hk : k.InPlace) (hu : u ≠ k.current) :
    KeepsRunnable k k' u := by
  intro hrun
  cases h.passage hk u with
  | same h => exact ⟨by rw [h.state, hrun], h.wakeup⟩
  | dispatched _ _ hs _ hw => exact ⟨by rw [hs]; rfl, hw⟩
  | waits hcur => exact absurd hcur hu
  | parked hcur => exact absurd hcur hu
  | ended hcur => exact absurd hcur hu
  | roused hb => exact absurd hrun (not_isRunnable_of_isBlocked hb)

/-- The count of a semaphore changes only when a timeout takes back a claim. -/
theorem Effect.semaphoreCount_eq (h : Effect touched k k') (hk : k.Sound)
    (ht : ¬ touched (.semaphore s)) (hin : k.semaphores.contains s = true) :
    k'.semaphoreCount s = k.semaphoreCount s ∨
      k.semaphoreCount s < 0 ∧ k'.semaphoreCount s = k.semaphoreCount s + 1 := by
  have hcongr : k'.semaphores = k.semaphores → k'.semaphoreCount s = k.semaphoreCount s := by
    intro h
    simp only [semaphoreCount, h]
  have hother : ∀ s' count, touched (.semaphore s') →
      (k.setSemaphoreCount s' count).semaphoreCount s = k.semaphoreCount s := by
    intro s' count ht'
    rw [semaphoreCount_setSemaphoreCount, if_neg]
    rintro rfl
    exact ht ht'
  cases h with
  | resume _ _ hw => exact Or.inl (hcongr hw.moves.semaphores)
  | timeOut _ _ _ hw => exact Or.inl (hcongr hw.moves.semaphores)
  | @expire _ t s' _ hq hw =>
      have hcount : k'.semaphoreCount s =
        (k.setSemaphoreCount s' (k.semaphoreCount s' + 1)).semaphoreCount s := by
        simp only [semaphoreCount, hw.moves.semaphores]
      rw [hcount, semaphoreCount_setSemaphoreCount]
      split
      · rename_i hs
        rw [← hs] at hq ⊢
        have hpos := List.length_pos_of_mem ((hk.inPlace.mem_iff t _).mpr hq)
        have hlen := hk.counted.length_eq s
        exact Or.inr ⟨by omega, rfl⟩
      · exact Or.inl rfl
  | @grant _ t s' ht' _ hw =>
      refine Or.inl ?_
      rw [← hother s' (k.semaphoreCount s' + 1) ht']
      simp only [semaphoreCount, hw.moves.semaphores]
  | @recount s' count ht' => exact Or.inl (hother s' count ht')
  | @dismiss _ s' count ht' _ hr =>
      refine Or.inl ?_
      rw [← hother s' count ht']
      simp only [semaphoreCount, hr.semaphores]
  | notify _ _ hw => exact Or.inl (hcongr hw.moves.semaphores)
  | handOver _ _ _ hw => exact Or.inl (hcongr hw.moves.semaphores)
  | @newSemaphore s' pool count hpush =>
      refine Or.inl ?_
      have hnew := Pool.not_contains_of_push hpush
      change (pool.get s).count = _
      rw [Pool.get_push hpush, if_neg]
      · rfl
      · rintro rfl
        rw [hin] at hnew
        cases hnew
  | _ => exact Or.inl rfl

/-- An effect makes nobody wait. -/
theorem Effect.waited (h : Effect touched k k') (hk : k.InPlace) (hne : q ≠ .ready)
    (hq : (k'.thread u).queue = some q) : (k.thread u).queue = some q := by
  cases h.fate hk u with
  | same h => exact h.queue.symm.trans hq
  | woken _ _ hready =>
      rw [hready] at hq
      exact absurd (Option.some.inj hq).symm hne
  | replaced _ hnone =>
      rw [hnone] at hq
      cases hq

theorem Effect.leaves (h : Effect touched k k') (hk : k.Sound) (ht : ¬ touched (.semaphore s))
    (hin : k.semaphores.contains s = true) : Leaves s k k' := by
  refine ⟨?_, ?_, ?_⟩
  · rcases h.semaphoreCount_eq hk ht hin with hsame | ⟨hneg, hsucc⟩
    · rw [hsame]
    · omega
  · intro u hq
    cases h.fate hk.inPlace u with
    | same h => exact Or.inl (h.queue.trans hq)
    | woken _ hs _ hcause =>
        rcases hcause with ⟨-, hw⟩ | hcause
        · exact Or.inr ⟨by rw [hs]; rfl, hw⟩
        · rw [hq] at hcause
          exact absurd hcause ht
    | replaced hg =>
        rw [hk.inPlace.queue_eq_none_of_gone hg] at hq
        cases hq
  · exact fun u => h.waited hk.inPlace nofun

theorem Switch.semaphoreCount_eq (h : Switch touched k k') (ht : ¬ touched (.semaphore s)) :
    k'.semaphoreCount s = k.semaphoreCount s := by
  have hcongr : k'.semaphores = k.semaphores → k'.semaphoreCount s = k.semaphoreCount s := by
    intro h
    simp only [semaphoreCount, h]
  cases h with
  | giveWay h => exact hcongr h.semaphores
  | park _ h => exact hcongr h.semaphores
  | @awaitUnit _ s' _ ht' _ _ _ h =>
      have hother := semaphoreCount_setSemaphoreCount k s' s (k.semaphoreCount s' - 1)
      rw [if_neg] at hother
      · rw [← hother]
        simp only [semaphoreCount, h.semaphores]
      · rintro rfl
        exact ht ht'
  | awaitMutex _ _ _ hlends h => exact hcongr (h.semaphores.trans hlends.semaphores)
  | awaitCondition _ h => exact hcongr h.semaphores
  | awaitExit _ _ _ _ _ h => exact hcongr h.semaphores
  | exit _ _ hr hd => exact hcongr (hd.semaphores.trans hr.semaphores)

/-- Other threads than the running one neither come to wait for a unit nor cease to. -/
theorem Switch.queue_semaphore_iff (h : Switch touched k k') (hk : k.InPlace)
    (hu : u ≠ k.current) : (k'.thread u).queue = some (.semaphore s) ↔
      (k.thread u).queue = some (.semaphore s) := by
  cases h.passage hk u with
  | same h => rw [h.queue]
  | dispatched _ hready _ hnone =>
      rw [hready, hnone]
      exact iff_of_false nofun nofun
  | waits hcur => exact absurd hcur hu
  | parked hcur => exact absurd hcur hu
  | ended hcur => exact absurd hcur hu
  | roused _ hexit _ _ hnot =>
      rw [hexit]
      exact iff_of_false (hnot s) nofun

theorem Switch.leaves (h : Switch touched k k') (hk : k.InPlace)
    (ht : ¬ touched (.semaphore s)) : Leaves s k k' := by
  refine ⟨by rw [h.semaphoreCount_eq ht], ?_, ?_⟩
  · intro u hq
    exact Or.inl ((h.queue_semaphore_iff hk (hk.not_runs hq)).mpr hq)
  · intro u hq
    by_cases hu : u = k.current
    · have hblocked := (h.inPlace hk).isBlocked_of_queue hq nofun
      cases h.passage hk u with
      | same h =>
          rw [h.state, hu, hk.state_current] at hblocked
          cases hblocked
      | dispatched _ _ hs =>
          rw [hs] at hblocked
          cases hblocked
      | waits _ hs =>
          rw [hs] at hblocked
          cases hblocked
      | parked _ _ htouched => exact absurd (htouched s hq) ht
      | ended _ _ hs =>
          rw [hs] at hblocked
          cases hblocked
      | roused hb =>
          rw [hu, hk.state_current] at hb
          cases hb
    · exact (h.queue_semaphore_iff hk hu).mp hq

/-- A mailbox that is not touched stays as it is, and is not made. -/
theorem Effect.mailbox_eq (h : Effect touched k k') (ht : ¬ touched (.mailbox b)) :
    k'.mailbox b = k.mailbox b ∧ k'.mailboxes.contains b = k.mailboxes.contains b := by
  have hcongr : k'.mailboxes = k.mailboxes →
      k'.mailbox b = k.mailbox b ∧ k'.mailboxes.contains b = k.mailboxes.contains b := by
    intro h
    simp only [mailbox, h, and_self]
  have hne : ∀ b', touched (.mailbox b') → b ≠ b' := by
    rintro b' ht' rfl
    exact ht ht'
  cases h with
  | resume _ _ hw => exact hcongr hw.moves.mailboxes
  | timeOut _ _ _ hw => exact hcongr hw.moves.mailboxes
  | expire _ _ hw => exact hcongr hw.moves.mailboxes
  | grant _ _ hw => exact hcongr hw.moves.mailboxes
  | dismiss _ _ hr => exact hcongr hr.sameObjects.mailboxes
  | notify _ _ hw => exact hcongr hw.moves.mailboxes
  | handOver _ _ _ hw => exact hcongr hw.moves.mailboxes
  | @newMailbox b' pool box hpush ht' =>
      constructor
      · exact (Pool.get_push hpush).trans (if_neg (hne b' ht'))
      · have hiff := Pool.contains_push (j := b) hpush
        rw [or_iff_right (hne b' ht'), ← Bool.eq_iff_iff] at hiff
        exact hiff
  | @write b' ring epoch ht' =>
      constructor
      · rw [mailbox_setMailbox, if_neg (hne b' ht')]
      · rfl
  | _ => exact hcongr rfl

theorem Does.mailbox_eq (h : Does touched k k') (hk : k.Sound) (ht : ¬ touched (.mailbox b)) :
    k'.mailbox b = k.mailbox b ∧ k'.mailboxes.contains b = k.mailboxes.contains b := by
  obtain ⟨k₁, heffects, hswitch⟩ := h
  obtain ⟨-, hbox, hin⟩ := effects_induction
    (P := fun k₁ => k₁.mailbox b = k.mailbox b ∧
      k₁.mailboxes.contains b = k.mailboxes.contains b) heffects hk
    (fun _ _ _ he h => ⟨(he.mailbox_eq ht).1.trans h.1, (he.mailbox_eq ht).2.trans h.2⟩) ⟨rfl, rfl⟩
  rcases hswitch with rfl | hswitch
  · exact ⟨hbox, hin⟩
  · rw [mailbox, hswitch.grows_mailboxes.2]
    exact ⟨hbox, hin⟩

/-- Whoever could run still can, for the same reason; the running thread alone may stop. -/
theorem Does.keepsRunnable (h : Does touched k k') (hk : k.Sound) (hu : u ≠ k.current) :
    KeepsRunnable k k' u := by
  obtain ⟨k₁, heffects, hswitch⟩ := h
  obtain ⟨hk₁, hcurrent, hkeeps⟩ := effects_induction
    (P := fun k₁ => k₁.current = k.current ∧ KeepsRunnable k k₁ u) heffects hk
    (fun k₁ k₂ hk₁ he h => ⟨he.current.trans h.1, h.2.trans (he.keepsRunnable hk₁.inPlace u)⟩)
    ⟨rfl, .refl k u⟩
  rcases hswitch with rfl | hswitch
  · exact hkeeps
  · rw [← hcurrent] at hu
    exact hkeeps.trans (hswitch.keepsRunnable hk₁.inPlace hu)

/-- Nobody comes to wait for a unit of a semaphore that was not given. -/
theorem Does.enters (h : Does touched k k') (hk : k.Sound) (ht : ¬ touched (.semaphore s))
    (hq : (k'.thread u).queue = some (.semaphore s)) :
    (k.thread u).queue = some (.semaphore s) := by
  obtain ⟨k₁, heffects, hswitch⟩ := h
  obtain ⟨hk₁, henters⟩ := effects_induction
    (P := fun k₁ => (k₁.thread u).queue = some (.semaphore s) →
      (k.thread u).queue = some (.semaphore s)) heffects hk
    (fun k₁ k₂ hk₁ he h hq => h (he.waited hk₁.inPlace nofun hq)) id
  rcases hswitch with rfl | hswitch
  · exact henters hq
  · exact henters ((hswitch.leaves hk₁.inPlace ht).enters u hq)

theorem Does.leaves (h : Does touched k k') (hk : k.Sound) (ht : ¬ touched (.semaphore s))
    (hin : k.semaphores.contains s = true) : Leaves s k k' := by
  obtain ⟨k₁, heffects, hswitch⟩ := h
  have hinv := effects_induction
    (P := fun k₁ => Leaves s k k₁ ∧ Grows k k₁ ∧ k₁.current = k.current) heffects hk ?_
    ⟨.refl s k, .refl k, rfl⟩
  · obtain ⟨hk₁, hleaves, -, hcurrent⟩ := hinv
    rcases hswitch with rfl | hswitch
    · exact hleaves
    · refine hleaves.trans (hswitch.leaves hk₁.inPlace ht) ?_
      intro u hq
      apply hswitch.keepsRunnable hk₁.inPlace
      rw [hcurrent]
      exact hk.inPlace.not_runs hq
  · rintro k₁ k₂ hk₁ he ⟨hleaves, hgrows, hcurrent⟩
    have hin₁ := hgrows.semaphores s hin
    exact ⟨hleaves.trans (he.leaves hk₁ ht hin₁) fun u _ => he.keepsRunnable hk₁.inPlace u,
      hgrows.trans he.grows, he.current.trans hcurrent⟩

/-- A mailbox, its semaphores and the threads that are not the running one, after an operation
that was given none of them. -/
structure LeavesBox (b : MailboxId) (k k' : Kernel) : Prop where
  mailbox : k'.mailbox b = k.mailbox b
  empty : Leaves (k.mailbox b).empty k k'
  full : Leaves (k.mailbox b).full k k'
  runnable : ∀ u, u ≠ k.current → KeepsRunnable k k' u

theorem Does.leavesBox (h : Does touched k k') (hk : k.Sound)
    (hin : k.mailboxes.contains b = true) (ht : ∀ o, k.BoxParts b o → ¬ touched o) :
    LeavesBox b k k' := by
  obtain ⟨hempty, hfull, -⟩ := hk.boxed.created b hin
  refine ⟨(h.mailbox_eq hk (ht _ (Or.inl rfl))).1, ?_, ?_, fun u => h.keepsRunnable hk⟩
  · exact h.leaves hk (ht _ (Or.inr (Or.inl rfl))) hempty
  · exact h.leaves hk (ht _ (Or.inr (Or.inr rfl))) hfull

end RealtimeKernel.Kernel

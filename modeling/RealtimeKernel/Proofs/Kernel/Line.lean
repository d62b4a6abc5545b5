import RealtimeKernel.Proofs.Kernel.Successions

/-!
The line of the ready threads. Others may join it and the first one may leave it, but no ready
thread passes another one, unless a mutex is locked and its owner is lent a higher priority. Not
even then does a thread pass another one that has the same priority before and after.
-/
namespace RealtimeKernel.Kernel

variable {k k' k₁ : Kernel} {touched : Object → Prop} {t u v o next : ThreadId} {ahead : Bool}
  {l : List ThreadId} {w : WakeupResult} {state : ThreadState} {m : MutexId} {p : Option QueueId}
  {runs : ThreadId → Prop}

/-- Whoever stood behind a ready thread stands behind it as long as that one is ready. -/
def KeepsLine (k k' : Kernel) : Prop :=
  ∀ u v, [u, v].Sublist (k.members .ready) → u ∈ k'.members .ready →
    [u, v].Sublist (k'.members .ready)

theorem KeepsLine.of_sublist (h : (k.members .ready).Sublist (k'.members .ready)) :
    KeepsLine k k' := fun _ _ hline _ => hline.trans h

theorem KeepsLine.refl (k : Kernel) : KeepsLine k k := .of_sublist (.refl _)

/-- Before that some may have joined the line. -/
theorem KeepsLine.after (h : KeepsLine k₁ k')
    (hjoin : (k.members .ready).Sublist (k₁.members .ready)) : KeepsLine k k' :=
  fun u v hline => h u v (hline.trans hjoin)

/-- The first one of a line has nobody before it. -/
theorem head_of_pair {a b : ThreadId} (hnodup : l.Nodup) (hline : [a, b].Sublist l) :
    l.head? ≠ some b := by
  intro hhead
  obtain ⟨l', rfl⟩ := List.head?_eq_some_iff.mp hhead
  have hab : a ≠ b := by
    have hpair := hnodup.sublist hline
    simpa using hpair
  have htail : [a, b].Sublist l' := hline.of_cons_of_ne hab
  exact (List.nodup_cons.mp hnodup).1 (htail.subset (by simp))

/-- Whoever may run and does not stands in the line. -/
theorem InPlace.mem_ready (hk : k.InPlace) (runs : (k.thread t).state.isRunnable = true)
    (ht : t ≠ k.current) : t ∈ k.members .ready := by
  rw [← hk.ready_iff]
  cases hs : (k.thread t).state with
  | ready => rfl
  | running => exact absurd ((hk.running_iff t).mp hs) ht
  | _ =>
      rw [hs] at runs
      cases runs

/-! Joining the line. -/

theorem Wakes.ready_sublist (h : Wakes t w k k') (hk : k.Arranged runs) :
    (k.members .ready).Sublist (k'.members .ready) := by
  rw [h.moves.members_eq, if_pos rfl,
    List.erase_of_not_mem (hk.not_ready_of_blocked h.blocked)]
  exact List.sublist_orderedInsert _ _

theorem Rouses.ready_sublist (h : Rouses w l k k') (hk : k.Arranged runs) :
    (k.members .ready).Sublist (k'.members .ready) := by
  induction h with
  | nil k => exact .refl _
  | cons hw _ ih => exact (hw.ready_sublist hk).trans (ih (hw.arranged hk))

theorem Effect.ready_sublist (h : Effect touched k k') (hk : k.InPlace) :
    (k.members .ready).Sublist (k'.members .ready) := by
  obtain ⟨k₁, w, l, hk₁, hsame, hroused⟩ := h.rouses hk
  have hjoin := hroused.ready_sublist hk₁
  rw [hsame.members] at hjoin
  exact hjoin

theorem effects_ready_sublist (h : Relation.ReflTransGen (Effect touched) k k') (hk : k.Sound) :
    (k.members .ready).Sublist (k'.members .ready) := by
  refine (effects_induction (P := fun k' => (k.members .ready).Sublist (k'.members .ready))
    h hk ?_ (.refl _)).2
  exact fun k₁ k₂ hk₁ he hjoin => hjoin.trans (he.ready_sublist hk₁.inPlace)

/-! Leaving it. -/

theorem Dispatches.keepsLine (h : Dispatches next k k') (hk : k.Arranged runs) :
    KeepsLine k k' := by
  intro u v hline hu
  have hnodup := hk.hold.nodup .ready
  rw [h.ready_eq] at hu ⊢
  have hunext : u ≠ next := (hnodup.mem_erase_iff.mp hu).1
  have hvnext : v ≠ next := by
    rintro rfl
    exact head_of_pair hnodup hline h.head
  have herase := hline.erase next
  rw [List.erase_of_not_mem (by simp [hunext.symm, hvnext.symm])] at herase
  exact herase

theorem GivesWay.keepsLine (h : GivesWay ahead k k') (hk : k.InPlace) : KeepsLine k k' := by
  intro u v hline hu
  have hready := h.ready_eq hk
  obtain ⟨k₁, next, hdispatches, -, hmoves⟩ := h
  have hline₁ : k₁.members .ready = (k.members .ready).erase k'.current := by
    rw [hmoves.current, hdispatches.current, hdispatches.ready_eq]
  have hune : u ≠ k.current := hk.not_runs_of_mem (hline.subset List.mem_cons_self)
  rw [hready, ← hline₁] at hu ⊢
  have hu₁ : u ∈ k₁.members .ready := (mem_lineUp.mp hu).resolve_left hune
  exact (hdispatches.keepsLine hk u v hline hu₁).trans (List.sublist_orderedInsert _ _)

theorem Blocks.keepsLine (h : Blocks state p k k') (hk : k.InPlace) : KeepsLine k k' := by
  obtain ⟨-, k₁, next, hparks, hdispatches⟩ := h
  have hready : k₁.members .ready = k.members .ready :=
    hparks.members_of_ne hk hparks.not_ready
  refine (hdispatches.keepsLine (hparks.arranged hk)).after ?_
  rw [hready]

theorem Switch.keepsLine (h : Switch touched k k') (hk : k.InPlace)
    (ht : ∀ m, ¬ touched (.mutex m)) : KeepsLine k k' := by
  cases h with
  | giveWay h => exact h.keepsLine hk
  | park _ h => exact h.keepsLine hk
  | awaitUnit _ _ _ _ h => exact h.keepsLine (InPlace.setSemaphoreCount hk _ _)
  | awaitMutex htouch _ _ _ _ => exact absurd htouch (ht _)
  | awaitCondition _ h => exact h.keepsLine hk
  | awaitExit _ _ _ _ _ h => exact h.keepsLine hk
  | @exit k₁ _ msg next _ _ hr hd =>
      have hk₀ := hk.finishCurrent msg
      have hjoin := hr.ready_sublist hk₀
      rw [(finishCurrent_undisturbed hk msg).members] at hjoin
      exact (hd.keepsLine (hr.arranged hk₀)).after hjoin

theorem Does.keepsLine (h : Does touched k k') (hk : k.Sound)
    (ht : ∀ m, ¬ touched (.mutex m)) : KeepsLine k k' := by
  obtain ⟨k₁, heffects, hswitch⟩ := h
  have hk₁ := (effects_depart heffects hk).1.inPlace
  refine KeepsLine.after ?_ (effects_ready_sublist heffects hk)
  rcases hswitch with rfl | hswitch
  · exact .refl _
  · exact hswitch.keepsLine hk₁ ht

theorem Unlent.keepsLine (h : Unlent k k') (hk : k.Sound) : KeepsLine k k' := by
  obtain ⟨k₁, touched, heffects, hdoes, hnot⟩ := h
  exact (hdoes.keepsLine (effects_depart heffects hk).1 hnot).after
    (effects_ready_sublist heffects hk)

/-! Locking a mutex. -/

/-- The others stay as they stand among each other. -/
theorem Boosts.pair (h : Boosts o k k₁)
    (hline : [u, v].Sublist (k.members .ready))
    (hu : u ≠ o) (hv : v ≠ o) : [u, v].Sublist (k₁.members .ready) := by
  have herase := hline.erase o
  rw [List.erase_of_not_mem (by simp [hu.symm, hv.symm])] at herase
  rw [h.2.members_eq]
  split
  · exact herase.trans (List.sublist_orderedInsert _ _)
  · exact herase

/-- Who is lent a higher priority is no equal of a former equal any more. -/
theorem Boosts.priorityOf_ne (h : Boosts o k k₁)
    (hhigh : k.running.priority.level < (k.priorityOf o).level) (hv : v ≠ o)
    (same : k.priorityOf v = k.priorityOf o) : k₁.priorityOf v ≠ k₁.priorityOf o := by
  rw [h.priorityOf_self, h.priorityOf_of_ne hv, same]
  intro heq
  rw [heq] at hhigh
  exact Nat.lt_irrefl _ hhigh

/-- Of two ready threads that are equals before and after neither is lent a priority. -/
theorem Lends.pair (h : Lends k o k') (hk : k.Arranged runs)
    (hline : [u, v].Sublist (k.members .ready)) (same : k.priorityOf u = k.priorityOf v)
    (same' : k'.priorityOf u = k'.priorityOf v) : [u, v].Sublist (k'.members .ready) := by
  induction h with
  | enough _ => exact hline
  | last hhigh hboost _ =>
      have huv : u ≠ v := by
        have hpair := (hk.hold.nodup .ready).sublist hline
        simpa using hpair
      refine hboost.pair hline ?_ ?_
      · rintro rfl
        exact hboost.priorityOf_ne hhigh huv.symm same.symm same'.symm
      · rintro rfl
        exact hboost.priorityOf_ne hhigh huv same same'
  | @on k k₁ k' o next m hhigh hboost hq _ _ ih =>
      -- Whoever waits for a mutex is not ready.
      have hready : ∀ w ∈ k.members .ready, w ≠ o := by
        rintro w hw rfl
        cases ((hk.mem_iff w .ready).mp hw).symm.trans hq
      have hu : u ≠ o := hready u (hline.subset (by simp))
      have hv : v ≠ o := hready v (hline.subset (by simp))
      refine ih (hboost.arranged hk) (hboost.pair hline hu hv) ?_ same'
      rw [hboost.priorityOf_of_ne hu, hboost.priorityOf_of_ne hv, same]

theorem Blocks.priorityOf (h : Blocks state p k k') : k'.priorityOf = k.priorityOf := by
  obtain ⟨-, k₁, next, hparks, hdispatches⟩ := h
  exact hdispatches.priorityOf.trans (hparks.moves.priorityOf rfl)

theorem lock_pair {frames : List Frame} (hk : k.InPlace) (h : k.lock m = .ok (k', frames))
    (hline : [u, v].Sublist (k.members .ready)) (same : k.priorityOf u = k.priorityOf v)
    (same' : k'.priorityOf u = k'.priorityOf v) (stays : u ∈ k'.members .ready) :
    [u, v].Sublist (k'.members .ready) := by
  rcases lock_steps hk h with ⟨-, -, rfl⟩ | ⟨-, o, k₁, -, -, hlends, hblocks⟩
  · exact hline
  · have hk₁ := hlends.arranged hk
    rw [← hlends.current] at hk₁
    rw [hblocks.priorityOf] at same'
    exact hblocks.keepsLine hk₁ u v (hlends.pair hk hline same same') stays

end RealtimeKernel.Kernel

import RealtimeKernel.Proofs.Kernel.Successions
import RealtimeKernel.Proofs.Kernel.Totality

/-!
Unlocking several mutexes, one after the other. Each goes to its own first waiter, who stands in
no other queue, so no release disturbs another one. What the caller is left with is computed anew
every time: the last release decides. So the order does not matter, but for the places of the new
owners among the ready threads.
-/
namespace RealtimeKernel.Kernel

variable {k k' k₁ k₂ : Kernel} {l l' : List MutexId} {m : MutexId} {t : ThreadId}

/-- The first waiters of these mutexes. -/
def firstWaiters (k : Kernel) (l : List MutexId) : List ThreadId :=
  l.filterMap fun m => (k.members (.mutex m)).head?

/-- What an owner of these mutexes is left with: the running thread's base priority, or what their
first waiters lend. -/
def leftWith (k : Kernel) (l : List MutexId) : Priority :=
  ((k.firstWaiters l).map k.priorityOf).foldl Priority.highest k.running.base

/-- The running thread unlocks mutexes in this order. -/
def releaseEach (k : Kernel) (l : List MutexId) : Outcome Kernel := l.foldlM release k

/-- The mutexes of a list go from the running thread to their first waiters. -/
structure HandsOver (l : List MutexId) (k k' : Kernel) : Prop where
  held : k'.running.held = k.running.held.filter (· ∉ l)
  caller : k'.running =
    { k.running with held := k'.running.held, priority := k'.running.priority }
  owner : ∀ m, k'.owner? m = if m ∈ l then (k.members (.mutex m)).head? else k.owner? m
  waiters : ∀ m, k'.members (.mutex m) =
    if m ∈ l then (k.members (.mutex m)).tail else k.members (.mutex m)
  woken : ∀ m ∈ l, ∀ t, (k.members (.mutex m)).head? = some t → k'.thread t =
    { k.thread t with
      state := .ready, wakeup := .ok, queue := some .ready, held := (k.thread t).held ++ [m] }
  others : ∀ t, t ≠ k.current → t ∉ k.firstWaiters l → k'.thread t = k.thread t
  ready : (k'.members .ready).Perm (k.members .ready ++ k.firstWaiters l)
  queues : ∀ q, q ≠ .ready → (∀ m, q ≠ .mutex m) → k'.members q = k.members q
  used : k'.mutexes.used = k.mutexes.used
  frame : k' = { k with threads := k'.threads, queues := k'.queues, mutexes := k'.mutexes }

/-- What unlocking the mutexes of a list does. -/
structure Released (l : List MutexId) (k k' : Kernel) : Prop extends HandsOver l k k' where
  priority : k'.running.priority = k.leftWith (k.running.held.filter (· ∉ l))

/-- The same kernel, but for the order of the ready threads. -/
structure SameButTurns (k k' : Kernel) : Prop where
  thread : k'.thread = k.thread
  owner : k'.owner? = k.owner?
  members : ∀ q, q ≠ .ready → k'.members q = k.members q
  ready : (k'.members .ready).Perm (k.members .ready)
  used : k'.mutexes.used = k.mutexes.used
  frame : k' = { k with threads := k'.threads, queues := k'.queues, mutexes := k'.mutexes }

theorem mem_firstWaiters :
    t ∈ k.firstWaiters l ↔ ∃ m ∈ l, (k.members (.mutex m)).head? = some t := List.mem_filterMap

theorem firstWaiters_append :
    k.firstWaiters (l ++ l') = k.firstWaiters l ++ k.firstWaiters l' := List.filterMap_append

/-- Nobody waits first for two mutexes. -/
theorem Linked.eq_of_first (hk : k.Linked) {m' : MutexId}
    (h : (k.members (.mutex m)).head? = some t) (h' : (k.members (.mutex m')).head? = some t) :
    m = m' := by
  have hq := hk.queue_of_head h
  rw [hk.queue_of_head h'] at hq
  exact (QueueId.mutex.inj (Option.some.inj hq)).symm

theorem residualPriority_eq (hk : k.Linked) (t : ThreadId) : k.residualPriority t =
    ((k.firstWaiters (k.thread t).held).map k.priorityOf).foldl Priority.highest
      (k.thread t).base := by
  unfold residualPriority firstWaiters
  simp only [hk.head_eq, List.foldl_map, List.foldl_filterMap]
  congr 1
  funext p m
  cases (k.members (.mutex m)).head? <;> rfl

namespace HandsOver

theorem current (h : HandsOver l k k') : k'.current = k.current := by rw [h.frame]

/-- Whoever does not run keeps its priority. -/
theorem priorityOf (h : HandsOver l k k') (ht : t ≠ k.current) :
    k'.priorityOf t = k.priorityOf t := by
  by_cases hfirst : t ∈ k.firstWaiters l
  · obtain ⟨m, hm, hhead⟩ := mem_firstWaiters.mp hfirst
    rw [Kernel.priorityOf, h.woken m hm t hhead]
    rfl
  · rw [Kernel.priorityOf, h.others t ht hfirst]
    rfl

theorem members_of_not_mem (h : HandsOver l k k') (hm : m ∉ l) :
    k'.members (.mutex m) = k.members (.mutex m) := by rw [h.waiters, if_neg hm]

theorem firstWaiters (h : HandsOver l k k') (apart : ∀ m ∈ l', m ∉ l) :
    k'.firstWaiters l' = k.firstWaiters l' :=
  List.filterMap_congr fun m hm => by rw [h.members_of_not_mem (apart m hm)]

/-- What the waiters of other mutexes lend is not changed by the hand-over. -/
theorem leftWith (h : HandsOver l k k') (hk : k.InPlace) (apart : ∀ m ∈ l', m ∉ l) :
    k'.leftWith l' = k.leftWith l' := by
  have hprio : ∀ t ∈ k.firstWaiters l', k'.priorityOf t = k.priorityOf t := by
    intro t ht
    obtain ⟨m, -, hhead⟩ := mem_firstWaiters.mp ht
    exact h.priorityOf (hk.not_runs_of_mem (List.mem_of_head? hhead))
  rw [Kernel.leftWith, Kernel.leftWith, h.firstWaiters apart, List.map_congr_left hprio, h.caller]

theorem nil (k : Kernel) : HandsOver [] k k := by
  refine ⟨?_, rfl, fun _ => rfl, fun _ => rfl, nofun, fun _ _ _ => rfl, ?_, fun _ _ _ => rfl, rfl,
    rfl⟩
  · simp
  · rw [Kernel.firstWaiters, List.filterMap_nil, List.append_nil]

/-- One more mutex is handed over. -/
theorem snoc (h : HandsOver l k k₁) (h' : HandsOver [m] k₁ k') (hk : k.InPlace) (hm : m ∉ l) :
    HandsOver (l ++ [m]) k k' := by
  have hsame := h.members_of_not_mem hm
  have hfirst : k₁.firstWaiters [m] = k.firstWaiters [m] :=
    h.firstWaiters fun m' hm' => List.mem_singleton.mp hm' ▸ hm
  have hwaits : ∀ {m' t}, (k.members (.mutex m')).head? = some t → t ≠ k₁.current := by
    intro m' t hhead
    rw [h.current]
    exact hk.not_runs_of_mem (List.mem_of_head? hhead)
  refine ⟨?_, ?_, ?_, ?_, ?_, ?_, ?_, ?_, h'.used.trans h.used, ?_⟩
  · rw [h'.held, h.held, List.filter_filter]
    simp [and_comm]
  · rw [h'.caller, h.caller]
  · intro m'
    rw [h'.owner, h.owner]
    by_cases hm' : m' = m
    · simp [hm', hsame]
    · simp [hm']
  · intro m'
    rw [h'.waiters]
    by_cases hm' : m' = m
    · simp [hm', hsame]
    · simp [hm', h.waiters m']
  -- A thread waits for one mutex at most, so the other hand-over leaves its record alone.
  · intro m' hmem t hhead
    have hother : ∀ {l'}, m' ∉ l' → t ∉ k.firstWaiters l' := by
      intro l' hnot hin
      obtain ⟨m'', hm'', hhead'⟩ := mem_firstWaiters.mp hin
      exact hnot (hk.eq_of_first hhead hhead' ▸ hm'')
    rcases List.mem_append.mp hmem with hmem | hmem
    · have hne : m' ∉ [m] := fun hin => hm (List.mem_singleton.mp hin ▸ hmem)
      rw [h'.others t (hwaits hhead) (by rw [hfirst]; exact hother hne)]
      exact h.woken m' hmem t hhead
    · obtain rfl := List.mem_singleton.mp hmem
      rw [h'.woken m' hmem t (hsame ▸ hhead), h.others t (h.current ▸ hwaits hhead) (hother hm)]
  · intro t ht hnot
    rw [firstWaiters_append, List.mem_append, not_or] at hnot
    rw [h'.others t (h.current ▸ ht) (by rw [hfirst]; exact hnot.2), h.others t ht hnot.1]
  · rw [firstWaiters_append, ← List.append_assoc, ← hfirst]
    exact h'.ready.trans (h.ready.append_right _)
  · intro q hready hmutex
    rw [h'.queues q hready hmutex, h.queues q hready hmutex]
  · rw [h'.frame, h.frame]

end HandsOver

/-! Unlocking one mutex. -/

/-- Waking a thread that no timeout is pending for leaves the timers alone. -/
theorem Wakes.timers_of_untimed {runs : ThreadId → Prop} {r : WakeupResult}
    (h : Wakes t r k k') (hk : k.Arranged runs) (untimed : (k.thread t).state.isTimed = false) :
    k'.timers = k.timers := by
  have hcancel := h.timers
  rw [TimerQueue.cancel, if_neg] at hcancel
  · exact (Except.ok.inj hcancel).symm
  · rw [TimerQueue.isArmed, hk.unarmed untimed]
    exact Bool.false_ne_true

/-- Without a mutex a thread that lists it once has the others, in their order. -/
theorem erase_held (nodup : k.running.held.Nodup) (m : MutexId) :
    k.running.held.erase m = k.running.held.filter (· ∉ [m]) := by
  rw [nodup.erase_eq_filter]
  refine List.filter_congr fun m' _ => ?_
  by_cases hm : m' = m <;> simp [hm]

/-- What the running thread is left with when a mutex is struck off. -/
theorem priority_strike (hk : k.InPlace) (nodup : k.running.held.Nodup) (m : MutexId) :
    (k.strike m).running.priority = k.leftWith (k.running.held.filter (· ∉ [m])) := by
  generalize hk₁ : (k.modifyThread k.current fun th => { th with held := th.held.erase m }) = k₁
  have hlinked : k₁.Linked := by
    rw [← hk₁]
    exact hk.toLinked.setThread rfl
  have hself : k₁.thread k.current = { k.running with held := k.running.held.erase m } := by
    rw [← hk₁, thread_modifyThread, if_pos rfl]
    rfl
  have hprio : k₁.priorityOf = k.priorityOf := by
    rw [← hk₁]
    exact priorityOf_setThread rfl
  have hmembers : k₁.members = k.members := by
    rw [← hk₁]
    rfl
  change ((k.strike m).thread k.current).priority = _
  rw [thread_strike, if_pos rfl, hk₁, ← erase_held nodup]
  change k₁.residualPriority k.current = _
  rw [residualPriority_eq hlinked, hself, hprio, firstWaiters, hmembers]
  rfl

theorem held_strike (nodup : k.running.held.Nodup) (m : MutexId) :
    (k.strike m).running.held = k.running.held.filter (· ∉ [m]) := by
  rw [← erase_held nodup]
  change ((k.strike m).thread k.current).held = _
  rw [thread_strike, if_pos rfl]

theorem running_strike (k : Kernel) (m : MutexId) : (k.strike m).running =
    { k.running with
      held := (k.strike m).running.held
      priority := (k.strike m).running.priority } := by
  change (k.strike m).thread k.current = { k.running with
    held := ((k.strike m).thread k.current).held
    priority := ((k.strike m).thread k.current).priority }
  rw [thread_strike, if_pos rfl]

/-- Nobody waits for the mutex: it is free. -/
theorem released_strike (hk : k.InPlace) (nodup : k.running.held.Nodup)
    (hnil : k.members (.mutex m) = []) : Released [m] k (k.strike m) := by
  have hnone : k.firstWaiters [m] = [] := by simp [firstWaiters, hnil]
  refine ⟨⟨held_strike nodup m, running_strike k m, ?_, ?_, ?_, ?_, ?_, fun _ _ _ => rfl, rfl, rfl⟩,
    priority_strike hk nodup m⟩
  · intro m'
    rw [owner?_strike]
    by_cases hm' : m' = m
    · simp [hm', hnil]
    · simp [hm']
  · intro m'
    change k.members (.mutex m') = _
    by_cases hm' : m' = m
    · simp [hm', hnil]
    · simp [hm']
  · intro m' hm' t ht
    rw [List.mem_singleton.mp hm', hnil] at ht
    cases ht
  · intro t ht _
    rw [thread_strike, if_neg ht]
  · rw [hnone, List.append_nil]
    exact List.Perm.refl _

/-- The mutex goes to its first waiter. -/
theorem released_of_wakes (hk : k.InPlace) (nodup : k.running.held.Nodup)
    (hhead : (k.members (.mutex m)).head? = some t)
    (hw : Wakes t .ok ((k.strike m).acquire m t) k') : Released [m] k k' := by
  have hne : t ≠ k.current := hk.not_runs_of_mem (List.mem_of_head? hhead)
  have hk₂ : ((k.strike m).acquire m t).InPlace := (hk.strike m).acquire m t
  have hfirst : k.firstWaiters [m] = [t] := by simp [firstWaiters, hhead]
  have hcurrent : k'.current = k.current := hw.moves.current
  have hthread : ∀ u, u ≠ t → k'.thread u = (k.strike m).thread u := by
    intro u hu
    rw [hw.moves.thread_of_ne hu, thread_acquire, if_neg hu]
  have hself : ((k.strike m).acquire m t).thread t =
      { k.thread t with held := (k.thread t).held ++ [m] } := by
    rw [thread_acquire, if_pos rfl, thread_strike, if_neg hne]
  have hqueue : (((k.strike m).acquire m t).thread t).queue = some (.mutex m) := by
    rw [hself]
    exact hk.queue_of_head hhead
  have hrunning : k'.running = (k.strike m).running := by
    rw [running, hcurrent, hthread _ hne.symm]
    rfl
  have htimers : k'.timers = k.timers := by
    refine (hw.timers_of_untimed hk₂ ?_).trans rfl
    rw [(hk₂.waitingMutex_iff).mpr ⟨m, hqueue⟩]
    rfl
  have hready : ∀ m', QueueId.mutex m' ≠ .ready := by
    intro m' heq
    cases heq
  obtain ⟨l, hl⟩ := List.head?_eq_some_iff.mp hhead
  refine ⟨⟨?_, ?_, ?_, ?_, ?_, ?_, ?_, ?_, ?_, ?_⟩, ?_⟩
  · rw [hrunning, held_strike nodup]
  · rw [hrunning]
    exact running_strike k m
  · intro m'
    rw [owner?_eq hw.moves.mutexes, owner?_acquire, owner?_strike]
    by_cases hm' : m' = m
    · simp [hm', hhead]
    · simp [hm']
  · intro m'
    by_cases hm' : m' = m
    · rw [hm', if_pos (List.mem_singleton_self m), hl]
      exact hw.members_tail (hready m) hl
    · rw [if_neg (by simpa using hm')]
      refine hw.members_of_ne hk₂.toLinked (hready m') ?_
      rw [hqueue]
      simpa using Ne.symm hm'
  · intro m' hm' u hu
    obtain rfl := List.mem_singleton.mp hm'
    obtain rfl := Option.some.inj (hhead.symm.trans hu)
    rw [hw.moves.thread_self, hself]
  · intro u hu hnot
    rw [hfirst, List.mem_singleton] at hnot
    rw [hthread u hnot, thread_strike, if_neg hu]
  · have hfree : t ∉ k.members .ready := hk₂.not_ready_of_blocked hw.blocked
    rw [hw.moves.members, hfirst]
    change (lineUp false k'.priorityOf t ((k.members .ready).erase t)).Perm _
    rw [List.erase_of_not_mem hfree]
    exact (List.perm_orderedInsert _ _ _).trans (List.perm_append_singleton t _).symm
  · intro q hready hmutex
    refine hw.members_of_ne hk₂.toLinked hready ?_
    rw [hqueue]
    exact fun he => hmutex m (Option.some.inj he).symm
  · rw [hw.moves.mutexes]
    rfl
  · rw [hw.moves.frame, htimers]
    rfl
  · rw [hrunning, priority_strike hk nodup]

theorem release_released (hk : k.InPlace) (nodup : k.running.held.Nodup)
    (h : k.release m = .ok k') : Released [m] k k' := by
  obtain ⟨-, ⟨hnil, rfl⟩ | ⟨next, hhead, hwakes⟩⟩ := release_ok hk h
  · exact released_strike hk nodup hnil
  · exact released_of_wakes hk nodup hhead hwakes

/-! Unlocking several mutexes. -/

theorem releaseEach_snoc (k : Kernel) (l : List MutexId) (m : MutexId) :
    k.releaseEach (l ++ [m]) = k.releaseEach l >>= (·.release m) := by
  rw [releaseEach, List.foldlM_append]
  simp only [List.foldlM_cons, List.foldlM_nil, bind_pure]
  rfl

/-- The running thread can unlock mutexes that it holds, each once, in any order. -/
theorem releaseEach_handsOver (hk : k.Sound) (hq : k.timers.Sound) (nodup : l.Nodup)
    (held : ∀ m ∈ l, m ∈ k.running.held) :
    ∃ k', k.releaseEach l = .ok k' ∧ k'.Sound ∧ HandsOver l k k' ∧
      (l ≠ [] → Released l k k') := by
  induction l using List.reverseRecOn with
  | nil => exact ⟨k, rfl, hk, .nil k, fun h => absurd rfl h⟩
  | append_singleton l m ih =>
      obtain ⟨hl, -, hapart⟩ := List.nodup_append.mp nodup
      have hm : m ∉ l := fun hin => hapart m hin m (List.mem_singleton_self m) rfl
      obtain ⟨k₁, heach, hk₁, hover, -⟩ := ih hl fun m' hm' => held m' (List.mem_append_left _ hm')
      have hown : k₁.owner? m = some k₁.current := by
        rw [hover.owner, if_neg hm, hover.current, hk.owned.owner_iff]
        exact held m (by simp)
      have hq₁ : k₁.timers.Sound := by
        rw [hover.frame]
        exact hq
      obtain ⟨k', hrelease⟩ := FailsOnly.total (P := fun _ => False)
        (release_fails hk₁ hq₁ fun hnot => hnot hown) fun _ => id
      have heffect : Effect (fun _ => True) k₁ k' := release_effect hk₁.inPlace trivial hrelease
      have hreleased := release_released hk₁.inPlace (hk₁.owned.nodup _) hrelease
      have hover' := hover.snoc hreleased.toHandsOver hk.inPlace hm
      refine ⟨k', ?_, heffect.sound hk₁, hover', fun _ => ⟨hover', ?_⟩⟩
      · rw [releaseEach_snoc, heach]
        exact hrelease
      -- The last release computes what the caller is left with.
      · rw [hreleased.priority, ← hreleased.held, hover'.held]
        refine hover.leftWith hk.inPlace fun m' hm' hin => ?_
        have hnot := of_decide_eq_true (List.mem_filter.mp hm').2
        exact hnot (List.mem_append_left _ hin)

/-- Only which mutexes are handed over counts. -/
theorem Released.of_perm (h : Released l k k') (perm : l.Perm l') : Released l' k k' := by
  have hmem : ∀ m, m ∈ l ↔ m ∈ l' := fun m => perm.mem_iff
  have hfirst : (k.firstWaiters l).Perm (k.firstWaiters l') := perm.filterMap _
  refine ⟨⟨?_, h.caller, ?_, ?_, ?_, ?_, h.ready.trans (hfirst.append_left _), h.queues, h.used,
    h.frame⟩, ?_⟩
  · simp only [h.held, hmem]
  · simp only [h.owner, hmem, implies_true]
  · simp only [h.waiters, hmem, implies_true]
  · exact fun m hm => h.woken m ((hmem m).mpr hm)
  · exact fun t ht hnot => h.others t ht fun hin => hnot (hfirst.mem_iff.mp hin)
  · simp only [h.priority, hmem]

/-- It is settled which kernel is left, but for the turns of the new owners. -/
theorem Released.same (h₁ : Released l k k₁) (h₂ : Released l k k₂) : SameButTurns k₁ k₂ := by
  have hrunning : k₂.running = k₁.running := by
    rw [h₁.caller, h₂.caller, h₁.held, h₂.held, h₁.priority, h₂.priority]
  refine ⟨?_, ?_, ?_, h₂.ready.trans h₁.ready.symm, h₂.used.trans h₁.used.symm, ?_⟩
  · funext t
    by_cases ht : t = k.current
    · have hcaller : k₂.thread k₂.current = k₁.thread k₁.current := hrunning
      rw [ht]
      rw [h₁.current, h₂.current] at hcaller
      exact hcaller
    · by_cases hin : t ∈ k.firstWaiters l
      · obtain ⟨m, hm, hhead⟩ := mem_firstWaiters.mp hin
        rw [h₁.woken m hm t hhead, h₂.woken m hm t hhead]
      · rw [h₁.others t ht hin, h₂.others t ht hin]
  · funext m
    rw [h₁.owner, h₂.owner]
  · intro q hq
    by_cases hmutex : ∃ m, q = .mutex m
    · obtain ⟨m, rfl⟩ := hmutex
      rw [h₁.waiters, h₂.waiters]
    · rw [h₁.queues q hq fun m he => hmutex ⟨m, he⟩, h₂.queues q hq fun m he => hmutex ⟨m, he⟩]
  · rw [h₁.frame, h₂.frame]

/-- Unlocking all mutexes takes them in the reverse order of locking. -/
theorem releaseUpTo_eq_releaseEach (hk : k.Sound) {bound : Nat}
    (hbound : k.running.held.length = bound) :
    releaseUpTo bound k = k.releaseEach k.running.held.reverse := by
  induction bound generalizing k with
  | zero =>
      rw [List.length_eq_zero_iff.mp hbound]
      rfl
  | succ bound ih =>
      have hne : k.running.held ≠ [] := List.ne_nil_of_length_eq_add_one hbound
      have hlast := List.getLast?_eq_some_getLast hne
      have hheld := (List.dropLast_append_getLast hne).symm
      generalize k.running.held.getLast hne = m at hlast hheld
      have hreverse : k.running.held.reverse = m :: k.running.held.dropLast.reverse := by
        rw [hheld, List.reverse_append, List.dropLast_concat]
        rfl
      have hstep : releaseUpTo (bound + 1) k = k.release m >>= releaseUpTo bound := by
        simp only [releaseUpTo, hlast]
      rw [hreverse, releaseEach, List.foldlM_cons, hstep]
      cases hrelease : k.release m with
      | error halt => rfl
      | ok k₁ =>
          have heffect : Effect (fun _ => True) k k₁ := release_effect hk.inPlace trivial hrelease
          have hrest : k₁.running.held = k.running.held.dropLast := by
            have hnodup : k.running.held.Nodup := hk.owned.nodup k.current
            rw [hheld, List.nodup_append] at hnodup
            have hm : m ∉ k.running.held.dropLast := fun hin =>
              hnodup.2.2 m hin m (List.mem_singleton_self m) rfl
            rw [(release_held hk.inPlace hrelease).2]
            nth_rewrite 1 [hheld]
            rw [List.erase_append_right _ hm, List.erase_cons_head, List.append_nil]
          rw [← hrest]
          refine ih (heffect.sound hk) ?_
          rw [hrest, List.length_dropLast, hbound, Nat.add_sub_cancel]

theorem SameButTurns.refl (k : Kernel) : SameButTurns k k :=
  ⟨rfl, rfl, fun _ _ => rfl, List.Perm.refl _, rfl, rfl⟩

/-- Any order of unlocking the same mutexes will do. -/
theorem releaseEach_perm (hk : k.Sound) (hq : k.timers.Sound) (nodup : l.Nodup)
    (held : ∀ m ∈ l, m ∈ k.running.held) (h : k.releaseEach l = .ok k₁) (perm : l.Perm l') :
    ∃ k₂, k.releaseEach l' = .ok k₂ ∧ SameButTurns k₁ k₂ := by
  by_cases hnil : l = []
  · subst hnil
    obtain rfl := perm.nil_eq
    exact ⟨k₁, h, .refl k₁⟩
  · have hnil' : l' ≠ [] := fun hl' => hnil (hl' ▸ perm).eq_nil
    obtain ⟨k₁', heach, -, -, hreleased⟩ := releaseEach_handsOver hk hq nodup held
    obtain ⟨k₂, heach', -, -, hreleased'⟩ := releaseEach_handsOver hk hq (perm.nodup_iff.mp nodup)
      fun m hm => held m (perm.mem_iff.mpr hm)
    obtain rfl := Except.ok.inj (heach.symm.trans h)
    exact ⟨k₂, heach', (hreleased hnil).same ((hreleased' hnil').of_perm perm.symm)⟩

end RealtimeKernel.Kernel

import RealtimeKernel.Proofs.Kernel.Arrivals

/-!
Who goes on after a wait. The first waiter of a mutex takes it over when it is unlocked. Whoever
becomes ready goes behind its equals that are ready; if many do, they line up as they waited.
-/
namespace RealtimeKernel

namespace Kernel

variable {k k' k₁ : Kernel} {touched : Object → Prop} {t u next : ThreadId} {q : QueueId}
  {ahead : Bool} {l : List ThreadId} {w : WakeupResult} {state : ThreadState} {m : MutexId}
  {runs : ThreadId → Prop}

/-! Who takes over a mutex. -/

/-- The first waiter of a mutex takes it over from its owner, if there is a waiter. -/
structure TakesOver (m : MutexId) (t : ThreadId) (k k' : Kernel) : Prop where
  first : (k.members (.mutex m)).head? = some t
  owner : k'.owner? m = some t
  runnable : (k'.thread t).state.isRunnable = true
  wakeup : (k'.thread t).wakeup = .ok

theorem Effect.takesOver (h : Effect touched k k') (hk : k.Sound)
    (waited : k.members (.mutex m) ≠ []) :
    (k'.owner? m = k.owner? m ∧ k'.members (.mutex m) = k.members (.mutex m)) ∨
      ∃ t, TakesOver m t k k' := by
  have hin := hk.inPlace
  obtain ⟨u, l, hl⟩ := List.exists_cons_of_ne_nil waited
  have hu : (k.thread u).queue = some (.mutex m) := by
    rw [← hin.mem_iff, hl]
    exact List.mem_cons_self
  obtain ⟨o, howner, -⟩ := hk.owned.waiter m u id hu
  have hwakes : ∀ {t w k'}, Wakes t w k k' → (k.thread t).queue ≠ some (.mutex m) →
      k'.owner? m = k.owner? m ∧ k'.members (.mutex m) = k.members (.mutex m) := fun hw hq =>
    ⟨owner?_eq hw.moves.mutexes m, hw.members_of_ne hin.toLinked nofun hq⟩
  have hcount : ∀ {s count}, (k.setSemaphoreCount s count).Linked := fun {s count} =>
    (InPlace.setSemaphoreCount hin s count).toLinked
  -- A thread that wakes up waited elsewhere, unless the mutex itself is handed over.
  cases h with
  | resume _ hs hw =>
      refine Or.inl (hwakes hw ?_)
      rw [hin.queue_eq_none_of_state (by tauto)]
      exact nofun
  | timeOut _ htimed _ hw =>
      refine Or.inl (hwakes hw fun hq => ?_)
      rw [hin.waitingMutex_iff.mpr ⟨m, hq⟩] at htimed
      cases htimed
  | @expire _ t s _ hq hw =>
      refine Or.inl ⟨owner?_eq hw.moves.mutexes m, hw.members_of_ne hcount nofun ?_⟩
      exact fun hq' => nomatch hq.symm.trans hq'
  | @grant _ t s _ hfirst hw =>
      refine Or.inl ⟨owner?_eq hw.moves.mutexes m, hw.members_of_ne hcount nofun ?_⟩
      exact fun hq' => nomatch (hin.queue_of_head hfirst).symm.trans hq'
  | @dismiss _ s count _ _ hr =>
      refine Or.inl ⟨owner?_eq hr.mutexes m, ?_⟩
      exact (hr.members (q := .semaphore s) hcount nofun rfl).2 _ nofun nofun
  | notify _ hfirst hw =>
      exact Or.inl (hwakes hw fun hq => nomatch (hin.queue_of_head hfirst).symm.trans hq)
  | @take m' _ _ hfree =>
      refine Or.inl ⟨?_, rfl⟩
      rw [owner?_acquire, if_neg]
      rintro rfl
      rw [howner] at hfree
      cases hfree
  | @free m' _ _ hnil =>
      refine Or.inl ⟨?_, rfl⟩
      rw [owner?_strike, if_neg]
      rintro rfl
      exact waited hnil
  | @handOver _ m' next _ _ hfirst hw =>
      have hk₁ := (hin.strike m').acquire m' next
      have howner' : k'.owner? m = if m = m' then some next else k.owner? m := by
        rw [owner?_eq hw.moves.mutexes, owner?_acquire, owner?_strike]
        split <;> rfl
      by_cases hm : m = m'
      · subst hm
        rw [if_pos rfl] at howner'
        refine Or.inr ⟨next, hfirst, howner', ?_, ?_⟩
        · rw [hw.moves.thread_self]
          rfl
        · rw [hw.moves.thread_self]
      · rw [if_neg hm] at howner'
        refine Or.inl ⟨howner', hw.members_of_ne hk₁.toLinked nofun ?_⟩
        rw [(acquire_sameStand _ _ _ _).queue, (strike_sameStand _ _ _).queue,
          hin.queue_of_head hfirst]
        exact fun hq => hm (QueueId.mutex.inj (Option.some.inj hq)).symm
  | create name p e _ hs =>
      exact Or.inl ⟨rfl, replaceThread_members hin.toLinked
        (hin.queue_eq_none_of_gone (by rw [hs]; rfl)) rfl _⟩
  | blank hs =>
      exact Or.inl ⟨rfl, replaceThread_members hin.toLinked
        (hin.queue_eq_none_of_gone (by rw [hs]; rfl)) rfl _⟩
  | vacate _ hs =>
      exact Or.inl ⟨rfl, replaceThread_members hin.toLinked
        (hin.queue_eq_none_of_gone (by rw [hs]; rfl)) rfl _⟩
  | newMutex hpush => exact Or.inl ⟨hk.owned.owner?_push hpush m, rfl⟩
  | _ => exact Or.inl ⟨rfl, rfl⟩

/-- Who took over a mutex keeps it, as long as it does not run. -/
theorem TakesOver.later (h : TakesOver m t k k₁) (hk' : k'.InPlace)
    (contends : k'.Contends t m ↔ k₁.Contends t m) (keeps : KeepsRunnable k₁ k' t) :
    TakesOver m t k k' := by
  obtain ⟨hrun, hwakeup⟩ := keeps h.runnable
  refine ⟨h.first, ?_, hrun, hwakeup.trans h.wakeup⟩
  rcases contends.mpr (Or.inr h.owner) with hq | howner
  · exact absurd hrun (not_isRunnable_of_isBlocked (hk'.isBlocked_of_queue hq nofun))
  · exact howner

/-- When a mutex that is waited for changes hands, its first waiter takes it over. -/
theorem Does.takesOver (h : Does touched k k') (hk : k.Sound)
    (waited : k.members (.mutex m) ≠ []) :
    k'.owner? m = k.owner? m ∨ ∃ t, TakesOver m t k k' := by
  have hsound := h.sound hk
  obtain ⟨k₁, heffects, hswitch⟩ := h
  have hne : ∀ {t k₁}, TakesOver m t k k₁ → k₁.current = k.current → t ≠ k₁.current := by
    intro t k₁ htakes hcurrent
    rw [hcurrent]
    exact hk.inPlace.not_runs_of_mem (List.mem_of_head? htakes.first)
  -- Up to the hand-over owner and waiters are the first ones. From then on the new owner, which
  -- does not run, keeps the mutex.
  have hstep : ∀ k₁ k₂, k₁.Sound → Effect touched k₁ k₂ → k₁.current = k.current ∧
      ((k₁.owner? m = k.owner? m ∧ k₁.members (.mutex m) = k.members (.mutex m)) ∨
        ∃ t, TakesOver m t k k₁) → k₂.current = k.current ∧
      ((k₂.owner? m = k.owner? m ∧ k₂.members (.mutex m) = k.members (.mutex m)) ∨
        ∃ t, TakesOver m t k k₂) := by
    rintro k₁ k₂ hk₁ he ⟨hcurrent, ⟨howner, hmembers⟩ | ⟨t, htakes⟩⟩
    · refine ⟨he.current.trans hcurrent, ?_⟩
      rcases he.takesOver hk₁ (hmembers ▸ waited) with ⟨howner', hmembers'⟩ | ⟨t, htakes⟩
      · exact Or.inl ⟨howner'.trans howner, hmembers'.trans hmembers⟩
      · exact Or.inr ⟨t, hmembers ▸ htakes.first, htakes.owner, htakes.runnable, htakes.wakeup⟩
    · have ht := hne htakes hcurrent
      refine ⟨he.current.trans hcurrent, Or.inr ⟨t, ?_⟩⟩
      exact htakes.later (he.inPlace hk₁.inPlace) (he.contends_iff hk₁ ht)
        (he.keepsRunnable hk₁.inPlace t)
  obtain ⟨hk₁, hcurrent, hcases⟩ :=
    effects_induction heffects hk hstep ⟨rfl, Or.inl ⟨rfl, rfl⟩⟩
  rcases hswitch with rfl | hswitch
  · exact hcases.imp_left And.left
  · refine hcases.imp (fun hsame => ?_) fun ⟨t, htakes⟩ => ⟨t, ?_⟩
    · exact (owner?_eq hswitch.mutexes m).trans hsame.1
    · have ht := hne htakes hcurrent
      exact htakes.later hsound.inPlace (hswitch.contends_iff hk₁.inPlace ht)
        (hswitch.keepsRunnable hk₁.inPlace ht)

/-! Who unlocks a mutex gives it away. -/

theorem release_held (hk : k.InPlace) (h : k.release m = .ok k') :
    k'.current = k.current ∧ k'.running.held = k.running.held.erase m := by
  have hstrike : ((k.strike m).thread k.current).held = k.running.held.erase m := by
    rw [thread_strike, if_pos rfl]
  obtain ⟨-, ⟨-, rfl⟩ | ⟨next, hfirst, hwakes⟩⟩ := release_ok hk h
  · exact ⟨rfl, hstrike⟩
  · have hne : k.current ≠ next := Ne.symm (hk.not_runs_of_mem (List.mem_of_head? hfirst))
    have hcurrent : k'.current = k.current := hwakes.moves.current
    refine ⟨hcurrent, ?_⟩
    rw [running, hcurrent, hwakes.moves.thread_of_ne hne, thread_acquire, if_neg hne]
    exact hstrike

theorem releaseUpTo_held {bound : Nat} (hk : k.InPlace) (hbound : k.running.held.length ≤ bound)
    (h : releaseUpTo bound k = .ok k') : k'.current = k.current ∧ k'.running.held = [] := by
  -- Each step strikes one of the mutexes off.
  induction bound generalizing k with
  | zero =>
      obtain rfl := Except.ok.inj h
      exact ⟨rfl, List.eq_nil_of_length_eq_zero (Nat.le_zero.mp hbound)⟩
  | succ bound ih =>
      unfold releaseUpTo at h
      split at h
      · rename_i hnone
        obtain rfl := Except.ok.inj h
        exact ⟨rfl, List.getLast?_eq_none_iff.mp hnone⟩
      · rename_i m hlast
        obtain ⟨k₁, hrelease, h⟩ := bind_eq_ok.mp h
        have heffect : Effect (fun _ => True) k k₁ := release_effect hk trivial hrelease
        obtain ⟨hcurrent, hheld⟩ := release_held hk hrelease
        have hlength := List.length_erase_of_mem (List.mem_of_getLast? hlast)
        obtain ⟨hcurrent', hnil⟩ := ih (heffect.inPlace hk) (by rw [hheld]; omega) h
        exact ⟨hcurrent'.trans hcurrent, hnil⟩

theorem releaseAll_owner (hk : k.Sound) (h : k.releaseAll = .ok k') :
    k'.owner? m ≠ some k.current := by
  have heffects : Relation.ReflTransGen (Effect fun _ => True) k k' :=
    releaseUpTo_effects hk.inPlace (fun _ => trivial) h
  obtain ⟨hcurrent, hnil⟩ := releaseUpTo_held hk.inPlace (Nat.le_refl _) h
  intro howner
  rw [← hcurrent] at howner
  have hheld := ((effects_depart heffects hk).1.owned.owner_iff m k'.current).mp howner
  rw [show (k'.thread k'.current).held = [] from hnil] at hheld
  cases hheld

theorem unlocking_effects (hk : k.InPlace)
    (h : k.release m = .ok k' ∨ k.releaseAll = .ok k') :
    Relation.ReflTransGen (Effect fun _ => True) k k' := by
  rcases h with hrelease | hrelease
  · exact .single (release_effect hk trivial hrelease)
  · exact releaseUpTo_effects hk (fun _ => trivial) hrelease

theorem preempt_owner (hk : k.InPlace) (h : k.preempt = .ok k') : k'.owner? m = k.owner? m := by
  have hends : Switch (fun _ => False) k k' ∨ k' = k := preempt_switch hk h
  rcases hends with hswitch | rfl
  · exact owner?_eq hswitch.mutexes m
  · rfl

/-! The line of the ready threads. -/

/-- The ready threads of a priority, in order. -/
def readyAt (k : Kernel) (p : Priority) : List ThreadId :=
  (k.members .ready).filter (k.priorityOf · = p)

theorem Wakes.priorityOf (h : Wakes t w k k') : k'.priorityOf = k.priorityOf :=
  h.moves.priorityOf rfl

theorem Arranged.not_ready_of_blocked (hk : k.Arranged runs)
    (hblocked : (k.thread t).state.isBlocked = true) : t ∉ k.members .ready := by
  intro hmem
  rw [hk.state_of_ready ((hk.mem_iff t .ready).mp hmem)] at hblocked
  cases hblocked

theorem Wakes.readyAt (h : Wakes t w k k') (hk : k.Arranged runs) (p : Priority) :
    k'.readyAt p = k.readyAt p ++ if k.priorityOf t = p then [t] else [] := by
  rw [Kernel.readyAt, h.moves.members_eq, if_pos rfl, h.priorityOf,
    List.erase_of_not_mem (hk.not_ready_of_blocked h.blocked)]
  exact filter_lineUp (hk.sorted .ready) p

/-- Threads that become ready line up behind their equals, in their order. -/
theorem Rouses.readyAt (h : Rouses w l k k') (hk : k.Arranged runs) (p : Priority) :
    k'.readyAt p = k.readyAt p ++ l.filter (k.priorityOf · = p) := by
  induction h with
  | nil k => exact (List.append_nil _).symm
  | @cons t l k k₁ k' hw _ ih =>
      rw [ih (hw.arranged hk), hw.readyAt hk, hw.priorityOf, List.append_assoc, List.filter_cons]
      by_cases hp : k.priorityOf t = p <;> simp [hp]

theorem Undisturbed.readyAt (h : Undisturbed k k') (p : Priority) :
    k'.readyAt p = k.readyAt p := by
  rw [Kernel.readyAt, h.members]
  refine List.filter_congr fun u hu => ?_
  rw [h.priorityOf .ready u hu]

theorem Effect.readyAt (h : Effect touched k k') (hk : k.InPlace) (p : Priority) :
    k.readyAt p <+: k'.readyAt p := by
  obtain ⟨k₁, w, l, hk₁, hsame, hroused⟩ := h.rouses hk
  rw [hroused.readyAt hk₁, hsame.readyAt]
  exact List.prefix_append _ _

theorem effects_readyAt (h : Relation.ReflTransGen (Effect touched) k k') (hk : k.Sound)
    (p : Priority) : k.readyAt p <+: k'.readyAt p := by
  refine (effects_induction (P := fun k' => k.readyAt p <+: k'.readyAt p) h hk ?_ ?_).2
  · exact fun k₁ k₂ hk₁ he hprefix => hprefix.trans (he.readyAt hk₁.inPlace p)
  · exact List.prefix_refl _

/-- Whoever becomes ready comes behind its equals that are ready; the thread that ran may be an
exception, and another one may run now. -/
def FallsIn (k k' : Kernel) : Prop :=
  ∀ p, ∃ l, ((k.readyAt p ++ l).erase k'.current).Sublist (k'.members .ready) ∧
    ∀ t ∈ k'.readyAt p, t ≠ k.current → t ∈ k.readyAt p ++ l

theorem mem_readyAt {p : Priority} :
    t ∈ k.readyAt p ↔ t ∈ k.members .ready ∧ k.priorityOf t = p := by
  simp [readyAt, List.mem_filter]

theorem readyAt_sublist (k : Kernel) (p : Priority) : (k.readyAt p).Sublist (k.members .ready) :=
  List.filter_sublist

theorem FallsIn.after (h : FallsIn k₁ k') (hcurrent : k₁.current = k.current)
    (hready : ∀ p, k.readyAt p <+: k₁.readyAt p) : FallsIn k k' := by
  intro p
  obtain ⟨l, hl⟩ := hready p
  obtain ⟨l', hline, hmem⟩ := h p
  refine ⟨l ++ l', ?_, fun t ht hne => ?_⟩
  · rw [← List.append_assoc, hl]
    exact hline
  · rw [← List.append_assoc, hl]
    exact hmem t ht (by rwa [hcurrent])

theorem Dispatches.ready_eq (h : Dispatches next k k') :
    k'.members .ready = (k.members .ready).erase next := h.members_eq .ready

theorem Dispatches.fallsIn (h : Dispatches next k k') : FallsIn k k' := by
  refine fun p => ⟨[], ?_, fun t ht _ => ?_⟩
  · rw [h.current, h.ready_eq, List.append_nil]
    exact (k.readyAt_sublist p).erase next
  · rw [mem_readyAt, h.ready_eq, h.priorityOf] at ht
    rw [List.append_nil, mem_readyAt]
    exact ⟨List.mem_of_mem_erase ht.1, ht.2⟩

/-- The running thread takes its place among the others, of which the first one is gone. -/
theorem GivesWay.ready_eq (h : GivesWay ahead k k') (hk : k.InPlace) :
    k'.members .ready =
      lineUp ahead k'.priorityOf k.current ((k.members .ready).erase k'.current) := by
  obtain ⟨k₁, next, hdispatches, -, hmoves⟩ := h
  have hcurrent : k'.current = next := hmoves.current.trans hdispatches.current
  have hfree : k.current ∉ (k.members .ready).erase next :=
    fun hmem => hk.not_runs_of_mem (List.mem_of_mem_erase hmem) rfl
  rw [hcurrent, hmoves.members_eq, if_pos rfl, hdispatches.ready_eq, List.erase_of_not_mem hfree]

theorem GivesWay.fallsIn (h : GivesWay ahead k k') (hk : k.InPlace) : FallsIn k k' := by
  have hprio := h.priorityOf
  have hready := h.ready_eq hk
  refine fun p => ⟨[], ?_, fun t ht hne => ?_⟩
  · rw [hready, List.append_nil]
    exact ((k.readyAt_sublist p).erase k'.current).trans (List.sublist_orderedInsert _ _)
  · rw [mem_readyAt, hready, hprio, mem_lineUp] at ht
    rw [List.append_nil, mem_readyAt]
    exact ⟨List.mem_of_mem_erase (ht.1.resolve_left hne), ht.2⟩

theorem Parks.readyAt {o : Option QueueId} (h : Parks state o k k') (hk : k.InPlace)
    (p : Priority) : k'.readyAt p = k.readyAt p := by
  rw [Kernel.readyAt, h.members_of_ne hk h.not_ready, h.moves.priorityOf rfl]
  rfl

theorem Blocks.fallsIn {o : Option QueueId} (h : Blocks state o k k') (hk : k.InPlace) :
    FallsIn k k' := by
  obtain ⟨-, k₁, next, hparks, hdispatches⟩ := h
  refine hdispatches.fallsIn.after hparks.moves.current fun p => ?_
  rw [hparks.readyAt hk]

theorem Switch.fallsIn (h : Switch touched k k') (hk : k.InPlace)
    (ht : ∀ m, ¬ touched (.mutex m)) : FallsIn k k' := by
  cases h with
  | giveWay h => exact h.fallsIn hk
  | park _ h => exact h.fallsIn hk
  | awaitUnit _ _ _ _ h => exact h.fallsIn (InPlace.setSemaphoreCount hk _ _)
  | awaitMutex htouch _ _ _ _ => exact absurd htouch (ht _)
  | awaitCondition _ h => exact h.fallsIn hk
  | awaitExit _ _ _ _ _ h => exact h.fallsIn hk
  | @exit k₁ _ msg next _ _ hr hd =>
      have hcurrent : k₁.current = k.current := hr.current
      refine hd.fallsIn.after hcurrent fun p => ?_
      rw [hr.readyAt (hk.finishCurrent msg), (finishCurrent_undisturbed hk msg).readyAt]
      exact List.prefix_append _ _

theorem FallsIn.refl (hk : k.InPlace) : FallsIn k k := by
  refine fun p => ⟨[], ?_, fun t ht _ => ?_⟩
  · have hfree : k.current ∉ k.readyAt p := fun hmem =>
      hk.not_runs_of_mem (mem_readyAt.mp hmem).1 rfl
    rw [List.append_nil, List.erase_of_not_mem hfree]
    exact k.readyAt_sublist p
  · rwa [List.append_nil]

theorem Does.fallsIn (h : Does touched k k') (hk : k.Sound) (ht : ∀ m, ¬ touched (.mutex m)) :
    FallsIn k k' := by
  obtain ⟨k₁, heffects, hswitch⟩ := h
  obtain ⟨hk₁, hcurrent, -⟩ := effects_depart heffects hk
  have hlast : FallsIn k₁ k' := by
    rcases hswitch with rfl | hswitch
    · exact .refl hk₁.inPlace
    · exact hswitch.fallsIn hk₁.inPlace ht
  exact hlast.after hcurrent (effects_readyAt heffects hk)

/-- Who became ready stands behind its equals that were ready before. -/
theorem FallsIn.behind (h : FallsIn k k') (hk' : k'.InPlace) (before : t ∉ k.members .ready)
    (ready : t ∈ k'.members .ready) (ht : t ≠ k.current) (hu : u ∈ k.members .ready)
    (same : k.priorityOf u = k'.priorityOf t) (stays : u ∈ k'.members .ready) :
    [u, t].Sublist (k'.members .ready) := by
  obtain ⟨l, hline, hmem⟩ := h (k'.priorityOf t)
  have htl := hmem t (mem_readyAt.mpr ⟨ready, rfl⟩) ht
  have htl : t ∈ l := (List.mem_append.mp htl).resolve_left fun hmem =>
    before (mem_readyAt.mp hmem).1
  have hpair : [u, t].Sublist (k.readyAt (k'.priorityOf t) ++ l) :=
    (List.singleton_sublist.mpr (mem_readyAt.mpr ⟨hu, same⟩)).append
      (List.singleton_sublist.mpr htl)
  -- Neither of the two runs, so they are still there once whoever runs is struck out.
  have herase := hpair.erase k'.current
  rw [List.erase_of_not_mem] at herase
  · exact herase.trans hline
  · intro hcur
    rcases List.mem_pair.mp hcur with heq | heq
    · exact hk'.not_runs_of_mem stays heq.symm
    · exact hk'.not_runs_of_mem ready heq.symm

/-- Locking a mutex makes nobody ready, and if the caller waits one of the ready threads runs. -/
theorem lock_ready {frames : List Frame} (hk : k.InPlace) (h : k.lock m = .ok (k', frames)) :
    (∀ t ∈ k'.members .ready, t ∈ k.members .ready) ∧
      (k'.current = k.current ∨ k'.current ∈ k.members .ready) := by
  rcases lock_steps hk h with
    ⟨-, -, rfl⟩ | ⟨-, o, k₁, -, -, hlends, -, k₂, next, hparks, hdispatches⟩
  · exact ⟨fun _ ready => ready, Or.inl rfl⟩
  · have hk₁ := hlends.arranged hk
    rw [← hlends.current] at hk₁
    have hready : ∀ t ∈ k₂.members .ready, t ∈ k.members .ready := by
      intro t ht
      rw [hparks.members_of_ne hk₁ hparks.not_ready, hk₁.mem_iff,
        (hlends.sameStand t).queue] at ht
      exact (hk.mem_iff t .ready).mpr ht
    constructor
    · intro t ht
      rw [hdispatches.ready_eq] at ht
      exact hready t (List.mem_of_mem_erase ht)
    · rw [hdispatches.current]
      exact Or.inr (hready next hdispatches.mem)

/-! All waiters become ready. -/

/-- These threads are ready now behind their equals, in their order; but for one that may run. -/
def LinesUp (l : List ThreadId) (k k' : Kernel) : Prop :=
  ∀ p, ((k.readyAt p ++ l.filter (k.priorityOf · = p)).erase k'.current).Sublist
    (k'.members .ready)

theorem FallsIn.linesUp (h : FallsIn k₁ k')
    (hready : ∀ p, (k.readyAt p ++ l.filter (k.priorityOf · = p)).Sublist (k₁.readyAt p)) :
    LinesUp l k k' := by
  intro p
  obtain ⟨l', hline, -⟩ := h p
  exact (((hready p).trans (List.sublist_append_left _ l')).erase k'.current).trans hline

theorem Rouses.priorityOf (h : Rouses w l k k') : k'.priorityOf = k.priorityOf := by
  induction h with
  | nil k => rfl
  | cons hw _ ih => exact ih.trans hw.priorityOf

theorem resetSemaphore_readyAt {s : SemaphoreId} {n : Nat} (hk : k.InPlace)
    (h : k.resetSemaphore s n = .ok k') (p : Priority) :
    k'.readyAt p = k.readyAt p ++ (k.members (.semaphore s)).filter (k.priorityOf · = p) :=
  (resetSemaphore_ok hk h).readyAt (InPlace.setSemaphoreCount hk _ _) p

theorem resetMailbox_readyAt {b : MailboxId} (hk : k.Sound) (hin : k.mailboxes.contains b = true)
    (h : k.resetMailbox b = .ok k') (p : Priority) :
    k'.readyAt p = k.readyAt p ++
      ((k.members (.semaphore (k.mailbox b).empty)).filter (k.priorityOf · = p) ++
        (k.members (.semaphore (k.mailbox b).full)).filter (k.priorityOf · = p)) := by
  obtain ⟨box, k₁, -, hempty, hfull⟩ := resetMailbox_ok h
  have hne := (hk.boxed.created b hin).2.2
  have hk₀ : (k.setMailbox b box).InPlace := hk.inPlace.congr rfl rfl fun _ _ ha => Or.inl ha
  have hcount : ∀ n, ((k.setMailbox b box).setSemaphoreCount (k.mailbox b).empty n).InPlace :=
    fun n => InPlace.setSemaphoreCount hk₀ _ _
  have hrouses := resetSemaphore_ok hk₀ hempty
  have hk₁ := hrouses.inPlace (hcount _)
  have hothers := (hrouses.members (q := .semaphore (k.mailbox b).empty) (hcount _).toLinked nofun
    rfl).2 (.semaphore (k.mailbox b).full) nofun fun heq => hne (QueueId.semaphore.inj heq).symm
  rw [resetSemaphore_readyAt hk₁ hfull, resetSemaphore_readyAt hk₀ hempty, hothers,
    hrouses.priorityOf, List.append_assoc]
  rfl

/-- A callback's call comes to effects; after a thread's call another thread may run. -/
theorem linesUp_of_effects (hk : k.Sound)
    (heffects : Relation.ReflTransGen (Effect fun _ => True) k k₁)
    (hlast : k' = k₁ ∨ k₁.preempt = .ok k')
    (hready : ∀ p, (k.readyAt p ++ l.filter (k.priorityOf · = p)).Sublist (k₁.readyAt p)) :
    LinesUp l k k' := by
  have hk₁ := (effects_depart heffects hk).1
  rcases hlast with rfl | hpreempt
  · exact (FallsIn.refl hk₁.inPlace).linesUp hready
  · have hdoes : Does (fun _ => False) k₁ k' := preempt_does hk₁.inPlace hpreempt
    exact (hdoes.fallsIn hk₁ fun _ => id).linesUp hready

theorem resetSemaphore_linesUp {s : SemaphoreId} {n : Nat} (hk : k.Sound)
    (hreset : k.resetSemaphore s n = .ok k₁) (hlast : k' = k₁ ∨ k₁.preempt = .ok k') :
    LinesUp (k.members (.semaphore s)) k k' := by
  refine linesUp_of_effects hk (.single (resetSemaphore_effect hk.inPlace trivial hreset)) hlast ?_
  intro p
  rw [resetSemaphore_readyAt hk.inPlace hreset]

theorem broadcast_linesUp {c : CondVarId} (hk : k.Sound) (hcast : k.broadcast c = .ok k₁)
    (hlast : k' = k₁ ∨ k₁.preempt = .ok k') : LinesUp (k.members (.condVar c)) k k' := by
  refine linesUp_of_effects hk (broadcast_effects hk.inPlace trivial hcast) hlast ?_
  intro p
  rw [(wakeAll_ok (q := .condVar c) hk.inPlace nofun hcast).readyAt hk.inPlace]

/-! Operations that lend nothing. -/

/-- Effects, and then something that is not about mutexes. -/
def Unlent (k k' : Kernel) : Prop :=
  ∃ k₁ touched, Relation.ReflTransGen (Effect fun _ => True) k k₁ ∧ Does touched k₁ k' ∧
    ∀ m, ¬ touched (.mutex m)

theorem Unlent.of_does (h : Does touched k k') (hnot : ∀ m, ¬ touched (.mutex m)) :
    Unlent k k' := ⟨k, touched, .refl, h, hnot⟩

theorem Unlent.of_effects (h : Relation.ReflTransGen (Effect fun _ => True) k k') : Unlent k k' :=
  ⟨k', fun _ => False, h, .refl k', fun _ => id⟩

theorem Unlent.preempt (hk : k.Sound)
    (h : Relation.ReflTransGen (Effect fun _ => True) k k₁) (hp : k₁.preempt = .ok k') :
    Unlent k k' :=
  ⟨k₁, fun _ => False, h, preempt_does (effects_depart h hk).1.inPlace hp, fun _ => id⟩

theorem Unlent.arrives (h : Unlent k k') (hk : k.Sound) :
    Arrives (arrival k.current (k'.thread k.current).queue) k k' := by
  obtain ⟨k₁, touched, heffects, hdoes, hnot⟩ := h
  obtain ⟨hk₁, hcurrent, hdeparts⟩ := effects_depart heffects hk
  have harrives := hdoes.arrives hk₁ hnot
  rw [hcurrent] at harrives
  exact harrives.after hdeparts hcurrent

theorem Unlent.fallsIn (h : Unlent k k') (hk : k.Sound) : FallsIn k k' := by
  obtain ⟨k₁, touched, heffects, hdoes, hnot⟩ := h
  obtain ⟨hk₁, hcurrent, -⟩ := effects_depart heffects hk
  exact (hdoes.fallsIn hk₁ hnot).after hcurrent (effects_readyAt heffects hk)

theorem tryLock_unlent {locked : Bool} (hin : k.mutexes.contains m = true)
    (h : k.tryLock m = .ok (locked, k')) : Unlent k k' := by
  rcases tryLock_ok h with ⟨-, -, rfl⟩ | ⟨-, hfree, rfl⟩
  · exact .of_effects .refl
  · exact .of_effects (.single (.take trivial hin hfree))

end Kernel

end RealtimeKernel

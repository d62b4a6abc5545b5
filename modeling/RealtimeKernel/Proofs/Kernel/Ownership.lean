import RealtimeKernel.Proofs.Kernel.Units

/-!
Who owns which mutex. A mutex names its owner, the owner lists the mutex once, a thread that
waits for a mutex waits for another one, and who is gone owns nothing.
-/
namespace RealtimeKernel

/-- The slot is free, or its thread has ended. -/
def ThreadState.isGone : ThreadState → Bool
  | .inactive | .final => true
  | _ => false

namespace Kernel
variable {k k' k₁ : Kernel} {m : MutexId} {t u o next : ThreadId} {th : Thread} {ahead : Bool}
  {r : WakeupResult} {l : List ThreadId} {state : ThreadState} {p : Option QueueId}
  {touched : Object → Prop}

/-- The waiters of some mutexes may be without an owner. -/
structure OwnedBut (skip : MutexId → Prop) (k : Kernel) : Prop where
  owner_iff : ∀ m t, k.owner? m = some t ↔ m ∈ (k.thread t).held
  nodup : ∀ t, (k.thread t).held.Nodup
  waiter : ∀ m t, ¬ skip m → (k.thread t).queue = some (.mutex m) →
    ∃ o, k.owner? m = some o ∧ o ≠ t
  gone : ∀ t, (k.thread t).state.isGone = true → (k.thread t).held = []
  unused : ∀ m, k.mutexes.contains m = false → k.owner? m = none

abbrev Owned (k : Kernel) : Prop := k.OwnedBut fun _ => False

/-- Nothing changes on which the owners and their priorities depend. -/
structure Keeps (k k' : Kernel) : Prop where
  mutexes : k'.mutexes = k.mutexes
  held : ∀ u, (k'.thread u).held = (k.thread u).held
  priority : ∀ u, (k'.thread u).priority = (k.thread u).priority
  base : ∀ u, (k'.thread u).base = (k.thread u).base
  queue_iff : ∀ u m, (k'.thread u).queue = some (.mutex m) ↔ (k.thread u).queue = some (.mutex m)

theorem Keeps.refl (k : Kernel) : Keeps k k :=
  ⟨rfl, fun _ => rfl, fun _ => rfl, fun _ => rfl, fun _ _ => Iff.rfl⟩

theorem Keeps.trans (h : Keeps k k₁) (h' : Keeps k₁ k') : Keeps k k' :=
  ⟨h'.mutexes.trans h.mutexes, fun u => (h'.held u).trans (h.held u),
    fun u => (h'.priority u).trans (h.priority u), fun u => (h'.base u).trans (h.base u),
    fun u m => (h'.queue_iff u m).trans (h.queue_iff u m)⟩

/-- A change of one thread that does not concern mutexes. -/
theorem Keeps.of_thread (mutexes : k'.mutexes = k.mutexes)
    (thread : ∀ u, k'.thread u = if u = t then th else k.thread u)
    (held : th.held = (k.thread t).held) (priority : th.priority = (k.thread t).priority)
    (base : th.base = (k.thread t).base)
    (queue : ∀ m, th.queue = some (.mutex m) ↔ (k.thread t).queue = some (.mutex m)) :
    Keeps k k' := by
  refine ⟨mutexes, ?_, ?_, ?_, ?_⟩
  all_goals
    intro u
    rw [thread]
    split
    · rename_i hu
      rw [hu]
      assumption
    · first | rfl | exact fun _ => Iff.rfl

theorem owner?_eq (h : k'.mutexes = k.mutexes) (m : MutexId) : k'.owner? m = k.owner? m := by
  simp only [owner?, h]

theorem Owned.keeps (ho : k.Owned) (h : Keeps k k')
    (gone : ∀ u, (k'.thread u).state.isGone = true →
      (k.thread u).state.isGone = true ∨ (k.thread u).held = []) : k'.Owned := by
  have howner := owner?_eq h.mutexes
  refine ⟨?_, ?_, ?_, ?_, ?_⟩
  · intro m t
    rw [howner, h.held]
    exact ho.owner_iff m t
  · intro t
    rw [h.held]
    exact ho.nodup t
  · intro m t hm hq
    rw [howner]
    exact ho.waiter m t hm ((h.queue_iff t m).mp hq)
  · intro t ht
    rw [h.held]
    rcases gone t ht with hgone | hheld
    · exact ho.gone t hgone
    · exact hheld
  · intro m hm
    rw [h.mutexes] at hm
    rw [howner]
    exact ho.unused m hm

/-! The steps of scheduling. -/

theorem Wakes.keeps (h : Wakes t r k k') (other : ∀ m, (k.thread t).queue ≠ some (.mutex m)) :
    Keeps k k' := by
  refine Keeps.of_thread h.moves.mutexes h.moves.thread rfl rfl rfl ?_
  intro m
  exact iff_of_false nofun (other m)

theorem Wakes.gone (h : Wakes t r k k') (hu : (k'.thread u).state.isGone = true) :
    (k.thread u).state.isGone = true := by
  rw [h.moves.thread] at hu
  split at hu
  · cases hu
  · exact hu

theorem Dispatches.thread (h : Dispatches next k k') (u : ThreadId) :
    k'.thread u = if u = next then
      { k.thread next with
        state := .running, queue := none, dispatches := (k.thread next).dispatches + 1 }
      else k.thread u := h.moves.thread u

theorem Dispatches.keeps (h : Dispatches next k k') (hk : k.Linked) : Keeps k k' := by
  refine Keeps.of_thread h.moves.mutexes h.thread rfl rfl rfl ?_
  intro m
  refine iff_of_false nofun ?_
  rw [h.queue hk]
  exact nofun

theorem Dispatches.gone (h : Dispatches next k k') (hu : (k'.thread u).state.isGone = true) :
    (k.thread u).state.isGone = true := by
  rw [h.thread] at hu
  split at hu
  · cases hu
  · exact hu

theorem Parks.keeps (h : Parks state p k k') (hk : k.InPlace)
    (other : ∀ m, p ≠ some (.mutex m)) : Keeps k k' := by
  refine Keeps.of_thread h.moves.mutexes h.moves.thread rfl rfl rfl ?_
  intro m
  refine iff_of_false (other m) ?_
  rw [hk.queue_eq_none rfl]
  exact nofun

theorem not_isGone_of_isBlocked (h : state.isBlocked = true) : state.isGone ≠ true := by
  intro hg
  cases state <;> first | exact Bool.noConfusion h | exact Bool.noConfusion hg

theorem Parks.gone (h : Parks state p k k') (hu : (k'.thread u).state.isGone = true) :
    (k.thread u).state.isGone = true := by
  rw [h.moves.thread] at hu
  split at hu
  · exact absurd hu (not_isGone_of_isBlocked h.blocked)
  · exact hu

theorem Blocks.keeps (h : Blocks state p k k') (hk : k.InPlace)
    (other : ∀ m, p ≠ some (.mutex m)) : Keeps k k' := by
  obtain ⟨-, k₁, next, hpark, hdispatch⟩ := h
  exact (hpark.keeps hk other).trans (hdispatch.keeps (hpark.arranged hk).toLinked)

theorem GivesWay.keeps (h : GivesWay ahead k k') (hk : k.InPlace) : Keeps k k' := by
  obtain ⟨k₁, next, hdispatch, -, hmoves⟩ := h
  have hne := hdispatch.ne_current hk
  have hme : k₁.thread k.current = k.running := hdispatch.moves.thread_of_ne hne.symm
  refine (hdispatch.keeps hk.toLinked).trans
    (Keeps.of_thread hmoves.mutexes hmoves.thread ?_ ?_ ?_ ?_)
  · rw [hme]
  · rw [hme]
  · rw [hme]
  · intro m
    rw [hme]
    refine iff_of_false nofun ?_
    rw [show k.running.queue = none from hk.queue_eq_none rfl]
    exact nofun

theorem GivesWay.gone (h : GivesWay ahead k k') (hu : (k'.thread u).state.isGone = true) :
    (k.thread u).state.isGone = true := by
  obtain ⟨k₁, next, hdispatch, -, hmoves⟩ := h
  rw [hmoves.thread] at hu
  split at hu
  · cases hu
  · exact hdispatch.gone hu

theorem Rouses.keeps {q : QueueId} (h : Rouses r l k k') (hk : k.Linked) (ready : q ≠ .ready)
    (hl : k.members q = l) (other : ∀ m, q ≠ .mutex m) : Keeps k k' := by
  induction h with
  | nil => exact .refl _
  | @cons t l k k₁ k' hw _ ih =>
      have hq : (k.thread t).queue = some q := by
        rw [← hk.mem_iff, hl]
        exact List.mem_cons_self
      refine (hw.keeps ?_).trans (ih (hw.moves.linked hk) (hw.members_tail ready hl))
      intro m
      rw [hq]
      intro he
      exact other m (Option.some.inj he)

/-! The effects. -/

theorem owner?_setOwner (k : Kernel) (m m' : MutexId) (owner : Option ThreadId) :
    (k.setOwner m owner).owner? m' = if m' = m then owner else k.owner? m' := by
  simp only [owner?, setOwner, Pool.get_set]
  split <;> rfl

theorem thread_acquire (k : Kernel) (m : MutexId) (t u : ThreadId) :
    (k.acquire m t).thread u =
      if u = t then { k.thread t with held := (k.thread t).held ++ [m] } else k.thread u :=
  thread_modifyThread (k.setOwner m (some t)) t u _

theorem owner?_acquire (k : Kernel) (m m' : MutexId) (t : ThreadId) :
    (k.acquire m t).owner? m' = if m' = m then some t else k.owner? m' :=
  owner?_setOwner k m m' (some t)

/-- A thread takes a mutex that nobody owns. -/
theorem OwnedBut.acquire (ho : k.OwnedBut (· = m)) (hin : k.mutexes.contains m = true)
    (free : k.owner? m = none) (alive : (k.thread t).state.isGone = false) :
    (k.acquire m t).OwnedBut (· = m) := by
  have hnot : ∀ u, m ∉ (k.thread u).held := by
    intro u hm
    rw [← ho.owner_iff, free] at hm
    cases hm
  refine ⟨?_, ?_, ?_, ?_, ?_⟩
  · intro m' u
    rw [owner?_acquire, thread_acquire]
    have hold := ho.owner_iff m' u
    by_cases hm : m' = m
    · subst hm
      rw [if_pos rfl, Option.some.injEq]
      split
      · rename_i hu
        exact iff_of_true hu.symm (List.mem_append_right _ (List.mem_singleton_self _))
      · rename_i hu
        exact iff_of_false (fun he => hu he.symm) (hnot u)
    · rw [if_neg hm, hold]
      split
      · rename_i hu
        rw [hu, List.mem_append, List.mem_singleton]
        exact ⟨Or.inl, fun h => h.resolve_right hm⟩
      · exact Iff.rfl
  · intro u
    rw [thread_acquire]
    split
    · refine List.nodup_append.mpr ⟨ho.nodup t, List.nodup_singleton m, ?_⟩
      intro a ha b hb
      rw [List.mem_singleton.mp hb]
      rintro rfl
      exact hnot t ha
    · exact ho.nodup u
  · intro m' u hm hq
    rw [field_of_thread (·.queue) (thread_acquire k m t) rfl] at hq
    rw [owner?_acquire, if_neg hm]
    exact ho.waiter m' u hm hq
  · intro u hu
    rw [thread_acquire] at hu ⊢
    split at hu
    · rw [show (k.thread t).state.isGone = true from hu] at alive
      cases alive
    · rename_i hut
      rw [if_neg hut]
      exact ho.gone u hu
  · intro m' hm'
    rw [owner?_acquire, if_neg]
    · exact ho.unused m' hm'
    · rintro rfl
      change k.mutexes.contains m' = false at hm'
      rw [hin] at hm'
      cases hm'

theorem owner?_strike (k : Kernel) (m m' : MutexId) :
    (k.strike m).owner? m' = if m' = m then none else k.owner? m' := owner?_setOwner k m m' none

/-- The owner gives a mutex away. -/
theorem OwnedBut.strike (ho : k.Owned) (own : k.owner? m = some k.current) :
    (k.strike m).OwnedBut (· = m) := by
  have hown : ∀ u, m ∈ (k.thread u).held → u = k.current := by
    intro u hm
    rw [← ho.owner_iff, own] at hm
    exact (Option.some.inj hm).symm
  refine ⟨?_, ?_, ?_, ?_, ?_⟩
  · intro m' u
    rw [owner?_strike, thread_strike]
    have hold := ho.owner_iff m' u
    by_cases hm : m' = m
    · subst hm
      rw [if_pos rfl]
      refine iff_of_false nofun ?_
      split
      · exact (ho.nodup k.current).not_mem_erase
      · rename_i hu
        exact fun hm => hu (hown u hm)
    · rw [if_neg hm, hold]
      split
      · rename_i hu
        rw [hu]
        exact (List.mem_erase_of_ne hm).symm
      · exact Iff.rfl
  · intro u
    rw [thread_strike]
    split
    · exact (ho.nodup k.current).erase m
    · exact ho.nodup u
  · intro m' u hm hq
    rw [field_of_thread (·.queue) (thread_strike k m) rfl] at hq
    rw [owner?_strike, if_neg hm]
    exact ho.waiter m' u id hq
  · intro u hu
    rw [thread_strike] at hu ⊢
    split at hu
    · have hnil := ho.gone k.current hu
      rw [if_pos (by assumption)]
      change k.running.held.erase m = []
      rw [show k.running.held = [] from hnil]
      rfl
    · rename_i hne
      rw [if_neg hne]
      exact ho.gone u hu
  · intro m' hm'
    rw [owner?_strike]
    split
    · rfl
    · exact ho.unused m' hm'

theorem OwnedBut.complete (ho : k.OwnedBut (· = m))
    (waiter : ∀ t, (k.thread t).queue = some (.mutex m) → ∃ o, k.owner? m = some o ∧ o ≠ t) :
    k.Owned := by
  refine ⟨ho.owner_iff, ho.nodup, ?_, ho.gone, ho.unused⟩
  intro m' t _ hq
  by_cases hm : m' = m
  · rw [hm] at hq ⊢
    exact waiter t hq
  · exact ho.waiter m' t hm hq

theorem Owned.but (ho : k.Owned) (m : MutexId) : k.OwnedBut (· = m) :=
  ⟨ho.owner_iff, ho.nodup, fun m t _ => ho.waiter m t id, ho.gone, ho.unused⟩

theorem Owned.replaceThread (ho : k.Owned) (gone : (k.thread t).state.isGone = true)
    (held : th.held = []) (queue : th.queue = none) : (k.replaceThread t th).Owned := by
  have hthread : ∀ u, (k.replaceThread t th).thread u = if u = t then th else k.thread u :=
    fun u => thread_setThread k t u th
  have hheld : ∀ u, ((k.replaceThread t th).thread u).held = (k.thread u).held := by
    intro u
    rw [hthread]
    split
    · rename_i hu
      rw [held, hu, ho.gone t gone]
    · rfl
  refine ⟨?_, ?_, ?_, ?_, ho.unused⟩
  · intro m u
    rw [hheld]
    exact ho.owner_iff m u
  · intro u
    rw [hheld]
    exact ho.nodup u
  · intro m u _ hq
    rw [hthread] at hq
    split at hq
    · rw [queue] at hq
      cases hq
    · exact ho.waiter m u id hq
  · intro u hu
    rw [hheld]
    rw [hthread] at hu
    split at hu
    · rename_i hut
      rw [hut]
      exact ho.gone t gone
    · exact ho.gone u hu

theorem Owned.setThread (ho : k.Owned) (held : th.held = (k.thread t).held)
    (queue : th.queue = (k.thread t).queue) (state : th.state = (k.thread t).state) :
    (k.setThread t th).Owned := by
  refine ⟨?_, ?_, ?_, ?_, ho.unused⟩
  · intro m u
    rw [thread_setThread]
    split
    · rename_i hu
      rw [held, hu]
      exact ho.owner_iff m t
    · exact ho.owner_iff m u
  · intro u
    rw [thread_setThread]
    split
    · rw [held]
      exact ho.nodup t
    · exact ho.nodup u
  · intro m u hm hq
    rw [thread_setThread] at hq
    split at hq
    · rename_i hu
      rw [queue] at hq
      rw [hu]
      exact ho.waiter m t hm hq
    · exact ho.waiter m u hm hq
  · intro u hu
    rw [thread_setThread] at hu ⊢
    split at hu
    · rename_i hut
      rw [state] at hu
      rw [if_pos hut, held]
      exact ho.gone t hu
    · rename_i hut
      rw [if_neg hut]
      exact ho.gone u hu

theorem Wakes.owned {skip : MutexId → Prop} (h : Wakes t r k k') (ho : k.OwnedBut skip) :
    k'.OwnedBut skip := by
  have hheld : ∀ u, (k'.thread u).held = (k.thread u).held :=
    field_of_thread (·.held) h.moves.thread rfl
  have howner := owner?_eq h.moves.mutexes
  refine ⟨?_, ?_, ?_, ?_, ?_⟩
  · intro m u
    rw [hheld, howner]
    exact ho.owner_iff m u
  · intro u
    rw [hheld]
    exact ho.nodup u
  · intro m u hm hq
    rw [howner]
    rw [h.moves.thread] at hq
    split at hq
    · cases hq
    · exact ho.waiter m u hm hq
  · intro u hu
    rw [hheld]
    exact ho.gone u (h.gone hu)
  · intro m hm
    rw [h.moves.mutexes] at hm
    rw [howner]
    exact ho.unused m hm

theorem Rouses.owned (h : Rouses r l k k') (ho : k.Owned) : k'.Owned := by
  induction h with
  | nil => exact ho
  | cons hw _ ih => exact ih (hw.owned ho)

/-- Only threads and mutexes count. -/
theorem Owned.congr (ho : k.Owned) (mutexes : k'.mutexes = k.mutexes)
    (threads : k'.threads = k.threads) : k'.Owned := by
  have hthread : k'.thread = k.thread := by
    funext u
    simp only [thread, threads]
  refine ho.keeps ⟨mutexes, ?_, ?_, ?_, ?_⟩ ?_
  all_goals simp only [hthread, implies_true, iff_self]
  exact fun u hu => Or.inl hu

/-- A new mutex has no owner, as it had none before. -/
theorem Owned.owner?_push (ho : k.Owned) {pool : Pool maxMutexes Mutex}
    (hpush : k.mutexes.push? {} = some (m, pool)) (m' : MutexId) :
    ({ k with mutexes := pool } : Kernel).owner? m' = k.owner? m' := by
  change (pool.get m').owner = k.owner? m'
  rw [Pool.get_push hpush]
  split
  · rename_i hm
    rw [hm, ho.unused m (Pool.not_contains_of_push hpush)]
  · rfl

theorem Effect.owned (h : Effect touched k k') (hk : k.InPlace) (ho : k.Owned) : k'.Owned := by
  have hrun : (k.thread k.current).state = .running := hk.state_current
  cases h with
  | quiet => exact ho.congr rfl rfl
  | timers => exact ho.congr rfl rfl
  | mark => exact ho.setThread rfl rfl rfl
  | setBase => exact ho.setThread rfl rfl rfl
  | resume _ _ hw => exact hw.owned ho
  | timeOut _ _ _ hw => exact hw.owned ho
  | expire _ _ hw => exact hw.owned (ho.congr rfl rfl)
  | grant _ _ hw => exact hw.owned (ho.congr rfl rfl)
  | recount => exact ho.congr rfl rfl
  | dismiss _ _ hr => exact hr.owned (ho.congr rfl rfl)
  | notify _ _ hw => exact hw.owned ho
  | @take m _ hin free =>
      refine ((ho.but m).acquire hin free (by rw [hrun]; rfl)).complete ?_
      intro u hq
      rw [field_of_thread (·.queue) (thread_acquire k m k.current) rfl] at hq
      obtain ⟨o, howner, -⟩ := ho.waiter m u id hq
      rw [free] at howner
      cases howner
  | @free m _ own nobody =>
      refine (OwnedBut.strike ho own).complete ?_
      intro u hq
      rw [field_of_thread (·.queue) (thread_strike k m) rfl] at hq
      rw [← hk.mem_iff, nobody] at hq
      cases hq
  | @handOver _ m next _ own hhead hw =>
      have hnext : (k.thread next).queue = some (.mutex m) := hk.queue_of_head hhead
      have hne : next ≠ k.current := hk.not_runs hnext
      refine (hw.owned ((OwnedBut.strike ho own).acquire ?_ ?_ ?_)).complete ?_
      · cases hin : k.mutexes.contains m with
        | true => exact hin
        | false =>
            have hnone := ho.unused m hin
            rw [own] at hnone
            cases hnone
      · rw [owner?_strike, if_pos rfl]
      · rw [thread_strike, if_neg hne]
        have hblocked := hk.isBlocked_of_queue hnext nofun
        exact Bool.eq_false_of_not_eq_true (not_isGone_of_isBlocked hblocked)
      · intro u hq
        refine ⟨next, ?_, ?_⟩
        · rw [owner?_eq hw.moves.mutexes, owner?_acquire, if_pos rfl]
        · rintro rfl
          rw [hw.moves.thread_self] at hq
          cases hq
  | create name p e _ hs => exact ho.replaceThread (by rw [hs]; rfl) rfl rfl
  | blank hs => exact ho.replaceThread (by rw [hs]; rfl) rfl rfl
  | vacate _ hs => exact ho.replaceThread (by rw [hs]; rfl) rfl rfl
  | newSemaphore => exact ho.congr rfl rfl
  | @newMutex m pool hpush =>
      have howner := ho.owner?_push hpush
      refine ⟨?_, ho.nodup, ?_, ho.gone, ?_⟩
      · intro m' t
        rw [howner]
        exact ho.owner_iff m' t
      · intro m' t hm hq
        rw [howner]
        exact ho.waiter m' t hm hq
      · intro m' hm'
        rw [howner]
        refine ho.unused m' ?_
        rw [← Bool.not_eq_true] at hm' ⊢
        exact fun hin => hm' ((Pool.contains_push hpush).mpr (Or.inr hin))
  | newCondVar => exact ho.congr rfl rfl
  | newMailbox => exact ho.congr rfl rfl
  | write => exact ho.congr rfl rfl

theorem Boosts.owned (h : Boosts o k k') (ho : k.Owned) : k'.Owned := by
  have hthread : ∀ u, (k'.thread u).held = (k.thread u).held ∧
      (k'.thread u).queue = (k.thread u).queue ∧ (k'.thread u).state = (k.thread u).state := by
    intro u
    rw [h.2.thread]
    split
    · rename_i hu
      rw [hu]
      exact ⟨rfl, rfl, rfl⟩
    · exact ⟨rfl, rfl, rfl⟩
  have howner := owner?_eq h.2.mutexes
  refine ⟨?_, ?_, ?_, ?_, ?_⟩
  · intro m u
    rw [howner, (hthread u).1]
    exact ho.owner_iff m u
  · intro u
    rw [(hthread u).1]
    exact ho.nodup u
  · intro m u hm hq
    rw [(hthread u).2.1] at hq
    rw [howner]
    exact ho.waiter m u hm hq
  · intro u hu
    rw [(hthread u).2.2] at hu
    rw [(hthread u).1]
    exact ho.gone u hu
  · intro m hm
    rw [h.2.mutexes] at hm
    rw [howner]
    exact ho.unused m hm

theorem Lends.owned (h : Lends k o k') (ho : k.Owned) : k'.Owned := by
  induction h with
  | enough _ => exact ho
  | last _ hboost _ => exact hboost.owned ho
  | on _ hboost _ _ _ ih => exact ih (hboost.owned ho)

theorem Lends.mutexes (h : Lends k o k') : k'.mutexes = k.mutexes := by
  induction h with
  | enough _ => rfl
  | last _ hboost _ => exact hboost.2.mutexes
  | on _ hboost _ _ _ ih => exact ih.trans hboost.2.mutexes

/-- The running thread waits for a mutex of another one. -/
theorem Blocks.owned (h : Blocks state p k k') (hk : k.InPlace) (ho : k.Owned)
    (other : ∀ m, p = some (.mutex m) → ∃ o, k.owner? m = some o ∧ o ≠ k.current) :
    k'.Owned := by
  obtain ⟨-, k₁, next, hpark, hdispatch⟩ := h
  have hk₁ := (hpark.arranged hk).toLinked
  have howner := owner?_eq hpark.moves.mutexes
  have hheld : ∀ u, (k₁.thread u).held = (k.thread u).held :=
    field_of_thread (·.held) hpark.moves.thread rfl
  have ho₁ : k₁.Owned := by
    refine ⟨?_, ?_, ?_, ?_, ?_⟩
    · intro m u
      rw [howner, hheld]
      exact ho.owner_iff m u
    · intro u
      rw [hheld]
      exact ho.nodup u
    · intro m u hm hq
      rw [howner]
      rw [hpark.moves.thread] at hq
      split at hq
      · rename_i hu
        rw [hu]
        exact other m hq
      · exact ho.waiter m u hm hq
    · intro u hu
      rw [hheld]
      exact ho.gone u (hpark.gone hu)
    · intro m hm
      rw [hpark.moves.mutexes] at hm
      rw [howner]
      exact ho.unused m hm
  exact ho₁.keeps (hdispatch.keeps hk₁) fun u hu => Or.inl (hdispatch.gone hu)

theorem Switch.owned (h : Switch touched k k') (hk : k.InPlace) (ho : k.Owned) : k'.Owned := by
  cases h with
  | giveWay h => exact ho.keeps (h.keeps hk) fun u hu => Or.inl (h.gone hu)
  | park _ h => exact h.owned hk ho nofun
  | awaitUnit _ _ _ _ h =>
      exact h.owned (InPlace.setSemaphoreCount hk _ _) (ho.congr rfl rfl) nofun
  | awaitMutex _ hown hne hlends h =>
      have hk₁ := hlends.arranged hk
      rw [← hlends.current] at hk₁
      refine h.owned hk₁ (hlends.owned ho) ?_
      rintro m ⟨⟩
      rw [owner?_eq hlends.mutexes, hlends.current]
      exact ⟨_, hown, hne⟩
  | awaitCondition _ h => exact h.owned hk ho nofun
  | awaitExit _ _ _ _ _ h => exact h.owned hk ho nofun
  | @exit k₁ _ msg next _ hheld hr hd =>
      have hk₁ := hk.finishCurrent msg
      have hthread : ∀ u, (k.finishCurrent msg).thread u = if u = k.current then
          { k.running with exitMsg := msg, state := .final } else k.thread u :=
        fun u => thread_modifyThread k k.current u _
      have hkeeps : Keeps k (k.finishCurrent msg) :=
        .of_thread rfl hthread rfl rfl rfl fun _ => Iff.rfl
      have ho₁ : (k.finishCurrent msg).Owned := by
        refine ho.keeps hkeeps ?_
        intro u hu
        rw [hthread] at hu
        split at hu
        · rename_i hut
          rw [hut]
          exact Or.inr hheld
        · exact Or.inl hu
      exact (hr.owned ho₁).keeps (hd.keeps (hr.arranged hk₁).toLinked)
        fun u hu => Or.inl (hd.gone hu)

end Kernel

end RealtimeKernel

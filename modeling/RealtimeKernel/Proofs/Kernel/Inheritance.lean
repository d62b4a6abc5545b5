import Mathlib.Order.Bounds.Basic
import RealtimeKernel.Proofs.Kernel.Sound

/-!
Priority inheritance. Between two operations every thread runs at the most urgent level that
it is offered: its base priority, and the priorities of those that wait for its mutexes. When
a thread blocks on a mutex this is restored along one chain of owners; `Lending` says what is
still missing at the owner that the walk has come to.
-/
namespace RealtimeKernel

theorem Priority.ext_level {p q : Priority} (h : p.level = q.level) : p = q := by
  cases p
  cases q
  cases h
  rfl

theorem Priority.level_highest (p q : Priority) :
    (p.highest q).level = min p.level q.level := by
  unfold highest
  split
  · rename_i h
    rw [isHigherThan_iff] at h
    omega
  · rename_i h
    rw [isHigherThan_iff] at h
    omega

namespace Kernel
variable {k k' k₁ : Kernel} {m : MutexId} {t u o next first : ThreadId} {th : Thread} {p : Nat}
  {touched : Object → Prop}

/-- The levels that a thread is offered. -/
def offers (k : Kernel) (t : ThreadId) : Set Nat :=
  {n | n = (k.thread t).base.level ∨ ∃ m ∈ (k.thread t).held, ∃ u,
    (k.thread u).queue = some (.mutex m) ∧ n = (k.priorityOf u).level}

def Exact (k : Kernel) : Prop := ∀ t, IsLeast (k.offers t) (k.priorityOf t).level

theorem offers_congr (base : (k'.thread t).base = (k.thread t).base)
    (held : (k'.thread t).held = (k.thread t).held)
    (waiters : ∀ m ∈ (k.thread t).held, ∀ u,
      (k'.thread u).queue = some (.mutex m) ↔ (k.thread u).queue = some (.mutex m))
    (priority : ∀ m ∈ (k.thread t).held, ∀ u, (k.thread u).queue = some (.mutex m) →
      k'.priorityOf u = k.priorityOf u) : k'.offers t = k.offers t := by
  ext n
  unfold offers
  rw [base, held]
  constructor
  · rintro (hn | ⟨m, hm, u, hu, hn⟩)
    · exact Or.inl hn
    · rw [waiters m hm] at hu
      rw [priority m hm u hu] at hn
      exact Or.inr ⟨m, hm, u, hu, hn⟩
  · rintro (hn | ⟨m, hm, u, hu, hn⟩)
    · exact Or.inl hn
    · rw [← priority m hm u hu] at hn
      exact Or.inr ⟨m, hm, u, (waiters m hm u).mpr hu, hn⟩

theorem Exact.keeps (he : k.Exact) (h : Keeps k k') : k'.Exact := by
  intro t
  have hprio : k'.priorityOf = k.priorityOf := by
    funext u
    exact h.priority u
  rw [offers_congr (h.base t) (h.held t) (fun m _ u => h.queue_iff u m), hprio]
  · exact he t
  · intro m _ u _
    rw [hprio]

/-- The records decide. -/
theorem Exact.congr (he : k.Exact) (threads : k'.threads = k.threads) : k'.Exact := by
  have hthread : k'.thread = k.thread := by
    funext u
    simp only [thread, threads]
  have hprio : k'.priorityOf = k.priorityOf := by
    funext u
    simp only [priorityOf, hthread]
  intro t
  have hsame := he t
  unfold offers at hsame ⊢
  rw [hthread, hprio]
  exact hsame

/-- One thread changes that waits for no mutex. -/
theorem Exact.of_thread (he : k.Exact)
    (thread : ∀ u, k'.thread u = if u = t then th else k.thread u)
    (free : ∀ m, (k.thread t).queue ≠ some (.mutex m)) (free' : ∀ m, th.queue ≠ some (.mutex m))
    (own : IsLeast (k'.offers t) th.priority.level) : k'.Exact := by
  intro u
  by_cases hu : u = t
  · rw [hu]
    simp only [priorityOf, thread, if_pos]
    exact own
  · have hprio : ∀ v, v ≠ t → k'.priorityOf v = k.priorityOf v := by
      intro v hv
      simp only [priorityOf, thread, if_neg hv]
    rw [offers_congr, hprio u hu]
    · exact he u
    · rw [thread, if_neg hu]
    · rw [thread, if_neg hu]
    · intro m _ v
      rw [thread]
      split
      · rename_i hv
        rw [hv]
        exact iff_of_false (free' m) (free m)
      · exact Iff.rfl
    · intro m _ v hv
      refine hprio v ?_
      rintro rfl
      exact free m hv

/-- A thread that owns no mutex is offered its base priority alone. -/
theorem offers_of_held_nil (hheld : (k.thread t).held = []) :
    k.offers t = {(k.thread t).base.level} := by
  ext n
  simp [offers, hheld]

theorem Exact.priority_eq_base (he : k.Exact) (hheld : (k.thread t).held = []) :
    (k.thread t).priority = (k.thread t).base := by
  have hleast := he t
  rw [offers_of_held_nil hheld] at hleast
  exact Priority.ext_level hleast.1

/-! What the first waiters of a thread's mutexes lend. -/

theorem isLeast_of_least {A B : Set Nat} {a n : Nat} (ha : IsLeast A a)
    (hn : IsLeast ({a} ∪ B) n) : IsLeast (A ∪ B) n := by
  refine ⟨?_, ?_⟩
  · rcases hn.1 with hmem | hmem
    · rw [Set.mem_singleton_iff.mp hmem]
      exact Or.inl ha.1
    · exact Or.inr hmem
  · rintro i (hi | hi)
    · exact (hn.2 (Or.inl rfl)).trans (ha.2 hi)
    · exact hn.2 (Or.inr hi)

/-- What is left of a priority when the waiters of a mutex lend theirs. -/
theorem isLeast_lent (hold : k.queues.Hold k.members)
    (hsorted : InOrder k.priorityOf (k.members (.mutex m))) (b : Priority) :
    IsLeast ({b.level} ∪ {n | ∃ u ∈ k.members (.mutex m), n = (k.priorityOf u).level})
      (match (k.queues.get (.mutex m)).head with
        | some waiter => b.highest (k.priorityOf waiter)
        | none => b).level := by
  rw [hold.head_eq]
  cases hl : k.members (.mutex m) with
  | nil =>
      refine ⟨Or.inl rfl, ?_⟩
      rintro n (hn | ⟨u, hu, -⟩)
      · exact hn.ge
      · cases hu
  | cons w l =>
      rw [hl] at hsorted
      have hfirst : ∀ u ∈ l, (k.priorityOf w).level ≤ (k.priorityOf u).level := fun u hu =>
        List.rel_of_pairwise_cons hsorted hu
      simp only [List.head?_cons, Priority.level_highest]
      refine ⟨?_, ?_⟩
      · rcases Nat.le_total b.level (k.priorityOf w).level with hle | hle
        · rw [Nat.min_eq_left hle]
          exact Or.inl rfl
        · rw [Nat.min_eq_right hle]
          exact Or.inr ⟨w, List.mem_cons_self, rfl⟩
      · rintro n (hn | ⟨u, hu, hn⟩)
        · rw [Set.mem_singleton_iff.mp hn]
          exact Nat.min_le_left _ _
        · rw [hn]
          rcases List.mem_cons.mp hu with rfl | hu
          · exact Nat.min_le_right _ _
          · exact (Nat.min_le_right _ _).trans (hfirst u hu)

theorem isLeast_residual (hold : k.queues.Hold k.members)
    (hsorted : ∀ q, InOrder k.priorityOf (k.members q)) (l : List MutexId) (b : Priority) :
    IsLeast {n | n = b.level ∨ ∃ m ∈ l, ∃ u ∈ k.members (.mutex m), n = (k.priorityOf u).level}
      (l.foldl (fun p m =>
        match (k.queues.get (.mutex m)).head with
        | some waiter => p.highest (k.priorityOf waiter)
        | none => p) b).level := by
  induction l generalizing b with
  | nil => simp [isLeast_singleton]
  | cons m l ih =>
      have hstep := isLeast_of_least (isLeast_lent hold (hsorted (.mutex m)) b) (ih _)
      have hset : {n | n = b.level ∨ ∃ m' ∈ m :: l, ∃ u ∈ k.members (.mutex m'),
            n = (k.priorityOf u).level} =
          {b.level} ∪ {n | ∃ u ∈ k.members (.mutex m), n = (k.priorityOf u).level} ∪
            {n | ∃ m ∈ l, ∃ u ∈ k.members (.mutex m), n = (k.priorityOf u).level} := by
        ext n
        simp [or_assoc]
      rw [hset]
      exact hstep

/-! The effects. -/

/-- Striking off a mutex leaves its owner with what the waiters of the others lend. -/
theorem Exact.strike (he : k.Exact) (hk : k.InPlace) (m : MutexId) : (k.strike m).Exact := by
  have hfree : (k.thread k.current).queue = none := hk.queue_eq_none rfl
  refine he.of_thread (thread_strike k m) ?_ ?_ ?_
  · rw [hfree]
    exact fun _ => nofun
  · intro m'
    change k.running.queue ≠ _
    rw [show k.running.queue = none from hfree]
    exact nofun
  · have hqueue : ∀ u, ((k.strike m).thread u).queue = (k.thread u).queue :=
      field_of_thread (·.queue) (thread_strike k m) rfl
    have hprio : ∀ u m', (k.thread u).queue = some (.mutex m') →
        (k.strike m).priorityOf u = k.priorityOf u := by
      intro u m' hu
      simp only [priorityOf, thread_strike]
      rw [if_neg]
      rintro rfl
      rw [hfree] at hu
      cases hu
    have hself : (k.strike m).thread k.current = _ := (thread_strike k m _).trans (if_pos rfl)
    generalize hk₁ : (k.modifyThread k.current fun th => { th with held := th.held.erase m }) = k₁
      at hself ⊢
    have hprio₁ : k₁.priorityOf = k.priorityOf := by
      rw [← hk₁]
      exact priorityOf_setThread rfl
    have hthread₁ : k₁.thread k.current = { k.running with held := k.running.held.erase m } := by
      rw [← hk₁, thread_modifyThread, if_pos rfl]
      rfl
    have hqueues₁ : k₁.queues = k.queues := by
      rw [← hk₁]
      rfl
    have hmembers₁ : k₁.members = k.members := by
      funext q
      simp only [members, hqueues₁]
    -- The new priority is computed from the first waiters of the mutexes that are left.
    have hleast := isLeast_residual (k := k₁) (l := (k₁.thread k.current).held)
      (b := (k₁.thread k.current).base) (by rw [hqueues₁, hmembers₁]; exact hk.hold)
      (by rw [hprio₁, hmembers₁]; exact hk.sorted)
    change IsLeast _ (k₁.residualPriority k.current).level at hleast
    rw [hthread₁, hmembers₁, hprio₁] at hleast
    have hset : (k.strike m).offers k.current = {n | n = k.running.base.level ∨
        ∃ m' ∈ k.running.held.erase m, ∃ u ∈ k.members (.mutex m'),
          n = (k.priorityOf u).level} := by
      ext n
      unfold offers
      rw [hself]
      constructor
      · rintro (hn | ⟨m', hm, u, hu, hn⟩)
        · exact Or.inl hn
        · rw [hqueue] at hu
          rw [hprio u m' hu] at hn
          exact Or.inr ⟨m', hm, u, (hk.mem_iff u _).mpr hu, hn⟩
      · rintro (hn | ⟨m', hm, u, hu, hn⟩)
        · exact Or.inl hn
        · have hu := (hk.mem_iff u _).mp hu
          rw [← hprio u m' hu] at hn
          rw [← hqueue] at hu
          exact Or.inr ⟨m', hm, u, hu, hn⟩
    rw [hset]
    exact hleast

/-- A mutex that nobody waits for brings its new owner nothing. -/
theorem Exact.acquire (he : k.Exact) (nobody : ∀ u, (k.thread u).queue ≠ some (.mutex m)) :
    (k.acquire m t).Exact := by
  have hqueue : ∀ u, ((k.acquire m t).thread u).queue = (k.thread u).queue :=
    field_of_thread (·.queue) (thread_acquire k m t) rfl
  have hbase : ∀ u, ((k.acquire m t).thread u).base = (k.thread u).base :=
    field_of_thread (·.base) (thread_acquire k m t) rfl
  have hprio : (k.acquire m t).priorityOf = k.priorityOf := by
    refine priorityOf_setThread (k := k.setOwner m (some t)) ?_
    rfl
  have hheld : ∀ u m', m' ∈ ((k.acquire m t).thread u).held ↔
      m' ∈ (k.thread u).held ∨ u = t ∧ m' = m := by
    intro u m'
    rw [thread_acquire]
    split
    · rename_i hu
      simp [hu]
    · rename_i hu
      simp [hu]
  intro u
  have hset : (k.acquire m t).offers u = k.offers u := by
    ext n
    unfold offers
    rw [hbase, hprio]
    constructor
    · rintro (hn | ⟨m', hm, v, hv, hn⟩)
      · exact Or.inl hn
      · rw [hqueue] at hv
        rcases (hheld u m').mp hm with hm | ⟨-, rfl⟩
        · exact Or.inr ⟨m', hm, v, hv, hn⟩
        · exact absurd hv (nobody v)
    · rintro (hn | ⟨m', hm, v, hv, hn⟩)
      · exact Or.inl hn
      · rw [← hqueue] at hv
        exact Or.inr ⟨m', (hheld u m').mpr (Or.inl hm), v, hv, hn⟩
  rw [hset, hprio]
  exact he u

/-- A mutex that nobody owns goes to the first of its waiters, who leaves the others behind. -/
theorem Exact.handOver (he : k.Exact) (hk : k.InPlace) (ho : k.OwnedBut (· = m))
    (free : k.owner? m = none) (hhead : (k.members (.mutex m)).head? = some next)
    (hw : Wakes next .ok (k.acquire m next) k') : k'.Exact := by
  have hnext : (k.thread next).queue = some (.mutex m) :=
    hk.queue_of_head hhead
  have hthread : ∀ u, k'.thread u = if u = next then
      { k.thread next with
        held := (k.thread next).held ++ [m], state := .ready, wakeup := .ok
        queue := some .ready }
      else k.thread u := by
    intro u
    rw [hw.moves.thread, thread_acquire, thread_acquire, if_pos rfl]
    split <;> rfl
  have hprio : ∀ u, k'.priorityOf u = k.priorityOf u := field_of_thread (·.priority) hthread rfl
  have hbase : ∀ u, (k'.thread u).base = (k.thread u).base :=
    field_of_thread (·.base) hthread rfl
  have hnot : ∀ u, m ∉ (k.thread u).held := by
    intro u hm
    rw [← ho.owner_iff, free] at hm
    cases hm
  have hqueue : ∀ u m', m' ≠ m →
      ((k'.thread u).queue = some (.mutex m') ↔ (k.thread u).queue = some (.mutex m')) := by
    intro u m' hm
    rw [hthread]
    split
    · rename_i hu
      rw [hu, hnext]
      refine iff_of_false (by simp) ?_
      rintro ⟨⟩
      exact hm rfl
    · exact Iff.rfl
  intro u
  -- Nothing is lost by the hand-over; what is won comes from those who still wait for the mutex.
  have hold : k.offers u ⊆ k'.offers u := by
    rintro n (hn | ⟨m', hm, v, hv, hn⟩)
    · exact Or.inl (hn.trans (congrArg Priority.level (hbase u).symm))
    · have hne : m' ≠ m := fun heq => hnot u (heq ▸ hm)
      refine Or.inr ⟨m', ?_, v, (hqueue v m' hne).mpr hv, hn.trans (by rw [hprio])⟩
      rw [hthread]
      split
      · rename_i hu
        rw [hu] at hm
        exact List.mem_append_left _ hm
      · exact hm
  rw [hprio]
  refine ⟨hold (he u).1, ?_⟩
  rintro n (hn | ⟨m', hm, v, hv, hn⟩)
  · exact (he u).2 (Or.inl (hn.trans (congrArg Priority.level (hbase u))))
  · rw [hprio] at hn
    by_cases hne : m' = m
    · subst hne
      -- Only the thread that got the mutex has it, and it was the first of those who waited.
      have hu : u = next := by
        by_contra hu
        rw [hthread, if_neg hu] at hm
        exact hnot u hm
      rw [hu, hn]
      rw [hthread] at hv
      split at hv
      · cases hv
      · have hsorted := hk.sorted (.mutex m')
        have hmem := (hk.mem_iff v _).mpr hv
        obtain ⟨l, hl⟩ := List.head?_eq_some_iff.mp hhead
        rw [hl] at hsorted hmem
        rcases List.mem_cons.mp hmem with rfl | hmem
        · exact Nat.le_refl _
        · exact List.rel_of_pairwise_cons hsorted hmem
    · refine (he u).2 (Or.inr ⟨m', ?_, v, (hqueue v m' hne).mp hv, hn⟩)
      rw [hthread] at hm
      split at hm
      · rename_i hu
        rw [hu]
        exact (List.mem_append.mp hm).resolve_right fun h => hne (List.mem_singleton.mp h)
      · exact hm

theorem Exact.replaceThread (he : k.Exact) (hk : k.InPlace)
    (gone : (k.thread t).state = .inactive ∨ (k.thread t).state = .final)
    (queue : th.queue = none) (held : th.held = []) (priority : th.priority = th.base) :
    (k.replaceThread t th).Exact := by
  have hthread := fun u => thread_setThread k t u th
  refine he.of_thread hthread ?_ ?_ ?_
  · rw [hk.queue_eq_none_of_state (by tauto)]
    exact fun _ => nofun
  · rw [queue]
    exact fun _ => nofun
  · have hself : (k.replaceThread t th).thread t = th := (hthread t).trans (if_pos rfl)
    rw [offers_of_held_nil (by rw [hself]; exact held), hself, priority]
    exact isLeast_singleton

/-- Nothing but what waits for mutexes and owns them matters. -/
theorem Wakes.exact {r : WakeupResult} (h : Wakes t r k k') (he : k.Exact)
    (other : ∀ m, (k.thread t).queue ≠ some (.mutex m)) : k'.Exact := he.keeps (h.keeps other)

theorem Effect.exact (h : Effect touched k k') (hk : k.Sound) (he : k.Exact)
    (hbase : ¬ touched .ownerBase) : k'.Exact := by
  have hfree : (k.thread k.current).queue = none := hk.inPlace.queue_eq_none rfl
  cases h with
  | quiet => exact he.congr rfl
  | timers => exact he.congr rfl
  | mark t terminate entry =>
      refine he.keeps (.of_thread rfl (thread_modifyThread k t · _) rfl rfl rfl fun _ => Iff.rfl)
  | setBase p hp =>
      have hheld : (k.thread k.current).held = [] := by
        by_contra hne
        exact hbase (hp hne)
      have hown := he.priority_eq_base hheld
      refine he.of_thread (thread_modifyThread k k.current · _) ?_ ?_ ?_
      · rw [hfree]
        exact fun _ => nofun
      · dsimp only
        rw [hfree]
        exact fun _ => nofun
      · have hself := thread_modifyThread k k.current k.current fun th =>
          { th with
            priority :=
              if th.priority = th.base || p.isHigherThan th.priority then p else th.priority
            base := p }
        rw [if_pos rfl] at hself
        rw [offers_of_held_nil, hself]
        · simp only [hown, decide_true, Bool.true_or, if_true]
          exact isLeast_singleton
        · rw [hself]
          exact hheld
  | resume _ hs hw =>
      refine hw.exact he ?_
      rw [hk.inPlace.queue_eq_none_of_state (by tauto)]
      exact fun _ => nofun
  | @timeOut _ t _ htimed _ hw =>
      refine hw.exact he ?_
      intro m hq
      rw [hk.inPlace.waitingMutex_iff.mpr ⟨m, hq⟩] at htimed
      cases htimed
  | expire _ hq hw =>
      refine hw.exact (he.congr rfl) ?_
      change ∀ m, (k.thread _).queue ≠ _
      rw [hq]
      exact fun _ => nofun
  | grant _ hhead hw =>
      refine hw.exact (he.congr rfl) ?_
      change ∀ m, (k.thread _).queue ≠ _
      rw [hk.inPlace.queue_of_head hhead]
      exact fun _ => nofun
  | recount => exact he.congr rfl
  | @dismiss _ s count _ _ hr =>
      have hk₁ : (k.setSemaphoreCount s count).Linked := ⟨hk.inPlace.hold, hk.inPlace.mem_iff⟩
      have he₁ : (k.setSemaphoreCount s count).Exact := he.congr rfl
      exact he₁.keeps (hr.keeps (q := .semaphore s) hk₁ nofun rfl fun _ => nofun)
  | notify _ hhead hw =>
      refine hw.exact he ?_
      rw [hk.inPlace.queue_of_head hhead]
      exact fun _ => nofun
  | @take m _ _ free =>
      refine he.acquire ?_
      intro u hu
      obtain ⟨o, howner, -⟩ := hk.owned.waiter m u id hu
      rw [free] at howner
      cases howner
  | free => exact he.strike hk.inPlace _
  | @handOver _ m next _ own hhead hw =>
      have hk₁ := hk.inPlace.strike m
      refine (he.strike hk.inPlace m).handOver hk₁ (OwnedBut.strike hk.owned own) ?_ hhead hw
      rw [owner?_strike, if_pos rfl]
  | create name p e _ hs => exact he.replaceThread hk.inPlace (Or.inl hs) rfl rfl rfl
  | blank hs => exact he.replaceThread hk.inPlace (Or.inl hs) rfl rfl rfl
  | vacate _ hs => exact he.replaceThread hk.inPlace (Or.inr hs) rfl rfl rfl
  | newSemaphore => exact he.congr rfl
  | newMutex => exact he.congr rfl
  | newCondVar => exact he.congr rfl
  | newMailbox => exact he.congr rfl
  | write => exact he.congr rfl

/-! Lending. -/

/-- What a thread is offered if one of them, `first`, is offered a level more. -/
def offersWith (first : ThreadId) (p : Nat) (k : Kernel) (t : ThreadId) : Set Nat :=
  k.offers t ∪ {n | t = first ∧ n = p}

/-- All is as it should be but for one thread, to which the level is still to be lent. -/
structure Lending (first : ThreadId) (p : Nat) (k : Kernel) (o : ThreadId) : Prop where
  others : ∀ t, t ≠ o → IsLeast (offersWith first p k t) (k.priorityOf t).level
  own : IsLeast (offersWith first p k o) (min (k.priorityOf o).level p)

theorem Exact.lending (he : k.Exact) (o : ThreadId) (p : Nat) : Lending o p k o := by
  refine ⟨?_, ?_⟩
  · intro t ht
    refine ⟨Or.inl (he t).1, ?_⟩
    rintro n (hn | ⟨hto, -⟩)
    · exact (he t).2 hn
    · exact absurd hto ht
  · refine ⟨?_, ?_⟩
    · rcases Nat.le_total (k.priorityOf o).level p with hle | hle
      · rw [Nat.min_eq_left hle]
        exact Or.inl (he o).1
      · rw [Nat.min_eq_right hle]
        exact Or.inr ⟨rfl, rfl⟩
    · rintro n (hn | ⟨-, rfl⟩)
      · exact (Nat.min_le_left _ _).trans ((he o).2 hn)
      · exact Nat.min_le_right _ _

section Boost
variable (hb : Boosts o k k₁)
include hb

theorem Boosts.base (u : ThreadId) : (k₁.thread u).base = (k.thread u).base :=
  field_of_thread (·.base) hb.2.thread rfl u

theorem Boosts.held (u : ThreadId) : (k₁.thread u).held = (k.thread u).held :=
  field_of_thread (·.held) hb.2.thread rfl u

theorem Boosts.queue (u : ThreadId) : (k₁.thread u).queue = (k.thread u).queue :=
  field_of_thread (·.queue) hb.2.thread rfl u

theorem Boosts.priorityOf_self : k₁.priorityOf o = k.running.priority := by
  rw [priorityOf, hb.2.thread_self]

theorem Boosts.priorityOf_of_ne (hu : u ≠ o) : k₁.priorityOf u = k.priorityOf u := by
  rw [priorityOf, hb.2.thread_of_ne hu, priorityOf]

/-- A boost changes what is offered to those alone for whose mutexes the thread waits. -/
theorem Boosts.offers_eq
    (apart : ∀ m ∈ (k.thread t).held, (k.thread o).queue ≠ some (.mutex m)) :
    k₁.offers t = k.offers t := by
  refine offers_congr (hb.base t) (hb.held t) ?_ ?_
  · intro m _ u
    rw [hb.queue]
  · intro m hm u hu
    refine hb.priorityOf_of_ne ?_
    rintro rfl
    exact apart m hm hu

end Boost

/-- The owner of the mutex that a boosted thread waits for is the next one. -/
theorem Boosts.lending (hb : Boosts o k k₁) (ho : k.Owned) (hp : k.running.priority.level = p)
    (high : p < (k.priorityOf o).level) (hl : Lending first p k o)
    (hq : (k.thread o).queue = some (.mutex m)) (howner : k.owner? m = some next) :
    Lending first p k₁ next := by
  have hne : next ≠ o := by
    obtain ⟨o', howner', hne⟩ := ho.waiter m o id hq
    rw [howner] at howner'
    rw [Option.some.inj howner']
    exact hne
  have hheld : ∀ t, m ∈ (k.thread t).held → t = next := by
    intro t hm
    rw [← ho.owner_iff, howner] at hm
    exact (Option.some.inj hm).symm
  -- The boosted thread waits for one mutex, so it offers its priority to the owner of that alone.
  have hsame : ∀ t, t ≠ next → offersWith first p k₁ t = offersWith first p k t := by
    intro t ht
    unfold offersWith
    rw [hb.offers_eq]
    intro m' hm hq'
    rw [hq] at hq'
    cases hq'
    exact ht (hheld t hm)
  refine ⟨?_, ?_⟩
  · intro t ht
    rw [hsame t ht]
    by_cases hto : t = o
    · subst hto
      have hown := hl.own
      rw [Nat.min_eq_right (Nat.le_of_lt high)] at hown
      rw [hb.priorityOf_self, hp]
      exact hown
    · rw [hb.priorityOf_of_ne hto]
      exact hl.others t hto
  · have hnext := hl.others next hne
    have hmem : m ∈ (k.thread next).held := (ho.owner_iff m next).mp howner
    rw [hb.priorityOf_of_ne hne]
    refine ⟨?_, ?_⟩
    · rcases Nat.lt_or_ge (k.priorityOf next).level p with hlt | hge
      · rw [Nat.min_eq_left (Nat.le_of_lt hlt)]
        rcases hnext.1 with (hn | ⟨m', hm, u, hu, hn⟩) | ⟨-, hn⟩
        · rw [← hb.base] at hn
          exact Or.inl (Or.inl hn)
        · have huo : u ≠ o := by
            rintro rfl
            omega
          rw [← hb.held] at hm
          rw [← hb.queue] at hu
          rw [← hb.priorityOf_of_ne huo] at hn
          exact Or.inl (Or.inr ⟨m', hm, u, hu, hn⟩)
        · omega
      · rw [Nat.min_eq_right hge]
        refine Or.inl (Or.inr ⟨m, ?_, o, ?_, ?_⟩)
        · rw [hb.held]
          exact hmem
        · rw [hb.queue]
          exact hq
        · rw [hb.priorityOf_self, hp]
    · rintro n ((hn | ⟨m', hm, u, hu, hn⟩) | ⟨-, rfl⟩)
      · rw [hb.base] at hn
        exact (Nat.min_le_left _ _).trans (hnext.2 (Or.inl (Or.inl hn)))
      · by_cases huo : u = o
        · rw [hn, huo, hb.priorityOf_self, hp]
          exact Nat.min_le_right _ _
        · rw [hb.held] at hm
          rw [hb.queue] at hu
          rw [hb.priorityOf_of_ne huo] at hn
          exact (Nat.min_le_left _ _).trans (hnext.2 (Or.inl (Or.inr ⟨m', hm, u, hu, hn⟩)))
      · exact Nat.min_le_right _ _

theorem Boosts.running_priority (hb : Boosts o k k₁) :
    k₁.running.priority = k.running.priority := by
  rw [running, hb.2.current, hb.2.thread]
  split
  · rfl
  · rfl

/-- At the end of the walk nothing is missing any more. -/
theorem Lends.restores (h : Lends k o k') (ho : k.Owned) (hp : k.running.priority.level = p)
    (hl : Lending first p k o) :
    (∀ t, IsLeast (offersWith first p k' t) (k'.priorityOf t).level) ∧
      k'.running.priority = k.running.priority := by
  induction h with
  | @enough k o low =>
      refine ⟨?_, rfl⟩
      intro t
      by_cases ht : t = o
      · have hown := hl.own
        rw [Nat.min_eq_left (by omega)] at hown
        rw [ht]
        exact hown
      · exact hl.others t ht
  | @last k k' o high hb nobody =>
      rw [hp] at high
      refine ⟨?_, hb.running_priority⟩
      have hfree : ∀ m, (k.thread o).queue ≠ some (.mutex m) := by
        intro m hq
        obtain ⟨o', howner, -⟩ := ho.waiter m o id hq
        rw [nobody m hq] at howner
        cases howner
      intro t
      have hsame : offersWith first p k' t = offersWith first p k t := by
        unfold offersWith
        rw [hb.offers_eq fun m _ => hfree m]
      rw [hsame]
      by_cases ht : t = o
      · have hown := hl.own
        rw [Nat.min_eq_right (Nat.le_of_lt high)] at hown
        rw [ht, hb.priorityOf_self, hp]
        exact hown
      · rw [hb.priorityOf_of_ne ht]
        exact hl.others t ht
  | @on k k₁ k' o next m high hb hq howner _ ih =>
      have hrun := hb.running_priority
      rw [hp] at high
      obtain ⟨hall, hsame⟩ := ih (hb.owned ho) (by rw [hrun]; exact hp)
        (hb.lending ho hp high hl hq howner)
      exact ⟨hall, hsame.trans hrun⟩

/-- The running thread waits for a mutex, the owner of which was lent its priority. -/
theorem Exact.awaitMutex (he : k.Exact) (hk : k.Sound) (howner : k.owner? m = some o)
    (hlends : Lends k o k₁)
    (h : Blocks .waitingMutex (some (.mutex m)) k₁ k') : k'.Exact := by
  have hk₁ := hlends.arranged hk.inPlace
  rw [← hlends.current] at hk₁
  obtain ⟨hall, hrun⟩ := hlends.restores hk.owned rfl (he.lending o _)
  obtain ⟨-, k₂, next, hpark, hdispatch⟩ := h
  have hthread := hpark.moves.thread
  have hbase : ∀ u, (k₂.thread u).base = (k₁.thread u).base :=
    field_of_thread (·.base) hthread rfl
  have hheld : ∀ u, (k₂.thread u).held = (k₁.thread u).held :=
    field_of_thread (·.held) hthread rfl
  have hprio : k₂.priorityOf = k₁.priorityOf :=
    funext (field_of_thread (·.priority) hthread rfl)
  -- There is one more waiter than before, who brings the owner what was lent to it in advance.
  have hqueue : ∀ u m', (k₂.thread u).queue = some (.mutex m') ↔
      u = k₁.current ∧ m' = m ∨ (k₁.thread u).queue = some (.mutex m') := by
    intro u m'
    rw [hthread]
    split
    · rename_i hu
      rw [hu, hk₁.queue_eq_none rfl]
      simp [eq_comm]
    · rename_i hu
      simp [hu]
  have hown : ∀ t, m ∈ (k₁.thread t).held ↔ t = o := by
    intro t
    rw [← (hlends.owned hk.owned).owner_iff, owner?_eq hlends.mutexes, howner, Option.some.injEq,
      eq_comm]
  have he₂ : k₂.Exact := by
    intro t
    have hset : k₂.offers t = offersWith o k.running.priority.level k₁ t := by
      ext n
      unfold offersWith offers
      rw [hbase, hheld, hprio]
      constructor
      · rintro (hn | ⟨m', hm, u, hu, hn⟩)
        · exact Or.inl (Or.inl hn)
        · rcases (hqueue u m').mp hu with ⟨rfl, rfl⟩ | hu
          · refine Or.inr ⟨(hown t).mp hm, hn.trans ?_⟩
            rw [← hrun]
            rfl
          · exact Or.inl (Or.inr ⟨m', hm, u, hu, hn⟩)
      · rintro ((hn | ⟨m', hm, u, hu, hn⟩) | ⟨ht, hn⟩)
        · exact Or.inl hn
        · exact Or.inr ⟨m', hm, u, (hqueue u m').mpr (Or.inr hu), hn⟩
        · refine Or.inr ⟨m, (hown t).mpr ht, k₁.current, (hqueue _ m).mpr (Or.inl ⟨rfl, rfl⟩), ?_⟩
          rw [hn, ← hrun]
          rfl
    rw [hset, hprio]
    exact hall t
  exact he₂.keeps (hdispatch.keeps (hpark.arranged hk₁).toLinked)

theorem Switch.exact (h : Switch touched k k') (hk : k.Sound) (he : k.Exact) : k'.Exact := by
  cases h with
  | giveWay h => exact he.keeps (h.keeps hk.inPlace)
  | park _ h => exact he.keeps (h.keeps hk.inPlace nofun)
  | @awaitUnit _ s _ _ _ _ _ h =>
      have he₁ : (k.setSemaphoreCount s (k.semaphoreCount s - 1)).Exact := he.congr rfl
      exact he₁.keeps (h.keeps (InPlace.setSemaphoreCount hk.inPlace _ _) nofun)
  | awaitMutex _ howner _ hlends h => exact he.awaitMutex hk howner hlends h
  | awaitCondition _ h => exact he.keeps (h.keeps hk.inPlace nofun)
  | awaitExit _ _ _ _ _ h => exact he.keeps (h.keeps hk.inPlace nofun)
  | @exit k₁ _ msg next _ _ hr hd =>
      have hk₁ := hk.inPlace.finishCurrent msg
      have hkeeps : Keeps k (k.finishCurrent msg) :=
        .of_thread rfl (thread_modifyThread k k.current · _) rfl rfl rfl fun _ => Iff.rfl
      have hrouses := hr.keeps (q := .exit k.current) hk₁.toLinked nofun rfl fun _ => nofun
      exact he.keeps ((hkeeps.trans hrouses).trans (hd.keeps (hr.arranged hk₁).toLinked))

theorem Does.exact (h : Does touched k k') (hk : k.Sound) (he : k.Exact)
    (hbase : ¬ touched .ownerBase) : k'.Exact := by
  obtain ⟨k₁, heffects, hswitch⟩ := h
  obtain ⟨hk₁, he₁⟩ := effects_induction (P := Exact) heffects hk
    (fun _ _ hk heffect he => heffect.exact hk he hbase) he
  rcases hswitch with rfl | hswitch
  · exact he₁
  · exact hswitch.exact hk₁ he₁

end Kernel

end RealtimeKernel

import RealtimeKernel.Proofs.Execution.Inheritance

/-!
Base priorities that change while others wait. The update tells by the running thread's priority
whether it is boosted, so it forgets waiters that did not boost it then: those that are no more
urgent than its old base priority. As long as there is none of them above the new one, all that
waiters lend stays.
-/
namespace RealtimeKernel

namespace Kernel
variable {k k' : Kernel} {p q : Priority} {t u : ThreadId}

/-- The running thread's record with another base priority. -/
def rebase (k : Kernel) (p : Priority) : Kernel :=
  k.modifyThread k.current fun th =>
    { th with
      priority := if th.priority = th.base || p.isHigherThan th.priority then p else th.priority
      base := p }

theorem setPriority_eq (hp : p ≠ .idle) : k.setPriority p = do
    return (← (k.rebase p).preempt, [.answer (.priority k.running.base)]) := if_neg hp

/-- Setting the base priority loses sight of a waiter: the thread is not boosted, and somebody who
waits for it is more urgent than what is set. -/
def Forgets (k : Kernel) (p : Priority) : Prop :=
  k.running.priority = k.running.base ∧
    ∃ q ∈ (k.rebase p).lenders k.current, q.isHigherThan p = true

instance (k : Kernel) (p : Priority) : Decidable (k.Forgets p) :=
  inferInstanceAs (Decidable (_ ∧ _))

theorem thread_rebase (k : Kernel) (p : Priority) (u : ThreadId) :
    (k.rebase p).thread u = if u = k.current then
      { k.running with
        priority := if k.running.priority = k.running.base || p.isHigherThan k.running.priority
          then p else k.running.priority
        base := p }
      else k.thread u := thread_modifyThread k k.current u _

theorem running_rebase (k : Kernel) (p : Priority) : (k.rebase p).running =
    { k.running with
      priority := if k.running.priority = k.running.base || p.isHigherThan k.running.priority
        then p else k.running.priority
      base := p } := (thread_rebase k p k.current).trans (if_pos rfl)

/-- The running thread's waiters stay, and what they lend but for itself. -/
theorem mem_lenders_rebase : q ∈ (k.rebase p).lenders k.current ↔
    ∃ m ∈ k.running.held, ∃ u ∈ k.members (.mutex m), (k.rebase p).priorityOf u = q := by
  rw [mem_lenders, thread_rebase, if_pos rfl]
  exact Iff.rfl

/-- A boosted thread keeps what it is lent: its priority becomes the more urgent one of the new base
priority and the old priority, which a waiter has. -/
theorem rebase_of_boosted
    (he : k.running.priority = (k.lenders k.current).foldl Priority.highest k.running.base)
    (hboosted : k.running.priority ≠ k.running.base) :
    IsLeast {n | n = p.level ∨ ∃ q ∈ (k.rebase p).lenders k.current, n = q.level}
      (k.rebase p).running.priority.level := by
  rw [Priority.eq_foldl_highest_iff] at he
  have hnew : (k.rebase p).running.priority =
      if p.isHigherThan k.running.priority then p else k.running.priority := by
    rw [running_rebase]
    simp only [decide_eq_false hboosted, Bool.false_or]
  have hself : (k.rebase p).priorityOf k.current = (k.rebase p).running.priority := rfl
  have hother : ∀ u, u ≠ k.current → (k.rebase p).priorityOf u = k.priorityOf u := by
    intro u hu
    rw [priorityOf, thread_rebase, if_neg hu]
    rfl
  have hle : (k.rebase p).running.priority.level ≤ p.level ∧
      (k.rebase p).running.priority.level ≤ k.running.priority.level := by
    rw [hnew]
    split
    · rename_i hp
      exact ⟨le_rfl, (Priority.isHigherThan_iff.mp hp).le⟩
    · rename_i hp
      rw [Priority.isHigherThan_iff] at hp
      exact ⟨not_lt.mp hp, le_rfl⟩
  refine ⟨?_, ?_⟩
  · by_cases hp : p.isHigherThan k.running.priority = true
    · rw [if_pos hp] at hnew
      exact Or.inl (congrArg Priority.level hnew)
    · rw [if_neg hp] at hnew
      -- The old priority is that of a waiter, since it is not the old base priority.
      rcases he.1 with hbase | ⟨q, hq, hlevel⟩
      · exact absurd (Priority.ext_level hbase) hboosted
      · obtain ⟨m, hm, u, hu, rfl⟩ := mem_lenders.mp hq
        refine Or.inr ⟨_, mem_lenders_rebase.mpr ⟨m, hm, u, hu, rfl⟩, ?_⟩
        by_cases hcur : u = k.current
        · rw [hcur, hself]
        · rw [hother u hcur, hnew, hlevel]
  · rintro n (rfl | ⟨q, hq, rfl⟩)
    · exact hle.1
    · obtain ⟨m, hm, u, hu, rfl⟩ := mem_lenders_rebase.mp hq
      by_cases hcur : u = k.current
      · rw [hcur, hself]
      · rw [hother u hcur]
        exact hle.2.trans (he.2 (Or.inr ⟨_, mem_lenders.mpr ⟨m, hm, u, hu, rfl⟩, rfl⟩))

/-- The update keeps exactly what is lent, unless it forgets somebody. -/
theorem rebase_exact_iff
    (he : k.running.priority = (k.lenders k.current).foldl Priority.highest k.running.base) :
    (k.rebase p).running.priority =
        ((k.rebase p).lenders k.current).foldl Priority.highest p ↔ ¬ k.Forgets p := by
  rw [Priority.eq_foldl_highest_iff]
  -- A thread passes for not boosted if its priority is its base priority, waiters or not.
  by_cases hboosted : k.running.priority = k.running.base
  · have hnew : (k.rebase p).running.priority = p := by
      rw [running_rebase]
      simp only [decide_eq_true hboosted, Bool.true_or, if_true]
    rw [hnew]
    constructor
    · rintro hleast ⟨-, q, hq, hp⟩
      have hle := hleast.2 (Or.inr ⟨q, hq, rfl⟩)
      rw [Priority.isHigherThan_iff] at hp
      omega
    · intro hnot
      refine ⟨Or.inl rfl, ?_⟩
      rintro n (rfl | ⟨q, hq, rfl⟩)
      · exact le_rfl
      · by_contra hlt
        exact hnot ⟨hboosted, q, hq, Priority.isHigherThan_iff.mpr (not_le.mp hlt)⟩
  · exact iff_of_true (rebase_of_boosted he hboosted) fun hf => hboosted hf.1

theorem InPlace.rebase (hk : k.InPlace) (p : Priority) : (k.rebase p).InPlace :=
  hk.setRunning (hk.queue_eq_none (t := k.current) rfl) hk.state_current

theorem Sound.rebase (hk : k.Sound) (p : Priority) : (k.rebase p).Sound := by
  have heffect : Effect (fun _ => True) k (k.rebase p) := .setBase p fun _ => trivial
  exact heffect.sound hk

/-- The others do not notice, since the running thread waits for no mutex. -/
theorem Exact.rebase (he : k.Exact) (hk : k.InPlace) (hf : ¬ k.Forgets p) :
    (k.rebase p).Exact := by
  have hfree : k.running.queue = none := hk.queue_eq_none rfl
  have hnew := (rebase_exact_iff ((exact_iff hk.toLinked).mp he k.current)).mpr hf
  have hbase : ((k.rebase p).thread k.current).base = p := by
    rw [thread_rebase, if_pos rfl]
  refine he.of_thread (thread_rebase k p) ?_ ?_ ?_
  · change ∀ m, k.running.queue ≠ _
    rw [hfree]
    exact fun _ => nofun
  · change ∀ m, k.running.queue ≠ _
    rw [hfree]
    exact fun _ => nofun
  · rw [← levels_eq_offers (hk.rebase p).toLinked, hbase]
    rw [Priority.eq_foldl_highest_iff, running_rebase] at hnew
    exact hnew

end Kernel

namespace Execution
open Kernel
variable {h : History} {x y : Execution} {m : Move} {p : Priority}

/-- A thread that changes its base priority does not forget those that wait for it. -/
def Record.remembers (r : Record) : Bool :=
  match r.move with
  | .call (.operation (.setPriority p)) => !decide (r.before.kernel.Forgets p)
  | _ => true

def OwnersRemember (h : History) : Prop := ∀ r ∈ h, r.remembers = true

instance (h : History) : Decidable (OwnersRemember h) :=
  inferInstanceAs (Decidable (∀ r ∈ h, r.remembers = true))

/-- What the call does: the record is updated, and then another thread may have to run. -/
theorem setPriority_ok (hmove : x.move (.call (.operation (.setPriority p))) = .ok y) :
    p ≠ .idle ∧ (x.kernel.rebase p).preempt = .ok y.kernel := by
  obtain ⟨frames, hstep, -⟩ := operation_step hmove
  change x.kernel.setPriority p = .ok (y.kernel, frames) at hstep
  by_cases hp : p = .idle
  · rw [Kernel.setPriority, if_pos hp] at hstep
    cases hstep
  · rw [setPriority_eq hp] at hstep
    obtain ⟨k, hpreempt, hstep⟩ := bind_eq_ok.mp hstep
    obtain ⟨rfl, -⟩ := Prod.mk.inj (Except.ok.inj hstep)
    exact ⟨hp, hpreempt⟩

/-- As long as nobody is forgotten, all that waiters lend stays in effect. -/
theorem Reaches.exact_of_remembers (hr : Reaches h x) (hj : JoinedOnce h)
    (ho : OwnersRemember h) : x.kernel.Exact := by
  induction hr with
  | boot hb =>
      have hnone : OwnersKeepBase [] := by
        intro r hmem
        cases hmem
      exact (Reaches.boot hb).exact hj hnone
  | @move h x y m hr hallows hmove ih =>
      have hx := hr.orderly hj.tail
      have he := ih hj.tail fun r hr => ho r (List.mem_cons_of_mem _ hr)
      by_cases ht : m.touches x .ownerBase
      · obtain ⟨p, rfl, -⟩ := Move.touches_ownerBase ht
        obtain ⟨-, hpreempt⟩ := setPriority_ok hmove
        have hf : ¬ x.kernel.Forgets p := by
          have hremembers := ho _ List.mem_cons_self
          rw [Record.remembers, Bool.not_eq_true', decide_eq_false_iff_not] at hremembers
          exact hremembers
        have hdoes : Does (fun _ => False) (x.kernel.rebase p) y.kernel :=
          preempt_does (hx.sound.inPlace.rebase p) hpreempt
        exact hdoes.exact (hx.sound.rebase p) (he.rebase hx.sound.inPlace hf) id
      · exact (move_does hx.fit hallows hmove).exact hx.sound he ht

/-- What becomes of the running thread when it sets its base priority, before another one may have
to run. -/
structure Rebases (k : Kernel) (p : Priority) : Prop where
  call : k.setPriority p = do
    return (← (k.rebase p).preempt, [.answer (.priority k.running.base)])
  base : (k.rebase p).running.base = p
  priority_eq : (k.rebase p).running.priority =
    ((k.rebase p).lenders k.current).foldl Priority.highest p ↔ ¬ k.Forgets p
  others : ∀ u, u ≠ k.current → (k.rebase p).thread u = k.thread u

theorem rebases (hp : p ≠ .idle) {k : Kernel}
    (he : k.running.priority = (k.lenders k.current).foldl Priority.highest k.running.base) :
    Rebases k p := by
  refine ⟨setPriority_eq hp, ?_, rebase_exact_iff he, ?_⟩
  · rw [running_rebase]
  · intro u hu
    rw [thread_rebase, if_neg hu]

/-- Setting a base priority keeps what waiters lend unless it forgets one of them, and from runs
without such a call every thread comes out with all that is lent to it. -/
theorem boosts_stay (x : Execution) :
    (∀ p, p ≠ .idle →
      x.kernel.running.priority =
        (x.kernel.lenders x.kernel.current).foldl Priority.highest x.kernel.running.base →
      Rebases x.kernel p) ∧
    ∀ h, Reaches h x → JoinedOnce h → OwnersRemember h → x.kernel.Inherits := by
  refine ⟨fun p hp he => rebases hp he, ?_⟩
  intro h hr hj ho
  exact (hr.exact_of_remembers hj ho).inherits (hr.orderly hj).sound.inPlace

/-- The boot thread is boosted and lowers its base priority. -/
def stepping : List Move :=
  [.takeAnswer, .call (.operation .createMutex), .takeAnswer, .call (.operation (.lock 0)),
    .takeAnswer, .call (.spawn "urgent" .critical "work"), .enter, .call (.operation (.lock 0)),
    .takeAnswer, .call (.operation (.setPriority (.lowered .normal 72)))]

theorem boosts_stay_stepping : Reaches (enact stepping).1 (enact stepping).2 ∧
    JoinedOnce (enact stepping).1 ∧ OwnersRemember (enact stepping).1 ∧
    (enact stepping).2.kernel.Inherits ∧
    (enact stepping).2.kernel.running.priority ≠ (enact stepping).2.kernel.running.base ∧
    Rebases (enact stepping).2.kernel .normal := by
  have hr : Reaches (enact stepping).1 (enact stepping).2 := reaches_enact (by decide +kernel)
  have hj : JoinedOnce (enact stepping).1 := by decide +kernel
  have ho : OwnersRemember (enact stepping).1 := by decide +kernel
  have hinherits := (boosts_stay _).2 _ hr hj ho
  refine ⟨hr, hj, ho, hinherits, by decide +kernel, ?_⟩
  exact (boosts_stay _).1 _ (by decide) (hinherits.priority_eq _)

/-- A peer waits for the boot thread, which it does not boost. Then that one lowers its base
priority. -/
def yielding : List Move :=
  [.takeAnswer, .call (.operation .createMutex), .takeAnswer, .call (.operation (.lock 0)),
    .takeAnswer, .call (.spawn "peer" .normal "work"), .takeAnswer,
    .call (.operation .yieldTurn), .enter, .call (.operation (.lock 0)), .takeAnswer]

theorem not_boosts_stay_yielding : Reaches (enact yielding).1 (enact yielding).2 ∧
    (enact yielding).2.kernel.Inherits ∧
    (enact yielding).2.allows (.call (.operation (.setPriority (.lowered .normal 72)))) = true ∧
    ¬ ((enact yielding).2.kernel.rebase (.lowered .normal 72)).running.priority =
      (((enact yielding).2.kernel.rebase (.lowered .normal 72)).lenders mainThread).foldl
        Priority.highest (.lowered .normal 72) := by
  have hr : Reaches (enact yielding).1 (enact yielding).2 := reaches_enact (by decide +kernel)
  have hj : JoinedOnce (enact yielding).1 := by decide +kernel
  have ho : OwnersRemember (enact yielding).1 := by decide +kernel
  have hinherits := (hr.exact_of_remembers hj ho).inherits (hr.orderly hj).sound.inPlace
  exact ⟨hr, hinherits, by decide +kernel, by decide +kernel⟩

end Execution

end RealtimeKernel

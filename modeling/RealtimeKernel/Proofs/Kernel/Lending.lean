import Mathlib.Data.List.Chain
import RealtimeKernel.Proofs.Kernel.Totality

/-!
How far the running thread lends its priority. The walk goes from an owner to the one that this
waits for, and so on. Threads that wait for each other in a circle do not keep it going: whoever
was lent the priority is not behind the running thread any more, and the walk stops there. No
thread is met twice, and a queue in order is in order afterwards.
-/
namespace RealtimeKernel.Kernel
variable {k k' k₁ : Kernel} {o next : ThreadId} {l : List ThreadId}

/-- The threads of a list got the priority of the running one, which comes before them all; each
took its new place in its queue. Nothing else changed. -/
structure Raises (k : Kernel) (l : List ThreadId) (k' : Kernel) : Prop where
  nodup : l.Nodup
  raised : ∀ t ∈ l, k.running.priority.level < (k.priorityOf t).level ∧
    k'.thread t = { k.thread t with priority := k.running.priority }
  others : ∀ t, t ∉ l → k'.thread t = k.thread t
  order : ∀ q, (k'.members q).filter (· ∉ l) = (k.members q).filter (· ∉ l)
  sorted : ∀ q, InOrder k.priorityOf (k.members q) → InOrder k'.priorityOf (k'.members q)
  linked : k'.Linked
  frame : k' = { k with threads := k'.threads, queues := k'.queues }

/-- Lending to `owner` raised the threads of a list, one by one: each is the one that the thread
before it waits for, and behind the last one there is nobody left to raise. -/
structure Lent (k : Kernel) (owner : ThreadId) (l : List ThreadId) (k' : Kernel) : Prop
    extends Raises k l k' where
  start : l.head? =
    if k.running.priority.level < (k.priorityOf owner).level then some owner else none
  chain : l.IsChain fun t u => k.awaited? t = some u
  stop : ∀ t ∈ l.getLast?, ∀ u, k.awaited? t = some u →
    ¬ k.running.priority.level < (k'.priorityOf u).level
  /-- There are as many steps as threads in the list. -/
  ends : ∀ hops, l.length ≤ hops → lend hops k owner = .ok k'
  too_long : ∀ hops, hops < l.length → ∃ k₁ : Kernel,
    lend hops k owner = (k₁.note .inheritanceTooLong).fail .inheritanceCycle

namespace Raises

theorem nil (hk : k.Linked) : Raises k [] k := by
  refine ⟨List.nodup_nil, fun t ht => ?_, fun _ _ => rfl, fun _ => rfl, fun _ h => h, hk, rfl⟩
  cases ht

theorem not_mem_current (h : Raises k l k') : k.current ∉ l :=
  fun hmem => absurd (h.raised k.current hmem).1 (Nat.lt_irrefl _)

theorem length_lt (h : Raises k l k') : l.length < maxThreads := by
  have hcard := (List.nodup_cons.mpr ⟨h.not_mem_current, h.nodup⟩).length_le_card
  rw [List.length_cons, Fintype.card_fin] at hcard
  exact hcard

theorem queue (h : Raises k l k') (t : ThreadId) : (k'.thread t).queue = (k.thread t).queue := by
  by_cases ht : t ∈ l
  · rw [(h.raised t ht).2]
  · rw [h.others t ht]

/-- Every queue has the members that it had. -/
theorem perm (h : Raises k l k') (hk : k.Linked) (q : QueueId) :
    (k'.members q).Perm (k.members q) := by
  refine (List.perm_ext_iff_of_nodup (h.linked.hold.nodup q) (hk.hold.nodup q)).mpr fun t => ?_
  rw [h.linked.mem_iff, hk.mem_iff, h.queue]

/-- One thread is raised, and then others. It is not among them: it has the priority already. -/
theorem cons (hk : k.Linked) (hboost : Boosts o k k₁)
    (hhigh : k.running.priority.level < (k.priorityOf o).level) (h : Raises k₁ l k') :
    Raises k (o :: l) k' := by
  have hne : o ∉ l := by
    intro hmem
    have hagain := (h.raised o hmem).1
    rw [hboost.running_priority, hboost.priorityOf_self] at hagain
    exact Nat.lt_irrefl _ hagain
  refine ⟨List.nodup_cons.mpr ⟨hne, h.nodup⟩, fun t ht => ?_, fun t ht => ?_, fun q => ?_,
    fun q hq => h.sorted q (hboost.2.sorted hk hq), h.linked, ?_⟩
  · by_cases hto : t = o
    · rw [hto, h.others o hne, hboost.2.thread_self]
      exact ⟨hhigh, rfl⟩
    · have hraised := h.raised t ((List.mem_cons.mp ht).resolve_left hto)
      rw [hboost.running_priority, hboost.priorityOf_of_ne hto,
        hboost.2.thread_of_ne hto] at hraised
      exact hraised
  · obtain ⟨hto, htl⟩ := not_or.mp fun hmem => ht (List.mem_cons.mpr hmem)
    rw [h.others t htl, hboost.2.thread_of_ne hto]
  · have hleave := congrFun (hboost.2.leave_eq hk) q
    have hk₁ := hboost.2.linked hk
    simp only [Lines.leave, (hk₁.hold.nodup q).erase_eq_filter,
      (hk.hold.nodup q).erase_eq_filter] at hleave
    have hsplit : ∀ L : List ThreadId,
        L.filter (· ∉ o :: l) = (L.filter (· ∉ l)).filter (· != o) := by
      intro L
      rw [List.filter_filter]
      refine List.filter_congr fun t _ => ?_
      simp only [List.mem_cons, not_or, Bool.decide_and, decide_not, bne, beq_eq_decide]
    have hswap : ∀ L : List ThreadId,
        (L.filter (· ∉ l)).filter (· != o) = (L.filter (· != o)).filter (· ∉ l) := by
      intro L
      simp only [List.filter_filter, Bool.and_comm]
    rw [hsplit, hsplit, h.order, hswap, hleave, hswap]
  · rw [h.frame, hboost.2.frame, hboost.1]

end Raises

theorem lent_of_enough (hk : k.Linked)
    (hlow : ¬ k.running.priority.level < (k.priorityOf o).level) : Lent k o [] k := by
  refine ⟨.nil hk, ?_, .nil, ?_, fun hops _ => lend_of_enough hlow, ?_⟩
  · rw [if_neg hlow]
    rfl
  · intro t ht
    cases ht
  · intro hops hlt
    cases hlt

section Boost
variable (hk : k.Linked) (hhigh : k.running.priority.level < (k.priorityOf o).level)
  (hboost : Boosts o k k₁)
  (hlend : ∀ hops, lend (hops + 1) k o = (k.awaited? o).elim (.ok k₁) (lend hops k₁))
include hk hhigh hboost hlend

theorem lent_last (hnext : k.awaited? o = none) : Lent k o [o] k₁ := by
  refine ⟨.cons hk hboost hhigh (.nil (hboost.2.linked hk)), ?_, List.IsChain.singleton o, ?_,
    fun hops hle => ?_, fun hops hlt => ?_⟩
  · rw [if_pos hhigh]
    rfl
  · intro t ht u hu
    obtain rfl : o = t := Option.some.inj ht
    rw [hnext] at hu
    cases hu
  · obtain ⟨hops, rfl⟩ := Nat.exists_eq_add_of_lt hle
    rw [List.length_nil, Nat.zero_add, hlend, hnext]
    rfl
  · obtain rfl := Nat.lt_one_iff.mp hlt
    exact ⟨k, lend_zero hhigh⟩

theorem lent_on (hnext : k.awaited? o = some next) (h : Lent k₁ next l k') :
    Lent k o (o :: l) k' := by
  have hawaited := hboost.awaited
  have hprio := hboost.running_priority
  have hstart := h.start
  have hchain := h.chain
  have hstop := h.stop
  rw [hawaited] at hchain hstop
  rw [hprio] at hstart hstop
  refine ⟨.cons hk hboost hhigh h.toRaises, ?_, ?_, ?_, fun hops hle => ?_, fun hops hlt => ?_⟩
  · rw [if_pos hhigh]
    rfl
  · refine List.isChain_cons.mpr ⟨fun t ht => ?_, hchain⟩
    rw [hstart] at ht
    split at ht
    · rw [← Option.some.inj ht]
      exact hnext
    · cases ht
  · intro t ht u hu
    cases l with
    | nil =>
        obtain rfl : o = t := Option.some.inj ht
        rw [hnext] at hu
        obtain rfl := Option.some.inj hu
        split at hstart
        · cases hstart
        · rename_i hlow
          have hsame : k'.priorityOf next = k₁.priorityOf next := by
            rw [priorityOf, h.others next List.not_mem_nil, priorityOf]
          rw [hsame]
          exact hlow
    | cons u' l =>
        rw [List.getLast?_cons_cons] at ht
        exact hstop t ht u hu
  · obtain ⟨hops, rfl⟩ := Nat.exists_eq_add_of_lt hle
    rw [hlend, hnext]
    exact h.ends _ (Nat.le_add_right _ _)
  · cases hops with
    | zero => exact ⟨k, lend_zero hhigh⟩
    | succ hops =>
        rw [hlend, hnext]
        exact h.too_long hops (Nat.lt_of_succ_lt_succ hlt)

end Boost

/-- The walk ends. Its measure is the number of threads behind the running one: each boost takes
one of them away, whichever way the walk goes. -/
theorem exists_lent {bound : Nat} (hk : k.Linked) (hbound : k.outranked.card ≤ bound)
    (o : ThreadId) : ∃ l k', Lent k o l k' := by
  induction bound generalizing k o with
  | zero =>
      refine ⟨[], k, lent_of_enough hk fun hhigh => ?_⟩
      have hmem : o ∈ k.outranked := Finset.mem_filter.mpr ⟨Finset.mem_univ o, hhigh⟩
      rw [Finset.card_eq_zero.mp (Nat.le_zero.mp hbound)] at hmem
      cases hmem
  | succ bound ih =>
      by_cases hhigh : k.running.priority.level < (k.priorityOf o).level
      · obtain ⟨k₁, hboost, hlend⟩ := lend_of_high hk hhigh
        have hcard := hboost.card_outranked hhigh
        cases hnext : k.awaited? o with
        | none => exact ⟨[o], k₁, lent_last hk hhigh hboost hlend hnext⟩
        | some next =>
            obtain ⟨l, k', hlent⟩ := ih (hboost.2.linked hk) (by omega) next
            exact ⟨o :: l, k', lent_on hk hhigh hboost hlend hnext hlent⟩
      · exact ⟨[], k, lent_of_enough hk hhigh⟩

/-- Lending always ends well: it raises fewer threads than there are, none of them twice, and
finds no circle. -/
structure LendsOn (k : Kernel) (owner : ThreadId) (l : List ThreadId) (k' : Kernel) : Prop
    extends Lent k owner l k' where
  bounded : l.length ≤ maxThreads - 1
  spares : k.current ∉ l
  finishes : lend maxThreads k owner = .ok k'
  perm : ∀ q, (k'.members q).Perm (k.members q)

/-- Whoever waits for whom, lending a priority ends, and with no more steps than there are other
threads. -/
theorem lend_ends (k : Kernel) (owner : ThreadId) (hk : k.Linked) :
    ∃ l k', LendsOn k owner l k' := by
  obtain ⟨l, k', hlent⟩ := exists_lent hk (Nat.le_refl _) owner
  have hlength := hlent.length_lt
  exact ⟨l, k', hlent, Nat.le_sub_one_of_lt hlength, hlent.not_mem_current,
    hlent.ends _ (Nat.le_of_lt hlength), hlent.perm hk⟩

/-- A thread that owns a mutex and waits for another one. -/
def waiter (owned wanted : MutexId) : Thread :=
  { priority := .normal
    base := .normal
    state := .waitingMutex
    queue := some (.mutex wanted)
    held := [owned] }

/-- A queue with one member, over links that are blank then. -/
def alone (t : ThreadId) : ThreadQueue maxThreads × Links maxThreads :=
  ({ head := some t, tail := some t, length := 1 }, .empty maxThreads)

/-- Two threads that wait for each other's mutex, and a more urgent one that runs. -/
def deadlocked : Kernel :=
  let k : Kernel := { config := .standard }
  let k := ((k.setOwner 0 (some 1)).setOwner 1 (some 2)).setThread 0
    { priority := .critical, base := .critical, state := .running }
  let k := (k.setThread 1 (waiter 0 1)).putQueue (.mutex 1) (alone 1)
  (k.setThread 2 (waiter 1 0)).putQueue (.mutex 0) (alone 2)

theorem linked_deadlocked : deadlocked.Linked := by
  have hblank : (((({ config := .standard } : Kernel).setOwner 0 (some 1)).setOwner 1
      (some 2)).setThread 0
        { priority := .critical, base := .critical, state := .running }).Linked :=
    linked_of_blank rfl (by decide +kernel)
  have hmoves : Moves false 1 (waiter 0 1) _ _ := (hblank.moves_link rfl (q := .mutex 1) rfl
    (relink_eq_ok.mpr ⟨alone 1, by decide +kernel, rfl⟩)).1
  have hfirst := hmoves.linked hblank
  have hmoves : Moves false 2 (waiter 1 0) _ _ := (hfirst.moves_link rfl (q := .mutex 0) rfl
    (relink_eq_ok.mpr ⟨alone 2, by decide +kernel, rfl⟩)).1
  exact hmoves.linked hfirst

example : deadlocked.awaited? 1 = some 2 ∧ deadlocked.awaited? 2 = some 1 := by decide +kernel

theorem lend_ends_deadlocked :
    deadlocked.Linked ∧ ∃ l k', LendsOn deadlocked 1 l k' :=
  ⟨linked_deadlocked, lend_ends deadlocked 1 linked_deadlocked⟩

end RealtimeKernel.Kernel

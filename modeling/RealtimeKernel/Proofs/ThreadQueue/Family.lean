import Mathlib.Logic.Function.Basic
import RealtimeKernel.Proofs.ThreadQueue

/-!
Thread queues that share one table of links. No two of them have a member in common, so what
an operation does to the links of one queue does not show in another one.
-/
namespace RealtimeKernel.ThreadQueue
variable {ι : Type} {n : Nat} {queues : ι → ThreadQueue n} {links links' : Links n}
  {lines : ι → List (Fin n)} {queue : ThreadQueue n} {q : ι} {i : Fin n} {l : List (Fin n)}

/-- The queues have exactly these members, in order, and no two of them share one. -/
structure Family (queues : ι → ThreadQueue n) (links : Links n) (lines : ι → List (Fin n)) :
    Prop where
  holds : ∀ q, (queues q).Holds links (lines q)
  apart : ∀ {q p i}, i ∈ lines q → i ∈ lines p → q = p

namespace Family

theorem nodup (h : Family queues links lines) (q : ι) : (lines q).Nodup := (h.holds q).nodup

/-- The links of nodes in no queue do not count. -/
theorem congr (h : Family queues links lines)
    (same : ∀ q, ∀ i ∈ lines q, links'.get i = links.get i) : Family queues links' lines :=
  ⟨fun q => (h.holds q).congr (same q), h.apart⟩

variable [DecidableEq ι]

/-- One queue changes, and no link of a member of another one does. -/
theorem replace (h : Family queues links lines) (hq : queue.Holds links' l)
    (frame : ∀ p, p ≠ q → ∀ i ∈ lines p, links'.get i = links.get i)
    (apart : ∀ p, p ≠ q → ∀ i ∈ lines p, i ∉ l) :
    Family (Function.update queues q queue) links' (Function.update lines q l) := by
  refine ⟨fun p => ?_, fun {p p' i} hp hp' => ?_⟩
  · by_cases hpq : p = q
    · subst hpq
      rw [Function.update_self, Function.update_self]
      exact hq
    · rw [Function.update_of_ne hpq, Function.update_of_ne hpq]
      exact (h.holds p).congr (frame p hpq)
  · by_cases hpq : p = q <;> by_cases hpq' : p' = q
    · rw [hpq, hpq']
    · rw [hpq, Function.update_self] at hp
      rw [Function.update_of_ne hpq'] at hp'
      exact absurd hp (apart p' hpq' i hp')
    · rw [hpq', Function.update_self] at hp'
      rw [Function.update_of_ne hpq] at hp
      exact absurd hp' (apart p hpq i hp)
    · rw [Function.update_of_ne hpq] at hp
      rw [Function.update_of_ne hpq'] at hp'
      exact h.apart hp hp'

/-- A node that is in no queue enters one at its place there. -/
theorem enter (h : Family queues links lines) (free : ∀ p, i ∉ lines p) {ahead : Bool}
    {prio : Fin n → Priority} (hq : queue.Holds links' (lineUp ahead prio i (lines q)))
    (frame : ∀ j, j ≠ i → j ∉ lines q → links'.get j = links.get j) :
    Family (Function.update queues q queue) links'
      (Function.update lines q (lineUp ahead prio i (lines q))) := by
  refine h.replace hq (fun p hp j hj => frame j ?_ ?_) (fun p hp j hj => ?_)
  · rintro rfl
    exact free p hj
  · exact fun hj' => hp (h.apart hj hj')
  · rw [mem_lineUp]
    rintro (rfl | hj')
    · exact free p hj
    · exact hp (h.apart hj hj')

/-- A member leaves its queue. -/
theorem leave (h : Family queues links lines) (hq : queue.Holds links' ((lines q).erase i))
    (frame : ∀ j, j ∉ lines q → links'.get j = links.get j) :
    Family (Function.update queues q queue) links'
      (Function.update lines q ((lines q).erase i)) := by
  refine h.replace hq (fun p hp j hj => frame j ?_) (fun p hp j hj => ?_)
  · exact fun hj' => hp (h.apart hj hj')
  · exact fun hj' => hp (h.apart hj (List.mem_of_mem_erase hj'))

end Family

end RealtimeKernel.ThreadQueue

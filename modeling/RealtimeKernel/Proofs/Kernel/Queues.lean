import RealtimeKernel.Kernel.Basic
import RealtimeKernel.Proofs.ThreadQueue.Family

/-!
All queues of the kernel together, as lists. They share one table of links, so no thread is a
member of two of them, and what happens in one queue leaves the others as they are.
-/
namespace RealtimeKernel

/-- The members of every queue. -/
abbrev Lines := QueueId → List ThreadId

namespace Lines

/-- A thread is in no queue any more. -/
def leave (L : Lines) (t : ThreadId) : Lines := fun q => (L q).erase t

/-- A thread enters a queue. -/
def enter (L : Lines) (ahead : Bool) (prio : ThreadId → Priority) (q : QueueId) (t : ThreadId) :
    Lines :=
  Function.update L q (lineUp ahead prio t (L q))

variable {L : Lines} {ahead : Bool} {prio : ThreadId → Priority} {q p : QueueId} {t u : ThreadId}

theorem leave_of_free (free : ∀ q, t ∉ L q) : L.leave t = L := by
  funext q
  exact List.erase_of_not_mem (free q)

theorem enter_self : L.enter ahead prio q t q = lineUp ahead prio t (L q) :=
  Function.update_self q _ L

theorem enter_of_ne (h : p ≠ q) : L.enter ahead prio q t p = L p :=
  Function.update_of_ne h _ L

theorem mem_enter : u ∈ L.enter ahead prio q t p ↔ p = q ∧ u = t ∨ u ∈ L p := by
  by_cases h : p = q
  · subst h
    rw [enter_self, mem_lineUp]
    simp
  · rw [enter_of_ne h]
    simp [h]

theorem length_enter : (L.enter ahead prio q t p).length =
    (L p).length + if p = q then 1 else 0 := by
  by_cases h : p = q
  · subst h
    rw [enter_self, length_lineUp, if_pos rfl]
  · rw [enter_of_ne h, if_neg h, Nat.add_zero]

end Lines

namespace Queues
variable {qs : Queues} {L : Lines} {q : QueueId} {t : ThreadId}

theorem get_set (qs : Queues) (q p : QueueId) (queue : ThreadQueue maxThreads) :
    (qs.set q queue).get p = if q = p then queue else qs.get p := by
  cases q <;> cases p <;> simp only [set, get, get_set_fin] <;> simp

theorem links_set (qs : Queues) (q : QueueId) (queue : ThreadQueue maxThreads) :
    (qs.set q queue).links = qs.links := by
  cases q <;> rfl

theorem get_links (qs : Queues) (links : Links maxThreads) (p : QueueId) :
    { qs with links }.get p = qs.get p := by
  cases p <;> rfl

/-- The queues have exactly these members, in order, no two of them share one, and whoever
stands in none has a blank link. -/
structure Hold (qs : Queues) (L : Lines) : Prop
    extends ThreadQueue.Family qs.get qs.links L where
  blank : ∀ t, (∀ q, t ∉ L q) → qs.links.get t = {}

theorem hold_empty : ({} : Queues).Hold fun _ => [] := by
  refine ⟨⟨fun q => ?_, fun h => by cases h⟩, fun t _ => get_replicate _ t⟩
  have hq : ({} : Queues).get q = {} := by
    cases q <;> simp only [get, get_replicate]
  rw [hq]
  exact ThreadQueue.holds_nil _

theorem Hold.members_eq (h : qs.Hold L) : qs.members = L := by
  funext q
  exact (h.holds q).toHolds.toList

theorem Hold.head_eq (h : qs.Hold L) (q : QueueId) : (qs.get q).head = (L q).head? :=
  (h.holds q).head

theorem Hold.nodup (h : qs.Hold L) (q : QueueId) : (L q).Nodup := h.toFamily.nodup q

/-- One queue and the links were written. -/
theorem Hold.of_update {queue : ThreadQueue maxThreads} {links : Links maxThreads}
    {l : List ThreadId}
    (h : ThreadQueue.Family (Function.update qs.get q queue) links (Function.update L q l))
    (blank : ∀ t, (∀ p, t ∉ Function.update L q l p) → links.get t = {}) :
    ({ qs with links }.set q queue).Hold (Function.update L q l) := by
  have hget : ({ qs with links }.set q queue).get = Function.update qs.get q queue := by
    funext p
    rw [get_set, get_links, Function.update_apply]
    simp only [eq_comm]
  refine ⟨?_, ?_⟩
  · rw [hget, links_set]
    exact h
  · rw [links_set]
    exact blank

section Enter
variable (h : qs.Hold L) (free : ∀ q, t ∉ L q) (q : QueueId) (prio : ThreadId → Priority)
include h

/-- Whoever is in no queue after a thread entered one was in none before. -/
theorem Hold.blank_enter {ahead : Bool} {links : Links maxThreads}
    (frame : ∀ u, u ≠ t → u ∉ L q → links.get u = qs.links.get u) (u : ThreadId)
    (hu : ∀ p, u ∉ L.enter ahead prio q t p) : links.get u = {} := by
  simp only [Lines.mem_enter, not_or] at hu
  rw [frame u (fun hut => (hu q).1 ⟨rfl, hut⟩) (hu q).2]
  exact h.blank u fun p => (hu p).2

/-- There are fewer threads than a queue can count. -/
theorem Hold.room : (L q).length < ThreadQueue.capacity :=
  Nat.lt_of_le_of_lt (h.holds q).toHolds.length_le (by decide)

include free

theorem Hold.insert :
    ∃ r, (qs.get q).insert qs.links prio t = some r ∧
      ({ qs with links := r.2 }.set q r.1).Hold (L.enter false prio q t) := by
  obtain ⟨r, hr, hq, frame⟩ := (h.holds q).insert (free q) (h.room q) prio
  exact ⟨r, hr, Hold.of_update (h.toFamily.enter free hq frame) (h.blank_enter q prio frame)⟩

theorem Hold.insertAhead :
    ∃ r, (qs.get q).insertAhead qs.links prio t = some r ∧
      ({ qs with links := r.2 }.set q r.1).Hold (L.enter true prio q t) := by
  obtain ⟨r, hr, hq, frame⟩ := (h.holds q).insertAhead (free q) (h.room q) prio
  exact ⟨r, hr, Hold.of_update (h.toFamily.enter free hq frame) (h.blank_enter q prio frame)⟩

end Enter

theorem Hold.leave_eq (h : qs.Hold L) (ht : t ∈ L q) :
    L.leave t = Function.update L q ((L q).erase t) := by
  funext p
  by_cases hp : p = q
  · subst hp
    rw [Function.update_self]
    rfl
  · rw [Function.update_of_ne hp]
    exact List.erase_of_not_mem fun hp' => hp (h.apart hp' ht)

theorem Hold.free_of_leave (h : qs.Hold L) (p : QueueId) : t ∉ L.leave t p :=
  (h.nodup p).not_mem_erase

theorem Hold.mem_leave (h : qs.Hold L) {u : ThreadId} {p : QueueId} :
    u ∈ L.leave t p ↔ u ≠ t ∧ u ∈ L p := (h.nodup p).mem_erase_iff

theorem Hold.remove (h : qs.Hold L) (ht : t ∈ L q) :
    ∃ r, (qs.get q).remove qs.links t = some r ∧
      ({ qs with links := r.2 }.set q r.1).Hold (L.leave t) := by
  obtain ⟨r, hr, hq, reset, frame⟩ := (h.holds q).remove ht
  refine ⟨r, hr, ?_⟩
  have blank : ∀ u, (∀ p, u ∉ L.leave t p) → r.2.get u = {} := by
    intro u hu
    by_cases hut : u = t
    · rw [hut]
      exact reset
    · have hfree : ∀ p, u ∉ L p := fun p hp => hu p (h.mem_leave.mpr ⟨hut, hp⟩)
      rw [frame u (hfree q)]
      exact h.blank u hfree
  rw [h.leave_eq ht] at blank ⊢
  exact Hold.of_update (h.toFamily.leave hq frame) blank

/-- The link of a thread that is in no queue does not count. -/
theorem Hold.clear (h : qs.Hold L) (free : ∀ q, t ∉ L q) :
    { qs with links := qs.links.set t {} t.isLt }.Hold L := by
  have hget : { qs with links := qs.links.set t {} t.isLt }.get = qs.get :=
    funext (get_links qs _)
  have links : ∀ u, (qs.links.set t {} t.isLt).get u = if t = u then {} else qs.links.get u :=
    fun u => get_set_fin qs.links t u {}
  refine ⟨?_, fun u hu => ?_⟩
  · rw [hget]
    refine h.toFamily.congr fun p u hu => ?_
    rw [links, if_neg]
    rintro rfl
    exact free p hu
  · rw [links, h.blank u hu, ite_self]

end Queues

end RealtimeKernel

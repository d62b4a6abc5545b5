import Mathlib.Data.List.Sort
import Mathlib.Data.List.TakeWhile
import RealtimeKernel.Proofs.Chain
import RealtimeKernel.ThreadQueue

/-!
Thread queues as lists. A thread that enters a queue is put before the first member that it
goes before: of a lower priority, or also of its own if it goes ahead of its equals. Taking a
thread out erases it. Both keep a queue in the order of priorities.
-/
namespace RealtimeKernel

/-- The order of priorities; equals may stand in any order. -/
def InOrder {α : Type} (prio : α → Priority) (l : List α) : Prop :=
  l.Pairwise fun a b => (prio a).level ≤ (prio b).level

/-- Does a thread that enters a queue go before a member? -/
def goesBefore {α : Type} (ahead : Bool) (prio : α → Priority) (a b : α) : Bool :=
  if ahead then !(prio b).isHigherThan (prio a) else (prio a).isHigherThan (prio b)

/-- A list with one more thread, at the place where it enters. -/
def lineUp {α : Type} (ahead : Bool) (prio : α → Priority) (a : α) (l : List α) : List α :=
  l.orderedInsert (fun a b => goesBefore ahead prio a b = true) a

section LineUp
variable {α : Type} {ahead : Bool} {prio : α → Priority} {a b : α} {l : List α}

theorem mem_lineUp : b ∈ lineUp ahead prio a l ↔ b = a ∨ b ∈ l := List.mem_orderedInsert _

theorem length_lineUp : (lineUp ahead prio a l).length = l.length + 1 :=
  List.orderedInsert_length _ _ _

/-- The place where a thread enters. -/
theorem lineUp_eq : lineUp ahead prio a l =
    l.takeWhile (fun b => !goesBefore ahead prio a b) ++
      a :: l.dropWhile (fun b => !goesBefore ahead prio a b) := by
  rw [lineUp, List.orderedInsert_eq_take_drop]
  simp

theorem level_le_of_goesBefore (h : goesBefore ahead prio a b = true) :
    (prio a).level ≤ (prio b).level := by
  cases ahead with
  | false => exact Nat.le_of_lt (by simpa [goesBefore] using h)
  | true => simpa [goesBefore, Priority.isHigherThan] using h

theorem level_le_of_not_goesBefore (h : ¬ goesBefore ahead prio a b = true) :
    (prio b).level ≤ (prio a).level := by
  cases ahead with
  | false => simpa [goesBefore, Priority.isHigherThan] using h
  | true => exact Nat.le_of_lt (by simpa [goesBefore, Priority.isHigherThan] using h)

theorem InOrder.lineUp (h : InOrder prio l) : InOrder prio (lineUp ahead prio a l) := by
  induction l with
  | nil => exact List.pairwise_singleton _ _
  | cons b l ih =>
      obtain ⟨hb, hl⟩ := List.pairwise_cons.mp h
      rw [RealtimeKernel.lineUp, List.orderedInsert_cons]
      split
      · rename_i hab
        have hle := level_le_of_goesBefore hab
        refine List.pairwise_cons.mpr ⟨fun c hc => ?_, h⟩
        rcases List.mem_cons.mp hc with rfl | hc
        · exact hle
        · exact Nat.le_trans hle (hb c hc)
      · rename_i hab
        have hle := level_le_of_not_goesBefore hab
        refine List.pairwise_cons.mpr ⟨fun c hc => ?_, ih hl⟩
        rcases (List.mem_orderedInsert _).mp hc with rfl | hc
        · exact hle
        · exact hb c hc

theorem InOrder.congr {prio' : α → Priority} (h : InOrder prio l)
    (same : ∀ a ∈ l, prio' a = prio a) : InOrder prio' l := by
  refine List.Pairwise.imp_of_mem ?_ h
  intro a b ha hb hab
  rw [same a ha, same b hb]
  exact hab

theorem InOrder.sublist {l' : List α} (h : InOrder prio l) (hl : l'.Sublist l) :
    InOrder prio l' := List.Pairwise.sublist hl h

/-- A thread that goes behind its equals comes last among them. -/
theorem filter_lineUp (sorted : InOrder prio l) (p : Priority) :
    (lineUp false prio a l).filter (prio · = p) =
      l.filter (prio · = p) ++ if prio a = p then [a] else [] := by
  induction l with
  | nil =>
      by_cases ha : prio a = p <;> simp [lineUp, ha]
  | cons b l ih =>
      obtain ⟨hle, hsorted⟩ := List.pairwise_cons.mp sorted
      rw [lineUp, List.orderedInsert_cons]
      split
      · rename_i hab
        have hlt : (prio a).level < (prio b).level := by simpa [goesBefore] using hab
        split
        · rename_i ha
          have hnone : (b :: l).filter (prio · = p) = [] := by
            rw [List.filter_eq_nil_iff]
            intro c hc hp
            have hp : prio c = prio a := (of_decide_eq_true hp).trans ha.symm
            rcases List.mem_cons.mp hc with rfl | hmem
            · rw [hp] at hlt
              exact absurd hlt (Nat.lt_irrefl _)
            · have hbc := hle c hmem
              rw [hp] at hbc
              exact absurd hlt (Nat.not_lt.mpr hbc)
          rw [List.filter_cons, if_pos (decide_eq_true ha), hnone]
          rfl
        · rename_i ha
          rw [List.filter_cons_of_neg (by simpa using ha), List.append_nil]
      · have hstep := ih hsorted
        rw [lineUp] at hstep
        rw [List.filter_cons, hstep, List.filter_cons]
        split <;> rfl

end LineUp

namespace ThreadQueue
variable {n : Nat} {q : ThreadQueue n} {links : Links n} {l : List (Fin n)} {i : Fin n}

/-- The queue has exactly the members of a list, in order, and counts them. -/
structure Holds (q : ThreadQueue n) (links : Links n) (l : List (Fin n)) : Prop
    extends q.toChain.Holds links l where
  length_eq : q.length.toNat = l.length

theorem holds_nil (links : Links n) : ({} : ThreadQueue n).Holds links [] :=
  ⟨Chain.holds_nil links, rfl⟩

theorem Holds.congr {links' : Links n} (h : q.Holds links l)
    (same : ∀ i ∈ l, links'.get i = links.get i) : q.Holds links' l :=
  ⟨h.toHolds.congr same, h.length_eq⟩

theorem Holds.length_le_capacity (h : q.Holds links l) : l.length ≤ capacity := by
  rw [← h.length_eq]
  exact Nat.le_of_lt_succ q.length.toNat_lt

/-- A queue that is as long as it can count takes nobody in. -/
theorem Holds.linkBefore_full (h : q.Holds links l) (full : l.length = capacity)
    (next : Option (Fin n)) : q.linkBefore links i next = none :=
  if_pos (h.length_eq.trans full)

/-- Where the code looks for the place of a thread, and the list with the thread there. -/
theorem Holds.linkBefore_find (h : q.Holds links l) (hi : i ∉ l) (room : l.length < capacity)
    (ahead : Bool) (prio : Fin n → Priority) :
    ∃ r, q.linkBefore links i ((q.toList links).find? (goesBefore ahead prio i)) = some r ∧
      r.1.Holds r.2 (lineUp ahead prio i l) ∧
      ∀ j, j ≠ i → j ∉ l → r.2.get j = links.get j := by
  have hsplit : l.takeWhile (fun b => !goesBefore ahead prio i b) ++
      l.dropWhile (fun b => !goesBefore ahead prio i b) = l := List.takeWhile_append_dropWhile
  have hfind : (q.toList links).find? (goesBefore ahead prio i) =
      (l.dropWhile fun b => !goesBefore ahead prio i b).head? := by
    rw [h.toHolds.toList, List.find?_eq_head?_dropWhile_not]
  have hchain := h.toHolds
  rw [← hsplit] at hchain
  rw [← h.length_eq] at room
  rw [hfind]
  refine ⟨_, if_neg room.ne, ⟨?_, ?_⟩, ?_⟩
  · rw [lineUp_eq]
    refine hchain.linkBefore ?_
    rwa [hsplit]
  · rw [length_lineUp, ← h.length_eq]
    exact (UInt8.toNat_add q.length 1).trans (Nat.mod_eq_of_lt (Nat.succ_lt_succ room))
  · intro j hji hj
    refine hchain.linkBefore_frame hji ?_
    rwa [hsplit]

theorem Holds.insert (h : q.Holds links l) (hi : i ∉ l) (room : l.length < capacity)
    (prio : Fin n → Priority) :
    ∃ r, q.insert links prio i = some r ∧ r.1.Holds r.2 (lineUp false prio i l) ∧
      ∀ j, j ≠ i → j ∉ l → r.2.get j = links.get j :=
  h.linkBefore_find hi room false prio

theorem Holds.insertAhead (h : q.Holds links l) (hi : i ∉ l) (room : l.length < capacity)
    (prio : Fin n → Priority) :
    ∃ r, q.insertAhead links prio i = some r ∧ r.1.Holds r.2 (lineUp true prio i l) ∧
      ∀ j, j ≠ i → j ∉ l → r.2.get j = links.get j :=
  h.linkBefore_find hi room true prio

/-- The link of the thread that was taken out is blank. -/
theorem Holds.remove (h : q.Holds links l) (hi : i ∈ l) :
    ∃ r, q.remove links i = some r ∧ r.1.Holds r.2 (l.erase i) ∧ r.2.get i = {} ∧
      ∀ j, j ∉ l → r.2.get j = links.get j := by
  obtain ⟨l₁, l₂, hl₁, rfl, he⟩ := List.exists_erase_eq hi
  have hlen := h.length_eq
  rw [List.length_append, List.length_cons] at hlen
  have hne : q.length ≠ 0 := by
    rintro hzero
    rw [hzero] at hlen
    exact absurd hlen.symm (Nat.succ_ne_zero _)
  refine ⟨_, if_neg hne, ?_, Chain.unlink_self q.toChain links i, ?_⟩
  · rw [he]
    refine ⟨h.toHolds.unlink, ?_⟩
    rw [List.length_append]
    change (q.length - 1).toNat = _
    rw [UInt8.toNat_sub_of_le _ _ (UInt8.le_iff_toNat_le.mpr ?_)]
    · change q.length.toNat - 1 = _
      omega
    · change 1 ≤ q.length.toNat
      omega
  · intro j hj
    exact h.toHolds.unlink_frame hj

end ThreadQueue

end RealtimeKernel

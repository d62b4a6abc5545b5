import RealtimeKernel.Proofs.ThreadQueue.Family

/-!
Thread queues do to their nodes what the same operations do to lists. Every operation on a queue
of a family changes the list of that queue alone, whether or not it is sorted: a thread's place
depends on the priorities at that time. A queue that is filled one by one and then popped until
it is empty sorts by priority, and keeps equals in order. All of this goes as far as a queue can
count; no more nodes enter it then.
-/
namespace RealtimeKernel

/-! The walk to the place of a thread. -/

namespace Links
variable {n : Nat} {links : Links n} {stop : Fin n → Bool} {p : Option (Fin n)} {l : List (Fin n)}

/-- The walk along the `next` links stops at the first element that it is to stop at, or behind
the last one. It takes no bound on the number of steps. -/
inductive Seeks (links : Links n) (stop : Fin n → Bool) :
    Option (Fin n) → Option (Fin n) → Prop
  | off : Seeks links stop none none
  | here {i} (h : stop i = true) : Seeks links stop (some i) (some i)
  | on {i r} (h : stop i = false) (rest : Seeks links stop (links.get i).next r) :
      Seeks links stop (some i) r

theorem Segment.seeks (h : links.Segment p l none) (stop : Fin n → Bool) :
    links.Seeks stop l.head? (l.find? stop) := by
  induction l generalizing p with
  | nil => exact .off
  | cons i l ih =>
      cases hi : stop i with
      | true =>
          rw [List.find?_cons_of_pos hi]
          exact .here hi
      | false =>
          have hnext : (links.get i).next = l.head? := by rw [h.1, Option.or_none]
          rw [List.find?_cons_of_neg (by simp [hi])]
          refine .on hi ?_
          rw [hnext]
          exact ih h.2

end Links

/-! The place of a thread in a list, and the order that comes of it. -/

section Order
variable {α : Type} {prio : α → Priority} {a : α} {l l₁ l₂ : List α}

/-- `l'` is `l` with `a` immediately before the first member of a kind, at the end if there is
none. -/
def PutBefore (kind : α → Prop) (a : α) (l l' : List α) : Prop :=
  ∃ l₁ l₂, l = l₁ ++ l₂ ∧ l' = l₁ ++ a :: l₂ ∧ (∀ b ∈ l₁, ¬ kind b) ∧ ∀ b ∈ l₂.head?, kind b

theorem putBefore_lineUp (ahead : Bool) (prio : α → Priority) (a : α) (l : List α) :
    PutBefore (fun b => goesBefore ahead prio a b = true) a l (lineUp ahead prio a l) := by
  refine ⟨_, _, List.takeWhile_append_dropWhile.symm, lineUp_eq, fun b hb => ?_, fun b hb => ?_⟩
  · simpa using List.mem_takeWhile_imp hb
  · have hne : l.dropWhile (fun b => !goesBefore ahead prio a b) ≠ [] := by
      intro hnil
      rw [hnil] at hb
      cases hb
    have hstop := List.head_dropWhile_not (fun b => !goesBefore ahead prio a b) hne
    rw [List.head?_eq_some_head hne] at hb
    obtain rfl := Option.some.inj hb
    simpa using hstop

/-- Sorted lists with the same members at each level, in the same order, are the same. -/
theorem InOrder.eq_of_filter (h₁ : InOrder prio l₁) (h₂ : InOrder prio l₂)
    (same : ∀ p, l₁.filter (prio · = p) = l₂.filter (prio · = p)) : l₁ = l₂ := by
  -- Either head is of the least level, so both are the first of that level.
  have mem : ∀ a, a ∈ l₁ ↔ a ∈ l₂ := by
    intro a
    have ha := congrArg (a ∈ ·) (same (prio a))
    simpa using ha
  induction l₁ generalizing l₂ with
  | nil =>
      cases l₂ with
      | nil => rfl
      | cons b l₂ => simpa using (mem b).mpr (by simp)
  | cons a l₁ ih =>
      cases l₂ with
      | nil => simpa using (mem a).mp (by simp)
      | cons b l₂ =>
          obtain ⟨ha, hl₁⟩ := List.pairwise_cons.mp h₁
          obtain ⟨hb, hl₂⟩ := List.pairwise_cons.mp h₂
          have hab : (prio a).level ≤ (prio b).level := by
            rcases List.mem_cons.mp ((mem b).mpr (by simp)) with rfl | hm
            · exact Nat.le_refl _
            · exact ha b hm
          have hba : (prio b).level ≤ (prio a).level := by
            rcases List.mem_cons.mp ((mem a).mp (by simp)) with rfl | hm
            · exact Nat.le_refl _
            · exact hb a hm
          have hprio : prio b = prio a := by
            cases hpa : prio a; cases hpb : prio b
            simp only [hpa, hpb] at hab hba
            simp only [Priority.mk.injEq]
            omega
          have hhead := same (prio a)
          rw [List.filter_cons_of_pos (by simp), List.filter_cons_of_pos (by simpa using hprio)]
            at hhead
          obtain ⟨rfl, -⟩ := List.cons.inj hhead
          have hrest : ∀ p, l₁.filter (prio · = p) = l₂.filter (prio · = p) := by
            intro p
            have hp := same p
            rw [List.filter_cons, List.filter_cons] at hp
            split at hp
            · exact (List.cons.inj hp).2
            · exact hp
          rw [ih hl₁ hl₂ hrest]
          intro c
          have hc := congrArg (c ∈ ·) (hrest (prio c))
          simpa using hc

/-- The threads of a list enter another one by one. -/
def lineUpAll (prio : α → Priority) (is l : List α) : List α :=
  is.foldl (fun l a => lineUp false prio a l) l

theorem InOrder.lineUpAll (is : List α) (h : InOrder prio l) :
    InOrder prio (lineUpAll prio is l) := by
  induction is generalizing l with
  | nil => exact h
  | cons a is ih => exact ih h.lineUp

theorem filter_lineUpAll (is : List α) (h : InOrder prio l) (p : Priority) :
    (lineUpAll prio is l).filter (prio · = p) =
      l.filter (prio · = p) ++ is.filter (prio · = p) := by
  induction is generalizing l with
  | nil => exact (List.append_nil _).symm
  | cons a is ih =>
      have horder : InOrder prio (lineUp false prio a l) := h.lineUp
      have hstep := ih horder
      rw [filter_lineUp h] at hstep
      rw [RealtimeKernel.lineUpAll, List.foldl_cons]
      rw [RealtimeKernel.lineUpAll] at hstep
      rw [hstep, List.filter_cons, List.append_assoc]
      by_cases ha : prio a = p <;> simp [ha]

/-- Not of a lower priority. -/
def notLower (prio : α → Priority) (a b : α) : Bool := decide ((prio a).level ≤ (prio b).level)

theorem notLower_trans (a b c : α) (hab : notLower prio a b = true)
    (hbc : notLower prio b c = true) : notLower prio a c = true := by
  simp only [notLower, decide_eq_true_eq] at *
  exact Nat.le_trans hab hbc

theorem notLower_total (a b : α) : (notLower prio a b || notLower prio b a) = true := by
  simp only [notLower, Bool.or_eq_true, decide_eq_true_eq]
  exact Nat.le_total _ _

/-- The stable sort by priority. -/
def sortByPriority (prio : α → Priority) (l : List α) : List α := l.mergeSort (notLower prio)

theorem inOrder_sortByPriority (prio : α → Priority) (l : List α) :
    InOrder prio (sortByPriority prio l) :=
  (List.pairwise_mergeSort notLower_trans notLower_total l).imp of_decide_eq_true

theorem filter_sortByPriority (prio : α → Priority) (l : List α) (p : Priority) :
    (sortByPriority prio l).filter (prio · = p) = l.filter (prio · = p) := by
  -- What has one priority is sorted as it stands, so the sort leaves its order.
  have equals : (l.filter (prio · = p)).Pairwise fun a b => notLower prio a b = true := by
    refine List.pairwise_of_forall_mem_list fun a ha b hb => ?_
    simp only [List.mem_filter, decide_eq_true_eq] at ha hb
    simp [notLower, ha.2, hb.2]
  have hsub : (l.filter (prio · = p)).Sublist (sortByPriority prio l) :=
    List.sublist_mergeSort notLower_trans notLower_total equals List.filter_sublist
  have hperm : ((sortByPriority prio l).filter (prio · = p)).Perm (l.filter (prio · = p)) :=
    (List.mergeSort_perm l _).filter _
  have hfilter := hsub.filter (prio · = p)
  rw [List.filter_filter] at hfilter
  simp only [Bool.and_self] at hfilter
  exact (hfilter.eq_of_length hperm.length_eq.symm).symm

/-- Entering an empty list one by one is the stable sort. -/
theorem lineUpAll_nil (prio : α → Priority) (is : List α) :
    lineUpAll prio is [] = sortByPriority prio is := by
  have hnil : InOrder prio ([] : List α) := List.Pairwise.nil
  refine (hnil.lineUpAll is).eq_of_filter (inOrder_sortByPriority prio is) fun p => ?_
  rw [filter_lineUpAll is hnil, filter_sortByPriority]
  rfl

end Order

/-! The operations on one queue of a family. -/

namespace ThreadQueue
variable {ι : Type} {n : Nat} {queues : ι → ThreadQueue n} {links : Links n}
  {lines : ι → List (Fin n)} {queue : ThreadQueue n} {q : ι} {i : Fin n} {l : List (Fin n)}
  {prio : Fin n → Priority} {r : ThreadQueue n × Links n}

/-- Nodes enter a queue one by one. -/
def insertAll (prio : Fin n → Priority) (is : List (Fin n)) (r : ThreadQueue n × Links n) :
    Option (ThreadQueue n × Links n) :=
  is.foldlM (fun r i => r.1.insert r.2 prio i) r

/-- The heads that come out when a queue is popped until it is empty, and what is left. -/
inductive Drains : ThreadQueue n × Links n → List (Fin n) → ThreadQueue n × Links n → Prop
  | empty {s} (h : s.1.popFront s.2 = some (none, s)) : Drains s [] s
  | pop {s s₁ s' i l} (h : s.1.popFront s.2 = some (some i, s₁)) (rest : Drains s₁ l s') :
      Drains s (i :: l) s'

variable [DecidableEq ι]

/-- After an operation with the node `i` the queue `q` reads as `l`, from either end. It is a
family again, and no queue but `q` and no link of a node outside of `q` but `i` was touched. -/
structure Becomes (queues : ι → ThreadQueue n) (links : Links n) (lines : ι → List (Fin n))
    (q : ι) (i : Fin n) (r : ThreadQueue n × Links n) (l : List (Fin n)) : Prop where
  family : Family (Function.update queues q r.1) r.2 (Function.update lines q l)
  forward : r.1.toList r.2 = l
  backward : r.1.toListBack r.2 = l.reverse
  head : r.1.head = l.head?
  tail : r.1.tail = l.getLast?
  length : r.1.length.toNat = l.length
  length_le : l.length ≤ n
  nodup : l.Nodup
  others : ∀ p, p ≠ q → (queues p).toList r.2 = lines p ∧
    ∀ j ∈ lines p, r.2.get j = links.get j
  frame : ∀ j, j ≠ i → j ∉ lines q → r.2.get j = links.get j

/-- A node enters a queue before its first member of a kind. The walk from the head ends at that
member, or behind the last one if there is none. Only a queue that has as many members as it can
count takes nobody in. -/
structure Inserts (queues : ι → ThreadQueue n) (links : Links n) (lines : ι → List (Fin n))
    (q : ι) (i : Fin n) (kind : Fin n → Bool) (o : Option (ThreadQueue n × Links n)) : Prop where
  walk : ∃ next, links.Seeks kind (queues q).head next ∧ o = (queues q).linkBefore links i next
  place : (lines q).length < capacity → ∃ r l, o = some r ∧
    PutBefore (fun j => kind j = true) i (lines q) l ∧ Becomes queues links lines q i r l
  full : (lines q).length = capacity → o = none

/-- What the operations on the queue `q` do, whatever the priorities are. -/
structure Refines (queues : ι → ThreadQueue n) (links : Links n) (lines : ι → List (Fin n))
    (q : ι) : Prop where
  count : (lines q).length ≤ capacity
  insert : ∀ prio i, (∀ p, i ∉ lines p) →
    Inserts queues links lines q i (fun j => decide ((prio i).level < (prio j).level))
      ((queues q).insert links prio i)
  insertAhead : ∀ prio i, (∀ p, i ∉ lines p) →
    Inserts queues links lines q i (fun j => decide ((prio i).level ≤ (prio j).level))
      ((queues q).insertAhead links prio i)
  remove : ∀ i ∈ lines q, ∃ r, (queues q).remove links i = some r ∧
    Becomes queues links lines q i r ((lines q).erase i) ∧ r.2.get i = {}
  popFront_nil : (queues q).popFront links = some (none, queues q, links) ↔ lines q = []
  popFront_cons : ∀ i l, lines q = i :: l → ∃ r,
    (queues q).popFront links = some (some i, r) ∧ Becomes queues links lines q i r l ∧
      r.2.get i = {}
  sorts : lines q = [] → ∀ prio is, is.Nodup → (∀ i ∈ is, ∀ p, i ∉ lines p) →
    is.length ≤ capacity → ∃ s r, insertAll prio is (queues q, links) = some s ∧
      Drains s (sortByPriority prio is) r ∧ Family (Function.update queues q r.1) r.2 lines ∧
        r.1.head = none ∧ (∀ i ∈ is, r.2.get i = {}) ∧ ∀ j, j ∉ is → r.2.get j = links.get j

theorem Family.becomes (h : Family queues links lines)
    (hr : Family (Function.update queues q r.1) r.2 (Function.update lines q l))
    (frame : ∀ j, j ≠ i → j ∉ lines q → r.2.get j = links.get j)
    (away : ∀ p, p ≠ q → i ∉ lines p) : Becomes queues links lines q i r l := by
  have hq := hr.holds q
  rw [Function.update_self, Function.update_self] at hq
  refine ⟨hr, hq.toHolds.toList, hq.toHolds.toListBack, hq.head, hq.tail, hq.length_eq,
    hq.toHolds.length_le, hq.nodup, fun p hp => ⟨?_, fun j hj => frame j ?_ ?_⟩, frame⟩
  · have hother := hr.holds p
    rw [Function.update_of_ne hp, Function.update_of_ne hp] at hother
    exact hother.toHolds.toList
  · rintro rfl
    exact away p hp hj
  · exact fun hj' => hp (h.apart hj hj')

theorem Family.inserts (h : Family queues links lines) (q : ι) (free : ∀ p, i ∉ lines p)
    (ahead : Bool) (prio : Fin n → Priority) :
    Inserts queues links lines q i (goesBefore ahead prio i)
      ((queues q).linkBefore links i
        (((queues q).toList links).find? (goesBefore ahead prio i))) := by
  refine ⟨⟨_, ?_, rfl⟩, fun room => ?_, fun full => (h.holds q).linkBefore_full full _⟩
  · rw [(h.holds q).toHolds.toList, (h.holds q).head]
    exact (h.holds q).segment.seeks _
  · obtain ⟨r, hr, hq, frame⟩ := (h.holds q).linkBefore_find (free q) room ahead prio
    exact ⟨r, _, hr, putBefore_lineUp ahead prio i (lines q),
      h.becomes (h.enter free hq frame) frame fun p _ => free p⟩

theorem Family.removes (h : Family queues links lines) (hi : i ∈ lines q) :
    ∃ r, (queues q).remove links i = some r ∧
      Becomes queues links lines q i r ((lines q).erase i) ∧ r.2.get i = {} := by
  obtain ⟨r, hr, hq, reset, frame⟩ := (h.holds q).remove hi
  exact ⟨r, hr, h.becomes (h.leave hq frame) (fun j _ hj => frame j hj)
    fun p hp hi' => hp (h.apart hi' hi), reset⟩

theorem Holds.popFront_nil (h : queue.Holds links l) :
    queue.popFront links = some (none, queue, links) ↔ l = [] := by
  have hhead : queue.head = l.head? := h.head
  unfold popFront
  rw [hhead]
  cases l with
  | nil => simp
  | cons i l => simp

theorem Family.pops (h : Family queues links lines) (hl : lines q = i :: l) :
    ∃ r, (queues q).popFront links = some (some i, r) ∧ Becomes queues links lines q i r l ∧
      r.2.get i = {} := by
  have hi : i ∈ lines q := by rw [hl]; exact List.mem_cons_self
  obtain ⟨r, hr, hbecomes, reset⟩ := h.removes hi
  have hhead : (queues q).head = some i := by rw [(h.holds q).head, hl]; rfl
  rw [hl, List.erase_cons_head] at hbecomes
  refine ⟨r, ?_, hbecomes, reset⟩
  unfold popFront
  rw [hhead]
  simp only [hr, Option.map_some]

/-- The run of insertions: the list of the queue takes the nodes in one by one. -/
theorem Family.insertAll (h : Family queues links lines) (q : ι) (prio : Fin n → Priority)
    {is : List (Fin n)} (nodup : is.Nodup) (free : ∀ i ∈ is, ∀ p, i ∉ lines p)
    (room : (lines q).length + is.length ≤ capacity) :
    ∃ s, insertAll prio is (queues q, links) = some s ∧
      Family (Function.update queues q s.1) s.2
        (Function.update lines q (lineUpAll prio is (lines q))) ∧
      ∀ j, j ∉ is → j ∉ lines q → s.2.get j = links.get j := by
  induction is generalizing queues links lines with
  | nil =>
      refine ⟨_, rfl, ?_, fun j _ _ => rfl⟩
      change Family (Function.update queues q (queues q)) links (Function.update lines q (lines q))
      rw [Function.update_eq_self, Function.update_eq_self]
      exact h
  | cons i is ih =>
      obtain ⟨hi, hrest⟩ := List.nodup_cons.mp nodup
      have hfree := free i List.mem_cons_self
      rw [List.length_cons] at room
      obtain ⟨r, hr, hq, frame⟩ := (h.holds q).insert (hfree q) (by omega) prio
      have hfamily := h.enter hfree hq frame
      have hfree' : ∀ j ∈ is, ∀ p,
          j ∉ Function.update lines q (lineUp false prio i (lines q)) p := by
        intro j hj p hp
        by_cases hpq : p = q
        · subst hpq
          rw [Function.update_self, mem_lineUp] at hp
          rcases hp with rfl | hp
          · exact hi hj
          · exact free j (List.mem_cons_of_mem i hj) p hp
        · rw [Function.update_of_ne hpq] at hp
          exact free j (List.mem_cons_of_mem i hj) p hp
      have hroom : (Function.update lines q (lineUp false prio i (lines q)) q).length +
          is.length ≤ capacity := by
        rw [Function.update_self, length_lineUp]
        omega
      obtain ⟨s, hs, hfilled, hframe⟩ := ih hfamily hrest hfree' hroom
      rw [Function.update_self] at hs hframe
      rw [Function.update_self, Function.update_idem, Function.update_idem] at hfilled
      refine ⟨s, ?_, hfilled, fun j hj hjq => ?_⟩
      · rw [ThreadQueue.insertAll, List.foldlM_cons, hr]
        exact hs
      · obtain ⟨hji, hjs⟩ := not_or.mp (fun hm => hj (List.mem_cons.mpr hm))
        rw [← frame j hji hjq]
        refine hframe j hjs ?_
        rw [mem_lineUp]
        exact not_or.mpr ⟨hji, hjq⟩

/-- The run of pops: the members come out in order, and their links are blank then. -/
theorem Family.drains (h : Family queues links lines) (q : ι) (hl : lines q = l) :
    ∃ r, Drains (queues q, links) l r ∧
      Family (Function.update queues q r.1) r.2 (Function.update lines q []) ∧
      r.1.head = none ∧ (∀ i ∈ l, r.2.get i = {}) ∧ ∀ j, j ∉ l → r.2.get j = links.get j := by
  induction l generalizing queues links lines with
  | nil =>
      refine ⟨(queues q, links), .empty ((h.holds q).popFront_nil.mpr hl), ?_, ?_, ?_, ?_⟩
      · rw [Function.update_eq_self, ← hl, Function.update_eq_self]
        exact h
      · change (queues q).head = none
        rw [(h.holds q).head, hl]
        rfl
      · intro i hi
        cases hi
      · exact fun j _ => rfl
  | cons i l ih =>
      obtain ⟨r, hpop, hbecomes, reset⟩ := h.pops hl
      have hnodup := h.nodup q
      rw [hl] at hnodup
      have hi := (List.nodup_cons.mp hnodup).1
      obtain ⟨r', hdrains, hfamily, hhead, hblank, hframe⟩ :=
        ih hbecomes.family (Function.update_self q l lines)
      rw [Function.update_self] at hdrains
      rw [Function.update_idem, Function.update_idem] at hfamily
      refine ⟨r', .pop hpop hdrains, hfamily, hhead, fun j hj => ?_, fun j hj => ?_⟩
      · rcases List.mem_cons.mp hj with rfl | hj
        · rw [hframe j hi, reset]
        · exact hblank j hj
      · obtain ⟨hji, hjl⟩ := not_or.mp (fun hm => hj (List.mem_cons.mpr hm))
        rw [hframe j hjl]
        refine hbecomes.frame j hji ?_
        rw [hl]
        exact hj

theorem Family.sorts (h : Family queues links lines) (hl : lines q = [])
    (prio : Fin n → Priority) {is : List (Fin n)} (nodup : is.Nodup)
    (free : ∀ i ∈ is, ∀ p, i ∉ lines p) (room : is.length ≤ capacity) :
    ∃ s r, ThreadQueue.insertAll prio is (queues q, links) = some s ∧
      Drains s (sortByPriority prio is) r ∧ Family (Function.update queues q r.1) r.2 lines ∧
        r.1.head = none ∧ (∀ i ∈ is, r.2.get i = {}) ∧ ∀ j, j ∉ is → r.2.get j = links.get j := by
  obtain ⟨s, hs, hfilled, hframe⟩ := h.insertAll q prio nodup free (by simpa [hl] using room)
  rw [hl, lineUpAll_nil] at hfilled
  obtain ⟨r, hdrains, hfamily, hhead, hblank, hkept⟩ :=
    hfilled.drains q (Function.update_self q _ lines)
  have hmem : ∀ i, i ∈ sortByPriority prio is ↔ i ∈ is := fun i => List.mem_mergeSort
  have hback : Function.update lines q [] = lines := by
    rw [← hl, Function.update_eq_self]
  rw [Function.update_self] at hdrains
  rw [Function.update_idem, Function.update_idem, hback] at hfamily
  refine ⟨s, r, hs, hdrains, hfamily, hhead, fun i hi => hblank i ((hmem i).mpr hi),
    fun j hj => ?_⟩
  rw [hkept j fun hm => hj ((hmem j).mp hm)]
  refine hframe j hj ?_
  rw [hl]
  exact List.not_mem_nil

theorem goesBefore_ahead (prio : Fin n → Priority) (i : Fin n) :
    goesBefore true prio i = fun j => decide ((prio i).level ≤ (prio j).level) := by
  funext j
  simp only [goesBefore, if_true, Priority.isHigherThan, ← decide_not, Nat.not_lt]

/-- Queues over one table of links do what the same operations do to lists, as long as they can
count their members: to the list of the queue at hand, and to nothing else. -/
theorem family_refines (queues : ι → ThreadQueue n) (links : Links n)
    (lines : ι → List (Fin n)) (q : ι) (h : Family queues links lines) :
    Refines queues links lines q := by
  refine ⟨(h.holds q).length_le_capacity, fun prio i free => h.inserts q free false prio,
    fun prio i free => ?_, fun i hi => h.removes hi, (h.holds q).popFront_nil,
    fun i l hl => h.pops hl, fun hl prio is nodup free room => h.sorts hl prio nodup free room⟩
  rw [← goesBefore_ahead]
  exact h.inserts q free true prio

/-- Two queues over five nodes, two of which are free. -/
def twoQueues : Bool → ThreadQueue 5
  | true => { head := some 1, tail := some 0, length := 2 }
  | false => { head := some 2, tail := some 2, length := 1 }

def twoLines : Bool → List (Fin 5)
  | true => [1, 0]
  | false => [2]

def twoLinks : Links 5 := #v[⟨some 1, none⟩, ⟨none, some 0⟩, {}, {}, {}]

theorem refines_two : Family twoQueues twoLinks twoLines ∧
    Refines twoQueues twoLinks twoLines true := by
  have hfamily : Family twoQueues twoLinks twoLines := by
    constructor
    · intro q
      cases q
      · exact ⟨⟨rfl, rfl, by decide, by decide, trivial⟩, rfl⟩
      · exact ⟨⟨rfl, rfl, by decide, by decide, by decide, trivial⟩, rfl⟩
    · decide
  exact ⟨hfamily, family_refines twoQueues twoLinks twoLines true hfamily⟩

/-- All nodes of a table of 256 but the last one. -/
def allButLast : List (Fin 256) := (List.finRange 255).map Fin.castSucc

theorem length_allButLast : allButLast.length = capacity := by
  rw [allButLast, List.length_map, List.length_finRange]
  rfl

theorem last_not_mem_allButLast : Fin.last 255 ∉ allButLast := by
  rw [allButLast, List.mem_map]
  rintro ⟨i, -, hi⟩
  exact Fin.castSucc_ne_last i hi

/-- A queue of 255 nodes, filled one by one, does not take the node that is left. -/
theorem insert_overflows :
    ∃ s, insertAll (fun _ => .normal) allButLast ({}, .empty 256) = some s ∧
      Family (fun _ : Unit => s.1) s.2 (fun _ => allButLast) ∧ Fin.last 255 ∉ allButLast ∧
      s.1.insert s.2 (fun _ => .normal) (Fin.last 255) = none := by
  have hempty : Family (fun _ : Unit => {}) (.empty 256) (fun _ => []) :=
    ⟨fun _ => holds_nil _, fun h => by cases h⟩
  have hnodup : allButLast.Nodup := (List.nodup_finRange 255).map (Fin.castSucc_injective 255)
  obtain ⟨s, hs, hfamily, -⟩ := hempty.insertAll () (fun _ => .normal) hnodup
    (fun _ _ _ => List.not_mem_nil) (by simp [length_allButLast])
  have hline : lineUpAll (fun _ : Fin 256 => Priority.normal) allButLast [] = allButLast := by
    rw [lineUpAll_nil]
    exact List.mergeSort_of_pairwise (List.pairwise_of_forall fun _ _ => rfl)
  simp only [Function.update_eq_const_of_subsingleton, hline] at hfamily
  exact ⟨s, hs, hfamily, last_not_mem_allButLast,
    (hfamily.holds ()).linkBefore_full length_allButLast _⟩

end ThreadQueue

end RealtimeKernel

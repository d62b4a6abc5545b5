import RealtimeKernel.Proofs.Kernel.Successions
import RealtimeKernel.Proofs.Kernel.Totality

/-!
Equals that take turns. If the running thread and the first of the ready ones have one priority and
all others have a lower one, then a thread that yields, or has used up its quantum, goes behind its
equals and the next of them runs. A thread without equals goes on.
-/
namespace RealtimeKernel

/-- A newcomer goes between its equals and those of a lower priority. -/
theorem lineUp_behind {α : Type} {prio : α → Priority} {a : α} {l low : List α}
    (equal : ∀ b ∈ l, prio b = prio a) (lower : ∀ b ∈ low, (prio a).level < (prio b).level) :
    lineUp false prio a (l ++ low) = l ++ a :: low := by
  induction l with
  | nil =>
      cases low with
      | nil => rfl
      | cons b low =>
          refine List.orderedInsert_cons_of_le _ low ?_
          simpa [goesBefore] using lower b List.mem_cons_self
  | cons b l ih =>
      obtain ⟨hb, hl⟩ := List.forall_mem_cons.mp equal
      rw [List.cons_append, lineUp, List.orderedInsert_of_not_le _ _ (by simp [goesBefore, hb])]
      exact congrArg (b :: ·) (ih hl)

/-- In the order of priorities equals of the first place come before all others. -/
theorem InOrder.split {α : Type} {prio : α → Priority} {p : Priority} {l : List α}
    (h : InOrder prio l) (first : ∀ a ∈ l, p.level ≤ (prio a).level) :
    l = (l.filter fun a => prio a = p) ++ l.filter fun a => p.isHigherThan (prio a) := by
  induction l with
  | nil => rfl
  | cons a l ih =>
      obtain ⟨ha, hl⟩ := List.pairwise_cons.mp h
      obtain ⟨hpa, hpl⟩ := List.forall_mem_cons.mp first
      by_cases heq : prio a = p
      · rw [List.filter_cons_of_pos (by simpa using heq)]
        rw [List.filter_cons_of_neg (by simp [heq])]
        exact congrArg (a :: ·) (ih hl hpl)
      · have hlt : p.level < (prio a).level :=
          Nat.lt_of_le_of_ne hpa fun hlevel => heq (Priority.ext_level hlevel.symm)
        have hall : ∀ b ∈ a :: l, p.level < (prio b).level := by
          intro b hb
          rcases List.mem_cons.mp hb with rfl | hb
          · exact hlt
          · exact hlt.trans_le (ha b hb)
        have hnone : ((a :: l).filter fun b => prio b = p) = [] := by
          rw [List.filter_eq_nil_iff]
          intro b hb
          have hb := hall b hb
          rw [decide_eq_true_eq]
          rintro rfl
          exact Nat.lt_irrefl _ hb
        rw [hnone, List.nil_append, List.filter_eq_self.mpr]
        exact fun b hb => Priority.isHigherThan_iff.mpr (hall b hb)

namespace Kernel

variable {k k' : Kernel} {A low : List ThreadId} {a b : ThreadId} {l : List ThreadId}
  {ahead : Bool}

/-- The threads that take turns, the running one first, and the other ready threads. -/
structure Rota (A low : List ThreadId) (k : Kernel) : Prop where
  line : k.current :: k.members .ready = A ++ low
  equal : ∀ t ∈ A, k.priorityOf t = k.running.priority
  lower : ∀ t ∈ low, k.running.priority.level < (k.priorityOf t).level

/-- The running thread and the ready ones of its priority, in order. -/
def peers (k : Kernel) : List ThreadId :=
  k.current :: (k.members .ready).filter fun t => k.priorityOf t = k.running.priority

/-- The ready threads of a lower priority than the running one has, in order. -/
def lesser (k : Kernel) : List ThreadId :=
  (k.members .ready).filter fun t => k.running.priority.isHigherThan (k.priorityOf t)

/-- While no thread of a higher priority is ready, equals take turns. -/
theorem InPlace.rota (hk : k.InPlace)
    (first : ∀ t ∈ k.members .ready, k.running.priority.level ≤ (k.priorityOf t).level) :
    Rota k.peers k.lesser k := by
  refine ⟨?_, ?_, ?_⟩
  · rw [peers, lesser, List.cons_append, ← (hk.sorted .ready).split first]
  · intro t ht
    rcases List.mem_cons.mp ht with rfl | ht
    · rfl
    · exact of_decide_eq_true (List.mem_filter.mp ht).2
  · intro t ht
    exact Priority.isHigherThan_iff.mp (List.mem_filter.mp ht).2

theorem Rota.exists_cons (h : Rota A low k) :
    ∃ l, A = k.current :: l ∧ k.members .ready = l ++ low := by
  cases A with
  | nil =>
      have hlow : k.current ∈ low := by
        have hline : k.current :: k.members .ready = low := h.line
        rw [← hline]
        exact List.mem_cons_self
      exact absurd (h.lower k.current hlow) (Nat.lt_irrefl _)
  | cons a l =>
      obtain ⟨rfl, hready⟩ := List.cons.inj h.line
      exact ⟨l, rfl, hready⟩

/-- The line and the priorities are all that counts. -/
theorem Rota.congr (h : Rota A low k) (current : k'.current = k.current)
    (ready : k'.members .ready = k.members .ready)
    (same : ∀ t, t = k.current ∨ t ∈ k.members .ready → k'.priorityOf t = k.priorityOf t) :
    Rota A low k' := by
  have hmem : ∀ t ∈ A ++ low, k'.priorityOf t = k.priorityOf t := by
    intro t ht
    rw [← h.line] at ht
    exact same t (List.mem_cons.mp ht)
  have hrunning : k'.running.priority = k.running.priority := by
    rw [running, current]
    exact same k.current (Or.inl rfl)
  refine ⟨?_, fun t ht => ?_, fun t ht => ?_⟩
  · rw [current, ready]
    exact h.line
  · rw [hmem t (List.mem_append_left _ ht), hrunning]
    exact h.equal t ht
  · rw [hmem t (List.mem_append_right _ ht), hrunning]
    exact h.lower t ht

/-- The running thread goes behind its equals, and the next one of them runs. -/
theorem Rota.givesWay (h : Rota (a :: b :: l) low k) (hk : k.InPlace)
    (hgives : GivesWay false k k') : Rota (b :: (l ++ [a])) low k' := by
  obtain ⟨rfl, hready⟩ := List.cons.inj h.line
  have hready : k.members .ready = b :: (l ++ low) := hready
  have hpriority := hgives.priorityOf
  obtain ⟨k₁, next, hdispatches, -, hmoves⟩ := hgives
  have hnext : next = b := by
    have hhead := hdispatches.head
    rw [hready] at hhead
    exact (Option.some.inj hhead).symm
  subst hnext
  have hcurrent : k'.current = next := hmoves.current.trans hdispatches.current
  have hrunning : k'.running.priority = k.running.priority := by
    rw [running, hcurrent]
    exact (congrFun hpriority next).trans (h.equal next (by simp))
  have hfree : k.current ∉ l ++ low := by
    intro hmem
    refine hk.not_runs_of_mem (q := .ready) ?_ rfl
    rw [hready]
    exact List.mem_cons_of_mem next hmem
  have hline : k'.members .ready = l ++ k.current :: low := by
    rw [hmoves.members_eq, if_pos rfl, hdispatches.ready_eq, hready]
    rw [List.erase_cons_head, List.erase_of_not_mem hfree]
    refine lineUp_behind (fun t ht => ?_) fun t ht => ?_
    · rw [hpriority, h.equal t (by simp [ht]), h.equal k.current List.mem_cons_self]
    · rw [hpriority, h.equal k.current List.mem_cons_self]
      exact h.lower t ht
  refine ⟨?_, fun t ht => ?_, fun t ht => ?_⟩
  · rw [hcurrent, hline]
    simp
  · rw [hpriority, hrunning]
    refine h.equal t ?_
    simp only [List.mem_cons, List.mem_append, List.not_mem_nil, or_false] at ht ⊢
    tauto
  · rw [hpriority, hrunning]
    exact h.lower t ht

theorem Rota.mem (h : Rota A low k) (ht : a ∈ A) : a = k.current ∨ a ∈ k.members .ready := by
  refine List.mem_cons.mp ?_
  rw [h.line]
  exact List.mem_append_left low ht

/-! Who takes the processor. -/

/-- A thread with some of its quantum left goes on, and so does one without equals. -/
theorem Rota.not_required (h : Rota A low k) (hk : k.InPlace)
    (stays : A.length = 1 ∨ 0 < k.quantumLeft) : k.isPreemptionRequired = false := by
  obtain ⟨l, rfl, hready⟩ := h.exists_cons
  cases hhead : (k.members .ready).head? with
  | none =>
      have hqueue : k.queues.ready.head = none := (hk.head_eq .ready).trans hhead
      unfold isPreemptionRequired
      rw [hqueue]
  | some t =>
      rw [isPreemptionRequired_of_head hk.toLinked hhead]
      rw [hready] at hhead
      cases l with
      | nil =>
          have hlower := h.lower t (List.mem_of_head? hhead)
          split
          · simpa [Priority.isHigherThan] using hlower.le
          · simpa [Priority.isHigherThan] using hlower
      | cons b l =>
          obtain rfl : b = t := Option.some.inj hhead
          have hleft : 0 < k.quantumLeft := by
            refine stays.resolve_left ?_
            simp
          rw [if_pos hleft, h.equal b (by simp)]
          simp [Priority.isHigherThan]

/-- When the quantum is used up an equal takes over. -/
theorem Rota.required (h : Rota (a :: b :: l) low k) (hk : k.InPlace)
    (used : k.quantumLeft = 0) : k.isPreemptionRequired = true := by
  obtain ⟨rfl, hready⟩ := List.cons.inj h.line
  have hhead : (k.members .ready).head? = some b := by
    rw [hready]
    rfl
  rw [isPreemptionRequired_of_head hk.toLinked hhead, if_neg (by omega), h.equal b (by simp)]
  simp [Priority.isHigherThan]

/-- Nothing changes that a thread relies on that only has to return from an operation. -/
structure Upholds (k k' : Kernel) : Prop where
  timers : k'.timers = k.timers
  owner? : ∀ m, k'.owner? m = k.owner? m
  gone : ∀ u, (k.thread u).state.isGone = true → (k'.thread u).state.isGone = true

theorem GivesWay.upholds (h : GivesWay ahead k k') (hk : k.InPlace) :
    Upholds k k' ∧ ∀ u, (k'.thread u).entry = (k.thread u).entry := by
  have hcurrent := hk.state_current
  obtain ⟨k₁, next, hdispatches, htimers, hmoves⟩ := h
  have hnext := hdispatches.ready_next hk
  refine ⟨⟨htimers.trans hdispatches.timers, ?_, fun u hgone => ?_⟩, fun u => ?_⟩
  · exact owner?_eq (hmoves.mutexes.trans hdispatches.mutexes)
  · have hu : u ≠ k.current := by
      rintro rfl
      rw [hcurrent] at hgone
      cases hgone
    have hu' : u ≠ next := by
      rintro rfl
      rw [hnext] at hgone
      cases hgone
    rw [hmoves.thread, if_neg hu, hdispatches.thread, if_neg hu']
    exact hgone
  · rw [hmoves.thread]
    split
    · rename_i hu
      rw [hu]
      rfl
    · rw [hdispatches.thread]
      split
      · rename_i hu
        rw [hu]
      · rfl

/-- The kernel does something that concerns neither the threads of a rota nor their order. -/
structure SameRota (k k' : Kernel) : Prop where
  inPlace : k'.InPlace
  current : k'.current = k.current
  ready : k'.members .ready = k.members .ready
  priorityOf : ∀ t, t = k.current ∨ t ∈ k.members .ready → k'.priorityOf t = k.priorityOf t
  entry : ∀ t ∈ k.members .ready, (k'.thread t).entry = (k.thread t).entry
  config : k'.config = k.config
  contextSwitches : k'.contextSwitches = k.contextSwitches
  upholds : Upholds k k'

theorem InPlace.sameRota (hk : k.InPlace) : SameRota k k :=
  ⟨hk, rfl, rfl, fun _ _ => rfl, fun _ _ => rfl, rfl, rfl, rfl, fun _ => rfl, fun _ => id⟩

/-- Time passes, or the log is collected. -/
theorem InPlace.sameRota_of_clock (hk : k.InPlace) (clock : Clock) (quantumLeft : Nat)
    (journal : List LogRecord) : SameRota k { k with clock, quantumLeft, journal } :=
  ⟨hk.congr rfl rfl fun _ _ ha => Or.inl ha, rfl, rfl, fun _ _ => rfl, fun _ _ => rfl, rfl, rfl,
    rfl, fun _ => rfl, fun _ => id⟩

/-- The running thread takes up its code. -/
theorem InPlace.sameRota_enter (hk : k.InPlace) :
    SameRota k (k.modifyThread k.current fun th => { th with entry := none }) := by
  have hthread := fun u => thread_modifyThread k k.current u fun th => { th with entry := none }
  refine ⟨hk.setThread rfl rfl rfl, rfl, rfl, fun t _ => ?_, fun t ht => ?_, rfl, rfl, rfl,
    fun _ => rfl, fun u hu => ?_⟩
  · rw [priorityOf, hthread]
    split
    · rename_i heq
      rw [heq]
      rfl
    · rfl
  · rw [hthread, if_neg (hk.not_runs_of_mem ht)]
  · rw [hthread]
    split
    · rename_i heq
      rw [heq] at hu
      exact hu
    · exact hu

/-- A thread that is gone is collected. -/
theorem InPlace.sameRota_vacate (hk : k.InPlace) (gone : (k.thread a).state.isGone = true) :
    SameRota k (k.vacate a) := by
  have hthread : ∀ u, (k.vacate a).thread u = if u = a then {} else k.thread u :=
    fun u => thread_replaceThread k a u {}
  have hready : ∀ t ∈ k.members .ready, t ≠ a := by
    rintro t ht rfl
    rw [hk.ready_iff.mpr ht] at gone
    cases gone
  have hcurrent : k.current ≠ a := by
    rintro rfl
    rw [hk.state_current] at gone
    cases gone
  have hinPlace : (k.vacate a).InPlace := by
    refine hk.replaceThread ?_ rfl rfl nofun
    cases hs : (k.thread a).state with
    | inactive => exact Or.inl rfl
    | final => exact Or.inr rfl
    | _ =>
        rw [hs] at gone
        cases gone
  have hmembers : (k.vacate a).members .ready = k.members .ready :=
    replaceThread_members hk.toLinked (hk.queue_eq_none_of_gone gone) rfl .ready
  refine ⟨hinPlace, rfl, hmembers, fun t ht => ?_, fun t ht => ?_, rfl, rfl, rfl, fun _ => rfl,
    fun u hu => ?_⟩
  · have hne : t ≠ a := by
      rcases ht with rfl | ht
      · exact hcurrent
      · exact hready t ht
    rw [priorityOf, hthread, if_neg hne]
    rfl
  · rw [hthread, if_neg (hready t ht)]
  · rw [hthread]
    split
    · rfl
    · exact hu

/-- One thread's turn is over: the next one in the rota runs. -/
structure TurnsOver (A low : List ThreadId) (k k' : Kernel) : Prop where
  inPlace : k'.InPlace
  rota : Rota (A.rotate 1) low k'
  config : k'.config = k.config
  quantumLeft : k'.quantumLeft = k.config.quantum
  contextSwitches : k'.contextSwitches = k.contextSwitches + 1
  clock : k'.clock = k.clock
  upholds : Upholds k k'
  entry : ∀ u, (k'.thread u).entry = (k.thread u).entry

theorem giveWay_counts (hk : k.InPlace) (h : k.giveWay ahead = .ok k') :
    k'.contextSwitches = k.contextSwitches + 1 ∧ k'.clock = k.clock := by
  unfold giveWay at h
  obtain ⟨⟨next, k₁⟩, hnext, h⟩ := bind_eq_ok.mp h
  obtain ⟨k₂, hrejoin, h⟩ := bind_eq_ok.mp h
  obtain ⟨-, rfl⟩ := dispatch_ok h
  obtain ⟨-, -, hmoves, -⟩ := takeNext_ok hk.toLinked hnext
  have hframe : k₁.contextSwitches = k.contextSwitches ∧ k₁.clock = k.clock := by
    rw [hmoves.frame]
    exact ⟨rfl, rfl⟩
  rw [← hframe.1, ← hframe.2, rejoin_frame hrejoin]
  exact ⟨rfl, rfl⟩

theorem Rota.turnsOver (h : Rota (a :: b :: l) low k) (hk : k.InPlace)
    (hgive : k.giveWay false = .ok k') : TurnsOver (a :: b :: l) low k k' := by
  have hgives := giveWay_ok hk hgive
  have hpasses := hgives.passes hk
  obtain ⟨hswitches, hclock⟩ := giveWay_counts hk hgive
  obtain ⟨hupholds, hentry⟩ := hgives.upholds hk
  exact ⟨hgives.inPlace hk, h.givesWay hk hgives, hpasses.config, hpasses.quantumLeft, hswitches,
    hclock, hupholds, hentry⟩

/-- A check whether to give way ends the turn of a thread that has equals and has used up its
quantum, and of no other thread. -/
theorem Rota.preempt_ok (h : Rota A low k) (hk : k.InPlace) (hp : k.preempt = .ok k') :
    if 1 < A.length ∧ k.quantumLeft = 0 then TurnsOver A low k k' else k' = k := by
  obtain ⟨l, rfl, -⟩ := h.exists_cons
  unfold preempt at hp
  cases l with
  | nil =>
      rw [if_neg (by simp)]
      rw [h.not_required hk (Or.inl rfl)] at hp
      exact (Except.ok.inj hp).symm
  | cons b l =>
      by_cases hover : k.quantumLeft = 0
      · rw [if_pos ⟨by simp, hover⟩]
        rw [if_pos (h.required hk hover), hover] at hp
        exact h.turnsOver hk hp
      · rw [if_neg fun hboth => hover hboth.2]
        rw [h.not_required hk (Or.inr (Nat.pos_of_ne_zero hover))] at hp
        exact (Except.ok.inj hp).symm

/-- A thread that yields goes behind its equals, if it has any. -/
theorem Rota.yieldTurn_ok (h : Rota A low k) (hk : k.InPlace)
    (hy : k.yieldTurn = .ok k') : if 1 < A.length then TurnsOver A low k k' else k' = k := by
  have hqueue : k.queues.ready.head = (k.members .ready).head? := hk.head_eq .ready
  obtain ⟨l, rfl, hready⟩ := h.exists_cons
  unfold yieldTurn at hy
  rw [hqueue, hready] at hy
  cases l with
  | nil =>
      rw [if_neg (by simp)]
      cases low with
      | nil => exact (Except.ok.inj hy).symm
      | cons t low =>
          have hlower : k.running.priority.isHigherThan (k.priorityOf t) = true :=
            Priority.isHigherThan_iff.mpr (h.lower t List.mem_cons_self)
          have hstays := hy
          simp only [List.nil_append, List.head?_cons, hlower, if_true] at hstays
          exact (Except.ok.inj hstays).symm
  | cons b l =>
      rw [if_pos (by simp)]
      have hequal : k.running.priority.isHigherThan (k.priorityOf b) = false := by
        rw [h.equal b (by simp)]
        simp [Priority.isHigherThan]
      have hgive : k.giveWay false = .ok k' := by
        simpa only [List.cons_append, List.head?_cons, hequal, Bool.false_eq_true, if_false]
          using hy
      exact h.turnsOver hk hgive

end Kernel

end RealtimeKernel

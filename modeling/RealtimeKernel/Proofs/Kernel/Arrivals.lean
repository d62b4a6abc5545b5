import Mathlib.Data.List.Basic
import RealtimeKernel.Proofs.Kernel.Conditions
import RealtimeKernel.Proofs.Kernel.Inheritance
import RealtimeKernel.Proofs.Kernel.Persistence

/-!
In which order waiters are served. A log is kept of who came into a queue of waiters, or to a new
place in one because its priority rose. Every queue but that of the ready threads stands in the
order of priorities, and equals stand in the order of the log.
-/
namespace RealtimeKernel

section LineUp
variable {α : Type} {prio : α → Priority} {R : α → α → Prop} {a b : α} {l : List α}

/-- A thread that goes behind its equals keeps an order in which it comes after them and before
those of a lower priority. -/
theorem pairwise_lineUp (h : l.Pairwise R) (sorted : InOrder prio l)
    (after : ∀ b ∈ l, (prio b).level ≤ (prio a).level → R b a)
    (before : ∀ b ∈ l, (prio a).level < (prio b).level → R a b) :
    (lineUp false prio a l).Pairwise R := by
  -- The induction follows the newcomer past all that it does not overtake.
  induction l with
  | nil => exact List.pairwise_singleton _ _
  | cons b l ih =>
      obtain ⟨hb, hl⟩ := List.pairwise_cons.mp h
      obtain ⟨hle, hsorted⟩ := List.pairwise_cons.mp sorted
      rw [lineUp, List.orderedInsert_cons]
      split
      · rename_i hab
        have hlt : (prio a).level < (prio b).level := by simpa [goesBefore] using hab
        refine List.pairwise_cons.mpr ⟨fun c hc => ?_, h⟩
        rcases List.mem_cons.mp hc with rfl | hmem
        · exact before c hc hlt
        · exact before c hc (Nat.lt_of_lt_of_le hlt (hle c hmem))
      · rename_i hab
        have hba := level_le_of_not_goesBefore hab
        refine List.pairwise_cons.mpr ⟨fun c hc => ?_, ih hl hsorted ?_ ?_⟩
        · rcases mem_lineUp.mp hc with rfl | hc
          · exact after b List.mem_cons_self hba
          · exact hb c hc
        · exact fun c hc => after c (List.mem_cons_of_mem b hc)
        · exact fun c hc => before c (List.mem_cons_of_mem b hc)

end LineUp

namespace Kernel

variable {k k' k₁ : Kernel} {touched : Object → Prop} {t u v o : ThreadId} {q : QueueId}
  {th : Thread} {ahead : Bool} {log log' l l' : List ThreadId} {w : WakeupResult}
  {state : ThreadState} {m : MutexId}

/-- Does a thread come before another one by rights? It has a higher priority, or the same and
came to it earlier. The newest arrivals come first in the log. -/
def Precedes (log : List ThreadId) (k : Kernel) (t u : ThreadId) : Prop :=
  (k.priorityOf t).level < (k.priorityOf u).level ∨
    (k.priorityOf t).level = (k.priorityOf u).level ∧ log.idxOf u < log.idxOf t

/-- Waiters stand in the order of priorities, and equals in the order of their arrivals. -/
structure Fair (log : List ThreadId) (k : Kernel) : Prop where
  order : ∀ q, q ≠ .ready → (k.members q).Pairwise (Precedes log k)
  logged : ∀ q, q ≠ .ready → ∀ u ∈ k.members q, u ∈ log

/-- What happens to the waiters as these threads arrive, the newest first. -/
structure Arrives (l : List ThreadId) (k k' : Kernel) : Prop where
  fair : ∀ log, Fair log k → Fair (l ++ log) k'
  /-- Whoever arrives comes into the queue or rises in it. -/
  new : ∀ q, q ≠ .ready → ∀ u ∈ k'.members q, u ∈ l →
    u = k.current ∨ (k'.priorityOf u).level < (k.priorityOf u).level
  old : ∀ q, q ≠ .ready → ∀ u ∈ k'.members q, u ∉ l →
    u ∈ k.members q ∧ k'.priorityOf u = k.priorityOf u
  stays : ∀ q, q ≠ .ready → ∀ u ∈ k'.members q, u ≠ k.current →
    u ∈ k.members q ∧ (k'.priorityOf u).level ≤ (k.priorityOf u).level

theorem Arrives.trans (h : Arrives l k k₁) (hcurrent : k₁.current = k.current)
    (h' : Arrives l' k₁ k') : Arrives (l' ++ l) k k' := by
  refine ⟨fun log hfair => ?_, fun q hq u hu hmem => ?_, fun q hq u hu hnot => ?_,
    fun q hq u hu hne => ?_⟩
  · rw [List.append_assoc]
    exact h'.fair _ (h.fair log hfair)
  · by_cases hne : u = k.current
    · exact Or.inl hne
    · obtain ⟨hu₁, hle⟩ := h'.stays q hq u hu (by rwa [hcurrent])
      by_cases hl' : u ∈ l'
      · have hlt := (h'.new q hq u hu hl').resolve_left (by rwa [hcurrent])
        exact Or.inr (Nat.lt_of_lt_of_le hlt (h.stays q hq u hu₁ hne).2)
      · have hl := (List.mem_append.mp hmem).resolve_left hl'
        exact Or.inr (Nat.lt_of_le_of_lt hle ((h.new q hq u hu₁ hl).resolve_left hne))
  · rw [List.mem_append, not_or] at hnot
    obtain ⟨hu₁, hsame⟩ := h'.old q hq u hu hnot.1
    obtain ⟨hu₀, hsame₁⟩ := h.old q hq u hu₁ hnot.2
    exact ⟨hu₀, hsame.trans hsame₁⟩
  · obtain ⟨hu₁, hle⟩ := h'.stays q hq u hu (by rwa [hcurrent])
    obtain ⟨hu₀, hle₁⟩ := h.stays q hq u hu₁ hne
    exact ⟨hu₀, Nat.le_trans hle hle₁⟩

/-- Before that some may have left. -/
theorem Arrives.after (h' : Arrives l k₁ k') (h : Arrives [] k k₁)
    (hcurrent : k₁.current = k.current) : Arrives l k k' := by
  have hboth := h.trans hcurrent h'
  rw [List.append_nil] at hboth
  exact hboth

/-- Some leave, and the others stay as they are. -/
theorem Arrives.of_sublist
    (sublist : ∀ q, q ≠ .ready → (k'.members q).Sublist (k.members q))
    (same : ∀ q, q ≠ .ready → ∀ u ∈ k'.members q, k'.priorityOf u = k.priorityOf u) :
    Arrives [] k k' := by
  have hmem : ∀ q, q ≠ .ready → ∀ u ∈ k'.members q, u ∈ k.members q :=
    fun q hq u hu => (sublist q hq).subset hu
  refine ⟨fun log hfair => ⟨fun q hq => ?_, fun q hq u hu => ?_⟩, fun _ _ _ _ hu => ?_,
    fun q hq u hu _ => ⟨hmem q hq u hu, same q hq u hu⟩, fun q hq u hu _ => ?_⟩
  · refine List.Pairwise.imp_of_mem ?_ ((hfair.order q hq).sublist (sublist q hq))
    intro u v hu hv huv
    rw [Precedes, same q hq u hu, same q hq v hv]
    exact huv
  · exact hfair.logged q hq u (hmem q hq u hu)
  · cases hu
  · exact ⟨hmem q hq u hu, (congrArg Priority.level (same q hq u hu)).le⟩

/-- All queues are as they were, and so are the priorities of those who stand in them. -/
structure Undisturbed (k k' : Kernel) : Prop where
  current : k'.current = k.current
  members : ∀ q, k'.members q = k.members q
  priorityOf : ∀ q, ∀ u ∈ k.members q, k'.priorityOf u = k.priorityOf u

theorem Undisturbed.departs (h : Undisturbed k k') : Arrives [] k k' := by
  refine .of_sublist (fun q _ => ?_) fun q _ u hu => ?_
  · rw [h.members q]
  · rw [h.members q] at hu
    exact h.priorityOf q u hu

theorem Undisturbed.refl (k : Kernel) : Undisturbed k k :=
  ⟨rfl, fun _ => rfl, fun _ _ _ => rfl⟩

theorem Undisturbed.trans (h : Undisturbed k k₁) (h' : Undisturbed k₁ k') : Undisturbed k k' :=
  ⟨h'.current.trans h.current, fun q => (h'.members q).trans (h.members q), fun q u hu =>
    (h'.priorityOf q u (by rwa [h.members q])).trans (h.priorityOf q u hu)⟩

theorem Arrives.refl (k : Kernel) : Arrives [] k k := (Undisturbed.refl k).departs

/-- A thread that goes to no queue of waiters, where it comes from one or not. -/
theorem Moves.departs (h : Moves ahead t th k k') (hk : k.Linked)
    (hq : th.queue = none ∨ th.queue = some .ready) : Arrives [] k k' := by
  have hmembers : ∀ q, q ≠ .ready → k'.members q = (k.members q).erase t := by
    intro q hne
    rw [h.members]
    rcases hq with hnone | hready
    · rw [hnone]
      rfl
    · rw [hready]
      exact Lines.enter_of_ne hne
  refine .of_sublist (fun q hne => ?_) fun q hne u hu => ?_
  · rw [hmembers q hne]
    exact List.erase_sublist
  · rw [hmembers q hne] at hu
    have hu : u ≠ t := ((hk.hold.nodup q).mem_erase_iff.mp hu).1
    rw [priorityOf, h.thread_of_ne hu]
    rfl

/-- A thread that goes elsewhere with the priority that it has. -/
theorem Moves.priorityOf (h : Moves ahead t th k k') (hp : th.priority = k.priorityOf t) :
    k'.priorityOf = k.priorityOf := by
  funext u
  exact field_of_thread (·.priority) h.thread hp u

/-- The newest arrival comes after all those that it does not overtake. -/
theorem Precedes.cons (h : Precedes log k u v) (hu : u ≠ t) (hv : v ≠ t)
    (su : k'.priorityOf u = k.priorityOf u) (sv : k'.priorityOf v = k.priorityOf v) :
    Precedes (t :: log) k' u v := by
  rw [Precedes, su, sv, List.idxOf_cons_ne _ hu.symm, List.idxOf_cons_ne _ hv.symm]
  exact h.imp_right (And.imp_right Nat.succ_lt_succ)

theorem Precedes.newest (hu : u ≠ t) (h : (k.priorityOf u).level ≤ (k.priorityOf t).level) :
    Precedes (t :: log) k u t := by
  refine (Nat.lt_or_eq_of_le h).imp_right fun heq => ⟨heq, ?_⟩
  rw [List.idxOf_cons_self, List.idxOf_cons_ne _ hu.symm]
  exact Nat.succ_pos _

theorem Moves.members_eq (h : Moves ahead t th k k') (q : QueueId) :
    k'.members q = if th.queue = some q then lineUp ahead k'.priorityOf t ((k.members q).erase t)
      else (k.members q).erase t := by
  rw [h.members]
  cases hq : th.queue with
  | none => rfl
  | some p =>
      by_cases hp : p = q
      · subst hp
        rw [if_pos rfl]
        exact Lines.enter_self
      · rw [if_neg fun heq => hp (Option.some.inj heq)]
        exact Lines.enter_of_ne (Ne.symm hp)

/-- A thread that comes into a queue, or rises in it, goes behind its equals. -/
theorem Moves.arrives {runs : ThreadId → Prop} (h : Moves false t th k k') (hk : k.Arranged runs)
    (rises : t = k.current ∨
      th.queue = (k.thread t).queue ∧ th.priority.level < (k.priorityOf t).level) :
    Arrives [t] k k' := by
  have hself : k'.priorityOf t = th.priority := by rw [Kernel.priorityOf, h.thread_self]
  have hsame : ∀ u, u ≠ t → k'.priorityOf u = k.priorityOf u := by
    intro u hu
    rw [Kernel.priorityOf, h.thread_of_ne hu]
    rfl
  have hmem := fun u q => h.mem_iff (u := u) (p := q) hk.toLinked
  have hold : ∀ q u, u ∈ k'.members q → u ≠ t → u ∈ k.members q := by
    intro q u hu hne
    rw [hmem, if_neg hne] at hu
    exact hu
  refine ⟨fun log hfair => ⟨fun q hq => ?_, fun q hq u hu => ?_⟩, fun q hq u hu hl => ?_,
    fun q hq u hu hl => ?_, fun q hq u hu hne => ?_⟩
  · have hne : ∀ u ∈ (k.members q).erase t, u ≠ t := fun u hu =>
      ((hk.hold.nodup q).mem_erase_iff.mp hu).1
    -- The others stand as they did, only that the log has one more arrival; the newcomer comes
    -- last.
    have hothers : ((k.members q).erase t).Pairwise (Precedes ([t] ++ log) k') := by
      refine List.Pairwise.imp_of_mem ?_ ((hfair.order q hq).sublist List.erase_sublist)
      exact fun hu hv huv =>
        huv.cons (hne _ hu) (hne _ hv) (hsame _ (hne _ hu)) (hsame _ (hne _ hv))
    rw [h.members_eq]
    split
    · refine pairwise_lineUp hothers ?_ (fun u hu => Precedes.newest (hne u hu))
        fun u _ hlt => Or.inl hlt
      exact ((hk.sorted q).sublist List.erase_sublist).congr fun u hu => hsame u (hne u hu)
    · exact hothers
  · by_cases hut : u = t
    · rw [hut]
      exact List.mem_cons_self
    · exact List.mem_cons_of_mem t (hfair.logged q hq u (hold q u hu hut))
  · rw [List.mem_singleton.mp hl]
    refine rises.imp id fun hrises => ?_
    rw [hself]
    exact hrises.2
  · have hut : u ≠ t := fun heq => hl (List.mem_singleton.mpr heq)
    exact ⟨hold q u hu hut, hsame u hut⟩
  · by_cases hut : u = t
    · obtain ⟨hqueue, hlt⟩ := rises.resolve_left (hut ▸ hne)
      rw [hmem, if_pos hut, hqueue] at hu
      rw [hut, hself, hk.mem_iff]
      exact ⟨hu, Nat.le_of_lt hlt⟩
    · exact ⟨hold q u hu hut, (congrArg Priority.level (hsame u hut)).le⟩

/-! Effects let some leave, and change nothing for the others. -/

theorem Wakes.departs (h : Wakes t w k k') (hk : k.Linked) : Arrives [] k k' :=
  h.moves.departs hk (Or.inr rfl)

theorem Rouses.departs (h : Rouses w l k k') (hk : k.Linked) : Arrives [] k k' := by
  induction h with
  | nil k => exact .refl k
  | cons hw _ ih =>
      exact (ih (hw.moves.linked hk)).after (hw.departs hk) hw.moves.current

theorem Dispatches.members_eq {next : ThreadId} (h : Dispatches next k k') (q : QueueId) :
    k'.members q = (k.members q).erase next := h.moves.members_eq q

theorem Dispatches.departs {next : ThreadId} (h : Dispatches next k k') (hk : k.Linked) :
    Arrives [] k k' := by
  obtain ⟨hfair, hnew, hold, hstays⟩ := h.moves.departs hk (Or.inl rfl)
  exact ⟨fun log hlog => ⟨(hfair log hlog).order, (hfair log hlog).logged⟩, hnew, hold, hstays⟩

/-- Only the record of a thread changes that stands in no queue. -/
theorem Undisturbed.of_threads (hk : k.Linked) (current : k'.current = k.current)
    (members : ∀ q, k'.members q = k.members q) (free : (k.thread t).queue = none)
    (others : ∀ u, u ≠ t → k'.thread u = k.thread u) : Undisturbed k k' := by
  refine ⟨current, members, fun q u hu => ?_⟩
  have hut : u ≠ t := by
    rintro rfl
    exact hk.free free q hu
  rw [Kernel.priorityOf, others u hut]
  rfl

theorem replaceThread_undisturbed (hk : k.InPlace) (gone : (k.thread t).state.isGone = true)
    (queue : th.queue = none) : Undisturbed k (k.replaceThread t th) := by
  have hfree := hk.queue_eq_none_of_gone gone
  refine .of_threads hk.toLinked rfl (replaceThread_members hk.toLinked hfree queue) hfree ?_
  exact fun u hu => (thread_replaceThread k t u th).trans (if_neg hu)

theorem strike_undisturbed (hk : k.InPlace) (m : MutexId) : Undisturbed k (k.strike m) :=
  .of_threads hk.toLinked rfl (fun _ => rfl) (hk.queue_eq_none rfl) fun u hu =>
    (thread_strike k m u).trans (if_neg hu)

theorem acquire_undisturbed (k : Kernel) (m : MutexId) (t : ThreadId) :
    Undisturbed k (k.acquire m t) := by
  exact ⟨rfl, fun _ => rfl, fun _ u _ => field_of_thread (·.priority) (thread_acquire k m t) rfl u⟩

theorem finishCurrent_undisturbed (hk : k.InPlace) (msg : Msg) :
    Undisturbed k (k.finishCurrent msg) :=
  .of_threads hk.toLinked rfl (fun _ => rfl) (hk.queue_eq_none rfl) fun u hu =>
    (thread_modifyThread k k.current u _).trans (if_neg hu)

/-- An effect makes some ready, one after the other, and does nothing else to those who wait. -/
theorem Effect.rouses (h : Effect touched k k') (hk : k.InPlace) :
    ∃ k₁ w l, k₁.InPlace ∧ Undisturbed k k₁ ∧ Rouses w l k₁ k' := by
  have hplain : Undisturbed k k' → ∃ k₁ w l, k₁.InPlace ∧ Undisturbed k k₁ ∧ Rouses w l k₁ k' :=
    fun hsame => ⟨k', .ok, [], h.inPlace hk, hsame, .nil k'⟩
  have hwakes : ∀ {k₁ t w}, k₁.InPlace → Undisturbed k k₁ → Wakes t w k₁ k' →
      ∃ k₁ w l, k₁.InPlace ∧ Undisturbed k k₁ ∧ Rouses w l k₁ k' :=
    fun {k₁ t w} hk₁ hsame hw => ⟨k₁, w, [t], hk₁, hsame, .cons hw (.nil k')⟩
  have hcount : ∀ {s count}, (k.setSemaphoreCount s count).InPlace ∧
      Undisturbed k (k.setSemaphoreCount s count) := fun {s count} =>
    ⟨InPlace.setSemaphoreCount hk s count, rfl, fun _ => rfl, fun _ _ _ => rfl⟩
  -- Whoever gets another priority stands in no queue.
  cases h with
  | quiet | timers | recount | newSemaphore | newMutex | newCondVar | newMailbox | write =>
      exact hplain ⟨rfl, fun _ => rfl, fun _ _ _ => rfl⟩
  | mark t terminate entry _ =>
      refine hplain ⟨rfl, fun _ => rfl, fun _ u _ => ?_⟩
      exact field_of_thread (·.priority) (thread_modifyThread k t · _) rfl u
  | setBase p _ =>
      refine hplain (.of_threads hk.toLinked rfl (fun _ => rfl) (hk.queue_eq_none rfl) ?_)
      exact fun u hu => (thread_modifyThread k k.current u _).trans (if_neg hu)
  | resume _ _ hw => exact hwakes hk (.refl k) hw
  | timeOut _ _ _ hw => exact hwakes hk (.refl k) hw
  | expire _ _ hw => exact hwakes hcount.1 hcount.2 hw
  | grant _ _ hw => exact hwakes hcount.1 hcount.2 hw
  | dismiss _ _ hr => exact ⟨_, _, _, hcount.1, hcount.2, hr⟩
  | notify _ _ hw => exact hwakes hk (.refl k) hw
  | take _ _ _ => exact hplain (acquire_undisturbed k _ _)
  | free _ _ _ => exact hplain (strike_undisturbed hk _)
  | @handOver _ m next _ _ _ hw =>
      have hgiven := (strike_undisturbed hk m).trans (acquire_undisturbed (k.strike m) m next)
      exact hwakes ((hk.strike m).acquire m next) hgiven hw
  | create name p e _ hs => exact hplain (replaceThread_undisturbed hk (by rw [hs]; rfl) rfl)
  | blank hs => exact hplain (replaceThread_undisturbed hk (by rw [hs]; rfl) rfl)
  | vacate _ hs => exact hplain (replaceThread_undisturbed hk (by rw [hs]; rfl) rfl)

theorem Effect.departs (h : Effect touched k k') (hk : k.InPlace) : Arrives [] k k' := by
  obtain ⟨k₁, w, l, hk₁, hsame, hroused⟩ := h.rouses hk
  exact (hroused.departs hk₁.toLinked).after hsame.departs hsame.current

/-! The running thread waits, or gives way. -/

/-- Who comes into a queue of waiters as the running thread goes there. -/
def arrival (t : ThreadId) : Option QueueId → List ThreadId
  | none | some .ready => []
  | some _ => [t]

theorem Parks.arrives {p : Option QueueId} (h : Parks state p k k') (hk : k.InPlace) :
    Arrives (arrival k.current p) k k' := by
  cases p with
  | none => exact h.moves.departs hk.toLinked (Or.inl rfl)
  | some q =>
      have harrives := h.moves.arrives hk (Or.inl rfl)
      cases q with
      | ready => exact absurd rfl h.not_ready
      | _ => exact harrives

theorem Blocks.arrives {p : Option QueueId} (h : Blocks state p k k') (hk : k.InPlace) :
    Arrives (arrival k.current (k'.thread k.current).queue) k k' := by
  rw [h.thread_current hk]
  obtain ⟨-, k₁, next, hparks, hdispatches⟩ := h
  exact (hparks.arrives hk).trans hparks.moves.current
    (hdispatches.departs (hparks.arranged hk).toLinked)

theorem Dispatches.priorityOf {next : ThreadId} (h : Dispatches next k k') :
    k'.priorityOf = k.priorityOf := h.moves.priorityOf rfl

theorem GivesWay.priorityOf (h : GivesWay ahead k k') : k'.priorityOf = k.priorityOf := by
  obtain ⟨k₁, next, hdispatches, -, hmoves⟩ := h
  have hsame := hdispatches.priorityOf
  refine (hmoves.priorityOf ?_).trans hsame
  rw [hsame]
  rfl

theorem GivesWay.departs (h : GivesWay ahead k k') (hk : k.InPlace) : Arrives [] k k' := by
  refine .of_sublist (fun q hq => ?_) fun q _ u _ => congrFun h.priorityOf u
  rw [h.members_of_ne hk hq]

/-- A switch that is not for a mutex. -/
theorem Switch.arrives (h : Switch touched k k') (hk : k.InPlace)
    (ht : ∀ m, ¬ touched (.mutex m)) :
    Arrives (arrival k.current (k'.thread k.current).queue) k k' := by
  cases h with
  | giveWay h =>
      have hdeparts := h.departs hk
      obtain ⟨k₁, next, -, -, hmoves⟩ := h
      rw [hmoves.thread_self]
      exact hdeparts
  | park _ h => exact h.arrives hk
  | @awaitUnit _ s _ _ _ _ _ h =>
      have hsame : Undisturbed k (k.setSemaphoreCount s (k.semaphoreCount s - 1)) :=
        ⟨rfl, fun _ => rfl, fun _ _ _ => rfl⟩
      exact (h.arrives (InPlace.setSemaphoreCount hk _ _)).after hsame.departs rfl
  | awaitMutex htouch _ _ _ _ => exact absurd htouch (ht _)
  | awaitCondition _ h => exact h.arrives hk
  | awaitExit _ _ _ _ _ h => exact h.arrives hk
  | @exit k₁ _ msg next _ _ hr hd =>
      have hk₀ := hk.finishCurrent msg
      have hqueue : k.running.queue = none := hk.queue_eq_none rfl
      rw [hr.thread_ended hk hd, hqueue]
      have hfinish := (finishCurrent_undisturbed hk msg).departs
      have hroused := (hr.departs hk₀.toLinked).after hfinish rfl
      exact (hd.departs (hr.arranged hk₀).toLinked).after hroused hr.current

theorem effects_depart (h : Relation.ReflTransGen (Effect touched) k k') (hk : k.Sound) :
    k'.Sound ∧ k'.current = k.current ∧ Arrives [] k k' := by
  refine effects_induction (P := fun k' => k'.current = k.current ∧ Arrives [] k k') h hk ?_
    ⟨rfl, .refl k⟩
  intro k₁ k₂ hk₁ he ⟨hcurrent, harrives⟩
  exact ⟨he.current.trans hcurrent, harrives.trans hcurrent (he.departs hk₁.inPlace)⟩

theorem InPlace.arrives_self (hk : k.InPlace) :
    Arrives (arrival k.current (k.thread k.current).queue) k k := by
  rw [hk.queue_eq_none rfl]
  exact .refl k

theorem Does.arrives (h : Does touched k k') (hk : k.Sound) (ht : ∀ m, ¬ touched (.mutex m)) :
    Arrives (arrival k.current (k'.thread k.current).queue) k k' := by
  obtain ⟨k₁, heffects, hswitch⟩ := h
  obtain ⟨hk₁, hcurrent, harrives⟩ := effects_depart heffects hk
  have hlast : Arrives (arrival k₁.current (k'.thread k₁.current).queue) k₁ k' := by
    rcases hswitch with rfl | hswitch
    · exact hk₁.inPlace.arrives_self
    · exact hswitch.arrives hk₁.inPlace ht
  rw [hcurrent] at hlast
  exact hlast.after harrives hcurrent

/-! The running thread lends its priority. -/

/-- Who gets a higher priority as it is lent to a thread, and on from there to the one that is in
the way of that. -/
def lendees (p : Priority) (inWay : ThreadId → Option ThreadId) :
    Nat → (ThreadId → Priority) → ThreadId → List ThreadId
  | 0, _, _ => []
  | hops + 1, prio, t =>
    if p.isHigherThan (prio t) then
      t :: match inWay t with
        | some next => lendees p inWay hops (Function.update prio t p) next
        | none => []
    else []

theorem Boosts.arrives (h : Boosts o k k') (hk : k.InPlace)
    (hhigh : k.running.priority.level < (k.priorityOf o).level) : Arrives [o] k k' :=
  h.2.arrives hk (Or.inr ⟨rfl, hhigh⟩)

theorem Boosts.priorityOf_eq (h : Boosts o k k') :
    k'.priorityOf = Function.update k.priorityOf o k.running.priority := by
  funext u
  by_cases hu : u = o
  · rw [hu, Function.update_self, h.priorityOf_self]
  · rw [Function.update_of_ne hu, h.priorityOf_of_ne hu]

theorem lend_arrives {hops : Nat} (hk : k.InPlace) (h : lend hops k o = .ok k') :
    Arrives (lendees k.running.priority k.blocker? hops k.priorityOf o).reverse k k' := by
  induction hops generalizing k o with
  | zero =>
      obtain ⟨-, rfl⟩ | ⟨_, _, ⟨⟩, -⟩ := lend_cases hk h
      exact .refl _
  | succ hops ih =>
      unfold lendees
      obtain ⟨hlow, rfl⟩ | ⟨hops', k₁, heq, hhigh, hboost, hrest⟩ := lend_cases hk h
      · rw [if_neg (by simpa using hlow)]
        exact .refl _
      · obtain rfl := Nat.succ.inj heq
        have harrives := hboost.arrives hk hhigh
        rw [if_pos (by simpa using hhigh), List.reverse_cons]
        obtain ⟨hnone, rfl⟩ | ⟨next, hnext, hlend⟩ := hrest
        · rw [hnone]
          exact harrives
        · have hk₁ := hboost.arranged hk
          rw [← hboost.2.current] at hk₁
          have hrest := ih hk₁ hlend
          -- The rest is lent in a kernel that a boost has changed: one priority is another one
          -- there, but everybody waits for whom it waited for.
          rw [hboost.running_priority, hboost.priorityOf_eq, hboost.blocker] at hrest
          rw [hnext]
          exact harrives.trans hboost.2.current hrest

/-- Who gets a higher priority as the running thread waits for a mutex. -/
def beneficiaries (k : Kernel) (m : MutexId) : List ThreadId :=
  match k.owner? m with
  | some o => lendees k.running.priority k.blocker? maxThreads k.priorityOf o
  | none => []

/-- Those whose priority rises go to their new places, and the running thread comes last. -/
theorem lock_arrives {frames : List Frame} (hk : k.InPlace) (h : k.lock m = .ok (k', frames)) :
    Arrives (arrival k.current (k'.thread k.current).queue ++ (k.beneficiaries m).reverse)
      k k' := by
  have hqueue : (k.thread k.current).queue = none := hk.queue_eq_none rfl
  unfold lock at h
  unfold beneficiaries
  split at h
  · rename_i hfree
    obtain ⟨k₁, htake, h⟩ := bind_eq_ok.mp h
    obtain ⟨rfl, -⟩ := Prod.mk.inj (Except.ok.inj h)
    obtain rfl := takeMutex_ok htake
    rw [hfree, (acquire_sameStand k m k.current k.current).queue, hqueue]
    exact (acquire_undisturbed k m k.current).departs
  · rename_i o howner
    split at h
    · cases h
    · obtain ⟨k₁, hlend, h⟩ := bind_eq_ok.mp h
      obtain ⟨k₂, henqueue, h⟩ := bind_eq_ok.mp h
      obtain ⟨k₃, hblock, h⟩ := bind_eq_ok.mp h
      obtain ⟨rfl, -⟩ := Prod.mk.inj (Except.ok.inj h)
      have hlends := lend_ok hk hlend
      have hk₁ := hlends.arranged hk
      obtain ⟨-, htimers, hmoves⟩ := enqueue_ok hk₁.toLinked henqueue
      have hblocks := block_ok hk₁.toLinked hmoves rfl rfl (Or.inl htimers) hblock
      rw [← hlends.current] at hk₁
      have hlast := hblocks.arrives hk₁
      rw [hlends.current] at hlast
      rw [howner]
      exact (lend_arrives hk hlend).trans hlends.current hlast

end Kernel

end RealtimeKernel

import RealtimeKernel.Proofs.Kernel.Line
import RealtimeKernel.Proofs.Kernel.Settled

/-!
The running thread's quantum, and where it goes when another one takes over. A thread that blocks,
yields or has used up its quantum comes behind its equals and does not pass them again. One that
is preempted with some of its quantum left goes ahead of them, and has a whole quantum when it
runs again.
-/
namespace RealtimeKernel.Kernel

variable {k k' k₁ : Kernel} {touched : Object → Prop} {t a b next : ThreadId} {ahead : Bool}
  {l : List ThreadId} {w : WakeupResult} {state : ThreadState} {m : MutexId} {q : Option QueueId}
  {runs : ThreadId → Prop} {frames : List Frame}

/-! What is left of the quantum. -/

theorem Moves.quantumLeft {th : Thread} (h : Moves ahead t th k k') :
    k'.quantumLeft = k.quantumLeft := by
  rw [h.frame]

theorem Rouses.quantumLeft (h : Rouses w l k k') : k'.quantumLeft = k.quantumLeft := by
  induction h with
  | nil => rfl
  | cons hw _ ih => exact ih.trans hw.moves.quantumLeft

/-- Effects give nothing back. -/
theorem Effect.quantumLeft_le (h : Effect touched k k') : k'.quantumLeft ≤ k.quantumLeft := by
  cases h with
  | quiet _ _ hle => exact hle
  | resume _ _ hw => exact hw.moves.quantumLeft.le
  | timeOut _ _ _ hw => exact hw.moves.quantumLeft.le
  | expire _ _ hw => exact hw.moves.quantumLeft.le
  | grant _ _ hw => exact hw.moves.quantumLeft.le
  | dismiss _ _ hr => exact hr.quantumLeft.le
  | notify _ _ hw => exact hw.moves.quantumLeft.le
  | handOver _ _ _ hw => exact hw.moves.quantumLeft.le
  | _ => exact Nat.le_refl _

theorem effects_quantumLeft_le (h : Relation.ReflTransGen (Effect touched) k k') :
    k'.quantumLeft ≤ k.quantumLeft := by
  induction h with
  | refl => exact Nat.le_refl _
  | tail _ he ih => exact he.quantumLeft_le.trans ih

/-! Who leaves the processor. -/

/-- A thread that parks is not ready. -/
theorem Parks.leaves (h : Parks state q k k') (hk : k.InPlace) :
    k.current ∉ k'.members .ready := by
  apply (h.arranged hk).not_ready_of_blocked
  rw [h.moves.thread_self]
  exact h.blocked

/-- A thread that exits wakes others, but not itself. -/
theorem exit_leaves {msg : Msg} (hk : k.InPlace)
    (h : Rouses w (k.members (.exit k.current)) (k.finishCurrent msg) k₁) :
    k.current ∉ k₁.members .ready := by
  intro hmem
  have hready := mem_readyAt.mpr ⟨hmem, rfl⟩
  rw [h.readyAt (hk.finishCurrent msg), (finishCurrent_undisturbed hk msg).readyAt] at hready
  have hwaits : ∃ q, k.current ∈ k.members q := by
    rcases List.mem_append.mp hready with hready | hready
    · exact ⟨.ready, (mem_readyAt.mp hready).1⟩
    · exact ⟨_, (List.mem_filter.mp hready).1⟩
  cases hwaits with
  | intro q hq => exact hk.not_runs_of_mem hq rfl

theorem Dispatches.passesTo (h : Dispatches next k₁ k')
    (leaves : k.current ∉ k₁.members .ready) : k'.current ≠ k.current := by
  intro heq
  rw [← heq, h.current] at leaves
  exact leaves h.mem

theorem Blocks.ne_current (h : Blocks state q k k') (hk : k.InPlace) :
    k'.current ≠ k.current := by
  obtain ⟨-, k₁, next, hparks, hdispatches⟩ := h
  exact hdispatches.passesTo (hparks.leaves hk)

theorem Switch.ne_current (h : Switch touched k k') (hk : k.InPlace) :
    k'.current ≠ k.current := by
  cases h with
  | giveWay h =>
      obtain ⟨k₁, next, hdispatches, -, hmoves⟩ := h
      rw [hmoves.current, hdispatches.current]
      exact hdispatches.ne_current hk
  | park _ h => exact h.ne_current hk
  | awaitUnit _ _ _ _ h => exact h.ne_current (InPlace.setSemaphoreCount hk _ _)
  | awaitMutex _ _ _ hlends h =>
      have hk₁ := hlends.arranged hk
      rw [← hlends.current] at hk₁ ⊢
      exact h.ne_current hk₁
  | awaitCondition _ h => exact h.ne_current hk
  | awaitExit _ _ _ _ _ h => exact h.ne_current hk
  | exit _ _ hr hd => exact hd.passesTo (exit_leaves hk hr)

/-- The quantum begins anew if another thread takes over, and only then. -/
theorem Does.quantumLeft (h : Does touched k k') (hk : k.Sound) :
    k'.current = k.current ∧ k'.quantumLeft ≤ k.quantumLeft ∨
      k'.current ≠ k.current ∧ k'.quantumLeft = k.config.quantum := by
  have hconfig := h.config hk
  obtain ⟨k₁, heffects, hswitch⟩ := h
  obtain ⟨hk₁, hcurrent, -⟩ := effects_depart heffects hk
  rcases hswitch with rfl | hswitch
  · exact Or.inl ⟨hcurrent, effects_quantumLeft_le heffects⟩
  · right
    have hpasses := hswitch.passes hk₁.inPlace
    constructor
    · rw [← hcurrent]
      exact hswitch.ne_current hk₁.inPlace
    · rw [hpasses.quantumLeft, ← hpasses.config, hconfig]

/-! Who comes before whom. -/

/-- The first thread has to wait until the second one has run: it does not run, and if it is ready
it stands behind. -/
def Behind (a b : ThreadId) (k : Kernel) : Prop :=
  k.current ≠ a ∧ (a ∈ k.members .ready → [b, a].Sublist (k.members .ready))

instance (a b : ThreadId) (k : Kernel) : Decidable (Behind a b k) :=
  inferInstanceAs (Decidable (_ ∧ (_ → _)))

/-- How many ticks the first thread may still take before it has to wait until the second one has
run, if no thread of a higher priority interferes. -/
def due (a b : ThreadId) (k : Kernel) : Nat :=
  if Behind a b k then 0 else if k.current = a then k.quantumLeft else k.config.quantum

theorem due_of_behind (h : Behind a b k) : due a b k = 0 := if_pos h

theorem due_of_runs (h : k.current = a) : due a b k = k.quantumLeft := by
  rw [due, if_neg fun hbehind => hbehind.1 h, if_pos h]

theorem due_of_waits (h : k.current ≠ a) (next : ¬ Behind a b k) :
    due a b k = k.config.quantum := by
  rw [due, if_neg next, if_neg h]

theorem due_le (h : k.quantumLeft ≤ k.config.quantum) : due a b k ≤ k.config.quantum := by
  unfold due
  split
  · exact Nat.zero_le _
  · split
    · exact h
    · exact Nat.le_refl _

/-- One thread is taken off the processor by a thread of a higher priority, and has some of its
quantum left. -/
structure CutShort (a : ThreadId) (k k' : Kernel) : Prop where
  runs : k.current = a
  ready : a ∈ k'.members .ready
  left : 0 < k.quantumLeft
  higher : k'.running.priority.level < (k'.priorityOf a).level

theorem cutShort_iff : CutShort a k k' ↔ k.current = a ∧
    (k'.members .ready).contains a = true ∧ 0 < k.quantumLeft ∧
      k'.running.priority.level < (k'.priorityOf a).level := by
  rw [List.contains_iff_mem]
  constructor
  · exact fun h => ⟨h.runs, h.ready, h.left, h.higher⟩
  · rintro ⟨hruns, hready, hleft, hhigher⟩
    exact ⟨hruns, hready, hleft, hhigher⟩

instance (a : ThreadId) (k k' : Kernel) : Decidable (CutShort a k k') :=
  decidable_of_iff _ cutShort_iff.symm

/-- While nobody is lent a priority, threads join the line behind their equals, and then the first
of them may take over from the running one. -/
structure Advances (k k₁ k' : Kernel) : Prop where
  joins : ∀ p, k.readyAt p <+: k₁.readyAt p
  priorityOf : k'.priorityOf = k₁.priorityOf
  keepsLine : KeepsLine k₁ k'
  comes : ∀ t ∈ k'.members .ready, t ≠ k.current → t ∈ k₁.members .ready
  runs : k'.current = k.current ∨ k'.current ∈ k₁.members .ready
  leaves : ∀ b ∈ k'.members .ready, b ≠ k.current → k'.priorityOf k.current = k'.priorityOf b →
    k'.current = k.current ∨ Behind k.current b k' ∨ CutShort k.current k k'

theorem Advances.refl (k : Kernel) : Advances k k k :=
  ⟨fun _ => List.prefix_refl _, rfl, .refl k, fun _ ht _ => ht, Or.inl rfl,
    fun _ _ _ _ => Or.inl rfl⟩

/-- Before that other threads may have become ready. -/
theorem Advances.after {k₀ : Kernel} (h : Advances k₀ k₁ k')
    (heffects : Relation.ReflTransGen (Effect touched) k k₀) (hk : k.Sound) :
    Advances k k₁ k' := by
  have hcurrent : k₀.current = k.current := (effects_depart heffects hk).2.1
  have hcomes := h.comes
  have hruns := h.runs
  have hleaves := h.leaves
  rw [hcurrent] at hcomes hruns hleaves
  refine ⟨fun p => (effects_readyAt heffects hk p).trans (h.joins p), h.priorityOf, h.keepsLine,
    hcomes, hruns, fun b hb other same => ?_⟩
  apply (hleaves b hb other same).imp_right
  apply Or.imp_right
  intro hcut
  exact ⟨rfl, hcut.ready, hcut.left.trans_le (effects_quantumLeft_le heffects), hcut.higher⟩

/-- The running thread is gone when the first ready one takes over. -/
theorem Dispatches.advances (h : Dispatches next k₁ k') (hk₁ : k₁.Arranged runs)
    (joins : ∀ p, k.readyAt p <+: k₁.readyAt p) (leaves : k.current ∉ k₁.members .ready) :
    Advances k k₁ k' := by
  have hmem : ∀ {t}, t ∈ k'.members .ready → t ∈ k₁.members .ready := by
    intro t ht
    rw [h.ready_eq] at ht
    exact List.mem_of_mem_erase ht
  refine ⟨joins, h.priorityOf, h.keepsLine hk₁, fun t ht _ => hmem ht, ?_, fun b _ _ _ => ?_⟩
  · right
    rw [h.current]
    exact h.mem
  · right
    left
    constructor
    · exact h.passesTo leaves
    · exact fun ht => absurd (hmem ht) leaves

theorem Blocks.advances (h : Blocks state q k k') (hk : k.InPlace) :
    ∃ k₁, Advances k k₁ k' := by
  obtain ⟨-, k₁, next, hparks, hdispatches⟩ := h
  use k₁
  apply hdispatches.advances (hparks.arranged hk)
  · intro p
    rw [hparks.readyAt hk]
  · exact hparks.leaves hk

theorem GivesWay.head (h : GivesWay ahead k k') : (k.members .ready).head? = some k'.current := by
  obtain ⟨k₁, next, hdispatches, -, hmoves⟩ := h
  rw [hmoves.current, hdispatches.current]
  exact hdispatches.head

/-- A thread that does not go ahead of its equals goes behind them. -/
theorem GivesWay.behind (h : GivesWay false k k') (hk : k.InPlace)
    (hb : b ∈ k'.members .ready) (same : k'.priorityOf k.current = k'.priorityOf b)
    (other : b ≠ k.current) : [b, k.current].Sublist (k'.members .ready) := by
  have hready := h.ready_eq hk
  have hsorted : InOrder k'.priorityOf ((k.members .ready).erase k'.current) := by
    rw [h.priorityOf]
    exact (hk.sorted .ready).sublist List.erase_sublist
  have hline : (k'.members .ready).filter (k'.priorityOf · = k'.priorityOf b) =
      ((k.members .ready).erase k'.current).filter (k'.priorityOf · = k'.priorityOf b) ++
        [k.current] := by
    rw [hready, filter_lineUp hsorted, if_pos same]
  have hbefore : b ∈ (k.members .ready).erase k'.current := by
    rw [hready] at hb
    exact (mem_lineUp.mp hb).resolve_left other
  have hpair : [b, k.current].Sublist
      ((k'.members .ready).filter (k'.priorityOf · = k'.priorityOf b)) := by
    have hfirst : [b].Sublist
        (((k.members .ready).erase k'.current).filter (k'.priorityOf · = k'.priorityOf b)) := by
      apply List.singleton_sublist.mpr
      simpa using hbefore
    rw [hline]
    exact hfirst.append_right [k.current]
  exact hpair.trans List.filter_sublist

theorem GivesWay.advances (h : GivesWay ahead k k') (hk : k.InPlace)
    (stays : ahead = true → k.StaysAhead) : Advances k k k' := by
  have hready := h.ready_eq hk
  have hpriority := h.priorityOf
  have hne : k'.current ≠ k.current := hk.not_runs_of_mem (List.mem_of_head? h.head)
  refine ⟨fun _ => List.prefix_refl _, hpriority, h.keepsLine hk, fun t ht hother => ?_, ?_,
    fun b hb other same => Or.inr ?_⟩
  · rw [hready] at ht
    exact List.mem_of_mem_erase ((mem_lineUp.mp ht).resolve_left hother)
  · exact Or.inr (List.mem_of_head? h.head)
  · cases ahead with
    | false => exact Or.inl ⟨hne, fun _ => h.behind hk hb same other⟩
    | true =>
        obtain ⟨hleft, hhead⟩ := stays rfl
        have hrunning : k'.running.priority = k.priorityOf k'.current :=
          congrFun hpriority k'.current
        right
        constructor
        · rfl
        · rw [hready]
          exact mem_lineUp.mpr (Or.inl rfl)
        · exact hleft
        · rw [hrunning, hpriority]
          exact hhead k'.current h.head

theorem Switch.advances (h : Switch touched k k') (hk : k.InPlace)
    (ht : ∀ m, ¬ touched (.mutex m)) : ∃ k₁, Advances k k₁ k' := by
  cases h with
  | giveWay h stays => exact ⟨k, h.advances hk stays⟩
  | park _ h => exact h.advances hk
  | awaitUnit _ _ _ _ h =>
      obtain ⟨k₁, hadvances⟩ := h.advances (InPlace.setSemaphoreCount hk _ _)
      refine ⟨k₁, hadvances.joins, hadvances.priorityOf, hadvances.keepsLine, hadvances.comes,
        hadvances.runs, fun b hb other same => ?_⟩
      apply (hadvances.leaves b hb other same).imp_right
      apply Or.imp_right
      exact fun hcut => ⟨hcut.runs, hcut.ready, hcut.left, hcut.higher⟩
  | awaitMutex htouch => exact absurd htouch (ht _)
  | awaitCondition _ h => exact h.advances hk
  | awaitExit _ _ _ _ _ h => exact h.advances hk
  | @exit k₁ _ msg next _ _ hr hd =>
      use k₁
      apply hd.advances (hr.arranged (hk.finishCurrent msg))
      · intro p
        rw [hr.readyAt (hk.finishCurrent msg), (finishCurrent_undisturbed hk msg).readyAt]
        exact List.prefix_append _ _
      · exact exit_leaves hk hr

theorem Unlent.advances (h : Unlent k k') (hk : k.Sound) : ∃ k₁, Advances k k₁ k' := by
  obtain ⟨k₁, touched, heffects, ⟨k₂, heffects', hswitch⟩, hnot⟩ := h
  have hk₁ := (effects_depart heffects hk).1
  have hk₂ := (effects_depart heffects' hk₁).1
  have hlast : ∃ k₃, Advances k₂ k₃ k' := by
    rcases hswitch with rfl | hswitch
    · exact ⟨k', .refl k'⟩
    · exact hswitch.advances hk₂.inPlace hnot
  obtain ⟨k₃, hadvances⟩ := hlast
  exact ⟨k₃, (hadvances.after heffects' hk₁).after heffects hk⟩

/-- Whoever is ready in between stands behind an equal that was ready before. -/
theorem Advances.line (h : Advances k k₁ k') (hb : b ∈ k.members .ready)
    (same : k.priorityOf a = k.priorityOf b) (same' : k'.priorityOf a = k'.priorityOf b)
    (before : a ∈ k.members .ready → [b, a].Sublist (k.members .ready))
    (ready : a ∈ k₁.members .ready) : [b, a].Sublist (k₁.members .ready) := by
  have hjoins := h.joins (k.priorityOf b)
  have hb₁ : b ∈ k₁.readyAt (k.priorityOf b) := hjoins.subset (mem_readyAt.mpr ⟨hb, rfl⟩)
  have ha₁ : a ∈ k₁.readyAt (k.priorityOf b) := by
    rw [mem_readyAt] at hb₁ ⊢
    rw [h.priorityOf] at same'
    exact ⟨ready, same'.trans hb₁.2⟩
  apply List.Sublist.trans ?_ (k₁.readyAt_sublist (k.priorityOf b))
  obtain ⟨l, hl⟩ := hjoins
  rw [← hl] at ha₁ ⊢
  by_cases ha : a ∈ k.members .ready
  · have hpair := (before ha).filter (k.priorityOf · = k.priorityOf b)
    rw [List.filter_eq_self.mpr (by simp [same])] at hpair
    exact hpair.trans (List.sublist_append_left _ l)
  · have hlate : a ∈ l := (List.mem_append.mp ha₁).resolve_left fun hmem =>
      ha (mem_readyAt.mp hmem).1
    exact (List.singleton_sublist.mpr (mem_readyAt.mpr ⟨hb, rfl⟩)).append
      (List.singleton_sublist.mpr hlate)

/-- Nobody gets the processor before an equal behind which it stands. -/
theorem Unlent.behind (h : Unlent k k') (hk : k.Sound) (hk' : k'.InPlace)
    (hb : b ∈ k.members .ready) (hb' : b ∈ k'.members .ready)
    (same : k.priorityOf a = k.priorityOf b) (same' : k'.priorityOf a = k'.priorityOf b)
    (behind : Behind a b k) : Behind a b k' := by
  obtain ⟨k₁, hadvances⟩ := h.advances hk
  have hline : a ∈ k₁.members .ready → [b, a].Sublist (k'.members .ready) := fun ha =>
    hadvances.keepsLine b a (hadvances.line hb same same' behind.2 ha) hb'
  constructor
  · rintro rfl
    rcases hadvances.runs with hcurrent | hready
    · exact behind.1 hcurrent.symm
    · exact hk'.not_runs_of_mem ((hline hready).subset (by simp)) rfl
  · intro ha
    exact hline (hadvances.comes a ha (Ne.symm behind.1))

theorem Unlent.leaves (h : Unlent k k') (hk : k.Sound) (hb : b ∈ k.members .ready)
    (hb' : b ∈ k'.members .ready) (same' : k'.priorityOf k.current = k'.priorityOf b) :
    k'.current = k.current ∨ Behind k.current b k' ∨ CutShort k.current k k' := by
  obtain ⟨k₁, hadvances⟩ := h.advances hk
  exact hadvances.leaves b hb' (hk.inPlace.not_runs_of_mem hb) same'

/-! Locking a mutex. -/

theorem lock_behind (hk : k.InPlace) (hk' : k'.InPlace) (h : k.lock m = .ok (k', frames))
    (hb' : b ∈ k'.members .ready) (same : k.priorityOf a = k.priorityOf b)
    (same' : k'.priorityOf a = k'.priorityOf b) (behind : Behind a b k) : Behind a b k' := by
  have hline : a ∈ k.members .ready → [b, a].Sublist (k'.members .ready) := fun ha =>
    lock_pair hk h (behind.2 ha) same.symm same'.symm hb'
  constructor
  · rintro rfl
    rcases (lock_ready hk h).2 with hcurrent | hready
    · exact behind.1 hcurrent.symm
    · exact hk'.not_runs_of_mem ((hline hready).subset (by simp)) rfl
  · exact fun ha => hline ((lock_ready hk h).1 a ha)

/-- A thread that has to wait for a mutex is not ready. -/
theorem lock_leaves (hk : k.InPlace) (h : k.lock m = .ok (k', frames)) :
    k'.current = k.current ∨ Behind k.current b k' := by
  by_cases hcurrent : k'.current = k.current
  · exact Or.inl hcurrent
  · right
    constructor
    · exact hcurrent
    · exact fun hmem => absurd rfl (hk.not_runs_of_mem ((lock_ready hk h).1 _ hmem))

end RealtimeKernel.Kernel

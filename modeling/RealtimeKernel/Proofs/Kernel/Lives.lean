import RealtimeKernel.Proofs.Kernel.Sound

/-!
What becomes of a thread. `Fate` lists what an effect may come to for one of them, `Passage`
what a switch may; whatever holds of every thread is then proved by their cases.
-/
namespace RealtimeKernel.Kernel

variable {k k' k₁ : Kernel} {touched : Object → Prop} {t u o next : ThreadId}
  {th th₁ th' : Thread} {r : WakeupResult} {l : List ThreadId} {q : QueueId}
  {p : Option QueueId} {state : ThreadState} {ahead : Bool} {s : SemaphoreId}

/-- Where a thread stands, why it woke last and with what message it ended. -/
structure SameStand (th th' : Thread) : Prop where
  state : th'.state = th.state
  queue : th'.queue = th.queue
  wakeup : th'.wakeup = th.wakeup
  exitMsg : th'.exitMsg = th.exitMsg

theorem SameStand.refl (th : Thread) : SameStand th th := ⟨rfl, rfl, rfl, rfl⟩

theorem SameStand.trans (h : SameStand th th₁) (h' : SameStand th₁ th') : SameStand th th' :=
  ⟨h'.state.trans h.state, h'.queue.trans h.queue, h'.wakeup.trans h.wakeup,
    h'.exitMsg.trans h.exitMsg⟩

/-- Was something touched that a thread waits for in this queue? -/
def Reached (touched : Object → Prop) (u : ThreadId) : Option QueueId → Prop
  | none => touched (.suspended u) ∨ touched (.thread u)
  | some (.semaphore s) => touched (.semaphore s)
  | some (.condVar c) => touched (.condVar c)
  | some _ => True

inductive Fate (touched : Object → Prop) (u : ThreadId) (th th' : Thread) : Prop
  | same : SameStand th th' → Fate touched u th th'
  /-- It wakes: its time is up, or something was touched that it waited for. -/
  | woken : th.state.isBlocked = true → th'.state = .ready → th'.queue = some .ready →
    touched .time ∧ th'.wakeup = .timeout ∨ Reached touched u th.queue →
    (∀ t, th.queue ≠ some (.exit t)) → Fate touched u th th'
  /-- Its slot is written anew. -/
  | replaced : th.state.isGone = true → th'.queue = none → th'.state ≠ .final →
    touched (.thread u) ∨ th.state = .inactive ∧ th'.state = .inactive → Fate touched u th th'

inductive Passage (touched : Object → Prop) (k k' : Kernel) (u : ThreadId) (th th' : Thread) :
    Prop
  | same : SameStand th th' → Passage touched k k' u th th'
  | dispatched : th.state = .ready → th.queue = some .ready → th'.state = .running →
    th'.queue = none → th'.wakeup = th.wakeup → Passage touched k k' u th th'
  | waits : u = k.current → th'.state = .ready → th'.queue = some .ready →
    th'.wakeup = th.wakeup → Passage touched k k' u th th'
  | parked : u = k.current → th'.state.isBlocked = true →
    (∀ s, th'.queue = some (.semaphore s) → touched (.semaphore s)) →
    Passage touched k k' u th th'
  | ended : u = k.current → touched (.thread u) → th'.state = .final → th'.queue = none →
    Passage touched k k' u th th'
  /-- The thread that it waited for has ended. -/
  | roused : th.state.isBlocked = true → th.queue = some (.exit k.current) →
    (k'.thread k.current).state = .final → th'.state.isRunnable = true →
    (∀ s, th'.queue ≠ some (.semaphore s)) → Passage touched k k' u th th'

/-! What effects and switches come to. -/

theorem Fate.after_same (h : SameStand th th₁) (h' : Fate touched u th₁ th') :
    Fate touched u th th' := by
  cases h' with
  | same h' => exact .same (h.trans h')
  | woken hb hs hq hc he =>
      rw [h.state] at hb
      rw [h.queue] at hc he
      exact .woken hb hs hq hc he
  | replaced hg hq hs ht =>
      rw [h.state] at hg ht
      exact .replaced hg hq hs ht

/-- One thread changes, and that not in its stand. -/
theorem sameStand_of_thread (thread : ∀ u, k'.thread u = if u = t then th else k.thread u)
    (same : SameStand (k.thread t) th) (u : ThreadId) : SameStand (k.thread u) (k'.thread u) := by
  rw [thread]
  split
  · rename_i hu
    rw [hu]
    exact same
  · exact .refl _

theorem acquire_sameStand (k : Kernel) (m : MutexId) (t u : ThreadId) :
    SameStand (k.thread u) ((k.acquire m t).thread u) :=
  sameStand_of_thread (thread_acquire k m t) ⟨rfl, rfl, rfl, rfl⟩ u

theorem strike_sameStand (k : Kernel) (m : MutexId) (u : ThreadId) :
    SameStand (k.thread u) ((k.strike m).thread u) :=
  sameStand_of_thread (thread_strike k m) ⟨rfl, rfl, rfl, rfl⟩ u

theorem Wakes.fate (h : Wakes t r k k')
    (cause : touched .time ∧ r = .timeout ∨ Reached touched t (k.thread t).queue)
    (other : ∀ v, (k.thread t).queue ≠ some (.exit v)) (u : ThreadId) :
    Fate touched u (k.thread u) (k'.thread u) := by
  rw [h.moves.thread]
  split
  · rename_i hu
    rw [hu]
    exact .woken h.blocked rfl rfl cause other
  · exact .same (.refl _)

/-- Waking a whole queue. -/
theorem Rouses.thread (h : Rouses r l k k') (hk : k.Linked) (ready : q ≠ .ready)
    (hl : k.members q = l) (u : ThreadId) : k'.thread u =
      if (k.thread u).queue = some q then
        { k.thread u with state := .ready, wakeup := r, queue := some .ready }
      else k.thread u := by
  induction h with
  | nil =>
      rw [if_neg]
      rw [← hk.mem_iff, hl]
      exact List.not_mem_nil
  | @cons t l k k₁ k' hw _ ih =>
      have htq : (k.thread t).queue = some q := by
        rw [← hk.mem_iff, hl]
        exact List.mem_cons_self
      rw [ih (hw.moves.linked hk) (hw.members_tail ready hl), hw.moves.thread]
      by_cases hu : u = t
      · rw [if_pos hu, hu, if_neg, if_pos htq]
        exact fun h => ready (Option.some.inj h).symm
      · rw [if_neg hu]

theorem thread_replaceThread (k : Kernel) (t u : ThreadId) (th : Thread) :
    (k.replaceThread t th).thread u = if u = t then th else k.thread u :=
  thread_setThread k t u th

theorem replaceThread_fate (hs : (k.thread t).state.isGone = true) (queue : th.queue = none)
    (alive : th.state.isBlocked = true ∨ th.state = .inactive)
    (cause : touched (.thread t) ∨ (k.thread t).state = .inactive ∧ th.state = .inactive)
    (u : ThreadId) : Fate touched u (k.thread u) ((k.replaceThread t th).thread u) := by
  rw [thread_replaceThread]
  split
  · rename_i hu
    rw [hu]
    refine .replaced hs queue ?_ cause
    rcases alive with hblocked | hfree
    · intro hfinal
      rw [hfinal] at hblocked
      cases hblocked
    · rw [hfree]
      exact nofun
  · exact .same (.refl _)

theorem Effect.fate (h : Effect touched k k') (hk : k.InPlace) (u : ThreadId) :
    Fate touched u (k.thread u) (k'.thread u) := by
  cases h with
  | mark t => exact .same (sameStand_of_thread (thread_modifyThread k t · _) ⟨rfl, rfl, rfl, rfl⟩ u)
  | setBase =>
      exact .same (sameStand_of_thread (thread_modifyThread k k.current · _) ⟨rfl, rfl, rfl, rfl⟩ u)
  | resume ht hs hw =>
      have hq := hk.queue_eq_none_of_state (t := _) (Or.inr (Or.inr (Or.inl hs)))
      refine hw.fate (Or.inr ?_) ?_ u
      · rw [hq]
        exact ht
      · rw [hq]
        exact nofun
  | @timeOut _ t ht htimed _ hw =>
      refine hw.fate (Or.inl ⟨ht, rfl⟩) ?_ u
      intro v hq
      have hfit := hk.fits t
      rw [hq] at hfit
      cases hs : (k.thread t).state <;> rw [hs] at hfit htimed <;>
        first | exact Bool.noConfusion hfit | exact Bool.noConfusion htimed
  | @expire _ t s ht hq hw =>
      refine hw.fate (k := k.setSemaphoreCount s (k.semaphoreCount s + 1)) (Or.inl ⟨ht, rfl⟩) ?_ u
      change ∀ v, (k.thread t).queue ≠ _
      rw [hq]
      exact nofun
  | @grant _ t s ht hhead hw =>
      have hq := hk.queue_of_head hhead
      refine hw.fate (k := k.setSemaphoreCount s (k.semaphoreCount s + 1)) (Or.inr ?_) ?_ u
      · change Reached touched t (k.thread t).queue
        rw [hq]
        exact ht
      · change ∀ v, (k.thread t).queue ≠ _
        rw [hq]
        exact nofun
  | @dismiss _ s count ht _ hr =>
      have hk₁ : (k.setSemaphoreCount s count).Linked := ⟨hk.hold, hk.mem_iff⟩
      have hsame : (k.setSemaphoreCount s count).thread u = k.thread u := rfl
      have hrouse := hr.thread (q := .semaphore s) hk₁ nofun rfl u
      rw [hsame] at hrouse
      by_cases hq : (k.thread u).queue = some (.semaphore s)
      · rw [if_pos hq] at hrouse
        rw [hrouse]
        refine .woken (hk.isBlocked_of_queue hq nofun) rfl rfl (Or.inr ?_) ?_
        · rw [hq]
          exact ht
        · rw [hq]
          exact nofun
      · rw [if_neg hq] at hrouse
        rw [hrouse]
        exact .same (.refl _)
  | @notify _ t c r ht hhead hw =>
      have hq := hk.queue_of_head hhead
      refine hw.fate (Or.inr ?_) ?_ u
      · rw [hq]
        exact ht
      · rw [hq]
        exact nofun
  | take => exact .same (acquire_sameStand k _ _ u)
  | free => exact .same (strike_sameStand k _ u)
  | @handOver _ m next _ _ hhead hw =>
      have hk₁ : ((k.strike m).acquire m next).InPlace := (hk.strike m).acquire m next
      have hq := hk₁.queue_of_head hhead
      have hsame := (strike_sameStand k m u).trans (acquire_sameStand (k.strike m) m next u)
      refine .after_same hsame (hw.fate (Or.inr ?_) ?_ u)
      · rw [hq]
        trivial
      · rw [hq]
        exact nofun
  | create name p e ht hs =>
      exact replaceThread_fate (by rw [hs]; rfl) rfl (Or.inl rfl) (Or.inl ht) u
  | blank hs =>
      exact replaceThread_fate (by rw [hs]; rfl) rfl (Or.inr rfl) (Or.inr ⟨hs, rfl⟩) u
  | vacate ht hs =>
      exact replaceThread_fate (by rw [hs]; rfl) rfl (Or.inr rfl) (Or.inl ht) u
  | _ => exact .same (.refl _)

theorem Dispatches.passage (h : Dispatches next k k') {runs : ThreadId → Prop}
    (hk : k.Arranged runs) {k₀ k₂ : Kernel} (u : ThreadId) :
    Passage touched k₀ k₂ u (k.thread u) (k'.thread u) := by
  rw [h.thread]
  split
  · rename_i hu
    rw [hu]
    exact .dispatched (h.ready_next hk) (h.queue hk.toLinked) rfl rfl rfl
  · exact .same (.refl _)

/-- No timeout is pending for the running thread. -/
theorem InPlace.isArmed_current (hk : k.InPlace) :
    k.timers.isArmed (timeoutSlot k.current) = false := by
  refine Bool.eq_false_of_not_eq_true fun harmed => ?_
  rw [TimerQueue.isArmed, hk.unarmed (by rw [hk.state_current]; rfl)] at harmed
  cases harmed

theorem Passage.after_same {k₀ : Kernel} (h : SameStand th th₁)
    (h' : Passage touched k₀ k' u th₁ th') : Passage touched k₀ k' u th th' := by
  cases h' with
  | same h' => exact .same (h.trans h')
  | dispatched hs hq hs' hq' hw =>
      exact .dispatched (h.state ▸ hs) (h.queue ▸ hq) hs' hq' (hw.trans h.wakeup)
  | waits hu hs hq hw => exact .waits hu hs hq (hw.trans h.wakeup)
  | parked hu hb ht => exact .parked hu hb ht
  | ended hu ht hs hq => exact .ended hu ht hs hq
  | roused hb hq hf hs hq' => exact .roused (h.state ▸ hb) (h.queue ▸ hq) hf hs hq'

theorem Blocks.thread_current (h : Blocks state p k k') (hk : k.InPlace) :
    k'.thread k.current = { k.running with state, queue := p } := by
  obtain ⟨-, k₁, next, hpark, hdispatch⟩ := h
  have hself := hpark.moves.thread_self
  have hne : next ≠ k.current := by
    rintro rfl
    have hready := hdispatch.ready_next (hpark.arranged hk)
    have hblocked := hpark.blocked
    rw [hself] at hready
    change state = .ready at hready
    rw [hready] at hblocked
    cases hblocked
  rw [hdispatch.thread, if_neg hne.symm, hself]

theorem Blocks.passage (h : Blocks state p k k') (hk : k.InPlace) {k₀ : Kernel}
    (hcurrent : k.current = k₀.current)
    (cause : ∀ s, p = some (.semaphore s) → touched (.semaphore s)) (u : ThreadId) :
    Passage touched k₀ k' u (k.thread u) (k'.thread u) := by
  have hme := h.thread_current hk
  obtain ⟨-, k₁, next, hpark, hdispatch⟩ := h
  by_cases hu : u = k.current
  · rw [hu, hme]
    exact .parked hcurrent hpark.blocked cause
  · rw [← hpark.moves.thread_of_ne hu]
    exact hdispatch.passage (hpark.arranged hk) u

theorem GivesWay.passage (h : GivesWay ahead k k') (hk : k.InPlace) (u : ThreadId) :
    Passage touched k k' u (k.thread u) (k'.thread u) := by
  obtain ⟨k₁, next, hdispatch, -, hmoves⟩ := h
  have hne := hdispatch.ne_current hk
  have hme : k₁.thread k.current = k.running := hdispatch.moves.thread_of_ne hne.symm
  by_cases hu : u = k.current
  · rw [hu, hmoves.thread_self]
    exact .waits rfl rfl rfl rfl
  · rw [hmoves.thread_of_ne hu]
    exact hdispatch.passage hk u

theorem Lends.sameStand (h : Lends k o k') (u : ThreadId) :
    SameStand (k.thread u) (k'.thread u) := by
  induction h with
  | enough _ => exact .refl _
  | last _ hb _ => exact sameStand_of_thread hb.2.thread ⟨rfl, rfl, rfl, rfl⟩ u
  | on _ hb _ _ _ ih => exact (sameStand_of_thread hb.2.thread ⟨rfl, rfl, rfl, rfl⟩ u).trans ih

/-- The thread that ends is left with its message. -/
theorem Rouses.thread_ended {msg : Msg}
    (hr : Rouses .ok (k.members (.exit k.current)) (k.finishCurrent msg) k₁) (hk : k.InPlace)
    (hd : Dispatches next k₁ k') :
    k'.thread k.current = { k.running with exitMsg := msg, state := .final } := by
  have hk₀ := hk.finishCurrent msg
  have hqueue : k.running.queue = none := hk.queue_eq_none rfl
  have hthread : (k.finishCurrent msg).thread k.current =
      { k.running with exitMsg := msg, state := .final } :=
    (thread_modifyThread k k.current k.current _).trans (if_pos rfl)
  have hself := hr.thread (q := .exit k.current) hk₀.toLinked nofun rfl k.current
  rw [hthread, hqueue, if_neg nofun] at hself
  rw [hd.thread, if_neg, hself]
  intro hnext
  have hready := hd.ready_next (hr.arranged hk₀)
  rw [← hnext, hself] at hready
  cases hready

theorem Switch.passage (h : Switch touched k k') (hk : k.InPlace) (u : ThreadId) :
    Passage touched k k' u (k.thread u) (k'.thread u) := by
  cases h with
  | giveWay h => exact h.passage hk u
  | park _ h => exact h.passage hk rfl nofun u
  | @awaitUnit _ s _ ht _ _ _ h =>
      refine h.passage (k := k.setSemaphoreCount s (k.semaphoreCount s - 1))
        (InPlace.setSemaphoreCount hk _ _) (show k.current = k.current from rfl) ?_ u
      rintro s' ⟨⟩
      exact ht
  | awaitMutex _ _ _ hlends h =>
      have hk₁ := hlends.arranged hk
      rw [← hlends.current] at hk₁
      exact .after_same (hlends.sameStand u) (h.passage hk₁ hlends.current nofun u)
  | awaitCondition _ h => exact h.passage hk rfl nofun u
  | awaitExit _ _ _ _ _ h => exact h.passage hk rfl nofun u
  | @exit k₁ _ msg next ht _ hr hd =>
      have hk₀ := hk.finishCurrent msg
      have hk₁ := hr.arranged hk₀
      have hthread : ∀ u, (k.finishCurrent msg).thread u = if u = k.current then
          { k.running with exitMsg := msg, state := .final } else k.thread u :=
        fun u => thread_modifyThread k k.current u _
      have hrouse := hr.thread (q := .exit k.current) hk₀.toLinked nofun rfl
      have hqueue : k.running.queue = none := hk.queue_eq_none rfl
      have hended := hr.thread_ended hk hd
      have hfinal : (k'.thread k.current).state = .final := by rw [hended]
      by_cases hu : u = k.current
      · rw [hu, hended]
        exact .ended rfl ht rfl hqueue
      · have hrouse := hrouse u
        rw [hthread, if_neg hu] at hrouse
        by_cases hq : (k.thread u).queue = some (.exit k.current)
        · rw [if_pos hq] at hrouse
          have hblocked := hk.isBlocked_of_queue hq nofun
          rw [hd.thread]
          split
          · exact .roused hblocked hq hfinal rfl nofun
          · rw [hrouse]
            exact .roused hblocked hq hfinal rfl nofun
        · rw [if_neg hq] at hrouse
          rw [← hrouse]
          exact hd.passage hk₁ u

/-! Who lives. -/

/-- Nobody ends, and only a thread that may be touched comes or goes. -/
structure Spares (touched : Object → Prop) (k k' : Kernel) : Prop where
  alive : ∀ u, (k.thread u).state.isGone = false → (k'.thread u).state.isGone = false
  final : ∀ u, ¬ touched (.thread u) → (k.thread u).state = .final →
    (k'.thread u).state = .final ∧ (k'.thread u).exitMsg = (k.thread u).exitMsg
  inactive : ∀ u, ¬ touched (.thread u) → (k.thread u).state = .inactive →
    (k'.thread u).state = .inactive
  waits : ∀ u t, (k.thread u).queue = some (.exit t) → (k'.thread u).queue = some (.exit t)
  ends : ∀ u, (k'.thread u).state = .final → (k.thread u).state = .final

theorem Arranged.queue_eq_none_of_gone {runs : ThreadId → Prop} (hk : k.Arranged runs)
    (hg : (k.thread t).state.isGone = true) : (k.thread t).queue = none := by
  refine hk.queue_eq_none_of_state ?_
  cases hs : (k.thread t).state <;> simp [hs, ThreadState.isGone] at hg ⊢

theorem Effect.spares (h : Effect touched k k') (hk : k.InPlace) : Spares touched k k' := by
  refine ⟨?_, ?_, ?_, ?_, ?_⟩
  · intro u hu
    cases h.fate hk u with
    | same h => rw [h.state, hu]
    | woken _ hs => rw [hs]; rfl
    | replaced hg => rw [hu] at hg; cases hg
  · intro u ht hu
    cases h.fate hk u with
    | same h => exact ⟨h.state.trans hu, h.exitMsg⟩
    | woken hb => rw [hu] at hb; cases hb
    | replaced _ _ _ hc =>
        rcases hc with hc | ⟨hs, -⟩
        · exact absurd hc ht
        · rw [hu] at hs
          cases hs
  · intro u ht hu
    cases h.fate hk u with
    | same h => rw [h.state, hu]
    | woken hb => rw [hu] at hb; cases hb
    | replaced _ _ _ hc =>
        rcases hc with hc | ⟨-, hs⟩
        · exact absurd hc ht
        · exact hs
  · intro u t hq
    cases h.fate hk u with
    | same h => rw [h.queue, hq]
    | woken _ _ _ _ he => exact absurd hq (he t)
    | replaced hg =>
        rw [hk.queue_eq_none_of_gone hg] at hq
        cases hq
  · intro u hs
    cases h.fate hk u with
    | same h => exact h.state.symm.trans hs
    | woken _ hready => rw [hready] at hs; cases hs
    | replaced _ _ halive => exact absurd hs halive

theorem Spares.refl (k : Kernel) : Spares touched k k :=
  ⟨fun _ => id, fun _ _ hs => ⟨hs, rfl⟩, fun _ _ => id, fun _ _ => id, fun _ => id⟩

theorem Spares.trans (h : Spares touched k k₁) (h' : Spares touched k₁ k') :
    Spares touched k k' := by
  refine ⟨fun u hu => h'.alive u (h.alive u hu), ?_,
    fun u ht hu => h'.inactive u ht (h.inactive u ht hu),
    fun u t hq => h'.waits u t (h.waits u t hq), fun u hs => h.ends u (h'.ends u hs)⟩
  intro u ht hs
  obtain ⟨hs₁, hmsg⟩ := h.final u ht hs
  obtain ⟨hs', hmsg'⟩ := h'.final u ht hs₁
  exact ⟨hs', hmsg'.trans hmsg⟩

/-- What a whole operation may do to the lives of threads: the running one may end. -/
structure Affects (touched : Object → Prop) (k k' : Kernel) : Prop where
  alive : ∀ u, (k.thread u).state.isGone = false → (k'.thread u).state.isGone = false ∨
    u = k.current ∧ touched (.thread u) ∧ (k'.thread u).state = .final
  final : ∀ u, ¬ touched (.thread u) → (k.thread u).state = .final →
    (k'.thread u).state = .final ∧ (k'.thread u).exitMsg = (k.thread u).exitMsg
  inactive : ∀ u, ¬ touched (.thread u) → (k.thread u).state = .inactive →
    (k'.thread u).state = .inactive
  waits : ∀ u t, (k.thread u).queue = some (.exit t) → (k'.thread u).queue = some (.exit t) ∨
    (k'.thread t).state = .final
  ends : ∀ u, (k'.thread u).state = .final → (k.thread u).state = .final ∨
    u = k.current ∧ touched (.thread u)

theorem Switch.affects (h : Switch touched k k') (hk : k.InPlace) : Affects touched k k' := by
  have hrun := hk.state_current
  refine ⟨?_, ?_, ?_, ?_, ?_⟩
  · intro u hu
    cases h.passage hk u with
    | same h => rw [h.state]; exact Or.inl hu
    | dispatched _ _ hs => rw [hs]; exact Or.inl rfl
    | waits _ hs => rw [hs]; exact Or.inl rfl
    | parked _ hb => exact Or.inl (Bool.eq_false_of_not_eq_true (not_isGone_of_isBlocked hb))
    | ended hcur ht hs => exact Or.inr ⟨hcur, ht, hs⟩
    | roused _ _ _ hs =>
        refine Or.inl ?_
        cases hs' : (k'.thread u).state <;> simp [hs', ThreadState.isRunnable] at hs ⊢ <;> rfl
  · intro u ht hu
    cases h.passage hk u with
    | same h => exact ⟨h.state.trans hu, h.exitMsg⟩
    | dispatched hs => rw [hu] at hs; cases hs
    | waits hcur => rw [hcur, hrun] at hu; cases hu
    | parked hcur => rw [hcur, hrun] at hu; cases hu
    | ended _ htouched => exact absurd htouched ht
    | roused hb => rw [hu] at hb; cases hb
  · intro u ht hu
    cases h.passage hk u with
    | same h => rw [h.state, hu]
    | dispatched hs => rw [hu] at hs; cases hs
    | waits hcur => rw [hcur, hrun] at hu; cases hu
    | parked hcur => rw [hcur, hrun] at hu; cases hu
    | ended _ htouched => exact absurd htouched ht
    | roused hb => rw [hu] at hb; cases hb
  · intro u t hq
    have hfree : u ≠ k.current := hk.not_runs hq
    cases h.passage hk u with
    | same h => rw [h.queue]; exact Or.inl hq
    | dispatched _ hready => rw [hready] at hq; cases hq
    | waits hcur => exact absurd hcur hfree
    | parked hcur => exact absurd hcur hfree
    | ended hcur => exact absurd hcur hfree
    | roused _ hexit hfinal =>
        rw [hexit] at hq
        cases hq
        exact Or.inr hfinal
  · intro u hs
    cases h.passage hk u with
    | same h => exact Or.inl (h.state.symm.trans hs)
    | dispatched _ _ hs' => rw [hs] at hs'; cases hs'
    | waits _ hs' => rw [hs] at hs'; cases hs'
    | parked _ hb => rw [hs] at hb; cases hb
    | ended hcur ht => exact Or.inr ⟨hcur, ht⟩
    | roused _ _ _ hrun' => rw [hs] at hrun'; cases hrun'

theorem Does.affects (h : Does touched k k') (hk : k.Sound) : Affects touched k k' := by
  obtain ⟨k₁, heffects, hswitch⟩ := h
  have hinv := effects_induction (P := fun k₁ => Spares touched k k₁ ∧ k₁.current = k.current)
    heffects hk ?_ ⟨.refl k, rfl⟩
  · obtain ⟨hk₁, hspares, hcurrent⟩ := hinv
    rcases hswitch with rfl | hswitch
    · exact ⟨fun u hu => Or.inl (hspares.alive u hu), hspares.final, hspares.inactive,
        fun u t hq => Or.inl (hspares.waits u t hq), fun u hs => Or.inl (hspares.ends u hs)⟩
    · have haffects := hswitch.affects hk₁.inPlace
      refine ⟨?_, ?_, ?_, ?_, ?_⟩
      · intro u hu
        rw [← hcurrent]
        exact haffects.alive u (hspares.alive u hu)
      · intro u ht hs
        obtain ⟨hs₁, hmsg⟩ := hspares.final u ht hs
        obtain ⟨hs', hmsg'⟩ := haffects.final u ht hs₁
        exact ⟨hs', hmsg'.trans hmsg⟩
      · exact fun u ht hs => haffects.inactive u ht (hspares.inactive u ht hs)
      · exact fun u v hq => haffects.waits u v (hspares.waits u v hq)
      · intro u hs
        rw [← hcurrent]
        exact (haffects.ends u hs).imp_left (hspares.ends u)
  · rintro k₁ k₂ hk₁ he ⟨hspares, hcurrent⟩
    exact ⟨hspares.trans (he.spares hk₁.inPlace), he.current.trans hcurrent⟩

end RealtimeKernel.Kernel

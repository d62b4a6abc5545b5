import RealtimeKernel.Kernel.CondVar
import RealtimeKernel.Kernel.Mailbox
import RealtimeKernel.Kernel.Timer
import RealtimeKernel.Proofs.Kernel.Sound

/-!
The operations one by one: the cases that each one has, with what it leaves and answers, and
the effects and switches that come of it. Later modules go by these lemmas, and hardly look at
the code of the kernel again.
-/
namespace RealtimeKernel.Kernel

variable {k k' k₁ : Kernel} {touched : Object → Prop} {t o : ThreadId} {s : SemaphoreId}
  {m : MutexId} {c : CondVarId} {q : QueueId} {r : WakeupResult} {state : ThreadState}
  {b : MailboxId} {epoch : UInt32} {msg : Msg} {ahead : Bool} {step : Step}

theorem Does.refl (k : Kernel) : Does touched k k := ⟨k, .refl, Or.inl rfl⟩

theorem Does.of_effect (h : Effect touched k k') : Does touched k k' :=
  ⟨k', .single h, Or.inl rfl⟩

theorem Does.of_switch (h : Switch touched k k') : Does touched k k' :=
  ⟨k, .refl, Or.inr h⟩

theorem Does.after {touched : Object → Prop} (h : Does touched k₁ k')
    (he : Relation.ReflTransGen (Effect touched) k k₁) : Does touched k k' := by
  obtain ⟨k₂, heffects, hswitch⟩ := h
  exact ⟨k₂, he.trans heffects, hswitch⟩

theorem Does.after_effect (h : Does touched k₁ k') (he : Effect touched k k₁) :
    Does touched k k' := h.after (.single he)

theorem Does.of_effects (h : Relation.ReflTransGen (Effect touched) k k') : Does touched k k' :=
  ⟨k', h, Or.inl rfl⟩

theorem note_effect (k : Kernel) (record : LogRecord) : Effect touched k (k.note record) :=
  .quiet k.quantumLeft (record :: k.journal) (Nat.le_refl _)

/-! Scheduling. -/

theorem preempt_ok (hk : k.InPlace) (h : k.preempt = .ok k') :
    (k.isPreemptionRequired = true ∧ GivesWay (k.quantumLeft > 0) k k') ∨
      k.isPreemptionRequired = false ∧ k' = k := by
  unfold preempt at h
  split at h
  · rename_i hrequired
    exact Or.inl ⟨hrequired, giveWay_ok hk h⟩
  · rename_i hnot
    exact Or.inr ⟨eq_false_of_ne_true hnot, (Except.ok.inj h).symm⟩

theorem isPreemptionRequired_of_head (hk : k.Linked) (h : (k.members .ready).head? = some t) :
    k.isPreemptionRequired = if k.quantumLeft > 0
      then (k.priorityOf t).isHigherThan k.running.priority
      else !k.running.priority.isHigherThan (k.priorityOf t) := by
  have hhead : k.queues.ready.head = some t := (hk.head_eq .ready).trans h
  unfold isPreemptionRequired
  rw [hhead]

theorem preempt_switch (hk : k.InPlace) (h : k.preempt = .ok k') :
    Switch touched k k' ∨ k' = k := by
  refine (preempt_ok hk h).imp ?_ And.right
  rintro ⟨hrequired, hgives⟩
  refine .giveWay hgives fun hahead => ?_
  have hleft : k.quantumLeft > 0 := of_decide_eq_true hahead
  refine ⟨hleft, fun t hhead => ?_⟩
  rw [isPreemptionRequired_of_head hk.toLinked hhead, if_pos hleft] at hrequired
  exact Priority.isHigherThan_iff.mp hrequired

theorem preempt_does (hk : k.InPlace) (h : k.preempt = .ok k') : Does touched k k' := by
  rcases preempt_switch hk h with hswitch | rfl
  · exact .of_switch hswitch
  · exact .refl _

theorem yieldTurn_does (hk : k.InPlace) (h : k.yieldTurn = .ok k') : Does touched k k' := by
  unfold yieldTurn at h
  split at h
  · obtain rfl := Except.ok.inj h
    exact .refl k
  · split at h
    · obtain rfl := Except.ok.inj h
      exact .refl k
    · exact .of_switch (.giveWay (giveWay_ok hk h) nofun)

theorem resume_ok (hk : k.InPlace) (h : k.resume t = .ok k') :
    (k.thread t).state = .suspended ∧ Wakes t .ok k k' := by
  unfold resume at h
  split at h
  · rename_i hs
    have hq : (k.thread t).queue = none := hk.queue_eq_none_of_state (by tauto)
    have hmoves := hk.toLinked.moves_self hq
    have hblocked : (k.thread t).state.isBlocked = true := by
      rw [hs]
      rfl
    exact ⟨hs, wakes_of_ready hk.toLinked hblocked hmoves rfl h⟩
  · cases h

theorem resume_effect (hk : k.InPlace) (ht : touched (.suspended t) ∨ touched (.thread t))
    (h : k.resume t = .ok k') : Effect touched k k' :=
  have ⟨hs, hwakes⟩ := resume_ok hk h
  .resume ht hs hwakes

theorem addUnit_ok (h : k.addUnit s = .ok k') :
    k' = k.setSemaphoreCount s (k.semaphoreCount s + 1) := by
  unfold addUnit at h
  dsimp only at h
  split at h
  · cases h
  · exact (Except.ok.inj h).symm

/-- A thread whose timeout ran out wakes, and gives its claim on a unit back. -/
theorem timeOut_ok (hk : k.InPlace) (h : k.timeOut t = .ok k') :
    ((k.thread t).state.isBlocked = false ∧ ∃ record, k' = k.note record) ∨
      (∃ s, (k.thread t).queue = some (.semaphore s) ∧
        Wakes t .timeout (k.setSemaphoreCount s (k.semaphoreCount s + 1)) k') ∨
      ((∀ s, (k.thread t).queue ≠ some (.semaphore s)) ∧ Wakes t .timeout k k') := by
  unfold timeOut at h
  dsimp only at h
  split at h
  · rename_i hblocked
    obtain ⟨k₁, hcancel, h⟩ := bind_eq_ok.mp h
    unfold cancelWait at hcancel
    dsimp only at hcancel
    split at hcancel
    · rename_i s hq
      obtain ⟨k₂, hunits, hunlink⟩ := bind_eq_ok.mp hcancel
      have hunits := addUnit_ok hunits
      have hk₂ : k₂.InPlace := by
        rw [hunits]
        exact InPlace.setSemaphoreCount hk _ _
      obtain ⟨hmoves, htimers⟩ := unlink_ok hk₂.toLinked hunlink
      have hthread : k₂.thread t = k.thread t := by rw [hunits]; rfl
      rw [← hthread] at hblocked
      have hwakes := wakes_of_ready hk₂.toLinked hblocked hmoves htimers h
      rw [hunits] at hwakes
      exact Or.inr (Or.inl ⟨s, hq, hwakes⟩)
    · rename_i hq
      obtain ⟨hmoves, htimers⟩ := unlink_ok hk.toLinked hcancel
      exact Or.inr (Or.inr ⟨hq, wakes_of_ready hk.toLinked hblocked hmoves htimers h⟩)
  · rename_i hnot
    exact Or.inl ⟨eq_false_of_ne_true hnot, _, (Except.ok.inj h).symm⟩

theorem timeOut_effect (hk : k.InPlace) (ht : touched .time)
    (timed : (k.thread t).state.isTimed = true) (h : k.timeOut t = .ok k') :
    Effect touched k k' := by
  rcases timeOut_ok hk h with ⟨-, record, rfl⟩ | ⟨s, hq, hwakes⟩ | ⟨hq, hwakes⟩
  · exact note_effect k record
  · exact .expire ht hq hwakes
  · exact .timeOut ht timed hq hwakes

/-! Threads. -/

/-- The running thread waits for the end of a thread that lives, and nobody else does. -/
structure AwaitsExit (t : ThreadId) (k k' : Kernel) : Prop where
  other : t ≠ k.current
  active : (k.thread t).isActive = true
  alive : (k.thread t).state ≠ .final
  nobody : k.members (.exit t) = []
  blocks : Blocks .waitingExit (some (.exit t)) k k'

theorem AwaitsExit.isGone (h : AwaitsExit t k k') : (k.thread t).state.isGone = false := by
  have hactive : (k.thread t).state ≠ .inactive := by simpa [Thread.isActive] using h.active
  have hfinal := h.alive
  cases hs : (k.thread t).state <;>
    first | rfl | exact absurd hs hactive | exact absurd hs hfinal

theorem AwaitsExit.switch (h : AwaitsExit t k k') (ht : touched (.thread t)) :
    Switch touched k k' :=
  .awaitExit ht h.other h.active h.alive h.nobody h.blocks

/-- A thread that joins another one collects it at once, or waits for its end. -/
theorem join_ok (hk : k.InPlace) (h : k.join t = .ok step) :
    ((k.thread t).state = .final ∧ step = k.collect t) ∨
      step.2 = [.collect t] ∧ AwaitsExit t k step.1 := by
  unfold join at h
  split at h
  · cases h
  · rename_i hne
    split at h
    · cases h
    · rename_i hactive
      split at h
      · rename_i hfinal
        exact Or.inl ⟨hfinal, (Except.ok.inj h).symm⟩
      · rename_i hfinal
        split at h
        · cases h
        · rename_i hjoiner
          obtain ⟨k₁, hqueue, h⟩ := bind_eq_ok.mp h
          obtain ⟨k₂, hblock, h⟩ := bind_eq_ok.mp h
          obtain rfl := Except.ok.inj h
          obtain ⟨-, htimers, hmoves⟩ := enqueue_ok hk.toLinked hqueue
          have hblocks := block_ok hk.toLinked hmoves rfl rfl (Or.inl htimers) hblock
          have hnobody : k.members (.exit t) = [] := by
            rw [hk.head_eq] at hjoiner
            simpa using hjoiner
          exact Or.inr ⟨rfl, hne, by simpa using hactive, hfinal, hnobody, hblocks⟩

/-- Who waits for the end of a thread wakes, and the first ready thread runs. -/
theorem exit_ok (hk : k.InPlace) {msg : Msg} (h : k.exit msg = .ok k') :
    k.running.held = [] ∧ ∃ record k₁ next,
      Rouses .ok (k.members (.exit k.current)) ((k.note record).finishCurrent msg) k₁ ∧
        Dispatches next k₁ k' := by
  unfold exit at h
  dsimp only at h
  split at h
  · rename_i hheld
    obtain ⟨k₁, hwake, h⟩ := bind_eq_ok.mp h
    obtain ⟨⟨next, k₂⟩, hnext, h⟩ := bind_eq_ok.mp h
    obtain rfl := Except.ok.inj h
    generalize hrecord : LogRecord.threadExited _ msg = record at hwake
    have hnote : Effect (fun _ => False) k (k.note record) := note_effect k record
    have hfinish := (hnote.inPlace hk).finishCurrent msg
    have hrouses := wakeAll_ok (q := .exit k.current) hfinish nofun hwake
    exact ⟨List.isEmpty_iff.mp hheld, record, k₁, next, hrouses,
      dispatches_of_takeNext (hrouses.arranged hfinish).toLinked hnext _⟩
  · cases h

theorem InPlace.stays (hk : k.InPlace) :
    Moves false k.current { k.running with queue := none } k k :=
  hk.toLinked.moves_self (hk.queue_eq_none rfl)

/-- There is nothing to withdraw for a thread that stands in no queue. -/
theorem cancelWait_free (hq : (k.thread t).queue = none) (h : k.cancelWait t = .ok k') :
    k' = k := by
  unfold cancelWait at h
  simp only [hq] at h
  obtain ⟨k₁, hk₁, h⟩ := bind_eq_ok.mp h
  obtain rfl := Except.ok.inj hk₁
  unfold unlink at h
  simp only [hq] at h
  exact (Except.ok.inj h).symm

/-- A wait that no queue is involved in. -/
theorem suspend_ok {timeout : Timeout} (hk : k.InPlace) (h : k.suspend timeout = .ok step) :
    (timeout = .immediate ∧ step = (k, [.answer (.wakeup .timeout)])) ∨
      ∃ checks k', (checks = [] ∨ checks = [.awake]) ∧ step = (k', checks ++ [.answerWakeup]) ∧
        Blocks .suspended none k k' := by
  obtain ⟨w, hwait, h⟩ := bind_eq_ok.mp h
  obtain rfl := Except.ok.inj h
  rcases await_ok hk.toLinked hk.stays rfl rfl rfl rfl hwait with
    ⟨htimeout, k', rfl, hcancel⟩ | ⟨checks, k', rfl, hc, hblocks⟩
  · rw [cancelWait_free (hk.queue_eq_none rfl) hcancel]
    exact Or.inl ⟨htimeout, rfl⟩
  · exact Or.inr ⟨checks, k', hc, rfl, hblocks⟩

theorem sleep_ok {ticks : Ticks} (h : k.sleep ticks = .ok step) :
    (∃ delay k', Delay.ofTicks? ticks = some delay ∧ k.blockFor .sleeping delay = .ok k' ∧
      step = (k', [.awake, .answer .unit])) ∨
      ∃ k', Delay.ofTicks? ticks = none ∧ k.yieldTurn = .ok k' ∧ step = (k', [.answer .unit]) := by
  unfold sleep at h
  split at h
  · rename_i delay hdelay
    obtain ⟨k', hblock, h⟩ := bind_eq_ok.mp h
    exact Or.inl ⟨delay, k', hdelay, hblock, (Except.ok.inj h).symm⟩
  · rename_i hnone
    obtain ⟨k', hyield, h⟩ := bind_eq_ok.mp h
    exact Or.inr ⟨k', hnone, hyield, (Except.ok.inj h).symm⟩

theorem sleepUntil_ok {deadline : Ticks} (h : k.sleepUntil deadline = .ok step) :
    (∃ delay k', Delay.ofTicks? (deadline - k.clock.now) = some delay ∧
      k.blockFor .sleeping delay = .ok k' ∧ step = (k', [.awake, .answer .unit])) ∨
      Delay.ofTicks? (deadline - k.clock.now) = none ∧ step = (k, [.answer .unit]) := by
  unfold sleepUntil at h
  split at h
  · rename_i delay hdelay
    obtain ⟨k', hblock, h⟩ := bind_eq_ok.mp h
    exact Or.inl ⟨delay, k', hdelay, hblock, (Except.ok.inj h).symm⟩
  · rename_i hnone
    exact Or.inr ⟨hnone, (Except.ok.inj h).symm⟩

/-! Semaphores. -/

/-- A signal: the count goes up, and if threads wait then the first one wakes. -/
theorem signal_ok (hk : k.Sound) (h : k.signal s = .ok k') :
    (0 ≤ k.semaphoreCount s ∧ k' = k.setSemaphoreCount s (k.semaphoreCount s + 1)) ∨
    (k.semaphoreCount s < 0 ∧ ∃ t, (k.members (.semaphore s)).head? = some t ∧
      Wakes t .ok (k.setSemaphoreCount s (k.semaphoreCount s + 1)) k') := by
  unfold signal at h
  obtain ⟨k₁, hunit, h⟩ := bind_eq_ok.mp h
  have hunit := addUnit_ok hunit
  have hk₁ : k₁.InPlace := by
    rw [hunit]
    exact InPlace.setSemaphoreCount hk.inPlace _ _
  have hmembers : k₁.members (.semaphore s) = k.members (.semaphore s) := by rw [hunit]; rfl
  split at h
  · rename_i hneg
    rcases wakeFirst_ok (q := .semaphore s) hk₁ nofun h with ⟨hnil, -⟩ | ⟨t, hhead, hwakes⟩
    · have hlen := hk.counted.length_eq s
      rw [hmembers] at hnil
      rw [hnil, List.length_nil] at hlen
      omega
    · rw [hmembers] at hhead
      rw [hunit] at hwakes
      exact Or.inr ⟨hneg, t, hhead, hwakes⟩
  · rename_i hneg
    obtain rfl := Except.ok.inj h
    exact Or.inl ⟨by omega, hunit⟩

theorem signal_effect (hk : k.Sound) (ht : touched (.semaphore s)) (h : k.signal s = .ok k') :
    Effect touched k k' := by
  rcases signal_ok hk h with ⟨hcount, rfl⟩ | ⟨-, t, hhead, hwakes⟩
  · exact .recount ht hcount (by omega)
  · exact .grant ht hhead hwakes

theorem takeUnit_ok (h : k.takeUnit? s = some k') :
    0 < k.semaphoreCount s ∧ k' = k.setSemaphoreCount s (k.semaphoreCount s - 1) := by
  unfold takeUnit? at h
  split at h
  · rename_i hpos
    exact ⟨hpos, (Option.some.inj h).symm⟩
  · cases h

theorem takeUnit_effect (ht : touched (.semaphore s)) (h : k.takeUnit? s = some k') :
    Effect touched k k' := by
  obtain ⟨hpos, rfl⟩ := takeUnit_ok h
  exact .recount ht hpos.le (by omega)

theorem resetSemaphore_ok (hk : k.InPlace) {count : Nat} (h : k.resetSemaphore s count = .ok k') :
    Rouses .reset (k.members (.semaphore s)) (k.setSemaphoreCount s count) k' := by
  unfold resetSemaphore at h
  split at h
  · have hk₁ : (k.setSemaphoreCount s count).InPlace := InPlace.setSemaphoreCount hk _ _
    exact wakeAll_ok (q := .semaphore s) hk₁ nofun h
  · cases h

theorem resetSemaphore_effect (hk : k.InPlace) (ht : touched (.semaphore s)) {count : Nat}
    (h : k.resetSemaphore s count = .ok k') : Effect touched k k' :=
  .dismiss ht (Int.natCast_nonneg count) (resetSemaphore_ok hk h)

theorem addSemaphore_effect {count : Nat} {e : Except KernelError SemaphoreId}
    (h : k.addSemaphore count = .ok (e, k')) : k' = k ∧ (∃ err, e = .error err) ∨
      ∃ s pool, e = .ok s ∧ k.semaphores.push? { count } = some (s, pool) ∧
        k' = { k with semaphores := pool } := by
  unfold addSemaphore at h
  split at h
  · split at h
    · rename_i hpush
      obtain ⟨rfl, rfl⟩ := Prod.mk.inj (Except.ok.inj h)
      exact Or.inr ⟨_, _, rfl, hpush, rfl⟩
    · obtain ⟨rfl, rfl⟩ := Prod.mk.inj (Except.ok.inj h)
      exact Or.inl ⟨rfl, _, rfl⟩
  · cases h

theorem createSemaphore_ok {count : Nat} {e : Except KernelError SemaphoreId}
    (h : k.createSemaphore count = .ok (e, k')) : k' = k ∧ (∃ err, e = .error err) ∨
      ∃ s pool, e = .ok s ∧ k.semaphores.push? { count } = some (s, pool) ∧
        k' = { k with semaphores := pool }.note (.semaphoreCreated s count) := by
  obtain ⟨⟨e₁, k₁⟩, hadd, h⟩ := bind_eq_ok.mp h
  rcases addSemaphore_effect hadd with ⟨rfl, err, rfl⟩ | ⟨s, pool, rfl, hpush, rfl⟩
  · obtain ⟨rfl, rfl⟩ := Prod.mk.inj (Except.ok.inj h)
    exact Or.inl ⟨rfl, _, rfl⟩
  · obtain ⟨rfl, rfl⟩ := Prod.mk.inj (Except.ok.inj h)
    exact Or.inr ⟨s, pool, rfl, hpush, rfl⟩

theorem createSemaphore_does {count : Nat} {e : Except KernelError SemaphoreId}
    (h : k.createSemaphore count = .ok (e, k')) : Does touched k k' := by
  rcases createSemaphore_ok h with ⟨rfl, -⟩ | ⟨s, pool, -, hpush, rfl⟩
  · exact .refl _
  · exact (Does.of_effect (note_effect _ _)).after_effect (.newSemaphore hpush)

/-- A new mailbox: two semaphores of its own are made for it, or the attempt fails. -/
theorem createMailbox_ok {capacity : Nat} {e : Except KernelError MailboxId}
    (h : k.createMailbox capacity = .ok (e, k')) :
    ((∃ err, e = .error err) ∧ k' = { k with semaphores := k'.semaphores } ∧
      Relation.ReflTransGen (Effect touched) k k') ∨
    ∃ b empty full pool₁ pool₂ pool, ∃ hpos : 0 < capacity, e = .ok b ∧ capacity ≤ maxMessages ∧
      k.semaphores.push? { count := capacity } = some (empty, pool₁) ∧
      pool₁.push? { count := 0 } = some (full, pool₂) ∧
      k.mailboxes.push? { capacity, ring := .empty 0 hpos, empty, full } = some (b, pool) ∧
      k' = { k with semaphores := pool₂, mailboxes := pool }.note (.mailboxCreated b capacity) := by
  unfold createMailbox at h
  split at h
  · rename_i hcapacity
    split at h
    · obtain ⟨rfl, rfl⟩ := Prod.mk.inj (Except.ok.inj h)
      exact Or.inl ⟨⟨_, rfl⟩, rfl, .refl⟩
    · split at h
      · obtain ⟨rfl, rfl⟩ := Prod.mk.inj (Except.ok.inj h)
        exact Or.inl ⟨⟨_, rfl⟩, rfl, .refl⟩
      · obtain ⟨⟨e₁, k₁⟩, hadd₁, h⟩ := bind_eq_ok.mp h
        rcases addSemaphore_effect hadd₁ with ⟨rfl, err, rfl⟩ | ⟨empty, pool₁, rfl, hpush₁, rfl⟩
        · obtain ⟨rfl, rfl⟩ := Prod.mk.inj (Except.ok.inj h)
          exact Or.inl ⟨⟨_, rfl⟩, rfl, .refl⟩
        · obtain ⟨⟨e₂, k₂⟩, hadd₂, h⟩ := bind_eq_ok.mp h
          have heffect₁ : Effect touched k { k with semaphores := pool₁ } := .newSemaphore hpush₁
          rcases addSemaphore_effect hadd₂ with ⟨rfl, err, rfl⟩ | ⟨full, pool₂, rfl, hpush₂, rfl⟩
          · obtain ⟨rfl, rfl⟩ := Prod.mk.inj (Except.ok.inj h)
            exact Or.inl ⟨⟨_, rfl⟩, rfl, .single heffect₁⟩
          · have heffect₂ : Effect touched { k with semaphores := pool₁ }
                { k with semaphores := pool₂ } := .newSemaphore hpush₂
            dsimp only at h
            split at h
            · rename_i b pool hpush
              obtain ⟨rfl, rfl⟩ := Prod.mk.inj (Except.ok.inj h)
              exact Or.inr ⟨b, empty, full, pool₁, pool₂, pool, hcapacity.1, rfl, hcapacity.2,
                hpush₁, hpush₂, hpush, rfl⟩
            · obtain ⟨rfl, rfl⟩ := Prod.mk.inj (Except.ok.inj h)
              exact Or.inl ⟨⟨_, rfl⟩, rfl, (Relation.ReflTransGen.single heffect₁).tail heffect₂⟩
  · obtain ⟨rfl, rfl⟩ := Prod.mk.inj (Except.ok.inj h)
    exact Or.inl ⟨⟨_, rfl⟩, rfl, .refl⟩

/-- A wait for a unit: there is one, or the caller does not wait, or it blocks. -/
theorem waitUnit_ok (hk : k.InPlace) {timeout : Timeout} {w : Wait}
    (hs : state = .waitingSemaphore ∨ state = .waitingMailbox)
    (h : k.waitUnit s timeout state = .ok w) :
    (0 < k.semaphoreCount s ∧ w = .over .ok (k.setSemaphoreCount s (k.semaphoreCount s - 1))) ∨
    (k.semaphoreCount s ≤ 0 ∧ timeout = .immediate ∧ w = .over .timeout k) ∨
    (k.semaphoreCount s ≤ 0 ∧ timeout ≠ .immediate ∧ ∃ checks k', w = .blocked checks k' ∧
      (checks = [] ∨ checks = [.awake]) ∧
      Blocks state (some (.semaphore s)) (k.setSemaphoreCount s (k.semaphoreCount s - 1)) k') := by
  unfold waitUnit at h
  dsimp only at h
  split at h
  · rename_i hcount
    exact Or.inl ⟨by omega, (Except.ok.inj h).symm⟩
  · rename_i hcount
    have hcount : k.semaphoreCount s ≤ 0 := by omega
    split at h
    · rename_i htimeout
      exact Or.inr (Or.inl ⟨hcount, htimeout, (Except.ok.inj h).symm⟩)
    · rename_i htimeout
      obtain ⟨k₁, hqueue, h⟩ := bind_eq_ok.mp h
      have hk₁ : (k.setSemaphoreCount s (k.semaphoreCount s - 1)).InPlace :=
        InPlace.setSemaphoreCount hk _ _
      obtain ⟨-, htimers, hmoves⟩ := enqueue_ok hk₁.toLinked hqueue
      have hwait := await_ok hk₁.toLinked hmoves htimers ?_ ?_ ?_ h
      · rcases hwait with ⟨himm, -⟩ | hblocked
        · exact absurd himm htimeout
        · exact Or.inr (Or.inr ⟨hcount, htimeout, hblocked⟩)
      all_goals rcases hs with rfl | rfl <;> rfl

/-- What came of a wait: it is over, or frames are left that do no more than check. -/
theorem waitUnit_does (hk : k.InPlace) (ht : touched (.semaphore s))
    (hin : k.semaphores.contains s = true) {timeout : Timeout} {w : Wait}
    (hs : state = .waitingSemaphore ∨ state = .waitingMailbox)
    (h : k.waitUnit s timeout state = .ok w) :
    (∃ r k₁, w = .over r k₁ ∧ k₁.mailboxes = k.mailboxes ∧
      Relation.ReflTransGen (Effect touched) k k₁) ∨
      ∃ checks k₁, w = .blocked checks k₁ ∧ (checks = [] ∨ checks = [.awake]) ∧
        Switch touched k k₁ := by
  rcases waitUnit_ok hk hs h with ⟨hpos, rfl⟩ | ⟨-, -, rfl⟩ | ⟨hcount, -, checks, k₁, rfl, hc, hb⟩
  · exact Or.inl ⟨_, _, rfl, rfl, .single (.recount ht (by omega) (by omega))⟩
  · exact Or.inl ⟨_, _, rfl, rfl, .refl⟩
  · exact Or.inr ⟨checks, k₁, rfl, hc, .awaitUnit ht hin hcount hs hb⟩

/-- One unit is passed on and another one taken, or waited for. -/
theorem signalAndWait_ok {s₁ s₂ : SemaphoreId} (hk : k.Sound)
    (h : k.signalAndWait s₁ s₂ = .ok step) :
    ∃ k₁ k', k.signal s₁ = .ok k₁ ∧
      ((0 < k₁.semaphoreCount s₂ ∧ step = (k', [.answer (.wakeup .ok)]) ∧
        (k₁.setSemaphoreCount s₂ (k₁.semaphoreCount s₂ - 1)).preempt = .ok k') ∨
      (k₁.semaphoreCount s₂ ≤ 0 ∧ step = (k', [.answerWakeup]) ∧
        Blocks .waitingSemaphore (some (.semaphore s₂))
          (k₁.setSemaphoreCount s₂ (k₁.semaphoreCount s₂ - 1)) k')) := by
  obtain ⟨k₁, hsignal, h⟩ := bind_eq_ok.mp h
  dsimp only at h
  split at h
  · obtain ⟨k', hpreempt, h⟩ := bind_eq_ok.mp h
    exact ⟨k₁, k', hsignal, Or.inl ⟨by omega, (Except.ok.inj h).symm, hpreempt⟩⟩
  · obtain ⟨k₂, hqueue, h⟩ := bind_eq_ok.mp h
    obtain ⟨k', hblock, h⟩ := bind_eq_ok.mp h
    have heffect : Effect (fun _ => True) k k₁ := signal_effect hk trivial hsignal
    have hk₂ : (k₁.setSemaphoreCount s₂ (k₁.semaphoreCount s₂ - 1)).InPlace :=
      InPlace.setSemaphoreCount (heffect.inPlace hk.inPlace) _ _
    obtain ⟨-, htimers, hmoves⟩ := enqueue_ok hk₂.toLinked hqueue
    have hblocks := block_ok hk₂.toLinked hmoves rfl rfl (Or.inl htimers) hblock
    exact ⟨k₁, k', hsignal, Or.inr ⟨by omega, (Except.ok.inj h).symm, hblocks⟩⟩

/-! Mutexes. -/

theorem takeMutex_ok (h : k.takeMutex m t = .ok k') : k' = k.acquire m t := by
  unfold takeMutex at h
  dsimp only at h
  split at h
  · exact (Except.ok.inj h).symm
  · cases h

theorem boosts_of_requeue (hk : k.Linked) (h : (k.modifyThread o fun th =>
    { th with priority := k.running.priority }).requeue o = .ok k₁) : Boosts o k k₁ := by
  have hset : (k.modifyThread o fun th =>
      { th with priority := k.running.priority }).Linked := hk.setThread rfl
  obtain ⟨hmoves, htimers⟩ := requeue_ok hset h
  rw [thread_modifyThread, if_pos rfl] at hmoves
  refine ⟨htimers, ?_, hmoves.hold, ?_⟩
  · intro u
    rw [hmoves.thread, thread_modifyThread]
    split <;> rfl
  · rw [hmoves.frame]
    rfl

/-- The owner of the mutex that a thread waits for. -/
def blocker? (k : Kernel) (t : ThreadId) : Option ThreadId :=
  match (k.thread t).queue with
  | some (.mutex m) => k.owner? m
  | _ => none

theorem blocker?_eq_some {next : ThreadId} : k.blocker? t = some next ↔
    ∃ m, (k.thread t).queue = some (.mutex m) ∧ k.owner? m = some next := by
  unfold blocker?
  split
  · rename_i m hq
    simp [hq]
  · rename_i hnot
    exact iff_of_false nofun fun ⟨m, hq, _⟩ => hnot m hq

theorem Boosts.blocker (h : Boosts o k k₁) : k₁.blocker? = k.blocker? := by
  funext u
  rw [blocker?, blocker?, field_of_thread (·.queue) h.2.thread rfl u]
  split
  · exact owner?_eq h.2.mutexes _
  · rfl

/-- The one that a thread waits for, as the walk along the owners sees it. -/
def awaited? (k : Kernel) (t : ThreadId) : Option ThreadId :=
  if (k.thread t).state = .waitingMutex then k.blocker? t else none

theorem InPlace.awaited_eq (hk : k.Arranged runs) : k.awaited? = k.blocker? := by
  funext t
  unfold awaited?
  split
  · rfl
  · rename_i hstate
    rw [eq_comm, Option.eq_none_iff_forall_ne_some]
    intro next hnext
    obtain ⟨m, hq, -⟩ := blocker?_eq_some.mp hnext
    exact hstate (hk.waitingMutex_iff.mpr ⟨m, hq⟩)

theorem Boosts.awaited (h : Boosts o k k₁) : k₁.awaited? = k.awaited? := by
  funext u
  rw [awaited?, awaited?, h.blocker, field_of_thread (·.state) h.2.thread rfl u]

theorem lend_of_enough {hops : Nat} (hlow : ¬ k.running.priority.level < (k.priorityOf o).level) :
    lend hops k o = .ok k := by
  unfold lend
  exact if_neg (by simpa using hlow)

theorem lend_zero (hhigh : k.running.priority.level < (k.priorityOf o).level) :
    lend 0 k o = (k.note .inheritanceTooLong).fail .inheritanceCycle := by
  unfold lend
  exact if_pos (by simpa using hhigh)

/-- One step of lending: a boost, and on to the one that is waited for. -/
theorem lend_of_high (hk : k.Linked) (hhigh : k.running.priority.level < (k.priorityOf o).level) :
    ∃ k₁, Boosts o k k₁ ∧ ∀ hops, lend (hops + 1) k o =
      (k.awaited? o).elim (.ok k₁) (lend hops k₁) := by
  have hset : (k.modifyThread o fun th => { th with priority := k.running.priority }).Linked :=
    hk.setThread rfl
  obtain ⟨k₁, hrequeue⟩ := requeue_total hset o
  have hboost := boosts_of_requeue hk hrequeue
  refine ⟨k₁, hboost, fun hops => ?_⟩
  rw [← hboost.awaited, awaited?, blocker?]
  unfold lend
  dsimp only
  rw [if_pos (by simpa using hhigh), hrequeue]
  simp only [bind, Except.bind, pure, Except.pure]
  split
  · rename_i m hstate hq
    rw [hstate, hq, if_pos rfl]
    dsimp only
    cases k₁.owner? m <;> rfl
  · rename_i hnot
    split
    · rename_i hstate
      split
      · rename_i m hq
        exact absurd hq (hnot m hstate)
      · rfl
    · rfl

/-- Lending ends where it is of no use; else it goes on to the owner of the mutex that the one that
is lent the priority waits for. -/
theorem lend_cases {hops : Nat} (hk : k.InPlace) (h : lend hops k o = .ok k') :
    ¬ k.running.priority.level < (k.priorityOf o).level ∧ k' = k ∨
      ∃ hops' k₁, hops = hops' + 1 ∧ k.running.priority.level < (k.priorityOf o).level ∧
        Boosts o k k₁ ∧ (k.blocker? o = none ∧ k' = k₁ ∨
          ∃ next, k.blocker? o = some next ∧ lend hops' k₁ next = .ok k') := by
  by_cases hhigh : k.running.priority.level < (k.priorityOf o).level
  · cases hops with
    | zero =>
        rw [lend_zero hhigh] at h
        cases h
    | succ hops =>
        obtain ⟨k₁, hboost, hlend⟩ := lend_of_high hk.toLinked hhigh
        refine Or.inr ⟨hops, k₁, rfl, hhigh, hboost, ?_⟩
        rw [hlend, InPlace.awaited_eq hk] at h
        cases hnext : k.blocker? o with
        | none =>
            rw [hnext] at h
            exact Or.inl ⟨rfl, (Except.ok.inj h).symm⟩
        | some next =>
            rw [hnext] at h
            exact Or.inr ⟨next, rfl, h⟩
  · rw [lend_of_enough hhigh] at h
    exact Or.inl ⟨hhigh, (Except.ok.inj h).symm⟩

theorem lend_ok {hops : Nat} (hk : k.InPlace) (h : lend hops k o = .ok k') : Lends k o k' := by
  induction hops generalizing k o with
  | zero =>
      obtain ⟨hlow, rfl⟩ | ⟨_, _, ⟨⟩, -⟩ := lend_cases hk h
      exact .enough hlow
  | succ hops ih =>
      obtain ⟨hlow, rfl⟩ | ⟨hops', k₁, heq, hhigh, hboost, hrest⟩ := lend_cases hk h
      · exact .enough hlow
      · obtain rfl := Nat.succ.inj heq
        obtain ⟨hnone, rfl⟩ | ⟨next, hnext, hlend⟩ := hrest
        · refine .last hhigh hboost fun m hq => ?_
          rw [blocker?, hq] at hnone
          exact hnone
        · obtain ⟨m, hq, howner⟩ := blocker?_eq_some.mp hnext
          have hk₁ := hboost.arranged hk
          rw [← hboost.2.current] at hk₁
          exact .on hhigh hboost hq howner (ih hk₁ hlend)

/-- Locking: the mutex is free, or the caller lends its priority and waits. -/
theorem lock_steps (hk : k.InPlace) {frames : List Frame} (h : k.lock m = .ok (k', frames)) :
    (frames = [] ∧ k.owner? m = none ∧ k' = k.acquire m k.current) ∨
      (frames = [.locked m] ∧ ∃ o k₁, k.owner? m = some o ∧ o ≠ k.current ∧ Lends k o k₁ ∧
        Blocks .waitingMutex (some (.mutex m)) k₁ k') := by
  unfold lock at h
  split at h
  · rename_i hfree
    obtain ⟨k₁, htake, h⟩ := bind_eq_ok.mp h
    obtain ⟨rfl, rfl⟩ := Prod.mk.inj (Except.ok.inj h)
    exact Or.inl ⟨rfl, hfree, takeMutex_ok htake⟩
  · rename_i o howner
    split at h
    · cases h
    · rename_i hne
      obtain ⟨k₁, hlend, h⟩ := bind_eq_ok.mp h
      obtain ⟨k₂, hqueue, h⟩ := bind_eq_ok.mp h
      obtain ⟨k₃, hblock, h⟩ := bind_eq_ok.mp h
      obtain ⟨rfl, rfl⟩ := Prod.mk.inj (Except.ok.inj h)
      have hlends := lend_ok hk hlend
      have hk₁ := hlends.arranged hk
      obtain ⟨-, htimers, hmoves⟩ := enqueue_ok hk₁.toLinked hqueue
      have hblocks := block_ok hk₁.toLinked hmoves rfl rfl (Or.inl htimers) hblock
      exact Or.inr ⟨rfl, o, k₁, howner, hne, hlends, hblocks⟩

theorem lock_ok (hk : k.InPlace) (ht : touched (.mutex m)) (hin : k.mutexes.contains m = true)
    {frames : List Frame} (h : k.lock m = .ok (k', frames)) :
    (frames = [] ∧ Effect touched k k') ∨ (frames = [.locked m] ∧ Switch touched k k') := by
  rcases lock_steps hk h with ⟨rfl, hfree, rfl⟩ | ⟨rfl, o, k₁, howner, hne, hlends, hblocks⟩
  · exact Or.inl ⟨rfl, .take ht hin hfree⟩
  · exact Or.inr ⟨rfl, .awaitMutex ht howner hne hlends hblocks⟩

theorem tryLock_ok {free : Bool} (h : k.tryLock m = .ok (free, k')) :
    (free = false ∧ k.owner? m ≠ none ∧ k' = k) ∨
      free = true ∧ k.owner? m = none ∧ k' = k.acquire m k.current := by
  unfold tryLock at h
  split at h
  · rename_i o howner
    obtain ⟨rfl, rfl⟩ := Prod.mk.inj (Except.ok.inj h)
    exact Or.inl ⟨rfl, by rw [howner]; exact nofun, rfl⟩
  · rename_i hfree
    obtain ⟨k₁, htake, h⟩ := bind_eq_ok.mp h
    obtain ⟨rfl, rfl⟩ := Prod.mk.inj (Except.ok.inj h)
    exact Or.inr ⟨rfl, hfree, takeMutex_ok htake⟩

theorem tryLock_does (ht : touched (.mutex m)) (hin : k.mutexes.contains m = true) {free : Bool}
    (h : k.tryLock m = .ok (free, k')) : Does touched k k' := by
  rcases tryLock_ok h with ⟨-, -, rfl⟩ | ⟨-, hfree, rfl⟩
  · exact .refl _
  · exact .of_effect (.take ht hin hfree)

/-- A thread moves in the same way when it is an owner as well. -/
theorem Moves.acquire {ahead : Bool} {th : Thread} (h : Moves ahead t th k k₁) (m : MutexId) :
    Moves ahead t { th with held := th.held ++ [m] } (k.acquire m t) (k₁.acquire m t) := by
  have hprio : (k₁.acquire m t).priorityOf = k₁.priorityOf := by
    refine priorityOf_setThread (k := k₁.setOwner m (some t)) ?_
    rfl
  refine ⟨?_, ?_, ?_⟩
  · intro u
    rw [thread_acquire, thread_acquire, h.thread_self]
    split
    · rfl
    · rename_i hu
      exact h.thread_of_ne hu
  · rw [hprio]
    exact h.hold
  · rw [h.frame]
    rfl

theorem Moves.setOwner {ahead : Bool} {th : Thread} (h : Moves ahead t th k k₁) (m : MutexId)
    (owner : Option ThreadId) : Moves ahead t th (k.setOwner m owner) (k₁.setOwner m owner) := by
  refine ⟨h.thread, h.hold, ?_⟩
  rw [h.frame]
  rfl

/-- The running thread does without a mutex, which does not know that yet. -/
def disown (k : Kernel) (m : MutexId) : Kernel :=
  let me := k.current
  let k := k.modifyThread me fun th => { th with held := th.held.erase m }
  k.modifyThread me fun th => { th with priority := k.residualPriority me }

theorem setOwner_disown (k : Kernel) (m : MutexId) : (k.disown m).setOwner m none = k.strike m :=
  rfl

theorem thread_disown (k : Kernel) (m : MutexId) : (k.disown m).thread = (k.strike m).thread := rfl

theorem InPlace.disown_linked (hk : k.InPlace) (m : MutexId) : (k.disown m).Linked :=
  have hstrike := hk.strike m
  ⟨hstrike.hold, hstrike.mem_iff⟩

theorem release_of_owner (hown : k.owner? m = some k.current) : k.release m = (do
    match ← (k.disown m).dequeue (.mutex m) with
    | some (next, k) => (← (k.setOwner m none).takeMutex m next).ready next .ok
    | none => return (k.disown m).setOwner m none) :=
  if_pos hown

theorem release_of_not_owner (hown : k.owner? m ≠ some k.current) :
    k.release m = k.fail (.mutexNotOwned m) :=
  if_neg hown

/-- Unlocking: the mutex becomes free, or its first waiter becomes the owner. -/
theorem release_ok (hk : k.InPlace) (h : k.release m = .ok k') :
    k.owner? m = some k.current ∧ (k.members (.mutex m) = [] ∧ k' = k.strike m ∨
      ∃ next, (k.members (.mutex m)).head? = some next ∧
        Wakes next .ok ((k.strike m).acquire m next) k') := by
  by_cases hown : k.owner? m = some k.current
  · rw [release_of_owner hown] at h
    obtain ⟨next?, hdequeue, h⟩ := bind_eq_ok.mp h
    have hlinked := hk.disown_linked m
    have hmembers : (k.disown m).members = k.members := rfl
    split at h
    · rename_i next k₃
      obtain ⟨k₄, htake, hready⟩ := bind_eq_ok.mp h
      have htake := takeMutex_ok htake
      obtain ⟨hhead, hq, hmoves, htimers⟩ := dequeue_ok hlinked hdequeue
      rw [hmembers] at hhead
      have hmoves := (hmoves.setOwner m none).acquire m
      rw [← htake, setOwner_disown, thread_disown] at hmoves
      rw [thread_disown] at hq
      have hwaits : (((k.strike m).acquire m next).thread next).queue = some (.mutex m) := by
        rw [thread_acquire, if_pos rfl]
        exact hq
      have hk₄ := (hk.strike m).acquire m next
      have hblocked := hk₄.isBlocked_of_queue hwaits nofun
      have hrecord : { (k.strike m).thread next with
            queue := none, held := ((k.strike m).thread next).held ++ [m] } =
          { ((k.strike m).acquire m next).thread next with queue := none } := by
        rw [thread_acquire, if_pos rfl]
      rw [hrecord] at hmoves
      refine ⟨hown, Or.inr ⟨next, hhead, wakes_of_ready hk₄.toLinked hblocked hmoves ?_ hready⟩⟩
      rw [htake]
      exact htimers
    · obtain rfl := Except.ok.inj h
      have hnil := dequeue_none hlinked hdequeue
      rw [hmembers] at hnil
      exact ⟨hown, Or.inl ⟨hnil, setOwner_disown k m⟩⟩
  · rw [release_of_not_owner hown] at h
    cases h

/-- Who unlocks a mutex does not own it any more. -/
theorem release_owner (hk : k.InPlace) (h : k.release m = .ok k') :
    k'.owner? m ≠ some k.current := by
  obtain ⟨-, ⟨-, rfl⟩ | ⟨next, hhead, hwakes⟩⟩ := release_ok hk h
  · rw [owner?_strike, if_pos rfl]
    exact nofun
  · rw [owner?_eq hwakes.moves.mutexes, owner?_acquire, if_pos rfl]
    exact fun he => hk.not_runs_of_mem (List.mem_of_head? hhead) (Option.some.inj he)

theorem release_effect (hk : k.InPlace) (ht : touched (.mutex m)) (h : k.release m = .ok k') :
    Effect touched k k' := by
  obtain ⟨hown, ⟨hnil, rfl⟩ | ⟨next, hhead, hwakes⟩⟩ := release_ok hk h
  · exact .free ht hown hnil
  · exact .handOver ht hown hhead hwakes

/-- Unlocking one mutex after the other. -/
theorem releaseUpTo_effects {bound : Nat} (hk : k.InPlace) (ht : ∀ m, touched (.mutex m))
    (h : releaseUpTo bound k = .ok k') : Relation.ReflTransGen (Effect touched) k k' := by
  induction bound generalizing k with
  | zero =>
      obtain rfl := Except.ok.inj h
      exact .refl
  | succ bound ih =>
      unfold releaseUpTo at h
      split at h
      · obtain rfl := Except.ok.inj h
        exact .refl
      · rename_i m _
        obtain ⟨k₁, hrelease, h⟩ := bind_eq_ok.mp h
        have heffect := release_effect hk (ht m) hrelease
        exact .head heffect (ih (heffect.inPlace hk) h)

/-! Condition variables. -/

theorem signalCondition_effects (hk : k.InPlace) (ht : touched (.condVar c))
    (h : k.signalCondition c = .ok k') : Relation.ReflTransGen (Effect touched) k k' := by
  rcases wakeFirst_ok (q := .condVar c) hk nofun h with ⟨-, rfl⟩ | ⟨t, hhead, hwakes⟩
  · exact .refl
  · exact .single (.notify ht hhead hwakes)

theorem rouses_effects {l : List ThreadId} (h : Rouses r l k k') (hk : k.InPlace)
    (ht : touched (.condVar c)) (hl : k.members (.condVar c) = l) :
    Relation.ReflTransGen (Effect touched) k k' := by
  induction h with
  | nil => exact .refl
  | @cons t l k k₁ k' hw _ ih =>
      have hhead : (k.members (.condVar c)).head? = some t := by
        rw [hl]
        rfl
      exact .head (.notify ht hhead hw)
        (ih (hw.inPlace hk) (hw.members_tail (q := .condVar c) nofun hl))

theorem broadcast_effects (hk : k.InPlace) (ht : touched (.condVar c))
    (h : k.broadcast c = .ok k') : Relation.ReflTransGen (Effect touched) k k' := by
  have hrouses := wakeAll_ok (q := .condVar c) hk nofun h
  exact rouses_effects hrouses hk ht rfl

/-- A wait for a condition: the mutex is given back, and the caller blocks. -/
theorem waitCondition_ok {timeout : Timeout} (hk : k.InPlace)
    (h : k.waitCondition c m timeout = .ok step) :
    (timeout = .immediate ∧ step = (k, [.answer (.wakeup .timeout)])) ∨
      ∃ k₁ checks k', timeout ≠ .immediate ∧ k.release m = .ok k₁ ∧
        (checks = [] ∨ checks = [.awake]) ∧ step = (k', checks ++ [.relock m]) ∧
          Blocks .waitingCondVar (some (.condVar c)) k₁ k' := by
  unfold waitCondition at h
  split at h
  · split at h
    · rename_i htimeout
      exact Or.inl ⟨htimeout, (Except.ok.inj h).symm⟩
    · rename_i htimeout
      obtain ⟨k₁, hrelease, h⟩ := bind_eq_ok.mp h
      obtain ⟨k₂, hqueue, h⟩ := bind_eq_ok.mp h
      obtain ⟨w, hwait, h⟩ := bind_eq_ok.mp h
      have heffect : Effect (fun _ => True) k k₁ := release_effect hk trivial hrelease
      have hk₁ := heffect.inPlace hk
      obtain ⟨-, htimers, hmoves⟩ := enqueue_ok hk₁.toLinked hqueue
      rcases await_ok hk₁.toLinked hmoves htimers rfl rfl rfl hwait with
        ⟨himm, -⟩ | ⟨checks, k', rfl, hc, hblocks⟩
      · exact absurd himm htimeout
      · exact Or.inr ⟨k₁, checks, k', htimeout, hrelease, hc, (Except.ok.inj h).symm, hblocks⟩
  · cases h

/-! Mailboxes. -/

theorem mailbox_putMessage (k : Kernel) (b : MailboxId) (msg : Msg) (ahead : Bool) :
    (k.putMessage b msg ahead).mailbox b = { k.mailbox b with
      ring :=
        if ahead then (k.mailbox b).ring.pushFront msg else (k.mailbox b).ring.pushBack msg } := by
  unfold Kernel.putMessage
  rw [mailbox_setMailbox, if_pos rfl]

theorem mailbox_takeMessage (k : Kernel) (b : MailboxId) : (k.takeMessage b).2.mailbox b =
    { k.mailbox b with ring := (k.mailbox b).ring.popFront.2 } := by
  change (k.setMailbox b _).mailbox b = _
  rw [mailbox_setMailbox, if_pos rfl]
  rfl

theorem putMessage_effect (ht : touched (.mailbox b)) (msg : Msg) (ahead : Bool) :
    Effect touched k (k.putMessage b msg ahead) := .write _ (k.mailbox b).epoch ht

theorem takeMessage_effect (ht : touched (.mailbox b)) :
    Effect touched k (k.takeMessage b).2 := .write _ (k.mailbox b).epoch ht

/-- A thread stores its message and passes a unit on for it, or its wait went wrong. -/
theorem storeAfter_ok (h : storeAfter b epoch msg ahead r k = .ok step) :
    (∃ e, k.admission b epoch r = .error e ∧ step = (k, [.answer (.posted (.error e))])) ∨
      ∃ k₁ k', k.admission b epoch r = .ok () ∧
        (k.putMessage b msg ahead).signal (k.mailbox b).full = .ok k₁ ∧ k₁.preempt = .ok k' ∧
          step = (k', [.answer (.posted (.ok ()))]) := by
  unfold storeAfter at h
  split at h
  · rename_i e hadmission
    exact Or.inl ⟨e, hadmission, (Except.ok.inj h).symm⟩
  · rename_i hadmission
    obtain ⟨k₁, hsignal, h⟩ := bind_eq_ok.mp h
    obtain ⟨k', hpreempt, h⟩ := bind_eq_ok.mp h
    exact Or.inr ⟨k₁, k', hadmission, hsignal, hpreempt, (Except.ok.inj h).symm⟩

/-- A thread takes a message and passes a unit on for its cell, or its wait went wrong. -/
theorem fetchAfter_ok (h : fetchAfter b epoch r k = .ok step) :
    (∃ e, k.admission b epoch r = .error e ∧ step = (k, [.answer (.fetched (.error e))])) ∨
      ∃ k₁ k', k.admission b epoch r = .ok () ∧
        (k.takeMessage b).2.signal (k.mailbox b).empty = .ok k₁ ∧ k₁.preempt = .ok k' ∧
          step = (k', [.answer (.fetched (.ok (k.takeMessage b).1))]) := by
  unfold fetchAfter at h
  split at h
  · rename_i e hadmission
    exact Or.inl ⟨e, hadmission, (Except.ok.inj h).symm⟩
  · rename_i hadmission
    obtain ⟨k₁, hsignal, h⟩ := bind_eq_ok.mp h
    obtain ⟨k', hpreempt, h⟩ := bind_eq_ok.mp h
    have hempty : ((k.takeMessage b).2.mailbox b).empty = (k.mailbox b).empty := by
      rw [mailbox_takeMessage]
    rw [← hempty]
    exact Or.inr ⟨k₁, k', hadmission, hsignal, hpreempt, (Except.ok.inj h).symm⟩

theorem post_ok {timeout : Timeout} (h : k.post b msg ahead timeout = .ok step) :
    ∃ w, k.waitUnit (k.mailbox b).empty timeout .waitingMailbox = .ok w ∧
      w.thenDo (storeAfter b (k.mailbox b).epoch msg ahead)
        (.store b (k.mailbox b).epoch msg ahead) = .ok step := bind_eq_ok.mp h

theorem fetch_ok {timeout : Timeout} (h : k.fetch b timeout = .ok step) :
    ∃ w, k.waitUnit (k.mailbox b).full timeout .waitingMailbox = .ok w ∧
      w.thenDo (fetchAfter b (k.mailbox b).epoch) (.fetch b (k.mailbox b).epoch) = .ok step :=
  bind_eq_ok.mp h

theorem postNow_ok {e : Except WaitError Unit} (h : k.postNow b msg ahead = .ok (e, k')) :
    (e = .error .timeout ∧ k.takeUnit? (k.mailbox b).empty = none ∧ k' = k) ∨
      ∃ k₁, e = .ok () ∧ k.takeUnit? (k.mailbox b).empty = some k₁ ∧
        (k₁.putMessage b msg ahead).signal (k.mailbox b).full = .ok k' := by
  unfold postNow at h
  dsimp only at h
  split at h
  · rename_i hnone
    obtain ⟨rfl, rfl⟩ := Prod.mk.inj (Except.ok.inj h)
    exact Or.inl ⟨rfl, hnone, rfl⟩
  · rename_i k₁ htake
    obtain ⟨k₂, hsignal, h⟩ := bind_eq_ok.mp h
    obtain ⟨rfl, rfl⟩ := Prod.mk.inj (Except.ok.inj h)
    exact Or.inr ⟨k₁, rfl, htake, hsignal⟩

theorem fetchNow_ok {e : Except WaitError Msg} (h : k.fetchNow b = .ok (e, k')) :
    (e = .error .timeout ∧ k.takeUnit? (k.mailbox b).full = none ∧ k' = k) ∨
      ∃ k₁, e = .ok (k₁.takeMessage b).1 ∧ k.takeUnit? (k.mailbox b).full = some k₁ ∧
        (k₁.takeMessage b).2.signal (k.mailbox b).empty = .ok k' := by
  unfold fetchNow at h
  dsimp only at h
  split at h
  · rename_i hnone
    obtain ⟨rfl, rfl⟩ := Prod.mk.inj (Except.ok.inj h)
    exact Or.inl ⟨rfl, hnone, rfl⟩
  · rename_i k₁ htake
    obtain ⟨k₂, hsignal, h⟩ := bind_eq_ok.mp h
    obtain ⟨rfl, rfl⟩ := Prod.mk.inj (Except.ok.inj h)
    exact Or.inr ⟨k₁, rfl, htake, hsignal⟩

theorem resetMailbox_ok (h : k.resetMailbox b = .ok k') :
    ∃ box k₁, box = { k.mailbox b with
        ring := (k.mailbox b).ring.rewind, epoch := (k.mailbox b).epoch + 1 } ∧
      (k.setMailbox b box).resetSemaphore (k.mailbox b).empty (k.mailbox b).capacity = .ok k₁ ∧
        k₁.resetSemaphore (k.mailbox b).full 0 = .ok k' := by
  obtain ⟨k₁, hempty, hfull⟩ := bind_eq_ok.mp h
  exact ⟨_, k₁, rfl, hempty, hfull⟩

/-! Timers. -/

theorem setTimer_ok {delay : Delay} {e : Routine} {made : Except KernelError TimerId}
    (h : k.setTimer delay e = .ok (made, k')) :
    (made = .error .timerTableFull ∧ k.freeTimerSlot? = none ∧ k' = k) ∨
      ∃ slot timers, made = .ok ⟨slot, timers.generation slot⟩ ∧ maxThreads ≤ slot.val ∧
        k.timers.arm slot delay (.callback e) = .ok timers ∧ k' = { k with timers } := by
  unfold setTimer at h
  split at h
  · rename_i hnone
    obtain ⟨rfl, rfl⟩ := Prod.mk.inj (Except.ok.inj h)
    exact Or.inl ⟨rfl, hnone, rfl⟩
  · rename_i slot hslot
    obtain ⟨timers, harm, h⟩ := bind_eq_ok.mp h
    obtain ⟨rfl, rfl⟩ := Prod.mk.inj (Except.ok.inj h)
    rw [require_eq_ok] at harm
    have hfree := List.find?_some hslot
    rw [Bool.and_eq_true, decide_eq_true_eq] at hfree
    exact Or.inr ⟨slot, timers, rfl, hfree.1, harm, rfl⟩

theorem resetTimer_ok {id : TimerId} (h : k.resetTimer id = .ok k') :
    k.isTimerArmed id = true ∧
      ∃ timers, k.timers.disarm id.slot = .ok timers ∧ k' = { k with timers } := by
  unfold resetTimer at h
  split at h
  · rename_i harmed
    obtain ⟨timers, hdisarm, h⟩ := bind_eq_ok.mp h
    exact ⟨harmed, timers, require_eq_ok.mp hdisarm, (Except.ok.inj h).symm⟩
  · cases h

theorem beginTick_ok (h : k.beginTick = .ok k') :
    ∃ clock timers, k.clock.advance = some clock ∧ k.timers.advance = .ok timers ∧
      k' = { k with clock, quantumLeft := k.quantumLeft - 1, timers } := by
  unfold beginTick at h
  split at h
  · cases h
  · rename_i clock hclock
    obtain ⟨timers, hadvance, h⟩ := bind_eq_ok.mp h
    exact ⟨clock, timers, hclock, require_eq_ok.mp hadvance, (Except.ok.inj h).symm⟩

/-- The first timer that is due, if one is, belongs to a wait or to the application. -/
theorem fire_ok (h : k.fire = .ok step) : ∃ timers,
    (k.timers.popExpired = (none, timers) ∧ step = ({ k with timers }, [])) ∨
    (∃ t k', k.timers.popExpired = (some (.wakeup t), timers) ∧
      { k with timers }.timeOut t = .ok k' ∧ step = (k', [.fire])) ∨
    ∃ e, k.timers.popExpired = (some (.callback e), timers) ∧
      step = ({ k with timers }, [.callback e false, .fire]) := by
  unfold fire at h
  split at h
  · rename_i timers hpop
    exact ⟨timers, Or.inl ⟨hpop, (Except.ok.inj h).symm⟩⟩
  · rename_i t timers hpop
    obtain ⟨k', htimeOut, h⟩ := bind_eq_ok.mp h
    exact ⟨timers, Or.inr (Or.inl ⟨t, k', hpop, htimeOut, (Except.ok.inj h).symm⟩)⟩
  · rename_i e timers hpop
    exact ⟨timers, Or.inr (Or.inr ⟨e, hpop, (Except.ok.inj h).symm⟩)⟩

/-- A timer that was taken out leaves the others as they are. -/
theorem armed_of_popExpired {q q' : TimerQueue timerSlots TimerAction} {o : Option TimerAction}
    (hpop : q.popExpired = (o, q')) (s : TimerSlot) (a : TimerAction)
    (ha : (q'.cell s).action = some a) :
    (q.cell s).action = some a ∨ ∃ r, a = .callback r ∧ maxThreads ≤ s.val := by
  rcases TimerQueue.action_popExpired hpop with ⟨-, hsame⟩ | ⟨slot, a', -, -, hothers⟩
  · rw [hsame] at ha
    exact Or.inl ha
  · rw [hothers] at ha
    split at ha
    · cases ha
    · exact Or.inl ha

/-- The thread whose timeout ran out waits for it. -/
theorem Arranged.isTimed_of_popExpired {runs : ThreadId → Prop} (hk : k.Arranged runs)
    {timers : TimerQueue timerSlots TimerAction}
    (hpop : k.timers.popExpired = (some (.wakeup t), timers)) :
    (k.thread t).state.isTimed = true := by
  rcases TimerQueue.action_popExpired hpop with ⟨hnone, -⟩ | ⟨slot, a, ha, hslot, -⟩
  · cases hnone
  · rw [← Option.some.inj ha] at hslot
    exact (hk.timed slot _ hslot).2

theorem popExpired_effect (ht : touched .time) {o : Option TimerAction}
    {timers : TimerQueue timerSlots TimerAction} (hpop : k.timers.popExpired = (o, timers)) :
    Effect touched k { k with timers } :=
  .timers k.clock timers (armed_of_popExpired hpop) (Or.inl ht)

end RealtimeKernel.Kernel

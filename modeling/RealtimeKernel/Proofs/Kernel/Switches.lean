import RealtimeKernel.Proofs.Kernel.Arranged

/-!
The steps from which all scheduling is made: a thread wakes, the running thread parks, the
first ready thread is dispatched. Each keeps the order of `Arranged`, but for who runs.
-/
namespace RealtimeKernel.Kernel

variable {k k' k₀ k₁ : Kernel} {t next : ThreadId} {th th' : Thread} {q : QueueId}
  {o : Option QueueId} {r : WakeupResult} {state : ThreadState} {ahead : Bool}
  {runs : ThreadId → Prop} {l : List ThreadId}

/-- A blocked thread becomes ready. -/
structure Wakes (t : ThreadId) (r : WakeupResult) (k k' : Kernel) : Prop where
  blocked : (k.thread t).state.isBlocked = true
  timers : k.timers.cancel (timeoutSlot t) = .ok k'.timers
  moves : Moves false t { k.thread t with state := .ready, wakeup := r, queue := some .ready } k k'

/-- Threads become ready, one after the other. -/
inductive Rouses (r : WakeupResult) : List ThreadId → Kernel → Kernel → Prop
  | nil (k : Kernel) : Rouses r [] k k
  | cons {t : ThreadId} {l : List ThreadId} {k k₁ k' : Kernel} :
    Wakes t r k k₁ → Rouses r l k₁ k' → Rouses r (t :: l) k k'

/-- The running thread goes where it waits, with a timeout or without one. -/
structure Parks (state : ThreadState) (o : Option QueueId) (k k' : Kernel) : Prop where
  blocked : state.isBlocked = true
  fits : state.fits o = true
  moves : Moves false k.current { k.running with state, queue := o } k k'
  timers : k'.timers = k.timers ∨ state.isTimed = true ∧ ∃ delay,
    k.timers.arm (timeoutSlot k.current) delay (.wakeup k.current) = .ok k'.timers

/-- The first ready thread is given the processor. -/
structure Dispatches (next : ThreadId) (k k' : Kernel) : Prop where
  head : (k.members .ready).head? = some next
  moves : Moves false next
    { k.thread next with
      state := .running, queue := none, dispatches := (k.thread next).dispatches + 1 } k
    { k' with
      current := k.current
      quantumLeft := k.quantumLeft
      contextSwitches := k.contextSwitches
      journal := k.journal }
  timers : k'.timers = k.timers
  current : k'.current = next
  quantumLeft : k'.quantumLeft = k.config.quantum

/-- The running thread waits, and the first ready thread runs. -/
def Blocks (state : ThreadState) (o : Option QueueId) (k k' : Kernel) : Prop :=
  k.idle ≠ some k.current ∧ ∃ k₁ next, Parks state o k k₁ ∧ Dispatches next k₁ k'

/-- The running thread becomes ready, and the thread that was the first one ready runs. -/
def GivesWay (ahead : Bool) (k k' : Kernel) : Prop :=
  ∃ k₁ next, Dispatches next k k₁ ∧ k'.timers = k₁.timers ∧
    Moves ahead k.current { k.running with state := .ready, queue := some .ready } k₁ k'

/-! What the steps keep. -/

theorem Wakes.arranged (h : Wakes t r k k') (hk : k.Arranged runs) : k'.Arranged runs := by
  refine hk.moves h.moves rfl ?_ ?_ ?_
  · intro u
    split
    · rename_i hu
      subst hu
      have hblocked := h.blocked
      simp only [reduceCtorEq, iff_false]
      intro hrun
      rw [(hk.running_iff u).mpr hrun] at hblocked
      cases hblocked
    · exact Iff.rfl
  · intro s hs
    rw [TimerQueue.action_cancel h.timers, if_neg hs]
  · intro a ha
    rw [TimerQueue.action_cancel h.timers, if_pos rfl] at ha
    cases ha

theorem Rouses.arranged (h : Rouses r l k k') (hk : k.Arranged runs) : k'.Arranged runs := by
  induction h with
  | nil => exact hk
  | cons hw _ ih => exact ih (hw.arranged hk)

theorem Parks.arranged (h : Parks state o k k') (hk : k.InPlace) :
    k'.Arranged fun _ => False := by
  have hnot : state ≠ .running := by
    rintro rfl
    cases h.blocked
  have hrun : k.running.state = .running := hk.state_current
  have running : ∀ u, False ↔ if u = k.current then state = .running else u = k.current := by
    intro u
    split
    · exact iff_of_false id hnot
    · rename_i hu
      exact iff_of_false id hu
  rcases h.timers with htimers | ⟨htimed, delay, harm⟩
  · refine hk.moves_untimed h.moves htimers h.fits running ?_
    intro htimed
    change k.running.state.isTimed = true at htimed
    rw [hrun] at htimed
    cases htimed
  · refine hk.moves h.moves h.fits running ?_ ?_
    · intro s hs
      rw [TimerQueue.action_arm harm, if_neg hs]
    · intro a ha
      rw [TimerQueue.action_arm harm, if_pos rfl] at ha
      exact ⟨(Option.some.inj ha).symm, htimed⟩

theorem Dispatches.mem (h : Dispatches next k k') : next ∈ k.members .ready :=
  List.mem_of_head? h.head

theorem Dispatches.queue (h : Dispatches next k k') (hk : k.Linked) :
    (k.thread next).queue = some .ready := (hk.mem_iff next .ready).mp h.mem

/-- Only ready threads stand in the queue of ready threads. -/
theorem Arranged.state_of_ready (hk : k.Arranged runs) (h : (k.thread t).queue = some .ready) :
    (k.thread t).state = .ready := by
  have hfit := hk.fits t
  rw [h] at hfit
  cases hs : (k.thread t).state <;> rw [hs] at hfit <;> first | rfl | cases hfit

theorem Dispatches.ready_next (h : Dispatches next k k') (hk : k.Arranged runs) :
    (k.thread next).state = .ready := hk.state_of_ready (h.queue hk.toLinked)

theorem Dispatches.arranged_or (h : Dispatches next k k') (hk : k.Arranged runs) :
    k'.Arranged fun u => u = next ∨ runs u := by
  have hready := h.ready_next hk
  have hmoved : Arranged (fun u => u = next ∨ runs u)
      { k' with
        current := k.current
        quantumLeft := k.quantumLeft
        contextSwitches := k.contextSwitches
        journal := k.journal } := by
    refine hk.moves_untimed h.moves h.timers rfl ?_ ?_
    · intro u
      split
      · rename_i hu
        simp [hu]
      · rename_i hu
        simp [hu]
    · intro htimed
      rw [hready] at htimed
      cases htimed
  exact hmoved.congr rfl rfl fun s a ha => Or.inl ha

theorem Dispatches.inPlace (h : Dispatches next k k') (hk : k.Arranged fun _ => False) :
    k'.InPlace := by
  have hmoved := h.arranged_or hk
  have hruns : (fun u => u = next ∨ False) = fun u => u = k'.current := by
    funext u
    rw [h.current, or_false]
  rw [hruns] at hmoved
  exact hmoved

theorem Blocks.inPlace (h : Blocks state o k k') (hk : k.InPlace) : k'.InPlace := by
  obtain ⟨-, k₁, next, hpark, hdispatch⟩ := h
  exact hdispatch.inPlace (hpark.arranged hk)

theorem Dispatches.ne_current (h : Dispatches next k k') (hk : k.InPlace) : next ≠ k.current :=
  hk.not_runs_of_mem (List.mem_of_head? h.head)

theorem GivesWay.inPlace (h : GivesWay ahead k k') (hk : k.InPlace) : k'.InPlace := by
  obtain ⟨k₁, next, hdispatch, htimers, hmoves⟩ := h
  have hne := hdispatch.ne_current hk
  have hme : k₁.thread k.current = k.running := hdispatch.moves.thread_of_ne hne.symm
  refine (hdispatch.arranged_or hk).moves_untimed hmoves htimers rfl ?_ ?_
  · intro u
    have hcurrent : k'.current = next := by
      rw [hmoves.frame]
      exact hdispatch.current
    rw [hcurrent]
    split
    · rename_i hu
      simp [hu, hne.symm]
    · rename_i hu
      simp [hu]
  · intro htimed
    rw [hme, show k.running.state = .running from hk.state_current] at htimed
    cases htimed

/-! Queues that the steps do not concern. -/

theorem Wakes.members_of_ne (h : Wakes t r k k') (hk : k.Linked) (ready : q ≠ .ready)
    (other : (k.thread t).queue ≠ some q) : k'.members q = k.members q := by
  refine h.moves.members_of_ne hk other ?_
  intro hq
  exact ready (Option.some.inj hq).symm

/-- Who waits does not stand with the ready threads. -/
theorem Parks.not_ready (h : Parks state o k k') : o ≠ some .ready := by
  rintro rfl
  have hfits := h.fits
  have hblocked := h.blocked
  revert hfits hblocked
  cases state <;> simp [ThreadState.fits, ThreadState.isBlocked]

theorem Parks.members_of_ne (h : Parks state o k k') (hk : k.InPlace) (other : o ≠ some q) :
    k'.members q = k.members q := by
  refine h.moves.members_of_ne hk.toLinked ?_ other
  rw [hk.queue_eq_none rfl]
  exact nofun

theorem Dispatches.members_of_ne (h : Dispatches next k k') (hk : k.Linked) (ready : q ≠ .ready) :
    k'.members q = k.members q := by
  refine h.moves.members_of_ne hk ?_ nofun
  rw [h.queue hk]
  intro hq
  exact ready (Option.some.inj hq).symm

theorem Blocks.members_of_ne (h : Blocks state o k k') (hk : k.InPlace) (ready : q ≠ .ready)
    (other : o ≠ some q) : k'.members q = k.members q := by
  obtain ⟨-, k₁, next, hpark, hdispatch⟩ := h
  rw [hdispatch.members_of_ne (hpark.arranged hk).toLinked ready, hpark.members_of_ne hk other]

theorem GivesWay.members_of_ne (h : GivesWay ahead k k') (hk : k.InPlace) (ready : q ≠ .ready) :
    k'.members q = k.members q := by
  obtain ⟨k₁, next, hdispatch, -, hmoves⟩ := h
  have hne := hdispatch.ne_current hk
  have hme : k₁.thread k.current = k.running := hdispatch.moves.thread_of_ne hne.symm
  have hk₁ := (hdispatch.arranged_or hk).toLinked
  rw [hmoves.members_of_ne hk₁ ?_ ?_, hdispatch.members_of_ne hk.toLinked ready]
  · rw [hme, show k.running.queue = none from hk.queue_eq_none rfl]
    exact nofun
  · intro hq
    exact ready (Option.some.inj hq).symm

/-- The first thread of a queue wakes: the others stay. -/
theorem Wakes.members_tail (h : Wakes t r k k') (hne : q ≠ .ready)
    (hq : k.members q = t :: l) : k'.members q = l := by
  rw [h.moves.members]
  change Lines.enter (Lines.leave k.members t) false k'.priorityOf .ready t q = l
  rw [Lines.enter_of_ne hne, Lines.leave, hq, List.erase_cons_head]

/-- Waking a whole queue empties it and leaves the others. -/
theorem Rouses.members (h : Rouses r l k k') (hk : k.Linked) (ready : q ≠ .ready)
    (hl : k.members q = l) : k'.members q = [] ∧
      ∀ p, p ≠ .ready → p ≠ q → k'.members p = k.members p := by
  induction h with
  | nil => exact ⟨hl, fun p _ _ => rfl⟩
  | @cons t l k k₁ k' hw _ ih =>
      have hq : (k.thread t).queue = some q := by
        rw [← hk.mem_iff, hl]
        exact List.mem_cons_self
      obtain ⟨hnil, hothers⟩ := ih (hw.moves.linked hk) (hw.members_tail ready hl)
      refine ⟨hnil, fun p hp hpq => ?_⟩
      rw [hothers p hp hpq]
      refine hw.members_of_ne hk hp ?_
      rw [hq]
      intro h
      exact hpq (Option.some.inj h).symm

/-! The operations of the scheduler as such steps. -/

theorem Linked.moves_self (hk : k.Linked) (hq : (k.thread t).queue = none) :
    Moves false t { k.thread t with queue := none } k k := by
  have hself : { k.thread t with queue := none } = k.thread t := by rw [← hq]
  rw [hself]
  refine ⟨fun u => ?_, ?_, rfl⟩
  · split
    · rename_i hu
      rw [hu]
    · rfl
  · rw [hq, Lines.settle, Lines.leave_of_free (hk.free hq)]
    exact hk.hold

/-- After a move the record may be written again, but for the place. -/
theorem Moves.setThread (h : Moves ahead t th k k₁) (queue : th'.queue = th.queue)
    (priority : th'.priority = th.priority) : Moves ahead t th' k (k₁.setThread t th') := by
  refine ⟨?_, ?_, ?_⟩
  · intro u
    rw [thread_setThread, h.thread]
    split <;> rfl
  · rw [priorityOf_setThread, queue]
    · exact h.hold
    · rw [h.thread_self]
      exact priority
  · rw [h.frame]
    rfl

/-- A thread that is taken out of its queue and made ready wakes. -/
theorem wakes_of_ready (hk : k.Linked) (blocked : (k.thread t).state.isBlocked = true)
    (h₁ : Moves false t { k.thread t with queue := none } k k₁) (timers : k₁.timers = k.timers)
    (h : k₁.ready t r = .ok k') : Wakes t r k k' := by
  obtain ⟨-, -, hcancel, hmoves⟩ := ready_ok (h₁.linked hk) h
  rw [timers] at hcancel
  rw [h₁.thread_self] at hmoves
  exact ⟨blocked, hcancel, h₁.trans hk hmoves⟩

theorem Arranged.isBlocked_of_queue (hk : k.Arranged runs) (hq : (k.thread t).queue = some q)
    (hne : q ≠ .ready) : (k.thread t).state.isBlocked = true := by
  have hfit := hk.fits t
  rw [hq] at hfit
  cases hs : (k.thread t).state <;> rw [hs] at hfit <;> first | rfl | skip
  all_goals cases q <;> first | rfl | exact absurd rfl hne | cases hfit

/-- Waiting for a mutex is standing in its queue. -/
theorem Arranged.waitingMutex_iff (hk : k.Arranged runs) :
    (k.thread t).state = .waitingMutex ↔ ∃ m, (k.thread t).queue = some (.mutex m) := by
  have hfit := hk.fits t
  constructor
  · intro hs
    rw [hs] at hfit
    cases hq : (k.thread t).queue with
    | none =>
        rw [hq] at hfit
        cases hfit
    | some q =>
        rw [hq] at hfit
        cases q with
        | mutex m => exact ⟨m, rfl⟩
        | _ => cases hfit
  · rintro ⟨m, hq⟩
    rw [hq] at hfit
    cases hs : (k.thread t).state <;> rw [hs] at hfit <;> first | rfl | cases hfit

theorem thread_makeCurrent (k : Kernel) (t u : ThreadId) :
    (k.makeCurrent t).thread u =
      if u = t then
        { k.thread t with state := .running, dispatches := (k.thread t).dispatches + 1 }
      else k.thread u := thread_setThread k t u _

theorem wakeFirst_ok (hk : k.Arranged runs) (hne : q ≠ .ready) (h : k.wakeFirst q r = .ok k') :
    k.members q = [] ∧ k' = k ∨ ∃ t, (k.members q).head? = some t ∧ Wakes t r k k' := by
  unfold wakeFirst at h
  obtain ⟨o, ho, h⟩ := bind_eq_ok.mp h
  cases o with
  | none =>
      obtain rfl := Except.ok.inj h
      exact Or.inl ⟨dequeue_none hk.toLinked ho, rfl⟩
  | some p =>
      obtain ⟨t, k₁⟩ := p
      obtain ⟨hhead, hq, hmoves, htimers⟩ := dequeue_ok hk.toLinked ho
      have hblocked := hk.isBlocked_of_queue hq hne
      exact Or.inr ⟨t, hhead, wakes_of_ready hk.toLinked hblocked hmoves htimers h⟩

theorem wakeUpTo_ok (hk : k.Arranged runs) (hne : q ≠ .ready) {bound : Nat}
    (h : wakeUpTo q r bound k = .ok k') : Rouses r (k.members q) k k' := by
  induction bound generalizing k with
  | zero =>
      unfold wakeUpTo at h
      rw [hk.head_eq] at h
      split at h
      · rename_i hhead
        obtain rfl := Except.ok.inj h
        rw [List.head?_eq_none_iff.mp hhead]
        exact .nil _
      · cases h
  | succ bound ih =>
      unfold wakeUpTo at h
      obtain ⟨o, ho, h⟩ := bind_eq_ok.mp h
      cases o with
      | none =>
          obtain rfl := Except.ok.inj h
          rw [dequeue_none hk.toLinked ho]
          exact .nil _
      | some p =>
          obtain ⟨t, k₁⟩ := p
          obtain ⟨k₂, hready, h⟩ := bind_eq_ok.mp h
          obtain ⟨hhead, hq, hmoves, htimers⟩ := dequeue_ok hk.toLinked ho
          have hblocked := hk.isBlocked_of_queue hq hne
          have hwakes := wakes_of_ready hk.toLinked hblocked hmoves htimers hready
          obtain ⟨l, hl⟩ := List.head?_eq_some_iff.mp hhead
          have htail := ih (hwakes.arranged hk) h
          rw [hwakes.members_tail hne hl] at htail
          rw [hl]
          exact .cons hwakes htail

theorem wakeAll_ok (hk : k.Arranged runs) (hne : q ≠ .ready) (h : k.wakeAll q r = .ok k') :
    Rouses r (k.members q) k k' := wakeUpTo_ok hk hne h

theorem dispatches_of_takeNext (hk : k.Linked) (h : k.takeNext = .ok (next, k₁))
    (record : LogRecord) : Dispatches next k ((k₁.makeCurrent next).note record) := by
  obtain ⟨hhead, -, hmoves, htimers⟩ := takeNext_ok hk h
  refine ⟨hhead, ⟨?_, hmoves.hold, ?_⟩, htimers, rfl, ?_⟩
  · intro u
    change (k₁.makeCurrent next).thread u = _
    rw [thread_makeCurrent, hmoves.thread_self, hmoves.thread]
    split <;> rfl
  · rw [hmoves.frame]
    rfl
  · change k₁.config.quantum = _
    rw [hmoves.frame]

theorem dispatch_ok {source : ThreadId} (h : k.dispatch source next = .ok k') :
    source ≠ next ∧ k' = (k.makeCurrent next).note (.switched source next) := by
  unfold dispatch at h
  dsimp only at h
  split at h
  · cases h
  · rename_i hne
    exact ⟨hne, (Except.ok.inj h).symm⟩

/-- The running thread blocks that was put where it waits before. -/
theorem block_ok (hk : k.Linked) (h₀ : Moves false k.current { k.running with queue := o } k k₀)
    (blocked : state.isBlocked = true) (fits : state.fits o = true)
    (timers : k₀.timers = k.timers ∨ state.isTimed = true ∧ ∃ delay,
      k.timers.arm (timeoutSlot k.current) delay (.wakeup k.current) = .ok k₀.timers)
    (h : k₀.block state = .ok k') : Blocks state o k k' := by
  have hcurrent : k₀.current = k.current := by rw [h₀.frame]
  have hidle : k₀.idle = k.idle := by rw [h₀.frame]
  unfold block at h
  dsimp only at h
  rw [hcurrent, hidle] at h
  split at h
  · cases h
  · rename_i hne
    obtain ⟨⟨next, k₁⟩, hnext, h⟩ := bind_eq_ok.mp h
    obtain ⟨-, rfl⟩ := dispatch_ok h
    have hpark : Parks state o k (k₀.modifyThread k.current fun th => { th with state }) := by
      refine ⟨blocked, fits, ?_, timers⟩
      rw [modifyThread, h₀.thread_self]
      exact h₀.setThread rfl rfl
    exact ⟨hne, _, next, hpark, dispatches_of_takeNext (hpark.moves.linked hk) hnext _⟩

theorem blockFor_ok {delay : Delay} (hk : k.Linked)
    (h₀ : Moves false k.current { k.running with queue := o } k k₀) (timers : k₀.timers = k.timers)
    (timed : state.isTimed = true) (blocked : state.isBlocked = true)
    (fits : state.fits o = true) (h : k₀.blockFor state delay = .ok k') :
    Blocks state o k k' := by
  have hcurrent : k₀.current = k.current := by rw [h₀.frame]
  unfold blockFor at h
  obtain ⟨timers', harm, h⟩ := bind_eq_ok.mp h
  rw [require_eq_ok, hcurrent, timers] at harm
  have harmed : Moves false k.current { k.running with queue := o } k
      { k₀ with timers := timers' } := by
    refine ⟨h₀.thread, h₀.hold, ?_⟩
    rw [h₀.frame]
  exact block_ok hk harmed blocked fits (Or.inr ⟨timed, delay, harm⟩) h

/-- A wait is over at once only if it was not to block at all. -/
theorem await_ok {timeout : Timeout} {w : Wait} (hk : k.Linked)
    (h₀ : Moves false k.current { k.running with queue := o } k k₀) (timers : k₀.timers = k.timers)
    (timed : state.isTimed = true) (blocked : state.isBlocked = true)
    (fits : state.fits o = true) (h : k₀.await state timeout = .ok w) :
    (timeout = .immediate ∧ ∃ k', w = .over .timeout k' ∧ k₀.cancelWait k.current = .ok k') ∨
      ∃ checks k', w = .blocked checks k' ∧ (checks = [] ∨ checks = [.awake]) ∧
        Blocks state o k k' := by
  cases timeout with
  | immediate =>
      obtain ⟨k', hcancel, h⟩ := bind_eq_ok.mp h
      have hcurrent : k₀.current = k.current := by rw [h₀.frame]
      rw [hcurrent] at hcancel
      exact Or.inl ⟨rfl, k', (Except.ok.inj h).symm, hcancel⟩
  | infinite =>
      obtain ⟨k', hblock, h⟩ := bind_eq_ok.mp h
      refine Or.inr ⟨[], k', (Except.ok.inj h).symm, Or.inl rfl, ?_⟩
      exact block_ok hk h₀ blocked fits (Or.inl timers) hblock
  | after delay =>
      obtain ⟨k', hblock, h⟩ := bind_eq_ok.mp h
      refine Or.inr ⟨[.awake], k', (Except.ok.inj h).symm, Or.inr rfl, ?_⟩
      exact blockFor_ok hk h₀ timers timed blocked fits hblock

theorem giveWay_ok (hk : k.InPlace) (h : k.giveWay ahead = .ok k') : GivesWay ahead k k' := by
  unfold giveWay at h
  obtain ⟨⟨next, k₁⟩, hnext, h⟩ := bind_eq_ok.mp h
  obtain ⟨k₃, hrejoin, h⟩ := bind_eq_ok.mp h
  obtain ⟨hne, rfl⟩ := dispatch_ok h
  obtain ⟨-, -, hmoves, htimers⟩ := takeNext_ok hk.toLinked hnext
  have hdispatch := dispatches_of_takeNext hk.toLinked hnext (.switched k.current next)
  have hme : k₁.thread k.current = k.running := hmoves.thread_of_ne hne
  have hqueue : (k₁.thread k.current).queue = none := by
    rw [hme]
    exact hk.queue_eq_none rfl
  have hk₁ := hmoves.linked hk.toLinked
  obtain ⟨hlinked, hsame⟩ := rejoin_ok hk₁ hqueue hrejoin
  rw [hme] at hlinked
  generalize hth : ({ k.running with state := .ready, queue := some .ready } : Thread) = th
  rw [hth] at hlinked
  rw [GivesWay, hth]
  refine ⟨_, next, hdispatch, hsame, ?_, ?_, ?_⟩
  · intro u
    change (k₃.makeCurrent next).thread u =
      if u = k.current then th else (k₁.makeCurrent next).thread u
    rw [thread_makeCurrent, thread_makeCurrent, hlinked.thread, hlinked.thread]
    by_cases hu : u = next
    · rw [if_pos hu, if_pos hu, if_neg hne.symm, if_neg (hu ▸ hne.symm)]
    · rw [if_neg hu, if_neg hu]
  · have hprios : ((k₃.makeCurrent next).note (.switched k.current next)).priorityOf =
        k₃.priorityOf := priorityOf_setThread rfl
    rw [hprios]
    exact hlinked.hold
  · rw [hlinked.frame]
    rfl

end RealtimeKernel.Kernel

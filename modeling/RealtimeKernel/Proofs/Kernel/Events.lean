import RealtimeKernel.Proofs.Kernel.Waits

/-!
What ends a wait before its time. A thread is resumed, is handed a unit, is notified, or is sent
away with all the others that wait at an object. For each operation this says which of the
threads it wakes that a timeout may wake too, and with what result.
-/
namespace RealtimeKernel.Kernel

/-- The threads that an operation wakes, and with what result. -/
abbrev Wakeups := ThreadId → Option WakeupResult

variable {k k' k₁ : Kernel} {touched : Object → Prop} {t u : ThreadId} {r : WakeupResult}
  {l : List ThreadId} {q : QueueId} {s s' : SemaphoreId} {b : MailboxId} {c : CondVarId}
  {m : MutexId} {w w' : Wakeups} {timeout : Timeout} {step : Step} {msg : Msg} {ahead : Bool}
  {epoch : UInt32} {state : ThreadState}

structure Treats (wakes : Wakeups) (k k' : Kernel) : Prop where
  clock : k'.clock = k.clock
  sound : k'.timers.Sound
  spared : ∀ u, (k.thread u).state.isTimed = true → wakes u = none → Spared k k' u
  woken : ∀ u r, (k.thread u).state.isTimed = true → wakes u = some r →
    (k'.thread u).state.isRunnable = true ∧ (k'.thread u).wakeup = r

theorem Treats.of_same (hq : k.timers.Sound) (clock : k'.clock = k.clock)
    (threads : k'.threads = k.threads) (timers : k'.timers = k.timers) :
    Treats (fun _ => none) k k' := by
  refine ⟨clock, timers ▸ hq, fun u _ _ => ⟨?_, by rw [timers], by rw [timers]⟩, nofun⟩
  simp only [thread, threads]
  exact .refl _

theorem Treats.refl (hq : k.timers.Sound) : Treats (fun _ => none) k k := .of_same hq rfl rfl rfl

theorem Treats.congr (h : Treats w k k')
    (same : ∀ u, (k.thread u).state.isTimed = true → w' u = w u) : Treats w' k k' := by
  refine ⟨h.clock, h.sound, fun u hu hnone => ?_, fun u r hu hsome => ?_⟩
  · rw [same u hu] at hnone
    exact h.spared u hu hnone
  · rw [same u hu] at hsome
    exact h.woken u r hu hsome

/-- Only threads, timers and the clock count. -/
theorem Treats.after_same (h : Treats w k₁ k') (clock : k₁.clock = k.clock)
    (threads : k₁.threads = k.threads) (timers : k₁.timers = k.timers) : Treats w k k' := by
  have hthread : k₁.thread = k.thread := by
    funext u
    simp only [thread, threads]
  refine ⟨h.clock.trans clock, h.sound, fun u hu hnone => ?_, fun u r hu => ?_⟩
  · rw [← hthread] at hu
    obtain ⟨hstand, hgeneration, hrem⟩ := h.spared u hu hnone
    rw [hthread] at hstand
    rw [timers] at hgeneration hrem
    exact ⟨hstand, hgeneration, hrem⟩
  · rw [← hthread] at hu
    exact h.woken u r hu

theorem Treats.then_same (h : Treats w k k₁) (clock : k'.clock = k₁.clock)
    (threads : k'.threads = k₁.threads) (timers : k'.timers = k₁.timers) : Treats w k k' := by
  have hthread : k'.thread = k₁.thread := by
    funext u
    simp only [thread, threads]
  refine ⟨clock.trans h.clock, timers ▸ h.sound, fun u hu hnone => ?_, fun u r hu hsome => ?_⟩
  · obtain ⟨hstand, hgeneration, hrem⟩ := h.spared u hu hnone
    refine ⟨?_, ?_, ?_⟩
    · rw [hthread]
      exact hstand
    · rw [timers]
      exact hgeneration
    · rw [timers]
      exact hrem
  · rw [hthread]
    exact h.woken u r hu hsome

/-- What wakes after some threads were woken wakes as well; those stay awake. -/
theorem Treats.trans (h : Treats w k k₁) (hk : k.InPlace) (hcurrent : k₁.current = k.current)
    (h' : Treats w' k₁ k') (keeps : ∀ u, u ≠ k₁.current → KeepsRunnable k₁ k' u) :
    Treats (fun u => (w u).or (w' u)) k k' := by
  refine ⟨h'.clock.trans h.clock, h'.sound, fun u hu hnone => ?_, fun u r hu hsome => ?_⟩
  · obtain ⟨hw, hw'⟩ := Option.or_eq_none_iff.mp hnone
    have hfirst := h.spared u hu hw
    exact hfirst.trans (h'.spared u (hfirst.timed hu) hw')
  · cases hw : w u with
    | none =>
        simp only [hw, Option.none_or] at hsome
        exact h'.woken u r ((h.spared u hu hw).timed hu) hsome
    | some r₁ =>
        simp only [hw, Option.some_or, Option.some.injEq] at hsome
        obtain ⟨hrun, hwakeup⟩ := h.woken u r₁ hu hw
        have hne := hk.ne_current_of_timed hu
        obtain ⟨hrun', hwakeup'⟩ := keeps u (by rwa [hcurrent]) hrun
        exact ⟨hrun', hwakeup'.trans (hwakeup.trans hsome)⟩

theorem Switch.treats (h : Switch touched k k') (hk : k.InPlace) (hq : k.timers.Sound) :
    Treats (fun _ => none) k k' :=
  ⟨(h.keepsTime hq).clock, (h.keepsTime hq).sound, fun _ hu _ => h.spared hk hq hu, nofun⟩

theorem Treats.switch (h : Treats w k k₁) (hk : k.InPlace) (hk₁ : k₁.InPlace)
    (hcurrent : k₁.current = k.current) (hs : Switch touched k₁ k') : Treats w k k' := by
  have hboth := h.trans hk hcurrent (hs.treats hk₁ h.sound) fun u hu => hs.keepsRunnable hk₁ hu
  simpa using hboth

theorem Treats.preempt (h : Treats w k k₁) (hk : k.InPlace) (hk₁ : k₁.InPlace)
    (hcurrent : k₁.current = k.current) (hp : k₁.preempt = .ok k') : Treats w k k' := by
  have hends : Switch (fun _ => False) k₁ k' ∨ k' = k₁ := preempt_switch hk₁ hp
  rcases hends with hswitch | rfl
  · exact h.switch hk hk₁ hcurrent hswitch
  · exact h

theorem Does.treats (h : Does touched k k') (hk : k.Sound) (hq : k.timers.Sound)
    (ht : ¬ touched .time)
    (hr : ∀ u, (k.thread u).state.isTimed = true → ¬ Reached touched u (k.thread u).queue) :
    Treats (fun _ => none) k k' := by
  obtain ⟨hclock, hq', hspared⟩ := h.spared hk hq ht
  exact ⟨hclock, hq', fun u hu _ => hspared u hu (hr u hu), nofun⟩

theorem Wakes.treats (h : Wakes t r k k') (hq : k.timers.Sound) :
    Treats (fun u => if u = t then some r else none) k k' := by
  obtain ⟨hq', hsame⟩ := hq.cancel h.timers
  refine ⟨h.moves.clock, hq', fun u _ hnone => ⟨?_, ?_, ?_⟩, fun u r' _ hsome => ?_⟩
  · have hne : u ≠ t := fun hu => by simp [hu] at hnone
    rw [h.moves.thread_of_ne hne]
    exact .refl _
  · exact TimerQueue.generation_cancel h.timers _
  · have hne : u ≠ t := fun hu => by simp [hu] at hnone
    exact hsame _ fun he => hne (timeoutSlot_injective he)
  · split at hsome
    · rename_i hu
      rw [hu, h.moves.thread_self]
      exact ⟨rfl, Option.some.inj hsome⟩
    · cases hsome

/-- All threads of a queue are woken. -/
def allOf (q : QueueId) (r : WakeupResult) (k : Kernel) : Wakeups :=
  fun u => if (k.thread u).queue = some q then some r else none

theorem Rouses.treats (h : Rouses r l k k') (hk : k.InPlace) (hq : k.timers.Sound)
    (ready : q ≠ .ready) (hl : k.members q = l) : Treats (allOf q r k) k k' := by
  have hthread := h.thread hk.toLinked ready hl
  have hkeeps := h.keepsTime hq
  refine ⟨hkeeps.clock, hkeeps.sound, fun u hu hnone => ?_, fun u r' _ hsome => ?_⟩
  · have hsame : k'.thread u = k.thread u := by
      rw [hthread, if_neg]
      intro hu
      rw [allOf, if_pos hu] at hnone
      cases hnone
    have hne := hk.ne_current_of_timed hu
    refine ⟨?_, hkeeps.generation u hne, hkeeps.remaining u hne ?_⟩
    · rw [hsame]
      exact .refl _
    · rw [hsame]
      exact hu
  · unfold allOf at hsome
    split at hsome
    · rename_i hu
      rw [hthread, if_pos hu]
      exact ⟨rfl, Option.some.inj hsome⟩
    · cases hsome

/-! Threads and condition variables. -/

theorem resume_treats (hk : k.InPlace) (hq : k.timers.Sound) (h : k.resume t = .ok k') :
    Treats (fun u => if u = t then some .ok else none) k k' := (resume_ok hk h).2.treats hq

/-- The first thread of a queue is woken. -/
def firstOf (q : QueueId) (r : WakeupResult) (k : Kernel) : Wakeups :=
  fun u => if (k.members q).head? = some u then some r else none

theorem Wakes.treats_first (h : Wakes t r k k') (hq : k.timers.Sound)
    (hhead : (k.members q).head? = some t) : Treats (firstOf q r k) k k' := by
  refine (h.treats hq).congr fun u _ => ?_
  simp only [firstOf, hhead, Option.some.injEq, eq_comm]

theorem firstOf_eq_none (hnil : k.members q = []) : firstOf q r k = fun _ => none := by
  funext u
  rw [firstOf, hnil]
  rfl

theorem signalCondition_treats (hk : k.InPlace) (hq : k.timers.Sound)
    (h : k.signalCondition c = .ok k') : Treats (firstOf (.condVar c) .ok k) k k' := by
  rcases wakeFirst_ok (q := .condVar c) hk nofun h with ⟨hnil, rfl⟩ | ⟨t, hhead, hwakes⟩
  · rw [firstOf_eq_none hnil]
    exact .refl hq
  · exact hwakes.treats_first hq hhead

theorem broadcast_treats (hk : k.InPlace) (hq : k.timers.Sound) (h : k.broadcast c = .ok k') :
    Treats (allOf (.condVar c) .reset k) k k' :=
  (wakeAll_ok (q := .condVar c) hk nofun h).treats hk hq nofun rfl

/-! Semaphores. -/

/-- The first threads are woken that wait for a unit of a semaphore that was signalled. -/
def signalled (i : SemaphoreId → Nat) (k : Kernel) : Wakeups :=
  fun u => match (k.thread u).queue with
    | some (.semaphore s) =>
      if i s ≠ 0 ∧ (k.members (.semaphore s)).head? = some u then some .ok else none
    | _ => none

theorem signalled_zero (k : Kernel) : signalled (fun _ => 0) k = fun _ => none := by
  funext u
  unfold signalled
  split
  · rw [if_neg]
    exact fun h => h.1 rfl
  · rfl

theorem signalled_one (hk : k.InPlace) (u : ThreadId) :
    signalled (fun s' => if s = s' then 1 else 0) k u = firstOf (.semaphore s) .ok k u := by
  unfold signalled firstOf
  by_cases hhead : (k.members (.semaphore s)).head? = some u
  · rw [hk.queue_of_head hhead]
    simp [hhead]
  · rw [if_neg hhead]
    split
    · rw [if_neg]
      rintro ⟨hs, hu⟩
      dsimp only at hs
      split at hs
      · rename_i heq
        exact hhead (heq ▸ hu)
      · exact hs rfl
    · rfl

theorem signal_treats (hk : k.Sound) (hq : k.timers.Sound) (h : k.signal s = .ok k') :
    Treats (signalled (fun s' => if s = s' then 1 else 0) k) k k' := by
  refine Treats.congr (w := firstOf (.semaphore s) .ok k) ?_ fun u _ => signalled_one hk.inPlace u
  rcases signal_ok hk h with ⟨hcount, rfl⟩ | ⟨-, t, hhead, hwakes⟩
  · rw [firstOf_eq_none (hk.counted.members_eq_nil hcount)]
    exact .of_same hq rfl rfl rfl
  · exact (hwakes.treats_first hq hhead).after_same rfl rfl rfl

/-- The threads are woken that wait for a unit of a semaphore that was reset. -/
def dismissed (sets : SemaphoreId → Option Nat) (k : Kernel) : Wakeups :=
  fun u => match (k.thread u).queue with
    | some (.semaphore s) => if (sets s).isSome then some .reset else none
    | _ => none

theorem dismissed_eq {sets : SemaphoreId → Option Nat}
    (hu : (k.thread u).queue = some (.semaphore s)) :
    dismissed sets k u = if (sets s).isSome then some .reset else none := by
  rw [dismissed, hu]

theorem dismissed_eq_none {sets : SemaphoreId → Option Nat}
    (hu : ∀ s, (k.thread u).queue ≠ some (.semaphore s)) : dismissed sets k u = none := by
  unfold dismissed
  split
  · rename_i s hs
    exact absurd hs (hu s)
  · rfl

theorem resetSemaphore_treats {n : Nat} (hk : k.InPlace) (hq : k.timers.Sound)
    (h : k.resetSemaphore s n = .ok k') :
    Treats (dismissed (fun s' => if s = s' then some n else none) k) k k' := by
  have hk₁ : (k.setSemaphoreCount s n).InPlace := InPlace.setSemaphoreCount hk _ _
  have htreats := (resetSemaphore_ok hk h).treats (q := .semaphore s) hk₁ hq nofun rfl
  refine (htreats.after_same (k := k) rfl rfl rfl).congr fun u _ => ?_
  change dismissed _ k u = if (k.thread u).queue = some (.semaphore s) then some .reset else none
  unfold dismissed
  split
  · rename_i s' hs'
    rw [hs']
    by_cases hs : s = s'
    · simp [hs]
    · simp [hs, Ne.symm hs]
  · rename_i hnot
    rw [if_neg (hnot s)]

theorem resetMailbox_treats (hk : k.Sound) (hq : k.timers.Sound)
    (hin : k.mailboxes.contains b = true) (h : k.resetMailbox b = .ok k') :
    Treats (dismissed (k.mailbox b).resetsTo k) k k' := by
  obtain ⟨box, k₁, -, hempty, hfull⟩ := resetMailbox_ok h
  have hne := (hk.boxed.created b hin).2.2
  have hk₀ : (k.setMailbox b box).InPlace := hk.inPlace.congr rfl rfl fun _ _ ha => Or.inl ha
  have hfirst : Treats (dismissed (fun s' => if (k.mailbox b).empty = s' then
      some (k.mailbox b).capacity else none) k) k k₁ :=
    (resetSemaphore_treats hk₀ hq hempty).after_same rfl rfl rfl
  have hdismiss := resetSemaphore_ok hk₀ hempty
  have hk₁ := hdismiss.inPlace (InPlace.setSemaphoreCount hk₀ _ _)
  have hsecond := resetSemaphore_treats hk₁ hfirst.sound hfull
  have hboth := hfirst.trans hk.inPlace hdismiss.current hsecond fun u _ => ?_
  · refine hboth.congr fun u hu => ?_
    by_cases hwaits : ∃ s, (k.thread u).queue = some (.semaphore s)
    · obtain ⟨s, hs⟩ := hwaits
      rw [dismissed_eq hs, dismissed_eq hs]
      by_cases he : (k.mailbox b).empty = s
      · simp [Mailbox.resetsTo, he]
      · have hnone : dismissed (fun s' => if (k.mailbox b).empty = s' then
            some (k.mailbox b).capacity else none) k u = none := by
          rw [dismissed_eq hs, if_neg he]
          rfl
        have hs₁ : (k₁.thread u).queue = some (.semaphore s) :=
          (hfirst.spared u hu hnone).stand.queue.trans hs
        rw [dismissed_eq hs₁]
        simp [Mailbox.resetsTo, he]
    · have hnot := not_exists.mp hwaits
      have hnot₁ : ∀ s, (k₁.thread u).queue ≠ some (.semaphore s) := by
        rw [(hfirst.spared u hu (dismissed_eq_none hnot)).stand.queue]
        exact hnot
      rw [dismissed_eq_none hnot, dismissed_eq_none hnot, dismissed_eq_none hnot₁]
      rfl
  · have heffect : Effect (fun _ => True) k₁ k' := resetSemaphore_effect hk₁ trivial hfull
    exact heffect.keepsRunnable hk₁ u

/-! Mailboxes. -/

/-- A message is stored or taken, and a unit passed on for it. -/
theorem write_keeps {ring : Ring Msg (k.mailbox b).capacity} (hk : k.Sound)
    (h : (k.setMailbox b { k.mailbox b with ring }).signal s = .ok k') :
    k'.InPlace ∧ k'.current = k.current := by
  have hwrite : Effect (fun _ => True) k (k.setMailbox b { k.mailbox b with ring }) :=
    .write ring (k.mailbox b).epoch trivial
  have hk₁ := hwrite.sound hk
  have hsignal : Effect (fun _ => True) _ k' := signal_effect hk₁ trivial h
  exact ⟨hsignal.inPlace hk₁.inPlace, hsignal.current.trans hwrite.current⟩

theorem write_treats {ring : Ring Msg (k.mailbox b).capacity} (hk : k.Sound) (hq : k.timers.Sound)
    (h : (k.setMailbox b { k.mailbox b with ring }).signal s = .ok k') :
    Treats (signalled (fun s' => if s = s' then 1 else 0) k) k k' := by
  have hwrite : Effect (fun _ => True) k (k.setMailbox b { k.mailbox b with ring }) :=
    .write ring (k.mailbox b).epoch trivial
  exact (signal_treats (hwrite.sound hk) hq h).after_same rfl rfl rfl

theorem storeAfter_treats (hk : k.Sound) (hq : k.timers.Sound)
    (h : storeAfter b epoch msg ahead r k = .ok step) :
    Treats (signalled (fun s => signalsOf (k.mailbox b) s (postDelivery msg ahead step.2)) k) k
      step.1 := by
  rcases storeAfter_ok h with ⟨e, -, rfl⟩ | ⟨k₁, k', -, hsignal, hpreempt, rfl⟩
  · refine (Treats.refl hq).congr fun u _ => ?_
    exact congrFun (signalled_zero k) u
  · obtain ⟨hk₁, hcurrent⟩ := write_keeps hk hsignal
    exact (write_treats hk hq hsignal).preempt hk.inPlace hk₁ hcurrent hpreempt

theorem fetchAfter_treats (hk : k.Sound) (hq : k.timers.Sound)
    (h : fetchAfter b epoch r k = .ok step) :
    Treats (signalled (fun s => signalsOf (k.mailbox b) s (fetchDelivery step.2)) k) k step.1 := by
  rcases fetchAfter_ok h with ⟨e, -, rfl⟩ | ⟨k₁, k', -, hsignal, hpreempt, rfl⟩
  · refine (Treats.refl hq).congr fun u _ => ?_
    exact congrFun (signalled_zero k) u
  · obtain ⟨hk₁, hcurrent⟩ := write_keeps hk hsignal
    exact (write_treats hk hq hsignal).preempt hk.inPlace hk₁ hcurrent hpreempt

/-- A unit that is there is taken and spent, without a wait. -/
theorem takeUnit_treats {ring : Ring Msg (k.mailbox b).capacity} (hk : k.Sound)
    (hq : k.timers.Sound) (htake : k.takeUnit? s' = some k₁)
    (h : (k₁.setMailbox b { k.mailbox b with ring }).signal s = .ok k') :
    Treats (signalled (fun s' => if s = s' then 1 else 0) k) k k' := by
  have hrecount : Effect (fun _ => True) k k₁ := takeUnit_effect trivial htake
  have hk₁ := hrecount.sound hk
  have hset := (takeUnit_ok htake).2
  subst hset
  exact (write_treats hk₁ hq h).after_same rfl rfl rfl

theorem postNow_treats {e : Except WaitError Unit} {rest : List Frame} (hk : k.Sound)
    (hq : k.timers.Sound) (h : k.postNow b msg ahead = .ok (e, k')) :
    Treats (signalled (fun s =>
      signalsOf (k.mailbox b) s
        (postDelivery msg ahead (.answer (.posted e) :: rest))) k) k k' := by
  rcases postNow_ok h with ⟨rfl, -, rfl⟩ | ⟨k₁, rfl, htake, hsignal⟩
  · refine (Treats.refl hq).congr fun u _ => ?_
    exact congrFun (signalled_zero _) u
  · have hset := (takeUnit_ok htake).2
    subst hset
    exact takeUnit_treats hk hq htake hsignal

theorem fetchNow_treats {e : Except WaitError Msg} {rest : List Frame} (hk : k.Sound)
    (hq : k.timers.Sound) (h : k.fetchNow b = .ok (e, k')) :
    Treats (signalled (fun s =>
      signalsOf (k.mailbox b) s (fetchDelivery (.answer (.fetched e) :: rest))) k) k k' := by
  rcases fetchNow_ok h with ⟨rfl, -, rfl⟩ | ⟨k₁, rfl, htake, hsignal⟩
  · refine (Treats.refl hq).congr fun u _ => ?_
    exact congrFun (signalled_zero _) u
  · have hset := (takeUnit_ok htake).2
    subst hset
    exact takeUnit_treats hk hq htake hsignal

/-! Waits. Whoever begins one wakes nobody. -/

theorem waitUnit_treats {wait : Wait} (hk : k.Sound) (hq : k.timers.Sound)
    (hin : k.semaphores.contains s = true)
    (hstate : state = .waitingSemaphore ∨ state = .waitingMailbox)
    (h : k.waitUnit s timeout state = .ok wait) :
    (wait = .over .ok (k.setSemaphoreCount s (k.semaphoreCount s - 1)) ∧
      (k.setSemaphoreCount s (k.semaphoreCount s - 1)).Sound) ∨
    wait = .over .timeout k ∨
    ∃ checks k', wait = .blocked checks k' ∧ (checks = [] ∨ checks = [.awake]) ∧
      Treats (fun _ => none) k k' := by
  rcases waitUnit_ok hk.inPlace hstate h with
    ⟨hpos, rfl⟩ | ⟨-, -, rfl⟩ | ⟨hcount, -, checks, k', rfl, hc, hblocks⟩
  · have hcount : 0 ≤ k.semaphoreCount s - 1 := by omega
    have hrecount : Effect (fun _ => True) k _ := .recount trivial hpos.le hcount
    exact Or.inl ⟨rfl, hrecount.sound hk⟩
  · exact Or.inr (Or.inl rfl)
  · have hswitch : Switch (fun _ => True) k k' := .awaitUnit trivial hin hcount hstate hblocks
    exact Or.inr (Or.inr ⟨checks, k', rfl, hc, hswitch.treats hk.inPlace hq⟩)

theorem waitSemaphore_treats {wait : Wait} (hk : k.Sound) (hq : k.timers.Sound)
    (hin : k.semaphores.contains s = true)
    (h : k.waitUnit s timeout .waitingSemaphore = .ok wait) :
    Treats (fun _ => none) k wait.thenAnswer.1 := by
  rcases waitUnit_treats hk hq hin (Or.inl rfl) h with
    ⟨rfl, -⟩ | rfl | ⟨checks, k', rfl, -, htreats⟩
  · exact .of_same hq rfl rfl rfl
  · exact .refl hq
  · exact htreats

/-- A wait at a mailbox: what follows it at once, or nothing. -/
theorem thenDo_treats {wait : Wait} {now : WakeupResult → Kernel → Outcome Step} {later : Frame}
    {i : List Frame → SemaphoreId → Nat} (hk : k.Sound) (hq : k.timers.Sound)
    (hin : k.semaphores.contains s = true) (hwait : k.waitUnit s timeout .waitingMailbox = .ok wait)
    (hnow : ∀ r k₁ step, k₁.Sound → k₁.timers.Sound → k₁.mailboxes = k.mailboxes →
      now r k₁ = .ok step → Treats (signalled (i step.2) k₁) k₁ step.1)
    (hlater : ∀ checks, checks = [] ∨ checks = [.awake] → i (checks ++ [later]) = fun _ => 0)
    (h : wait.thenDo now later = .ok step) : Treats (signalled (i step.2) k) k step.1 := by
  rcases waitUnit_treats hk hq hin (Or.inr rfl) hwait with
    ⟨rfl, hk₁⟩ | rfl | ⟨checks, k', rfl, hc, htreats⟩
  · exact (hnow .ok _ step hk₁ hq rfl h).after_same rfl rfl rfl
  · exact hnow .timeout k step hk hq rfl h
  · obtain rfl := Except.ok.inj h
    rw [hlater checks hc, signalled_zero]
    exact htreats

theorem post_treats (hk : k.Sound) (hq : k.timers.Sound) (hbox : k.mailboxes.contains b = true)
    (h : k.post b msg ahead timeout = .ok step) :
    Treats (signalled (fun s => signalsOf (k.mailbox b) s (postDelivery msg ahead step.2)) k) k
      step.1 := by
  obtain ⟨wait, hwait, h⟩ := post_ok h
  refine thenDo_treats (i := fun l s => signalsOf (k.mailbox b) s (postDelivery msg ahead l))
    hk hq (hk.boxed.created b hbox).1 hwait ?_ ?_ h
  · intro r k₁ step hk₁ hq₁ hsame hnow
    have hmailbox : k₁.mailbox b = k.mailbox b := by simp only [mailbox, hsame]
    rw [← hmailbox]
    exact storeAfter_treats hk₁ hq₁ hnow
  · rintro checks (rfl | rfl) <;> rfl

theorem fetch_treats (hk : k.Sound) (hq : k.timers.Sound) (hbox : k.mailboxes.contains b = true)
    (h : k.fetch b timeout = .ok step) :
    Treats (signalled (fun s => signalsOf (k.mailbox b) s (fetchDelivery step.2)) k) k step.1 := by
  obtain ⟨wait, hwait, h⟩ := fetch_ok h
  refine thenDo_treats (i := fun l s => signalsOf (k.mailbox b) s (fetchDelivery l))
    hk hq (hk.boxed.created b hbox).2.1 hwait ?_ ?_ h
  · intro r k₁ step hk₁ hq₁ hsame hnow
    have hmailbox : k₁.mailbox b = k.mailbox b := by simp only [mailbox, hsame]
    rw [← hmailbox]
    exact fetchAfter_treats hk₁ hq₁ hnow
  · rintro checks (rfl | rfl) <;> rfl

theorem signalAndWait_treats {s₁ s₂ : SemaphoreId} (hk : k.Sound) (hq : k.timers.Sound)
    (hin : k.semaphores.contains s₂ = true) (h : k.signalAndWait s₁ s₂ = .ok step) :
    Treats (signalled (fun s => if s₁ = s then 1 else 0) k) k step.1 := by
  obtain ⟨k₁, k', hsignal, hwait⟩ := signalAndWait_ok hk h
  have heffect : Effect (fun _ => True) k k₁ := signal_effect hk trivial hsignal
  have hk₁ := heffect.sound hk
  have htreats := signal_treats hk hq hsignal
  have hk₂ : (k₁.setSemaphoreCount s₂ (k₁.semaphoreCount s₂ - 1)).InPlace :=
    InPlace.setSemaphoreCount hk₁.inPlace _ _
  rcases hwait with ⟨-, rfl, hpreempt⟩ | ⟨hcount, rfl, hblocks⟩
  · have htaken : Treats _ k (k₁.setSemaphoreCount s₂ (k₁.semaphoreCount s₂ - 1)) :=
      htreats.then_same rfl rfl rfl
    exact htaken.preempt hk.inPlace hk₂ heffect.current hpreempt
  · have hswitch : Switch (fun _ => True) k₁ k' :=
      .awaitUnit trivial (heffect.grows.semaphores s₂ hin) hcount (Or.inl rfl) hblocks
    exact htreats.switch hk.inPlace hk₁.inPlace heffect.current hswitch

/-- Nothing was touched that a thread waits for whom a timeout may wake. -/
theorem Arranged.not_reached {runs : ThreadId → Prop} (hk : k.Arranged runs)
    (hu : (k.thread u).state.isTimed = true)
    (none : ¬ touched (.suspended u) ∧ ¬ touched (.thread u))
    (semaphore : ∀ s, (k.thread u).queue = some (.semaphore s) → ¬ touched (.semaphore s))
    (condVar : ∀ c, (k.thread u).queue = some (.condVar c) → ¬ touched (.condVar c)) :
    ¬ Reached touched u (k.thread u).queue := by
  rcases hk.queue_of_timed hu with hq | ⟨s, hq⟩ | ⟨c, hq⟩
  · rw [hq]
    exact fun h => h.elim none.1 none.2
  · rw [hq]
    exact semaphore s hq
  · rw [hq]
    exact condVar c hq

theorem waitCondition_treats (hk : k.Sound) (hq : k.timers.Sound)
    (h : k.waitCondition c m timeout = .ok step) : Treats (fun _ => none) k step.1 := by
  rcases waitCondition_ok hk.inPlace h with
    ⟨-, rfl⟩ | ⟨k₁, checks, k', -, hrelease, -, rfl, hblocks⟩
  · exact .refl hq
  · have hrelease : Effect (· = .mutex m) k k₁ := release_effect hk.inPlace rfl hrelease
    have hk₁ := hrelease.inPlace hk.inPlace
    have htreats := (Does.of_effect hrelease).treats hk hq nofun fun u hu =>
      hk.inPlace.not_reached hu ⟨nofun, nofun⟩ (fun _ _ => nofun) fun _ _ => nofun
    have hswitch : Switch (fun _ => True) k₁ k' := .awaitCondition trivial hblocks
    exact htreats.switch hk.inPlace hk₁ hrelease.current hswitch

/-! Time. -/

/-- The thread whose wait is the next one to end because its time is up. -/
def expired? (k : Kernel) : Option ThreadId :=
  match k.timers.popExpired.1 with
  | some (.wakeup t) => some t
  | _ => none

theorem popExpired_of_expired (h : k.expired? = some u) :
    ∃ timers, k.timers.popExpired = (some (.wakeup u), timers) := by
  unfold expired? at h
  split at h
  · rename_i t hpop
    obtain rfl := Option.some.inj h
    exact ⟨_, Prod.ext hpop rfl⟩
  · cases h

theorem Arranged.isTimed_of_expired {runs : ThreadId → Prop} (hk : k.Arranged runs)
    (h : k.expired? = some u) : (k.thread u).state.isTimed = true := by
  obtain ⟨timers, hpop⟩ := popExpired_of_expired h
  exact hk.isTimed_of_popExpired hpop

theorem InPlace.remaining_of_expired (hk : k.InPlace) (hq : k.timers.Sound)
    (h : k.expired? = some u) : k.timers.remaining (timeoutSlot u) = some 0 := by
  obtain ⟨timers, hpop⟩ := popExpired_of_expired h
  obtain ⟨-, ⟨hnone, -⟩ | ⟨slot, a, ha, haction, hzero, -⟩⟩ := hq.popExpired hpop
  · cases hnone
  · obtain rfl := Option.some.inj ha
    rw [(hk.timed slot _ haction).1] at hzero
    exact hzero

/-- A timer that is due is taken out and nothing else happens. -/
theorem popExpired_treats {timers : TimerQueue timerSlots TimerAction} {a : Option TimerAction}
    (hk : k.InPlace) (hq : k.timers.Sound) (hpop : k.timers.popExpired = (a, timers))
    (hother : ∀ t, a ≠ some (.wakeup t)) : Treats (fun _ => none) k { k with timers } := by
  obtain ⟨hq', ⟨-, rfl, -⟩ | ⟨slot, a', rfl, haction, -, -, hsame⟩⟩ := hq.popExpired hpop
  · exact .of_same hq' rfl rfl rfl
  · refine ⟨rfl, hq', fun u _ _ => ⟨.refl _, TimerQueue.generation_popExpired hpop _, hsame _ ?_⟩,
      nofun⟩
    have hfits := hk.timed slot a' haction
    cases a' with
    | wakeup t => exact absurd rfl (hother t)
    | callback r => exact timeoutSlot_ne hfits u

theorem fire_treats (hk : k.InPlace) (hq : k.timers.Sound) (h : k.fire = .ok step) :
    Treats (fun u => if k.expired? = some u then some .timeout else none) k step.1 := by
  obtain ⟨timers, ⟨hpop, rfl⟩ | ⟨t, k', hpop, htimeOut, rfl⟩ | ⟨e, hpop, rfl⟩⟩ := fire_ok h
  · refine (popExpired_treats hk hq hpop nofun).congr fun u _ => if_neg ?_
    rw [expired?, hpop]
    exact nofun
  · obtain ⟨hq', ⟨hnone, -⟩ | ⟨slot, a, ha, haction, -, -, hsame⟩⟩ := hq.popExpired hpop
    · cases hnone
    · obtain rfl := Option.some.inj ha
      have hslot : slot = timeoutSlot t := (hk.timed slot _ haction).1
      have hk₁ : ({ k with timers } : Kernel).InPlace := hk.congr rfl rfl (armed_of_popExpired hpop)
      have hblocked : (k.thread t).state.isBlocked = true :=
        isBlocked_of_isTimed (hk.isTimed_of_popExpired hpop)
      have hwoken : Treats (fun u => if u = t then some .timeout else none)
        { k with timers } k' := by
        rcases timeOut_ok hk₁ htimeOut with ⟨hnot, -⟩ | ⟨s, -, hwakes⟩ | ⟨-, hwakes⟩
        · rw [show (Kernel.thread { k with timers } t).state.isBlocked = true from hblocked] at hnot
          cases hnot
        · exact (hwakes.treats hq').after_same rfl rfl rfl
        · exact hwakes.treats hq'
      have hexpired : k.expired? = some t := by rw [expired?, hpop]
      refine ⟨hwoken.clock, hwoken.sound, fun u hu hnone => ?_, fun u r hu hsome => ?_⟩
      · rw [hexpired] at hnone
        have hne : u ≠ t := fun he => by simp [he] at hnone
        obtain ⟨hstand, hgeneration, hrem⟩ := hwoken.spared u hu (if_neg hne)
        refine ⟨hstand, hgeneration.trans (TimerQueue.generation_popExpired hpop _),
          hrem.trans (hsame _ ?_)⟩
        rw [hslot]
        exact fun he => hne (timeoutSlot_injective he)
      · rw [hexpired] at hsome
        refine hwoken.woken u r hu ?_
        simpa [eq_comm] using hsome
  · refine (popExpired_treats hk hq hpop nofun).congr fun u _ => if_neg ?_
    rw [expired?, hpop]
    exact nofun

/-- A thread whose time is up leaves no trace where it waited. -/
structure TimesOut (t : ThreadId) (k k' : Kernel) : Prop where
  members : ∀ q, q ≠ .ready → k'.members q = (k.members q).erase t
  count : ∀ s, k'.semaphoreCount s =
    k.semaphoreCount s + if (k.thread t).queue = some (.semaphore s) then 1 else 0

theorem Wakes.members_erase (h : Wakes t r k k') (hq : q ≠ .ready) :
    k'.members q = (k.members q).erase t := by
  rw [h.moves.members]
  exact Lines.enter_of_ne hq

theorem timeOut_timesOut (hk : k.InPlace) (hu : (k.thread t).state.isTimed = true)
    (h : k.timeOut t = .ok k') : TimesOut t k k' := by
  rcases timeOut_ok hk h with ⟨hnot, -⟩ | ⟨s, hs, hwakes⟩ | ⟨hnot, hwakes⟩
  · rw [isBlocked_of_isTimed hu] at hnot
    cases hnot
  · refine ⟨fun q hq => hwakes.members_erase hq, fun s' => ?_⟩
    have hsame : k'.semaphoreCount s' =
        (k.setSemaphoreCount s (k.semaphoreCount s + 1)).semaphoreCount s' := by
      simp only [semaphoreCount, hwakes.moves.semaphores]
    rw [hsame, semaphoreCount_setSemaphoreCount, hs]
    by_cases he : s' = s
    · simp [he]
    · simp [he, Ne.symm he]
  · refine ⟨fun q hq => hwakes.members_erase hq, fun s' => ?_⟩
    rw [if_neg (hnot s'), Int.add_zero]
    simp only [semaphoreCount, hwakes.moves.semaphores]

/-- A thread whose time is up is taken out of its wait once its timer is gone. -/
theorem fire_of_expired (hk : k.InPlace) (ht : k.expired? = some t) (h : k.fire = .ok step) :
    ∃ timers, ({ k with timers } : Kernel).InPlace ∧
      ({ k with timers } : Kernel).timeOut t = .ok step.1 := by
  obtain ⟨timers, hpop⟩ := popExpired_of_expired ht
  unfold fire at h
  rw [hpop] at h
  obtain ⟨k', htimeOut, h⟩ := bind_eq_ok.mp h
  obtain rfl := Except.ok.inj h
  exact ⟨timers, hk.congr rfl rfl (armed_of_popExpired hpop), htimeOut⟩

theorem fire_timesOut (hk : k.InPlace) (ht : k.expired? = some t) (h : k.fire = .ok step) :
    TimesOut t k step.1 := by
  obtain ⟨timers, hk₁, htimeOut⟩ := fire_of_expired hk ht h
  obtain ⟨hmembers, hcount⟩ := timeOut_timesOut hk₁ (hk.isTimed_of_expired ht) htimeOut
  exact ⟨hmembers, hcount⟩

/-! The handling of timers never fails. -/

theorem unlink_total (hk : k.Linked) (t : ThreadId) : ∃ k', k.unlink t = .ok k' := by
  unfold unlink
  cases hq : (k.thread t).queue with
  | none => exact ⟨k, rfl⟩
  | some q =>
      obtain ⟨k₁, hunlink⟩ := unlinkFrom_total hk hq
      simp only [hunlink]
      exact ⟨_, rfl⟩

theorem cancelWait_total (hk : k.InPlace) (hc : k.Counted) (t : ThreadId) :
    ∃ k', k.cancelWait t = .ok k' ∧ k'.Linked ∧
      k'.thread t = { k.thread t with queue := none } ∧ k'.timers = k.timers := by
  have hunlink : ∀ k₁ : Kernel, k₁.InPlace → k₁.threads = k.threads → k₁.timers = k.timers →
      ∃ k', k₁.unlink t = .ok k' ∧ k'.Linked ∧
        k'.thread t = { k.thread t with queue := none } ∧ k'.timers = k.timers := by
    intro k₁ hk₁ hthreads htimers
    obtain ⟨k', hunlink⟩ := unlink_total hk₁.toLinked t
    obtain ⟨hmoves, hsame⟩ := unlink_ok hk₁.toLinked hunlink
    refine ⟨k', hunlink, hmoves.linked hk₁.toLinked, ?_, hsame.trans htimers⟩
    rw [hmoves.thread_self]
    simp only [thread, hthreads]
  unfold cancelWait
  split
  · rename_i s hs
    have hadd : k.addUnit s = .ok (k.setSemaphoreCount s (k.semaphoreCount s + 1)) := by
      -- A semaphore that a thread waits for has no units, so one more does not overflow.
      have hmem := (hk.mem_iff t (.semaphore s)).mpr hs
      have hcount : k.semaphoreCount s ≠ 2147483647 := by
        intro hmax
        rw [hc.members_eq_nil (by omega)] at hmem
        cases hmem
      exact if_neg hcount
    rw [hadd]
    exact hunlink _ (InPlace.setSemaphoreCount hk _ _) rfl rfl
  · exact hunlink k hk rfl rfl

theorem ready_total (hk : k.Linked) (hq : k.timers.Sound) (queue : (k.thread t).queue = none)
    (hnot : (k.thread t).state.isRunnable = false) (r : WakeupResult) :
    ∃ k', k.ready t r = .ok k' := by
  obtain ⟨timers, hcancel⟩ := hq.exists_cancel (timeoutSlot t)
  have hfree : ∀ th : Thread, th.queue = none →
      ∃ k', (({ k with timers } : Kernel).setThread t th).enqueue .ready t = .ok k' := by
    intro th hth
    refine enqueue_total (Linked.setThread (k := { k with timers }) ⟨hk.hold, hk.mem_iff⟩ ?_) ?_ _
    · exact hth.trans queue.symm
    · rw [thread_setThread, if_pos rfl, hth]
  unfold ready
  rw [hcancel]
  change ∃ k', (if (k.thread t).state.isRunnable then _ else _) = _
  rw [hnot]
  exact hfree _ queue

theorem timeOut_total (hk : k.InPlace) (hc : k.Counted) (hq : k.timers.Sound)
    (hu : (k.thread t).state.isTimed = true) : ∃ k', k.timeOut t = .ok k' := by
  have hblocked := isBlocked_of_isTimed hu
  obtain ⟨k₁, hcancel, hk₁, hthread, htimers⟩ := cancelWait_total hk hc t
  have hnot : (k₁.thread t).state.isRunnable = false := by
    rw [hthread]
    exact eq_false_of_ne_true (not_isRunnable_of_isBlocked hblocked)
  rw [← htimers] at hq
  obtain ⟨k', hready⟩ := ready_total hk₁ hq (by rw [hthread]) hnot .timeout
  unfold timeOut
  dsimp only
  rw [if_pos hblocked, hcancel]
  exact ⟨k', hready⟩

theorem fire_total (hk : k.Sound) (hq : k.timers.Sound) : ∃ step, k.fire = .ok step := by
  unfold fire
  split
  · exact ⟨_, rfl⟩
  · rename_i t timers hpop
    have hk₁ : ({ k with timers } : Kernel).InPlace :=
      hk.inPlace.congr rfl rfl (armed_of_popExpired hpop)
    have hc₁ : ({ k with timers } : Kernel).Counted := hk.counted.congr rfl fun _ => rfl
    have htimed := hk.inPlace.isTimed_of_popExpired hpop
    obtain ⟨k', htimeOut⟩ := timeOut_total hk₁ hc₁ (hq.popExpired hpop).1 htimed
    rw [htimeOut]
    exact ⟨_, rfl⟩
  · exact ⟨_, rfl⟩

/-- A tick passes: all who wait have one tick less, and nobody had none. -/
theorem beginTick_passes (hq : k.timers.Sound) (h : k.beginTick = .ok k') :
    k'.threads = k.threads ∧ k'.clock.now = k.clock.now + 1 ∧ k'.timers.Sound ∧
      (∀ j, k.timers.remaining j ≠ some 0) ∧
      ∀ j d, k'.timers.remaining j = some d ↔ k.timers.remaining j = some (d + 1) := by
  obtain ⟨clock, timers, hclock, hadvance, rfl⟩ := beginTick_ok h
  refine ⟨rfl, ?_, hq.advance hadvance⟩
  change clock.now = k.clock.now + 1
  unfold Clock.advance at hclock
  split at hclock
  · rename_i hwraps
    split at hclock
    · cases hclock
    · rw [← Option.some.inj hclock, hwraps]
  · rw [← Option.some.inj hclock]

end RealtimeKernel.Kernel

import RealtimeKernel.Proofs.Execution.Agenda

/-!
No internal check ever trips. Whatever threads and timer callbacks call, a run only ends with a
fault that tells of misuse by the caller, and the thread whose time is up still waits.
-/
namespace RealtimeKernel

/-- Is the fault one that no caller should be able to cause? -/
def Fault.isInternal : Fault → Bool
  | .notInitialized | .counterOverflow | .counterUnderflow | .timerArmed _ | .timerNotArmed _
  | .expiredTimerAtHead | .removeFromEmptyQueue | .alreadyQueued _ | .alreadyRunnable _
  | .noReadyThread | .switchToSelf | .timeoutLeftArmed | .heldMutexOverflow | .inheritanceCycle
  | .mutexNotHandedOver => true
  | _ => false

/-- May an operation block its caller? -/
def Operation.mayBlock (k : Kernel) : Operation → Bool
  | .join _ | .signalAndWait .. | .lock _ => true
  | .sleep ticks => (Delay.ofTicks? ticks).isSome
  | .sleepUntil deadline => (Delay.ofTicks? (deadline - k.clock.now)).isSome
  | .suspend timeout | .waitSemaphore _ timeout | .waitCondition _ _ timeout
  | .post _ _ _ timeout | .fetch _ timeout => timeout ≠ .immediate
  | _ => false

namespace Execution
open Kernel

/-- The semaphore that a move signals. -/
def Move.gives? (x : Execution) : Move → Option SemaphoreId
  | .call (.operation (.signal s)) | .interrupt (.signal s)
  | .call (.operation (.signalAndWait s _)) => some s
  | .call (.operation (.post b _ _ _)) | .interrupt (.post b _ _) =>
    let box := x.kernel.mailbox b
    if 0 < x.kernel.semaphoreCount box.empty then some box.full else none
  | .call (.operation (.fetch b _)) | .interrupt (.fetch b) =>
    let box := x.kernel.mailbox b
    if 0 < x.kernel.semaphoreCount box.full then some box.empty else none
  | .advance =>
    let admitted := fun b epoch => (x.kernel.admission b epoch x.kernel.running.wakeup).toOption
    match x.frames with
    | .store b epoch _ _ :: _ => (admitted b epoch).map fun _ => (x.kernel.mailbox b).full
    | .fetch b epoch :: _ => (admitted b epoch).map fun _ => (x.kernel.mailbox b).empty
    | _ => none
  | _ => none

/-- How callers misuse the kernel, and the fault that tells them. -/
inductive Misuse (x : Execution) : Move → Fault → Prop
  | idlePriority {m : Move} :
    (∃ name r, m = .call (.spawn name .idle r)) ∨ m = .call (.operation (.setPriority .idle)) →
    Misuse x m .idlePriorityReserved
  | exits {msg : Msg} : x.kernel.running.held ≠ [] →
    Misuse x (.call (.exit msg)) (.exitHoldingMutexes x.kernel.running.name)
  | resumes {m : Move} {t : ThreadId} :
    m = .call (.operation (.resume t)) ∨ m = .interrupt (.resume t) →
    (x.kernel.thread t).state ≠ .suspended → Misuse x m .notSuspended
  | counts {m : Move} {s : SemaphoreId} {count : Nat} :
    m = .call (.operation (.createSemaphore count)) ∨
      m = .call (.operation (.resetSemaphore s count)) ∨ m = .interrupt (.resetSemaphore s count) →
    maxCount < count → Misuse x m .semaphoreCountRange
  | stops {m : Move} {id : TimerId} :
    m = .call (.operation (.resetTimer id)) ∨ m = .interrupt (.resetTimer id) →
    x.kernel.isTimerArmed id = false → Misuse x m (.timerStale id)
  | joinsSelf : Misuse x (.call (.operation (.join x.kernel.current))) .joinsItself
  | joinsFree {t : ThreadId} : (x.kernel.thread t).state = .inactive →
    Misuse x (.call (.operation (.join t))) .joinsFreeSlot
  | joinsJoined {t : ThreadId} : x.kernel.members (.exit t) ≠ [] →
    Misuse x (.call (.operation (.join t))) (.hasJoiner t)
  | locksOwn {m : MutexId} : x.kernel.owner? m = some x.kernel.current →
    Misuse x (.call (.operation (.lock m))) (.mutexNotRecursive m)
  | unlocksForeign {m : MutexId} : x.kernel.owner? m ≠ some x.kernel.current →
    Misuse x (.call (.operation (.unlock m))) (.mutexNotOwned m)
  | waitsWithout {c : CondVarId} {m : MutexId} {timeout : Timeout} :
    x.kernel.owner? m ≠ some x.kernel.current →
    Misuse x (.call (.operation (.waitCondition c m timeout))) (.waitWithoutMutex m)
  | idles {o : Operation} : x.kernel.idle = some x.kernel.current →
    o.mayBlock x.kernel = true → Misuse x (.call (.operation o)) .idleThreadBlocks

/-- A move may only fail because the kernel is misused, unless a counter is exhausted. And the
timeout of a thread only runs out while the thread is blocked. -/
structure Safe (h : History) (x : Execution) : Prop where
  misuse : ∀ m halt, x.allows m = true → m.isProper x = true →
    (∀ s ∈ m.gives? x, x.kernel.semaphoreCount s ≠ maxCount) →
    (m.isTick = true → ticks h + 1 < 2 ^ 64) → x.move m = .error halt →
      Misuse x m halt.fault ∧ halt.fault.isInternal = false
  timeouts : ∀ u, x.kernel.expired? = some u → (x.kernel.thread u).state.isBlocked = true

variable {x y : Execution} {h : History} {m : Move} {rest : List Frame} {P : Fault → Prop}

theorem Misuse.not_internal {e : Fault} (hm : Misuse x m e) : e.isInternal = false := by
  cases hm <;> rfl

theorem perform_fails {step : Kernel → Outcome Step} (hstep : FailsOnly P (step x.kernel)) :
    FailsOnly P (x.perform rest step) := hstep.map _

theorem finish_fails {k : Kernel} (hk : k.InPlace) : FailsOnly P (Operation.finish k) :=
  (preempt_fails hk).map _

/-! Threads that are brought into being. -/

theorem create_fails {name : String} {p : Priority} {e : Entry}
    (hup : x.kernel.initialized = true) : FailsOnly P (x.create name p e) := by
  unfold create
  dsimp only
  rw [hup, if_neg (by decide)]
  split
  · exact .ok _
  · split
    · exact .ok _
    · exact .ok _

theorem spawn_fails {name : String} {p : Priority} {r : Routine} (hk : x.kernel.InPlace)
    (hq : x.kernel.timers.Sound) (hup : x.kernel.initialized = true) :
    FailsOnly (Misuse x (.call (.spawn name p r))) (x.spawn name p r) := by
  unfold spawn
  split
  · rename_i hp
    subst hp
    exact .fail (.idlePriority (Or.inl ⟨name, r, rfl⟩))
  · refine (create_fails hup).bind fun made hcreate => ?_
    obtain ⟨made, x₁⟩ := made
    rcases create_ok hcreate with ⟨err, rfl, -⟩ | ⟨t, rfl, hs, -, hkernel⟩
    · exact perform_fails (.ok _)
    · refine perform_fails ?_
      dsimp only
      rw [hkernel]
      have hcreate : Effect (fun _ => True) x.kernel
          (x.kernel.replaceThread t (.create name p (some (.routine r)))) :=
        .create name p (.routine r) trivial hs
      have hnote : Effect (fun _ => True) _ _ :=
        note_effect (x.kernel.replaceThread t (.create name p (some (.routine r))))
          (.threadCreated name t p)
      have hk₁ := hnote.inPlace (hcreate.inPlace hk)
      have hthread : ((x.kernel.replaceThread t (.create name p (some (.routine r)))).note
          (.threadCreated name t p)).thread t = .create name p (some (.routine r)) :=
        (thread_replaceThread x.kernel t t _).trans (if_pos rfl)
      have hready := ready_total (t := t) (r := .ok) (k := (x.kernel.replaceThread t
        (.create name p (some (.routine r)))).note (.threadCreated name t p)) hk₁.toLinked hq
          (by rw [hthread]; rfl) (by rw [hthread]; rfl)
      refine (FailsOnly.of_exists hready).bind fun k₂ hready => ?_
      have hready : Effect (fun _ => True) _ k₂ :=
        ready_suspended hk₁ trivial (by rw [hthread]; rfl) hready
      exact (preempt_fails (hready.inPlace hk₁)).map _

/-! Operations. -/

/-- An operation that gives way at its end if it has to. -/
theorem finishes {o : Outcome Kernel} (ho : FailsOnly P o)
    (inPlace : ∀ k, o = .ok k → k.InPlace) : FailsOnly P (do Operation.finish (← o)) :=
  ho.bind fun k hk => finish_fails (inPlace k hk)

theorem InPlace.of_effects {k k' : Kernel} (hk : k.Sound)
    (he : Relation.ReflTransGen (Effect fun _ => True) k k') : k'.InPlace :=
  ((Does.of_effects he).sound hk).inPlace

theorem operation_fails {c : Operation} (hk : x.kernel.Whole) (hin : c.handlesExist x.kernel = true)
    (hgives : ∀ s ∈ Move.gives? x (.call (.operation c)), x.kernel.semaphoreCount s ≠ maxCount)
    (htick : c = .tick → x.kernel.timers.Undue ∧ x.kernel.clock.advance ≠ none) :
    FailsOnly (Misuse x (.call (.operation c))) (c.run x.kernel) := by
  have hin' := hk.inPlace
  have hidle := fun hblock hidle => @Misuse.idles x c hidle hblock
  cases c with
  | join t =>
      refine join_fails hk (hidle rfl) ?_ .joinsFree .joinsJoined
      rintro rfl
      exact .joinsSelf
  | yieldTurn => exact (yieldTurn_fails hin').map _
  | sleep ticks => exact sleep_fails hk hidle
  | sleepUntil deadline => exact sleepUntil_fails hk hidle
  | suspend timeout => exact suspend_fails hk fun hne => hidle (decide_eq_true hne)
  | resume t =>
      refine finishes (resume_fails hin' hk.timers (.resumes (Or.inl rfl))) fun k' hresume => ?_
      have heffect : Effect (fun _ => True) x.kernel k' :=
        resume_effect hin' (Or.inl trivial) hresume
      exact heffect.inPlace hin'
  | requestTerminate t => exact .ok _
  | setPriority p =>
      refine setPriority_fails hin' ?_
      rintro rfl
      exact .idlePriority (Or.inr rfl)
  | tick =>
      obtain ⟨hundue, hclock⟩ := htick rfl
      exact (beginTick_fails hk.timers hundue hclock).map _
  | createSemaphore count => exact (createSemaphore_fails (.counts (s := 0) (Or.inl rfl))).map _
  | waitSemaphore s timeout =>
      exact (waitUnit_fails hk fun hne => hidle (decide_eq_true hne)).map _
  | signal s =>
      refine finishes (signal_fails hin' hk.timers (hgives s rfl)) fun k' hsignal => ?_
      exact (signal_whole hk hsignal).inPlace
  | resetSemaphore s count =>
      have hrange : maxCount < count → Misuse x (.call (.operation (.resetSemaphore s count)))
          .semaphoreCountRange := .counts (Or.inr (Or.inl rfl))
      refine finishes (resetSemaphore_fails hin' hk.timers hrange) fun k' hreset => ?_
      have heffect : Effect (fun _ => True) x.kernel k' := resetSemaphore_effect hin' trivial hreset
      exact heffect.inPlace hin'
  | signalAndWait s₁ s₂ => exact signalAndWait_fails hk (hidle rfl) (hgives s₁ rfl)
  | createMutex => exact .ok _
  | lock m => exact (lock_fails hk (hidle rfl) .locksOwn).map _
  | tryLock m => exact (tryLock_fails hk.owned).map _
  | unlock m =>
      refine finishes (release_fails hk.toSound hk.timers .unlocksForeign) fun k' hrelease => ?_
      exact (release_whole hk hrelease).inPlace
  | unlockAll =>
      refine finishes (releaseUpTo_fails hk) fun k' hrelease => ?_
      exact InPlace.of_effects hk.toSound (releaseUpTo_effects hin' (fun _ => trivial) hrelease)
  | createCondVar => exact .ok _
  | waitCondition c m timeout =>
      exact waitCondition_fails hk (fun hne => hidle (decide_eq_true hne)) .waitsWithout
  | signalCondition c =>
      refine finishes (wakeFirst_fails hin' hk.timers nofun) fun k' hsignal => ?_
      exact InPlace.of_effects hk.toSound (signalCondition_effects hin' trivial hsignal)
  | broadcast c =>
      refine finishes (wakeAll_fails hin' hk.timers nofun) fun k' hbroadcast => ?_
      exact InPlace.of_effects hk.toSound (broadcast_effects hin' trivial hbroadcast)
  | createMailbox capacity => exact createMailbox_fails.map _
  | post b msg ahead timeout =>
      exact post_fails hk hin (fun hne => hidle (decide_eq_true hne)) fun hpos =>
        hgives _ (if_pos hpos)
  | fetch b timeout =>
      exact fetch_fails hk hin (fun hne => hidle (decide_eq_true hne)) fun hpos =>
        hgives _ (if_pos hpos)
  | resetMailbox b =>
      refine finishes (resetMailbox_fails hk.toSound hk.timers hin) fun k' hreset => ?_
      exact InPlace.of_effects hk.toSound
        (resetMailbox_effects hk.toSound (fun _ _ => trivial) hreset)
  | setTimer delay r => exact (setTimer_fails hk.timers).map _
  | resetTimer id => exact (resetTimer_fails hk.timers (.stops (Or.inl rfl))).map _

theorem interrupt_fails {c : InterruptCall} (hk : x.kernel.Sound)
    (hq : x.kernel.timers.Sound) (hin : c.handlesExist x.kernel = true)
    (hgives : ∀ s ∈ Move.gives? x (.interrupt c), x.kernel.semaphoreCount s ≠ maxCount)
    (htick : c = .tick → x.kernel.timers.Undue ∧ x.kernel.clock.advance ≠ none) :
    FailsOnly (Misuse x (.interrupt c)) (c.run x.kernel) := by
  have hin' := hk.inPlace
  cases c with
  | preempt => exact (preempt_fails hin').map _
  | tick =>
      obtain ⟨hundue, hclock⟩ := htick rfl
      exact (beginTick_fails hq hundue hclock).map _
  | resume t => exact (resume_fails hin' hq (.resumes (Or.inr rfl))).map _
  | signal s => exact (signal_fails hin' hq (hgives s rfl)).map _
  | resetSemaphore s count =>
      exact (resetSemaphore_fails hin' hq (.counts (Or.inr (Or.inr rfl)))).map _
  | tryLock m => exact (tryLock_fails hk.owned).map _
  | signalCondition c => exact (wakeFirst_fails (q := .condVar c) hin' hq nofun).map _
  | broadcast c => exact (wakeAll_fails (q := .condVar c) hin' hq nofun).map _
  | post b msg ahead => exact (postNow_fails hk hq hin fun hpos => hgives _ (if_pos hpos)).map _
  | fetch b => exact (fetchNow_fails hk hq hin fun hpos => hgives _ (if_pos hpos)).map _
  | resetMailbox b => exact (resetMailbox_fails hk hq hin).map _
  | setTimer delay r => exact (setTimer_fails hq).map _
  | resetTimer id => exact (resetTimer_fails hq (.stops (Or.inr rfl))).map _

/-- What a thread has left to do, it can do. -/
theorem advance_fails (hc : Coherent h x) (hx : x.Fit) (hk : x.kernel.Whole)
    (hallows : x.allows .advance = true)
    (hgives : ∀ s ∈ Move.gives? x .advance, x.kernel.semaphoreCount s ≠ maxCount) :
    FailsOnly P x.advance := by
  obtain ⟨f, rest, hframes, -⟩ := allows_advance hallows
  rw [advance_eq hframes]
  refine perform_fails ?_
  have ha : Agenda x.kernel x.kernel.current x.frames := hc.agenda x.kernel.current
  rw [hframes] at ha
  cases f with
  | start =>
      rw [not_advance_start hx (start_inv ha).2 hframes] at hallows
      cases hallows
  | awake =>
      unfold frameStep
      dsimp only
      rw [hx.sound.inPlace.isArmed_current]
      exact .ok _
  | locked m =>
      cases ha with
      | plain hplain => cases hplain _ List.mem_cons_self
      | locked hcontends =>
          unfold frameStep
          dsimp only
          rw [if_pos (hx.sound.inPlace.contends_iff.mp hcontends)]
          exact .ok _
      | firing _ hf => cases hf
  | relock m =>
      cases ha with
      | plain hplain => cases hplain _ List.mem_cons_self
      | relock hidle hnot =>
          exact relock_fails hk (fun he => absurd he hidle) fun howner =>
            absurd (Or.inr howner) hnot
      | firing _ hf => cases hf
  | store b epoch msg ahead =>
      refine storeAfter_fails hk.toSound hk.timers fun hadmission => hgives _ ?_
      unfold Move.gives?
      dsimp only
      rw [hframes]
      dsimp only
      rw [hadmission]
      rfl
  | fetch b epoch =>
      refine fetchAfter_fails hk.toSound hk.timers fun hadmission => hgives _ ?_
      unfold Move.gives?
      dsimp only
      rw [hframes]
      dsimp only
      rw [hadmission]
      rfl
  | fire => exact .of_exists (fire_total hk.toSound hk.timers)
  | preempt => exact (preempt_fails hk.inPlace).map _
  | _ => exact .ok _

/-! Every move. -/

theorem move_fails (hc : Coherent h x) (hx : x.Fit) (hq : x.kernel.timers.Sound)
    (hallows : x.allows m = true) (hproper : m.isProper x = true)
    (hgives : ∀ s ∈ m.gives? x, x.kernel.semaphoreCount s ≠ maxCount)
    (hticks : m.isTick = true → ticks h + 1 < 2 ^ 64) : FailsOnly (Misuse x m) (x.move m) := by
  have hk : x.kernel.Whole := ⟨hx.sound, hq, hc.staffed⟩
  have htick : m.isTick = true → x.frames = [] →
      x.kernel.timers.Undue ∧ x.kernel.clock.advance ≠ none := by
    intro htick hnil
    refine ⟨hc.undue.resolve_left ?_, fun hnone => ?_⟩
    · rw [hnil]
      exact nofun
    · rcases x.kernel.clock.advance_total with ⟨-, hend⟩ | ⟨c', hsome, -⟩
      · rw [hc.clock] at hend
        have hlt := hticks htick
        omega
      · rw [hnone] at hsome
        cases hsome
  cases m with
  | call c =>
      obtain ⟨hnil, hin⟩ := allows_call hallows
      cases c with
      | boot =>
          obtain ⟨e, -, hboot⟩ := boot_eq_error hx.initialized
          exact .of_exists ⟨_, hboot⟩
      | spawn name p r => exact spawn_fails hk.inPlace hq hx.initialized
      | exit msg =>
          have hfails : FailsOnly (Misuse x (.call (.exit msg))) (x.kernel.exit msg) :=
            exit_fails hk (of_decide_eq_true hproper) .exits
          change FailsOnly _ (x.perform [] fun k => do return (← k.exit msg, []))
          exact perform_fails (hfails.map _)
      | operation c =>
          have hfails := operation_fails hk hin hgives fun hc => htick (by rw [hc]; rfl) hnil
          change FailsOnly _ (x.perform x.frames c.run)
          exact perform_fails hfails
  | interrupt c =>
      have hfails := interrupt_fails hx.sound hq (allows_interrupt hallows).2 hgives fun hc => by
        subst hc
        exact htick rfl (List.isEmpty_iff.mp hproper)
      change FailsOnly _ (x.perform x.frames c.run)
      exact perform_fails hfails
  | advance => exact advance_fails hc hx hk hallows hgives
  | takeAnswer | enter | leave | collectLog => exact .ok _

/-- No internal check trips, as long as callbacks and the idle thread keep to what they have to. -/
theorem reaches_safe (hr : Reaches h x) (hj : JoinedOnce h)
    (hp : ∀ r ∈ h, r.move.isProper r.before = true) : Safe h x := by
  have hx := (hr.orderly hj).fit
  obtain ⟨r, harises⟩ := hr.arises
  refine ⟨fun m halt hallows hproper hgives hticks hmove => ?_, fun u hu => ?_⟩
  · have hmisuse := move_fails (hr.coherent hj hp) hx harises.sound hallows hproper hgives hticks
      halt hmove
    exact ⟨hmisuse, hmisuse.not_internal⟩
  · exact isBlocked_of_isTimed (hx.sound.inPlace.isTimed_of_expired hu)

/-- The boot thread waits while the idle thread lets a tick pass. A timer callback wakes it. -/
def alarmed : List Move :=
  [.takeAnswer, .call (.operation (.createSemaphore 0)), .takeAnswer,
    .call (.operation (.setTimer ((Delay.ofTicks? 1).get rfl) "alarm")), .takeAnswer,
    .call (.operation (.waitSemaphore 0 (.ofTicks 3))), .enter,
    .call (.operation .tick), .advance, .enter, .interrupt (.signal 0), .takeAnswer, .leave,
    .advance, .advance, .advance, .advance]

theorem safe_alarmed : Reaches (enact alarmed).1 (enact alarmed).2 ∧ JoinedOnce (enact alarmed).1 ∧
    (∀ r ∈ (enact alarmed).1, r.move.isProper r.before = true) ∧
      Safe (enact alarmed).1 (enact alarmed).2 :=
  have hr := reaches_enact (by decide +kernel)
  have hj : JoinedOnce (enact alarmed).1 := by decide +kernel
  have hp : ∀ r ∈ (enact alarmed).1, r.move.isProper r.before = true := by decide +kernel
  ⟨hr, hj, hp, reaches_safe hr hj hp⟩

/-- If the idle thread blocks, that is reported. -/
example : (match (enact (alarmed.take 7)).2.move (.call (.operation (.sleep 1))) with
    | .error halt => halt.fault == .idleThreadBlocks
    | .ok _ => false) = true := by decide +kernel

end Execution

end RealtimeKernel

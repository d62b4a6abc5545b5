import RealtimeKernel.Proofs.Execution.Calls
import RealtimeKernel.Proofs.Kernel.Settled

/-!
Operations leave the kernel settled. An operation of a thread disturbs no one, or it gives way
at its end where that is required, or it blocks; only a tick leaves timers to be handled first.
Operations that may not give way can only add to the ready threads.
-/
namespace RealtimeKernel

/-- Does the frame belong to the handling of the timers that are due? -/
def Frame.handlesTimers : Frame → Bool
  | .fire | .callback .. => true
  | _ => false

namespace Kernel

variable {k k' k₁ : Kernel} {frames : List Frame} {step : Step} {t : ThreadId} {s : SemaphoreId}
  {m : MutexId} {b : MailboxId} {state : ThreadState} {touched : Object → Prop}

/-- The kernel is settled as far as it was, and in any case if the processor passed. -/
def Settles (k k' : Kernel) : Prop := k.Settled ∨ k'.current ≠ k.current → k'.Settled

theorem Calm.settles (h : Calm k k') : Settles k k' :=
  fun hs => h.settled (hs.resolve_right fun hne => hne h.current)

theorem Settles.after (h : Settles k₁ k') (calm : Calm k k₁) : Settles k k' := by
  rintro (hs | hne)
  · exact h (Or.inl (calm.settled hs))
  · rw [← calm.current] at hne
    exact h (Or.inr hne)

/-- A step after which the thread's own code goes on, sooner or later. -/
structure Concludes (k : Kernel) (step : Step) : Prop where
  settles : Settles k step.1
  plain : ∀ f ∈ step.2, f.handlesTimers = false

theorem Concludes.after (h : Concludes k₁ step) (calm : Calm k k₁) : Concludes k step :=
  ⟨h.settles.after calm, h.plain⟩

theorem Concludes.of_settled (h : k'.Settled) (plain : ∀ f ∈ frames, f.handlesTimers = false) :
    Concludes k (k', frames) :=
  ⟨fun _ => h, plain⟩

theorem Calm.concludes (h : Calm k k') (plain : ∀ f ∈ frames, f.handlesTimers = false) :
    Concludes k (k', frames) :=
  ⟨h.settles, plain⟩

theorem plain_answer (a : Answer) : ∀ f ∈ [Frame.answer a], f.handlesTimers = false := by
  simp [Frame.handlesTimers]

theorem plain_checks {checks : List Frame} {later : Frame}
    (hc : checks = [] ∨ checks = [.awake]) (hlater : later.handlesTimers = false) :
    ∀ f ∈ checks ++ [later], f.handlesTimers = false := by
  intro f hf
  rcases mem_checks hc hf with rfl | rfl
  · rfl
  · exact hlater

/-! Scheduling and threads. -/

theorem preempt_after (hk : k.Sound) (quantum : 0 < k.config.quantum)
    (he : Relation.ReflTransGen (Effect touched) k k₁) (h : k₁.preempt = .ok k') : k'.Settled := by
  obtain ⟨hk₁, hconfig⟩ := effects_induction (P := fun k₁ => k₁.config = k.config) he hk
    (fun _ _ _ he h => he.config.trans h) rfl
  rw [← hconfig] at quantum
  exact preempt_settled hk₁.inPlace quantum h

theorem finish_concludes (hk : k.Sound) (quantum : 0 < k.config.quantum)
    (he : Relation.ReflTransGen (Effect touched) k k₁) (h : Operation.finish k₁ = .ok step) :
    Concludes k step := by
  obtain ⟨k', hpreempt, h⟩ := bind_eq_ok.mp h
  obtain rfl := Except.ok.inj h
  exact .of_settled (preempt_after hk quantum he hpreempt) (plain_answer _)

theorem exit_settled {msg : Msg} (hk : k.InPlace) (quantum : 0 < k.config.quantum)
    (h : k.exit msg = .ok k') : k'.Settled := by
  obtain ⟨-, record, k₁, next, hrouses, hdispatch⟩ := exit_ok hk h
  have hnote : Effect (fun _ => False) k (k.note record) := note_effect k record
  have hk₁ := hrouses.arranged ((hnote.inPlace hk).finishCurrent msg)
  have hconfig : k₁.config = k.config := hrouses.config
  rw [← hconfig] at quantum
  exact hdispatch.settled hk₁ quantum

theorem calm_mark (k : Kernel) (t : ThreadId) (terminate : Bool) (entry : Option Entry) :
    Calm k (k.modifyThread t fun th => { th with terminate, entry }) := by
  have hthread : ∀ u, (k.modifyThread t fun th => { th with terminate, entry }).thread u = _ :=
    fun u => thread_modifyThread k t u _
  refine ⟨.of_thread hthread rfl rfl rfl id, ?_⟩
  intro u hs
  rw [hthread] at hs
  split at hs
  · rename_i hu
    rw [hu]
    exact hs
  · exact hs

theorem collect_concludes (hk : k.InPlace) (hs : (k.thread t).state = .final) :
    Concludes k (k.collect t) := by
  apply Calm.concludes
  · apply hk.calm_vacate
    rw [hs]
    rfl
  · exact plain_answer _

theorem join_concludes (hk : k.InPlace) (quantum : 0 < k.config.quantum)
    (h : k.join t = .ok step) : Concludes k step := by
  rcases join_ok hk h with ⟨hfinal, rfl⟩ | ⟨hcollect, hawaits⟩
  · exact collect_concludes hk hfinal
  · refine ⟨fun _ => hawaits.blocks.settled hk quantum, ?_⟩
    rw [hcollect]
    simp [Frame.handlesTimers]

theorem blockFor_settled {delay : Delay} (hk : k.InPlace) (quantum : 0 < k.config.quantum)
    (h : k.blockFor .sleeping delay = .ok k') : k'.Settled :=
  (blockFor_ok hk.toLinked hk.stays rfl rfl rfl rfl h).settled hk quantum

theorem sleep_concludes {ticks : Ticks} (hk : k.InPlace) (quantum : 0 < k.config.quantum)
    (h : k.sleep ticks = .ok step) : Concludes k step := by
  rcases sleep_ok h with ⟨delay, k', -, hblock, rfl⟩ | ⟨k', -, hyield, rfl⟩
  · exact .of_settled (blockFor_settled hk quantum hblock) (by simp [Frame.handlesTimers])
  · exact .of_settled (yieldTurn_settled hk quantum hyield) (plain_answer _)

theorem sleepUntil_concludes {deadline : Ticks} (hk : k.InPlace) (quantum : 0 < k.config.quantum)
    (h : k.sleepUntil deadline = .ok step) : Concludes k step := by
  rcases sleepUntil_ok h with ⟨delay, k', -, hblock, rfl⟩ | ⟨-, rfl⟩
  · exact .of_settled (blockFor_settled hk quantum hblock) (by simp [Frame.handlesTimers])
  · exact (Calm.refl k).concludes (plain_answer _)

theorem suspend_concludes {timeout : Timeout} (hk : k.InPlace) (quantum : 0 < k.config.quantum)
    (h : k.suspend timeout = .ok step) : Concludes k step := by
  rcases suspend_ok hk h with ⟨-, rfl⟩ | ⟨checks, k', hc, rfl, hblocks⟩
  · exact (Calm.refl k).concludes (plain_answer _)
  · exact .of_settled (hblocks.settled hk quantum) (plain_checks hc rfl)

theorem setPriority_concludes {p : Priority} (hk : k.Sound) (quantum : 0 < k.config.quantum)
    (h : k.setPriority p = .ok step) : Concludes k step := by
  unfold setPriority at h
  split at h
  · cases h
  · obtain ⟨k₁, hpreempt, h⟩ := bind_eq_ok.mp h
    obtain rfl := Except.ok.inj h
    have hset : Effect (fun _ => True) k _ := .setBase p fun _ => trivial
    exact .of_settled (preempt_after hk quantum (.single hset) hpreempt) (plain_answer _)

/-! Semaphores and mutexes. -/

theorem calm_setSemaphoreCount (k : Kernel) (s : SemaphoreId) (count : Int) :
    Calm k (k.setSemaphoreCount s count) := .of_threads rfl rfl rfl

/-- A wait for a unit is over without disturbing anyone, or the thread blocks. -/
theorem waitUnit_settles {timeout : Timeout} {w : Wait} (hk : k.InPlace)
    (quantum : 0 < k.config.quantum) (hs : state = .waitingSemaphore ∨ state = .waitingMailbox)
    (h : k.waitUnit s timeout state = .ok w) :
    (∃ r k', w = .over r k' ∧ Calm k k' ∧ (k' = k ∨ 0 < k.semaphoreCount s ∧
      k' = k.setSemaphoreCount s (k.semaphoreCount s - 1))) ∨
      ∃ checks k', w = .blocked checks k' ∧ (checks = [] ∨ checks = [.awake]) ∧ k'.Settled := by
  rcases waitUnit_ok hk hs h with ⟨hpos, rfl⟩ | ⟨-, -, rfl⟩ | ⟨-, -, checks, k', rfl, hc, hblocks⟩
  · exact Or.inl ⟨_, _, rfl, calm_setSemaphoreCount k s _, Or.inr ⟨hpos, rfl⟩⟩
  · exact Or.inl ⟨_, _, rfl, .refl k, Or.inl rfl⟩
  · exact Or.inr ⟨checks, k', rfl, hc,
      hblocks.settled (InPlace.setSemaphoreCount hk _ _) quantum⟩

theorem signalAndWait_concludes {s₁ s₂ : SemaphoreId} (hk : k.Sound)
    (quantum : 0 < k.config.quantum) (h : k.signalAndWait s₁ s₂ = .ok step) :
    Concludes k step := by
  obtain ⟨k₁, k', hsignal, hwait⟩ := signalAndWait_ok hk h
  have hsignal : Effect (fun _ => True) k k₁ := signal_effect hk trivial hsignal
  have hk₁ := hsignal.sound hk
  rcases hwait with ⟨hpos, rfl, hpreempt⟩ | ⟨-, rfl, hblocks⟩
  · have hrecount : Effect (fun _ => True) k₁
        (k₁.setSemaphoreCount s₂ (k₁.semaphoreCount s₂ - 1)) :=
      .recount trivial hpos.le (by omega)
    exact .of_settled (preempt_after hk quantum
      ((Relation.ReflTransGen.single hsignal).tail hrecount)
      hpreempt) (plain_answer _)
  · have hk₂ : (k₁.setSemaphoreCount s₂ (k₁.semaphoreCount s₂ - 1)).InPlace :=
      InPlace.setSemaphoreCount hk₁.inPlace _ _
    rw [← hsignal.config] at quantum
    exact .of_settled (hblocks.settled hk₂ quantum) (by simp [Frame.handlesTimers])

theorem lock_concludes {rest : List Frame} (hk : k.InPlace) (quantum : 0 < k.config.quantum)
    (plain : ∀ f ∈ rest, f.handlesTimers = false) (h : k.lock m = .ok (k', frames)) :
    Concludes k (k', frames ++ rest) := by
  rcases lock_steps hk h with ⟨rfl, -, rfl⟩ | ⟨rfl, o, k₁, -, -, hlends, hblocks⟩
  · exact (calm_acquire k m k.current).concludes plain
  · have hk₁ := hlends.arranged hk
    rw [← hlends.current] at hk₁
    rw [← hlends.config] at quantum
    apply Concludes.of_settled (hblocks.settled hk₁ quantum)
    intro f hf
    rcases List.mem_cons.mp hf with rfl | hf
    · rfl
    · exact plain f hf

theorem relock_concludes {r : WakeupResult} (hk : k.InPlace) (quantum : 0 < k.config.quantum)
    (h : k.relock m r = .ok step) : Concludes k step := by
  obtain ⟨⟨k', frames⟩, hlock, h⟩ := bind_eq_ok.mp h
  obtain rfl := Except.ok.inj h
  exact lock_concludes hk quantum (plain_answer _) hlock

theorem tryLock_calm {free : Bool} (h : k.tryLock m = .ok (free, k')) : Calm k k' := by
  rcases tryLock_ok h with ⟨-, -, rfl⟩ | ⟨-, -, rfl⟩
  · exact .refl _
  · exact calm_acquire k m k.current

theorem waitCondition_concludes {c : CondVarId} {timeout : Timeout} (hk : k.Sound)
    (quantum : 0 < k.config.quantum) (h : k.waitCondition c m timeout = .ok step) :
    Concludes k step := by
  rcases waitCondition_ok hk.inPlace h with
    ⟨-, rfl⟩ | ⟨k₁, checks, k', -, hrelease, hc, rfl, hblocks⟩
  · exact (Calm.refl k).concludes (plain_answer _)
  · have hrelease : Effect (fun _ => True) k k₁ := release_effect hk.inPlace trivial hrelease
    have hk₁ := hrelease.inPlace hk.inPlace
    rw [← hrelease.config] at quantum
    exact .of_settled (hblocks.settled hk₁ quantum) (plain_checks hc rfl)

/-! Mailboxes. -/

theorem storeAfter_concludes {epoch : UInt32} {msg : Msg} {ahead : Bool} {r : WakeupResult}
    (hk : k.Sound) (quantum : 0 < k.config.quantum)
    (h : storeAfter b epoch msg ahead r k = .ok step) : Concludes k step := by
  rcases storeAfter_ok h with ⟨e, -, rfl⟩ | ⟨k₁, k', -, hsignal, hpreempt, rfl⟩
  · exact (Calm.refl k).concludes (plain_answer _)
  · have hput : Effect (fun _ => True) k (k.putMessage b msg ahead) :=
      putMessage_effect trivial msg ahead
    have hsignal : Effect (fun _ => True) _ k₁ := signal_effect (hput.sound hk) trivial hsignal
    exact .of_settled (preempt_after hk quantum ((Relation.ReflTransGen.single hput).tail hsignal)
      hpreempt) (plain_answer _)

theorem fetchAfter_concludes {epoch : UInt32} {r : WakeupResult} (hk : k.Sound)
    (quantum : 0 < k.config.quantum) (h : fetchAfter b epoch r k = .ok step) :
    Concludes k step := by
  rcases fetchAfter_ok h with ⟨e, -, rfl⟩ | ⟨k₁, k', -, hsignal, hpreempt, rfl⟩
  · exact (Calm.refl k).concludes (plain_answer _)
  · have hfetch : Effect (fun _ => True) k (k.takeMessage b).2 := takeMessage_effect trivial
    have hsignal : Effect (fun _ => True) _ k₁ := signal_effect (hfetch.sound hk) trivial hsignal
    exact .of_settled (preempt_after hk quantum ((Relation.ReflTransGen.single hfetch).tail hsignal)
      hpreempt) (plain_answer _)

/-- A wait for a mailbox ends at once, or the thread blocks. -/
theorem thenDo_concludes {timeout : Timeout} {w : Wait} {now : WakeupResult → Kernel → Outcome Step}
    {later : Frame} (hk : k.Sound) (quantum : 0 < k.config.quantum)
    (hwait : k.waitUnit s timeout .waitingMailbox = .ok w) (plain : later.handlesTimers = false)
    (concludes : ∀ r k₁ step, k₁.Sound → 0 < k₁.config.quantum → now r k₁ = .ok step →
      Concludes k₁ step) (h : w.thenDo now later = .ok step) : Concludes k step := by
  rcases waitUnit_settles hk.inPlace quantum (Or.inr rfl) hwait with
    ⟨r, k₁, rfl, hcalm, rfl | ⟨hpos, rfl⟩⟩ | ⟨checks, k', rfl, hc, hsettled⟩
  · exact concludes r _ _ hk quantum h
  · have hrecount : Effect (fun _ => True) k
        (k.setSemaphoreCount s (k.semaphoreCount s - 1)) :=
      .recount trivial (by omega) (by omega)
    exact (concludes r _ _ (hrecount.sound hk) quantum h).after hcalm
  · obtain rfl := Except.ok.inj h
    exact .of_settled hsettled (plain_checks hc plain)

theorem post_concludes {msg : Msg} {ahead : Bool} {timeout : Timeout} (hk : k.Sound)
    (quantum : 0 < k.config.quantum) (h : k.post b msg ahead timeout = .ok step) :
    Concludes k step := by
  obtain ⟨w, hwait, h⟩ := post_ok h
  exact thenDo_concludes hk quantum hwait rfl
    (fun r k₁ step hk₁ quantum h => storeAfter_concludes hk₁ quantum h) h

theorem fetch_concludes {timeout : Timeout} (hk : k.Sound) (quantum : 0 < k.config.quantum)
    (h : k.fetch b timeout = .ok step) : Concludes k step := by
  obtain ⟨w, hwait, h⟩ := fetch_ok h
  exact thenDo_concludes hk quantum hwait rfl
    (fun r k₁ step hk₁ quantum h => fetchAfter_concludes hk₁ quantum h) h

/-! New objects and timers. -/

theorem createSemaphore_calm {count : Nat} {e : Except KernelError SemaphoreId}
    (h : k.createSemaphore count = .ok (e, k')) : Calm k k' := by
  rcases createSemaphore_ok h with ⟨rfl, -⟩ | ⟨s, pool, -, -, rfl⟩
  · exact .refl _
  · exact .of_threads rfl rfl rfl

theorem createMutex_calm (k : Kernel) : Calm k k.createMutex.2 := by
  unfold createMutex
  split <;> exact .of_threads rfl rfl rfl

theorem createCondVar_calm (k : Kernel) : Calm k k.createCondVar.2 := by
  unfold createCondVar
  split <;> exact .of_threads rfl rfl rfl

theorem createMailbox_calm {capacity : Nat} {e : Except KernelError MailboxId}
    (h : k.createMailbox capacity = .ok (e, k')) : Calm k k' := by
  rcases @createMailbox_ok k k' (fun _ => True) capacity e h with ⟨-, hsame, -⟩ |
    ⟨b, empty, full, pool₁, pool₂, pool, hpos, -, -, -, -, -, rfl⟩
  · rw [hsame]
    exact .of_threads rfl rfl rfl
  · exact .of_threads rfl rfl rfl

theorem setTimer_calm {delay : Delay} {r : Routine} {e : Except KernelError TimerId}
    (h : k.setTimer delay r = .ok (e, k')) : Calm k k' := by
  rcases setTimer_ok h with ⟨-, -, rfl⟩ | ⟨slot, timers, -, -, -, rfl⟩
  · exact .refl _
  · exact .of_threads rfl rfl rfl

theorem resetTimer_calm {id : TimerId} (h : k.resetTimer id = .ok k') : Calm k k' := by
  obtain ⟨-, timers, -, rfl⟩ := resetTimer_ok h
  exact .of_threads rfl rfl rfl

/-- Handling a timer passes the processor to nobody, and leaves timers to be handled, or not. -/
theorem fire_leaves (hk : k.InPlace) (h : k.fire = .ok step) : step.1.current = k.current ∧
    (step.2 = [] ∨ step.2 = [.fire] ∨ ∃ r, step.2 = [.callback r false, .fire]) := by
  obtain ⟨timers, ⟨-, rfl⟩ | ⟨t, k', hpop, htimeOut, rfl⟩ | ⟨e, -, rfl⟩⟩ := fire_ok h
  · exact ⟨rfl, Or.inl rfl⟩
  · have hk₁ : ({ k with timers } : Kernel).InPlace := hk.congr rfl rfl (armed_of_popExpired hpop)
    refine ⟨?_, Or.inr (Or.inl rfl)⟩
    rcases timeOut_ok hk₁ htimeOut with ⟨-, record, rfl⟩ | ⟨s, -, hwakes⟩ | ⟨-, hwakes⟩
    · rfl
    · exact hwakes.moves.current
    · exact hwakes.moves.current
  · exact ⟨rfl, Or.inr (Or.inr ⟨_, rfl⟩)⟩

/-! Operations that may not give way. -/

theorem signal_mild (hk : k.Sound) (h : k.signal s = .ok k') : Mild k k' := by
  have hcount : ∀ count, Mild k (k.setSemaphoreCount s count) :=
    fun count => (calm_setSemaphoreCount k s count).toMild
  rcases signal_ok hk h with ⟨-, rfl⟩ | ⟨-, t, -, hwakes⟩
  · exact hcount _
  · exact (hcount _).trans hwakes.mild

theorem resetSemaphore_mild {count : Nat} (hk : k.InPlace)
    (h : k.resetSemaphore s count = .ok k') : Mild k k' :=
  (calm_setSemaphoreCount k s count).toMild.trans (resetSemaphore_ok hk h).mild

theorem takeUnit_mild (h : k.takeUnit? s = some k') : Mild k k' := by
  rw [(takeUnit_ok h).2]
  exact (calm_setSemaphoreCount k s _).toMild

theorem postNow_mild (hk : k.Sound) {msg : Msg} {ahead : Bool} {e : Except WaitError Unit}
    (h : k.postNow b msg ahead = .ok (e, k')) : Mild k k' := by
  rcases postNow_ok h with ⟨-, -, rfl⟩ | ⟨k₁, -, htake, hsignal⟩
  · exact .refl _
  · have heffect : Effect (fun _ => True) k k₁ := takeUnit_effect trivial htake
    have hput : Effect (fun _ => True) k₁ (k₁.putMessage b msg ahead) :=
      putMessage_effect trivial msg ahead
    have hmild : Mild k₁ (k₁.putMessage b msg ahead) := .of_threads rfl rfl rfl
    have hsignal := signal_mild (hput.sound (heffect.sound hk)) hsignal
    exact ((takeUnit_mild htake).trans hmild).trans hsignal

theorem fetchNow_mild (hk : k.Sound) {e : Except WaitError Msg}
    (h : k.fetchNow b = .ok (e, k')) : Mild k k' := by
  rcases fetchNow_ok h with ⟨-, -, rfl⟩ | ⟨k₁, -, htake, hsignal⟩
  · exact .refl _
  · have heffect : Effect (fun _ => True) k k₁ := takeUnit_effect trivial htake
    have hfetch : Effect (fun _ => True) k₁ (k₁.takeMessage b).2 := takeMessage_effect trivial
    have hmild : Mild k₁ (k₁.takeMessage b).2 := .of_threads rfl rfl rfl
    have hsignal := signal_mild (hfetch.sound (heffect.sound hk)) hsignal
    exact ((takeUnit_mild htake).trans hmild).trans hsignal

theorem resetMailbox_mild (hk : k.InPlace) (h : k.resetMailbox b = .ok k') : Mild k k' := by
  obtain ⟨_, k₁, rfl, hreset, hagain⟩ := resetMailbox_ok h
  have hwrite : Effect (fun _ => True) k (k.setMailbox b
      { k.mailbox b with
        ring := (k.mailbox b).ring.rewind, epoch := (k.mailbox b).epoch + 1 }) :=
    .write _ _ trivial
  have hk₁ := hwrite.inPlace hk
  have heffect : Effect (fun _ => True) _ k₁ := resetSemaphore_effect hk₁ trivial hreset
  have hfirst := resetSemaphore_mild hk₁ hreset
  have hsecond := resetSemaphore_mild (heffect.inPlace hk₁) hagain
  have hstart : Mild k (k.setMailbox b { k.mailbox b with
      ring := (k.mailbox b).ring.rewind, epoch := (k.mailbox b).epoch + 1 }) :=
    .of_threads rfl rfl rfl
  exact hstart.trans (hfirst.trans hsecond)

/-! Every call. -/

theorem operation_concludes {c : Operation} (hk : k.Sound) (quantum : 0 < k.config.quantum)
    (htick : c ≠ .tick) (h : c.run k = .ok step) : Concludes k step := by
  have hin := hk.inPlace
  cases c with
  | join t => exact join_concludes hin quantum h
  | yieldTurn =>
      obtain ⟨k', hyield, h⟩ := bind_eq_ok.mp h
      obtain rfl := Except.ok.inj h
      exact .of_settled (yieldTurn_settled hin quantum hyield) (plain_answer _)
  | sleep ticks => exact sleep_concludes hin quantum h
  | sleepUntil deadline => exact sleepUntil_concludes hin quantum h
  | suspend timeout => exact suspend_concludes hin quantum h
  | resume t =>
      obtain ⟨k₁, hresume, h⟩ := bind_eq_ok.mp h
      have heffect : Effect (fun _ => True) k k₁ := resume_effect hin (Or.inl trivial) hresume
      exact finish_concludes hk quantum (.single heffect) h
  | requestTerminate t =>
      obtain rfl := Except.ok.inj h
      exact (calm_mark k t true (k.thread t).entry).concludes (plain_answer _)
  | setPriority p => exact setPriority_concludes hk quantum h
  | tick => exact absurd rfl htick
  | createSemaphore count =>
      obtain ⟨⟨r, k'⟩, hcreate, h⟩ := bind_eq_ok.mp h
      obtain rfl := Except.ok.inj h
      exact (createSemaphore_calm hcreate).concludes (plain_answer _)
  | waitSemaphore s timeout =>
      obtain ⟨w, hwait, h⟩ := bind_eq_ok.mp h
      obtain rfl := Except.ok.inj h
      rcases waitUnit_settles hin quantum (Or.inl rfl) hwait with
        ⟨r, k', rfl, hcalm, -⟩ | ⟨checks, k', rfl, hc, hsettled⟩
      · exact hcalm.concludes (plain_answer _)
      · exact .of_settled hsettled (plain_checks hc rfl)
  | signal s =>
      obtain ⟨k₁, hsignal, h⟩ := bind_eq_ok.mp h
      have heffect : Effect (fun _ => True) k k₁ := signal_effect hk trivial hsignal
      exact finish_concludes hk quantum (.single heffect) h
  | resetSemaphore s count =>
      obtain ⟨k₁, hreset, h⟩ := bind_eq_ok.mp h
      have heffect : Effect (fun _ => True) k k₁ := resetSemaphore_effect hin trivial hreset
      exact finish_concludes hk quantum (.single heffect) h
  | signalAndWait s₁ s₂ => exact signalAndWait_concludes hk quantum h
  | createMutex =>
      obtain rfl := Except.ok.inj h
      exact (createMutex_calm k).concludes (plain_answer _)
  | lock m =>
      obtain ⟨⟨k', frames⟩, hlock, h⟩ := bind_eq_ok.mp h
      obtain rfl := Except.ok.inj h
      exact lock_concludes hin quantum (plain_answer _) hlock
  | tryLock m =>
      obtain ⟨⟨free, k'⟩, hlock, h⟩ := bind_eq_ok.mp h
      obtain rfl := Except.ok.inj h
      exact (tryLock_calm hlock).concludes (plain_answer _)
  | unlock m =>
      obtain ⟨k₁, hrelease, h⟩ := bind_eq_ok.mp h
      have heffect : Effect (fun _ => True) k k₁ := release_effect hin trivial hrelease
      exact finish_concludes hk quantum (.single heffect) h
  | unlockAll =>
      obtain ⟨k₁, hrelease, h⟩ := bind_eq_ok.mp h
      have heffects : Relation.ReflTransGen (Effect fun _ => True) k k₁ :=
        releaseUpTo_effects hin (fun _ => trivial) hrelease
      exact finish_concludes hk quantum heffects h
  | createCondVar =>
      obtain rfl := Except.ok.inj h
      exact (createCondVar_calm k).concludes (plain_answer _)
  | waitCondition c m timeout => exact waitCondition_concludes hk quantum h
  | signalCondition c =>
      obtain ⟨k₁, hsignal, h⟩ := bind_eq_ok.mp h
      have heffects : Relation.ReflTransGen (Effect fun _ => True) k k₁ :=
        signalCondition_effects hin trivial hsignal
      exact finish_concludes hk quantum heffects h
  | broadcast c =>
      obtain ⟨k₁, hbroadcast, h⟩ := bind_eq_ok.mp h
      have heffects : Relation.ReflTransGen (Effect fun _ => True) k k₁ :=
        broadcast_effects hin trivial hbroadcast
      exact finish_concludes hk quantum heffects h
  | createMailbox capacity =>
      obtain ⟨⟨r, k'⟩, hcreate, h⟩ := bind_eq_ok.mp h
      obtain rfl := Except.ok.inj h
      exact (createMailbox_calm hcreate).concludes (plain_answer _)
  | post b msg ahead timeout => exact post_concludes hk quantum h
  | fetch b timeout => exact fetch_concludes hk quantum h
  | resetMailbox b =>
      obtain ⟨k₁, hreset, h⟩ := bind_eq_ok.mp h
      have heffects : Relation.ReflTransGen (Effect fun _ => True) k k₁ :=
        resetMailbox_effects hk (fun _ _ => trivial) hreset
      exact finish_concludes hk quantum heffects h
  | setTimer delay r =>
      obtain ⟨⟨id, k'⟩, hset, h⟩ := bind_eq_ok.mp h
      obtain rfl := Except.ok.inj h
      exact (setTimer_calm hset).concludes (plain_answer _)
  | resetTimer id =>
      obtain ⟨k', hreset, h⟩ := bind_eq_ok.mp h
      obtain rfl := Except.ok.inj h
      exact (resetTimer_calm hreset).concludes (plain_answer _)

/-- What a thread still had to do when it was given the processor, but for timers. -/
theorem frame_concludes {f : Frame} (hk : k.Sound) (quantum : 0 < k.config.quantum)
    (ended : ∀ t, f = .collect t → (k.thread t).state = .final) (plain : f.handlesTimers = false)
    (h : Execution.frameStep k f = .ok step) : Concludes k step := by
  cases f with
  | start =>
      obtain ⟨k', hexit, h⟩ := bind_eq_ok.mp h
      obtain rfl := Except.ok.inj h
      exact .of_settled (exit_settled hk.inPlace quantum hexit) nofun
  | answer a =>
      obtain rfl := Except.ok.inj h
      exact (Calm.refl k).concludes nofun
  | answerWakeup =>
      obtain rfl := Except.ok.inj h
      exact (Calm.refl k).concludes (plain_answer _)
  | awake =>
      obtain rfl := awake_ok h
      exact (Calm.refl k).concludes nofun
  | collect t =>
      obtain rfl := Except.ok.inj h
      exact collect_concludes hk.inPlace (ended t rfl)
  | locked m =>
      obtain rfl := locked_ok h
      exact (Calm.refl k).concludes nofun
  | relock m => exact relock_concludes hk.inPlace quantum h
  | store b epoch msg ahead => exact storeAfter_concludes hk quantum h
  | fetch b epoch => exact fetchAfter_concludes hk quantum h
  | fire => cases plain
  | preempt =>
      obtain ⟨k', hpreempt, h⟩ := bind_eq_ok.mp h
      obtain rfl := Except.ok.inj h
      exact .of_settled (preempt_settled hk.inPlace quantum hpreempt) nofun
  | callback r entered => cases plain

/-- What may not give way only adds to the ready threads. -/
theorem interrupt_mild {c : InterruptCall} (hk : k.Sound) (hpreempt : c ≠ .preempt)
    (htick : c ≠ .tick) (h : c.run k = .ok step) :
    Mild k step.1 ∧ ∃ a, step.2 = [.answer a] := by
  have hin := hk.inPlace
  cases c with
  | preempt => exact absurd rfl hpreempt
  | tick => exact absurd rfl htick
  | resume t =>
      obtain ⟨k', hresume, h⟩ := bind_eq_ok.mp h
      obtain rfl := Except.ok.inj h
      exact ⟨(resume_ok hin hresume).2.mild, _, rfl⟩
  | signal s =>
      obtain ⟨k', hsignal, h⟩ := bind_eq_ok.mp h
      obtain rfl := Except.ok.inj h
      exact ⟨signal_mild hk hsignal, _, rfl⟩
  | resetSemaphore s count =>
      obtain ⟨k', hreset, h⟩ := bind_eq_ok.mp h
      obtain rfl := Except.ok.inj h
      exact ⟨resetSemaphore_mild hin hreset, _, rfl⟩
  | tryLock m =>
      obtain ⟨⟨free, k'⟩, hlock, h⟩ := bind_eq_ok.mp h
      obtain rfl := Except.ok.inj h
      exact ⟨(tryLock_calm hlock).toMild, _, rfl⟩
  | signalCondition c =>
      obtain ⟨k', hsignal, h⟩ := bind_eq_ok.mp h
      obtain rfl := Except.ok.inj h
      refine ⟨?_, _, rfl⟩
      rcases wakeFirst_ok (q := .condVar c) hin nofun hsignal with ⟨-, rfl⟩ | ⟨t, -, hwakes⟩
      · exact .refl _
      · exact hwakes.mild
  | broadcast c =>
      obtain ⟨k', hbroadcast, h⟩ := bind_eq_ok.mp h
      obtain rfl := Except.ok.inj h
      exact ⟨(wakeAll_ok (q := .condVar c) hin nofun hbroadcast).mild, _, rfl⟩
  | post b msg ahead =>
      obtain ⟨⟨r, k'⟩, hpost, h⟩ := bind_eq_ok.mp h
      obtain rfl := Except.ok.inj h
      exact ⟨postNow_mild hk hpost, _, rfl⟩
  | fetch b =>
      obtain ⟨⟨r, k'⟩, hfetch, h⟩ := bind_eq_ok.mp h
      obtain rfl := Except.ok.inj h
      exact ⟨fetchNow_mild hk hfetch, _, rfl⟩
  | resetMailbox b =>
      obtain ⟨k', hreset, h⟩ := bind_eq_ok.mp h
      obtain rfl := Except.ok.inj h
      exact ⟨resetMailbox_mild hin hreset, _, rfl⟩
  | setTimer delay r =>
      obtain ⟨⟨id, k'⟩, hset, h⟩ := bind_eq_ok.mp h
      obtain rfl := Except.ok.inj h
      exact ⟨(setTimer_calm hset).toMild, _, rfl⟩
  | resetTimer id =>
      obtain ⟨k', hreset, h⟩ := bind_eq_ok.mp h
      obtain rfl := Except.ok.inj h
      exact ⟨(resetTimer_calm hreset).toMild, _, rfl⟩

end Kernel

end RealtimeKernel

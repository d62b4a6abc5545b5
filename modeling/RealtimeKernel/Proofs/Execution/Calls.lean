import RealtimeKernel.Execution.Basic
import RealtimeKernel.Proofs.Kernel.Operations

/-!
Calls and frames as a whole. What each may touch is read off its arguments; the theorems say
that it does no more, and that what it leaves to do concerns the same objects only.
-/
namespace RealtimeKernel

/-- The object was created. -/
def Object.Exists (k : Kernel) : Object → Prop
  | .semaphore s => k.semaphores.contains s = true
  | .mutex m => k.mutexes.contains m = true
  | .condVar c => k.condVars.contains c = true
  | .thread _ => True
  | .mailbox b => k.mailboxes.contains b = true
  | .ownerBase | .suspended _ | .time => True

/-- The object that a thread will need when it goes on. -/
def Frame.Concerns : Frame → Object → Prop
  | .collect t, o => o = .thread t
  | .locked m, o | .relock m, o => o = .mutex m
  | .store b .., o | .fetch b _, o => o = .mailbox b
  | _, _ => False

def InterruptCall.touches (k : Kernel) : InterruptCall → Object → Prop
  | .tick, o => o = .time
  | .resume t, o => o = .suspended t
  -- No timer of an application is in one of these slots.
  | .resetTimer id, o => o = .time ∧ id.slot.val < maxThreads
  | .signal s, o | .resetSemaphore s _, o => o = .semaphore s
  | .tryLock m, o => o = .mutex m
  | .signalCondition c, o | .broadcast c, o => o = .condVar c
  | .post b _ _, o | .fetch b, o | .resetMailbox b, o => k.BoxParts b o
  | _, _ => False

def Operation.touches (k : Kernel) : Operation → Object → Prop
  | .join t, o => o = .thread t
  | .tick, o => o = .time
  | .resume t, o => o = .suspended t
  | .resetTimer id, o => o = .time ∧ id.slot.val < maxThreads
  | .waitSemaphore s _, o | .signal s, o | .resetSemaphore s _, o => o = .semaphore s
  | .signalAndWait s₁ s₂, o => o = .semaphore s₁ ∨ o = .semaphore s₂
  | .lock m, o | .tryLock m, o | .unlock m, o => o = .mutex m
  | .unlockAll, o => ∃ m, o = .mutex m
  | .setPriority _, o => o = .ownerBase ∧ k.running.held ≠ []
  | .waitCondition c m _, o => o = .condVar c ∨ o = .mutex m
  | .signalCondition c, o | .broadcast c, o => o = .condVar c
  | .createMailbox _, o => ∃ b, o = .mailbox b ∧ k.mailboxes.contains b = false
  | .post b _ _ _, o | .fetch b _, o | .resetMailbox b, o => k.BoxParts b o
  | _, _ => False

def Call.touches (k : Kernel) : Call → Object → Prop
  | .boot, _ => False
  | .spawn .., o => ∃ t, o = .thread t ∧ (k.thread t).state = .inactive
  | .exit _, o => o = .thread k.current
  | .operation c, o => c.touches k o

def Frame.touches (k : Kernel) : Frame → Object → Prop
  | .start, o => o = .thread k.current
  | .collect t, o => o = .thread t
  | .relock m, o => o = .mutex m
  | .store b .., o | .fetch b _, o => k.BoxParts b o
  | .fire, o => o = .time
  | _, _ => False

theorem InterruptCall.not_touches_thread {k : Kernel} {c : InterruptCall} {t : ThreadId} :
    ¬ c.touches k (.thread t) := by
  cases c <;> simp [InterruptCall.touches, Kernel.BoxParts]

theorem Operation.touches_thread {k : Kernel} {c : Operation} {t : ThreadId}
    (h : c.touches k (.thread t)) : c = .join t := by
  cases c with
  | join u => rw [Object.thread.inj h]
  | _ => simp [Operation.touches, Kernel.BoxParts] at h

namespace Kernel
variable {k k' k₁ : Kernel} {touched : Object → Prop} {frames : List Frame} {step : Step}
  {t : ThreadId} {b : MailboxId} {state : ThreadState}

/-- What a step does, and that it leaves nothing to do with other objects. -/
structure Works (touched : Object → Prop) (k : Kernel) (step : Step) : Prop where
  does : k.Does touched step.1
  frames : ∀ f ∈ step.2, ∀ o, f.Concerns o → touched o ∧ o.Exists step.1

theorem Works.of_does (h : k.Does touched k') (plain : ∀ f ∈ frames, ∀ o, ¬ f.Concerns o) :
    Works touched k (k', frames) :=
  ⟨h, fun f hf o ho => absurd ho (plain f hf o)⟩

theorem Works.leaves_nothing (h : k.Does touched k') : Works touched k (k', []) := .of_does h nofun

/-- One more thing is left to do, before the others. -/
theorem Works.cons {f : Frame} (h : Works touched k (k', frames))
    (hf : ∀ o, f.Concerns o → touched o ∧ o.Exists k') : Works touched k (k', f :: frames) := by
  refine ⟨h.does, ?_⟩
  intro g hg
  rcases List.mem_cons.mp hg with rfl | hg
  · exact hf
  · exact h.frames g hg

theorem Works.cons_plain {f : Frame} (h : Works touched k (k', frames))
    (plain : ∀ o, ¬ f.Concerns o) : Works touched k (k', f :: frames) :=
  h.cons fun o ho => absurd ho (plain o)

theorem Works.answer {a : Answer} (h : k.Does touched k') : Works touched k (k', [.answer a]) :=
  (leaves_nothing h).cons_plain fun _ => id

/-- A thread that waits with a timeout looks after that first when it goes on. -/
theorem Works.after_checks {checks : List Frame} (h : Works touched k (k', frames))
    (hc : checks = [] ∨ checks = [.awake]) : Works touched k (k', checks ++ frames) := by
  rcases hc with rfl | rfl
  · exact h
  · exact h.cons_plain fun _ => id

theorem Works.after (h : Works touched k₁ step)
    (he : Relation.ReflTransGen (Effect touched) k k₁) : Works touched k step :=
  ⟨h.does.after he, h.frames⟩

/-! Ticks and timers. -/

theorem setTimer_does {delay : Delay} {r : Routine} {e : Except KernelError TimerId}
    (h : k.setTimer delay r = .ok (e, k')) : Does touched k k' := by
  rcases setTimer_ok h with ⟨-, -, rfl⟩ | ⟨slot, timers, -, hslot, harm, rfl⟩
  · exact .refl _
  · have htimeless : Timeless k k.clock timers := by
      refine ⟨rfl, fun t => ?_, fun hq => ?_⟩
      · rw [TimerQueue.generation_arm harm, if_neg (timeoutSlot_ne hslot t)]
      obtain ⟨hq', -, hsame⟩ := hq.arm harm
      exact ⟨hq', fun t => hsame _ (timeoutSlot_ne hslot t)⟩
    refine .of_effect (.timers k.clock timers ?_ (Or.inr htimeless))
    intro s a ha
    rw [TimerQueue.action_arm harm] at ha
    split at ha
    · rename_i hs
      exact Or.inr ⟨r, (Option.some.inj ha).symm, hs ▸ hslot⟩
    · exact Or.inl ha

theorem resetTimer_does {id : TimerId} (ht : id.slot.val < maxThreads → touched .time)
    (h : k.resetTimer id = .ok k') : Does touched k k' := by
  obtain ⟨-, timers, hdisarm, rfl⟩ := resetTimer_ok h
  have htime : touched .time ∨ Timeless k k.clock timers := by
    rcases Nat.lt_or_ge id.slot.val maxThreads with hslot | hslot
    · exact Or.inl (ht hslot)
    · refine Or.inr ⟨rfl, fun t => TimerQueue.generation_disarm hdisarm _, fun hq => ?_⟩
      obtain ⟨hq', hsame⟩ := hq.disarm hdisarm
      exact ⟨hq', fun t => hsame _ (timeoutSlot_ne hslot t)⟩
  refine .of_effect (.timers k.clock timers ?_ htime)
  intro s a ha
  rw [TimerQueue.action_disarm hdisarm] at ha
  split at ha
  · cases ha
  · exact Or.inl ha

theorem beginTick_does (ht : touched .time) (h : k.beginTick = .ok k') : Does touched k k' := by
  obtain ⟨clock, timers, -, hadvance, rfl⟩ := beginTick_ok h
  have hcharge : Effect touched k { k with quantumLeft := k.quantumLeft - 1 } :=
    .quiet (k.quantumLeft - 1) k.journal (Nat.sub_le _ _)
  refine (Does.of_effect ?_).after_effect hcharge
  refine .timers clock timers ?_ (Or.inl ht)
  intro s a ha
  rw [TimerQueue.action_advance hadvance] at ha
  exact Or.inl ha

theorem fire_works (hk : k.InPlace) (ht : touched .time) (h : k.fire = .ok step) :
    Works touched k step := by
  obtain ⟨timers, ⟨hpop, rfl⟩ | ⟨t, k', hpop, htimeOut, rfl⟩ | ⟨e, hpop, rfl⟩⟩ := fire_ok h
  · exact .leaves_nothing (.of_effect (popExpired_effect ht hpop))
  · have htimed := hk.isTimed_of_popExpired hpop
    have hk₁ : ({ k with timers } : Kernel).InPlace := hk.congr rfl rfl (armed_of_popExpired hpop)
    have heffect : Effect touched _ k' := timeOut_effect hk₁ ht htimed htimeOut
    have hdoes := (Does.of_effect heffect).after_effect (popExpired_effect ht hpop)
    exact (Works.leaves_nothing hdoes).cons_plain fun _ => id
  · have hdoes : Does touched k _ := .of_effect (popExpired_effect ht hpop)
    exact ((Works.leaves_nothing hdoes).cons_plain fun _ => id).cons_plain fun _ => id

/-! Mailboxes. -/

theorem postNow_does (hk : k.Sound) (ht : ∀ o, k.BoxParts b o → touched o) {msg : Msg}
    {ahead : Bool} {e : Except WaitError Unit} (h : k.postNow b msg ahead = .ok (e, k')) :
    Does touched k k' := by
  have hbox := ht (.mailbox b) (Or.inl rfl)
  have hempty := ht (.semaphore (k.mailbox b).empty) (Or.inr (Or.inl rfl))
  have hfull := ht (.semaphore (k.mailbox b).full) (Or.inr (Or.inr rfl))
  rcases postNow_ok h with ⟨-, -, rfl⟩ | ⟨k₁, -, htake, hsignal⟩
  · exact .refl _
  · have htake := takeUnit_effect hempty htake
    have hput : Effect touched k₁ (k₁.putMessage b msg ahead) := putMessage_effect hbox msg ahead
    have hsignal := signal_effect (hput.sound (htake.sound hk)) hfull hsignal
    exact ((Does.of_effect hsignal).after_effect hput).after_effect htake

theorem fetchNow_does (hk : k.Sound) (ht : ∀ o, k.BoxParts b o → touched o)
    {e : Except WaitError Msg} (h : k.fetchNow b = .ok (e, k')) : Does touched k k' := by
  have hbox := ht (.mailbox b) (Or.inl rfl)
  have hempty := ht (.semaphore (k.mailbox b).empty) (Or.inr (Or.inl rfl))
  have hfull := ht (.semaphore (k.mailbox b).full) (Or.inr (Or.inr rfl))
  rcases fetchNow_ok h with ⟨-, -, rfl⟩ | ⟨k₁, -, htake, hsignal⟩
  · exact .refl _
  · have htake := takeUnit_effect hfull htake
    have hfetch : Effect touched k₁ (k₁.takeMessage b).2 := takeMessage_effect hbox
    have hsignal := signal_effect (hfetch.sound (htake.sound hk)) hempty hsignal
    exact ((Does.of_effect hsignal).after_effect hfetch).after_effect htake

theorem resetMailbox_effects (hk : k.Sound) (ht : ∀ o, k.BoxParts b o → touched o)
    (h : k.resetMailbox b = .ok k') : Relation.ReflTransGen (Effect touched) k k' := by
  have hbox := ht (.mailbox b) (Or.inl rfl)
  have hempty := ht (.semaphore (k.mailbox b).empty) (Or.inr (Or.inl rfl))
  have hfull := ht (.semaphore (k.mailbox b).full) (Or.inr (Or.inr rfl))
  obtain ⟨_, k₁, rfl, hreset, hagain⟩ := resetMailbox_ok h
  have hwrite : Effect touched k (k.setMailbox b
      { k.mailbox b with
        ring := (k.mailbox b).ring.rewind, epoch := (k.mailbox b).epoch + 1 }) := .write _ _ hbox
  have hk₁ := hwrite.sound hk
  have hreset := resetSemaphore_effect hk₁.inPlace hempty hreset
  have hk₂ := hreset.sound hk₁
  have hagain := resetSemaphore_effect hk₂.inPlace hfull hagain
  exact ((Relation.ReflTransGen.single hwrite).tail hreset).tail hagain

/-- What a thread does that won a unit, or did not. -/
theorem storeAfter_works (hk : k.Sound) (ht : ∀ o, k.BoxParts b o → touched o)
    {epoch : UInt32} {msg : Msg} {ahead : Bool} {r : WakeupResult}
    (h : storeAfter b epoch msg ahead r k = .ok step) : Works touched k step := by
  rcases storeAfter_ok h with ⟨e, -, rfl⟩ | ⟨k₁, k', -, hsignal, hpreempt, rfl⟩
  · exact .answer (.refl k)
  · have hput : Effect touched k (k.putMessage b msg ahead) :=
      putMessage_effect (ht _ (Or.inl rfl)) msg ahead
    have hk₁ := hput.sound hk
    have hsignal := signal_effect hk₁ (ht _ (Or.inr (Or.inr rfl))) hsignal
    have hk₂ := hsignal.sound hk₁
    exact .answer (((preempt_does hk₂.inPlace hpreempt).after_effect hsignal).after_effect hput)

theorem fetchAfter_works (hk : k.Sound) (ht : ∀ o, k.BoxParts b o → touched o)
    {epoch : UInt32} {r : WakeupResult} (h : fetchAfter b epoch r k = .ok step) :
    Works touched k step := by
  rcases fetchAfter_ok h with ⟨e, -, rfl⟩ | ⟨k₁, k', -, hsignal, hpreempt, rfl⟩
  · exact .answer (.refl k)
  · have hfetch : Effect touched k (k.takeMessage b).2 := takeMessage_effect (ht _ (Or.inl rfl))
    have hk₁ := hfetch.sound hk
    have hsignal := signal_effect hk₁ (ht _ (Or.inr (Or.inl rfl))) hsignal
    have hk₂ := hsignal.sound hk₁
    exact .answer (((preempt_does hk₂.inPlace hpreempt).after_effect hsignal).after_effect hfetch)

theorem mem_checks {checks : List Frame} (hc : checks = [] ∨ checks = [.awake]) {f later : Frame}
    (hf : f ∈ checks ++ [later]) : f = .awake ∨ f = later := by
  rcases hc with rfl | rfl
  · exact Or.inr (List.mem_singleton.mp hf)
  · simpa using hf

theorem boxParts_congr (h : k₁.mailboxes = k.mailboxes) (o : Object) :
    k₁.BoxParts b o ↔ k.BoxParts b o := by
  simp only [BoxParts, mailbox, h]

theorem post_works (hk : k.Sound) (hin : k.mailboxes.contains b = true)
    (ht : ∀ o, k.BoxParts b o → touched o) {msg : Msg} {ahead : Bool} {timeout : Timeout}
    (h : k.post b msg ahead timeout = .ok step) : Works touched k step := by
  obtain ⟨w, hwait, h⟩ := post_ok h
  have hempty := ht _ (Or.inr (Or.inl rfl))
  have hcontains := (hk.boxed.created b hin).1
  rcases waitUnit_does hk.inPlace hempty hcontains (Or.inr rfl) hwait with
    ⟨r, k₁, rfl, hsame, heffects⟩ | ⟨checks, k₁, rfl, hc, hswitch⟩
  · have hk₁ := (effects_induction heffects hk (fun _ _ _ _ _ => trivial) trivial).1
    exact (storeAfter_works hk₁ (fun o ho => ht o ((boxParts_congr hsame o).mp ho)) h).after
      heffects
  · obtain rfl := Except.ok.inj h
    have hdoes : Does touched k k₁ := .of_switch hswitch
    refine ((Works.leaves_nothing hdoes).cons ?_).after_checks hc
    rintro _ rfl
    exact ⟨ht _ (Or.inl rfl), (hdoes.grows hk).mailboxes b hin⟩

theorem fetch_works (hk : k.Sound) (hin : k.mailboxes.contains b = true)
    (ht : ∀ o, k.BoxParts b o → touched o) {timeout : Timeout}
    (h : k.fetch b timeout = .ok step) : Works touched k step := by
  obtain ⟨w, hwait, h⟩ := fetch_ok h
  have hfull := ht _ (Or.inr (Or.inr rfl))
  have hcontains := (hk.boxed.created b hin).2.1
  rcases waitUnit_does hk.inPlace hfull hcontains (Or.inr rfl) hwait with
    ⟨r, k₁, rfl, hsame, heffects⟩ | ⟨checks, k₁, rfl, hc, hswitch⟩
  · have hk₁ := (effects_induction heffects hk (fun _ _ _ _ _ => trivial) trivial).1
    exact (fetchAfter_works hk₁ (fun o ho => ht o ((boxParts_congr hsame o).mp ho)) h).after
      heffects
  · obtain rfl := Except.ok.inj h
    have hdoes : Does touched k k₁ := .of_switch hswitch
    refine ((Works.leaves_nothing hdoes).cons ?_).after_checks hc
    rintro _ rfl
    exact ⟨ht _ (Or.inl rfl), (hdoes.grows hk).mailboxes b hin⟩

theorem createMailbox_does (hk : k.Sound)
    (ht : ∀ b, k.mailboxes.contains b = false → touched (.mailbox b)) {capacity : Nat}
    {e : Except KernelError MailboxId} (h : k.createMailbox capacity = .ok (e, k')) :
    Does touched k k' := by
  rcases createMailbox_ok h with ⟨-, -, heffects⟩ |
    ⟨b, empty, full, pool₁, pool₂, pool, hpos, -, hsize, hpush₁, hpush₂, hpush, rfl⟩
  · exact .of_effects heffects
  · have heffect₁ : Effect touched k { k with semaphores := pool₁ } := .newSemaphore hpush₁
    have heffect₂ : Effect touched { k with semaphores := pool₁ }
        { k with semaphores := pool₂ } := .newSemaphore hpush₂
    have hnew₁ := Pool.not_contains_of_push hpush₁
    have hnew₂ : pool₁.contains full = false := Pool.not_contains_of_push hpush₂
    have hold : ∀ s, k.semaphores.contains s = true → s ≠ empty ∧ s ≠ full := by
      intro s hs
      constructor
      · rintro rfl
        rw [hs] at hnew₁
        cases hnew₁
      · rintro rfl
        rw [(Pool.contains_push hpush₁).mpr (Or.inr hs)] at hnew₂
        cases hnew₂
    have hempty : pool₁.contains empty = true := (Pool.contains_push hpush₁).mpr (Or.inl rfl)
    have hbox : Effect touched { k with semaphores := pool₂ }
        { k with semaphores := pool₂, mailboxes := pool } := by
      refine .newMailbox hpush (ht b (Pool.not_contains_of_push hpush)) ?_ ?_ ?_ ?_ hsize
      · exact (Pool.contains_push hpush₂).mpr (Or.inr hempty)
      · exact (Pool.contains_push hpush₂).mpr (Or.inl rfl)
      · intro he
        change empty = full at he
        rw [← he, hempty] at hnew₂
        cases hnew₂
      · intro b' hb'
        obtain ⟨he, hf, -⟩ := hk.boxed.created b' hb'
        exact ⟨hold _ he, hold _ hf⟩
    exact .of_effects ((((Relation.ReflTransGen.single heffect₁).tail heffect₂).tail hbox).tail
      (note_effect _ _))

/-! Threads. -/

theorem join_works (hk : k.InPlace) (ht : touched (.thread t)) (h : k.join t = .ok step) :
    Works touched k step := by
  rcases join_ok hk h with ⟨hfinal, rfl⟩ | ⟨hcollect, hawaits⟩
  · exact .answer (.of_effect (.vacate ht hfinal))
  · refine ⟨.of_switch (hawaits.switch ht), ?_⟩
    intro f hf o ho
    rw [hcollect] at hf
    rw [List.mem_singleton.mp hf] at ho
    rw [show o = .thread t from ho]
    exact ⟨ht, trivial⟩

theorem exit_does (hk : k.InPlace) (ht : touched (.thread k.current)) {msg : Msg}
    (h : k.exit msg = .ok k') : Does touched k k' := by
  obtain ⟨hheld, record, k₁, next, hrouses, hdispatch⟩ := exit_ok hk h
  have hswitch : Switch touched (k.note record) k' := .exit ht hheld hrouses hdispatch
  exact (Does.of_switch hswitch).after_effect (note_effect k record)

theorem setPriority_works (hk : k.InPlace) (ht : k.running.held ≠ [] → touched .ownerBase)
    {p : Priority} (h : k.setPriority p = .ok step) : Works touched k step := by
  unfold setPriority at h
  split at h
  · cases h
  · dsimp only at h
    obtain ⟨k₁, hpreempt, h⟩ := bind_eq_ok.mp h
    obtain rfl := Except.ok.inj h
    have hset : Effect touched k _ := .setBase p ht
    exact .answer ((preempt_does (hset.inPlace hk) hpreempt).after_effect hset)

/-- Sleeping and being suspended take no queue. -/
theorem blockFor_does {delay : Delay} (hk : k.InPlace)
    (hs : state = .sleeping ∨ state = .suspended) (h : k.blockFor state delay = .ok k') :
    Does touched k k' := by
  refine .of_switch (.park hs (blockFor_ok hk.toLinked hk.stays rfl ?_ ?_ ?_ h))
  all_goals rcases hs with rfl | rfl <;> rfl

theorem suspend_works {timeout : Timeout} (hk : k.InPlace) (h : k.suspend timeout = .ok step) :
    Works touched k step := by
  rcases suspend_ok hk h with ⟨-, rfl⟩ | ⟨checks, k', hc, rfl, hblocks⟩
  · exact .answer (.refl k)
  · have hdoes : Does touched k k' := .of_switch (.park (Or.inr rfl) hblocks)
    exact ((Works.leaves_nothing hdoes).cons_plain fun _ => id).after_checks hc

theorem blockFor_works {delay : Delay} (hk : k.InPlace) (h : k.blockFor .sleeping delay = .ok k') :
    Works touched k (k', [.awake, .answer .unit]) :=
  (Works.answer (blockFor_does hk (Or.inl rfl) h)).cons_plain fun _ => id

theorem sleep_works {ticks : Ticks} (hk : k.InPlace) (h : k.sleep ticks = .ok step) :
    Works touched k step := by
  rcases sleep_ok h with ⟨delay, k', -, hblock, rfl⟩ | ⟨k', -, hyield, rfl⟩
  · exact blockFor_works hk hblock
  · exact .answer (yieldTurn_does hk hyield)

theorem sleepUntil_works {deadline : Ticks} (hk : k.InPlace)
    (h : k.sleepUntil deadline = .ok step) : Works touched k step := by
  rcases sleepUntil_ok h with ⟨delay, k', -, hblock, rfl⟩ | ⟨-, rfl⟩
  · exact blockFor_works hk hblock
  · exact .answer (.refl k)

theorem signalAndWait_works {s₁ s₂ : SemaphoreId} (hk : k.Sound) (ht₁ : touched (.semaphore s₁))
    (ht₂ : touched (.semaphore s₂)) (hin : k.semaphores.contains s₂ = true)
    (h : k.signalAndWait s₁ s₂ = .ok step) : Works touched k step := by
  obtain ⟨k₁, k', hsignal, ⟨hpos, rfl, hpreempt⟩ | ⟨hcount, rfl, hblocks⟩⟩ := signalAndWait_ok hk h
  all_goals
    have hsignal : Effect touched k k₁ := signal_effect hk ht₁ hsignal
    have hk₁ := hsignal.sound hk
  · have hcount : 0 ≤ k₁.semaphoreCount s₂ - 1 := by omega
    have hrecount : Effect touched k₁ _ := .recount ht₂ hpos.le hcount
    have hdoes : Does touched _ k' := preempt_does (hrecount.inPlace hk₁.inPlace) hpreempt
    exact .answer ((hdoes.after_effect hrecount).after_effect hsignal)
  · have hswitch : Switch touched k₁ k' :=
      .awaitUnit ht₂ (hsignal.grows.semaphores s₂ hin) hcount (Or.inl rfl) hblocks
    have hdoes := (Does.of_switch hswitch).after_effect hsignal
    exact (Works.leaves_nothing hdoes).cons_plain fun _ => id

theorem createMutex_does (k : Kernel) : Does touched k k.createMutex.2 := by
  unfold createMutex
  split
  · rename_i m pool hpush
    exact (Does.of_effect (note_effect _ _)).after_effect (.newMutex hpush)
  · exact .refl k

theorem createCondVar_does (k : Kernel) : Does touched k k.createCondVar.2 := by
  unfold createCondVar
  split
  · rename_i c pool hpush
    exact (Does.of_effect (note_effect _ _)).after_effect (.newCondVar hpush)
  · exact .refl k

theorem lock_works {m : MutexId} {rest : List Frame} (hk : k.Sound) (ht : touched (.mutex m))
    (hin : k.mutexes.contains m = true) (plain : ∀ f ∈ rest, ∀ o, ¬ f.Concerns o)
    (h : k.lock m = .ok (k', frames)) : Works touched k (k', frames ++ rest) := by
  have hlock : (frames = [] ∨ frames = [.locked m]) ∧ Does touched k k' := by
    rcases lock_ok hk.inPlace ht hin h with ⟨rfl, heffect⟩ | ⟨rfl, hswitch⟩
    · exact ⟨Or.inl rfl, .of_effect heffect⟩
    · exact ⟨Or.inr rfl, .of_switch hswitch⟩
  obtain ⟨hframes, hdoes⟩ := hlock
  refine ⟨hdoes, ?_⟩
  intro f hf o ho
  rcases List.mem_append.mp hf with hf | hf
  · rcases hframes with rfl | rfl
    · cases hf
    · rw [List.mem_singleton.mp hf] at ho
      rw [show o = .mutex m from ho]
      exact ⟨ht, (hdoes.grows hk).mutexes m hin⟩
  · exact absurd ho (plain f hf o)

theorem relock_works {m : MutexId} {r : WakeupResult} (hk : k.Sound) (ht : touched (.mutex m))
    (hin : k.mutexes.contains m = true) (h : k.relock m r = .ok step) : Works touched k step := by
  obtain ⟨⟨k', frames⟩, hlock, h⟩ := bind_eq_ok.mp h
  obtain rfl := Except.ok.inj h
  refine lock_works hk ht hin ?_ hlock
  intro f hf o
  rw [List.mem_singleton.mp hf]
  exact id

theorem waitCondition_works {c : CondVarId} {m : MutexId} {timeout : Timeout} (hk : k.Sound)
    (htc : touched (.condVar c)) (htm : touched (.mutex m)) (hin : k.mutexes.contains m = true)
    (h : k.waitCondition c m timeout = .ok step) : Works touched k step := by
  rcases waitCondition_ok hk.inPlace h with
    ⟨-, rfl⟩ | ⟨k₁, checks, k', -, hrelease, hc, rfl, hblocks⟩
  · exact .answer (.refl k)
  · have hrelease : Effect touched k k₁ := release_effect hk.inPlace htm hrelease
    have hswitch : Switch touched k₁ k' := .awaitCondition htc hblocks
    have hdoes := (Does.of_switch hswitch).after_effect hrelease
    refine ((Works.leaves_nothing hdoes).cons ?_).after_checks hc
    rintro _ rfl
    exact ⟨htm, (hdoes.grows hk).mutexes m hin⟩

/-! Every call. -/

theorem interrupt_works {c : InterruptCall} (hk : k.Sound)
    (hin : c.handlesExist k = true) (h : c.run k = .ok step) : Works (c.touches k) k step := by
  cases c with
  | preempt =>
      obtain ⟨k', hpreempt, h⟩ := bind_eq_ok.mp h
      obtain rfl := Except.ok.inj h
      exact .answer (preempt_does hk.inPlace hpreempt)
  | tick =>
      obtain ⟨k', htick, h⟩ := bind_eq_ok.mp h
      obtain rfl := Except.ok.inj h
      have hanswer : Works (InterruptCall.touches k .tick) k (k', [.answer .unit]) :=
        .answer (beginTick_does rfl htick)
      exact hanswer.cons_plain fun _ => id
  | resume t =>
      obtain ⟨k', hresume, h⟩ := bind_eq_ok.mp h
      obtain rfl := Except.ok.inj h
      exact .answer (.of_effect (resume_effect hk.inPlace (Or.inl rfl) hresume))
  | signal s =>
      obtain ⟨k', hsignal, h⟩ := bind_eq_ok.mp h
      obtain rfl := Except.ok.inj h
      exact .answer (.of_effect (signal_effect hk rfl hsignal))
  | resetSemaphore s count =>
      obtain ⟨k', hreset, h⟩ := bind_eq_ok.mp h
      obtain rfl := Except.ok.inj h
      exact .answer (.of_effect (resetSemaphore_effect hk.inPlace rfl hreset))
  | tryLock m =>
      obtain ⟨⟨locked, k'⟩, hlock, h⟩ := bind_eq_ok.mp h
      obtain rfl := Except.ok.inj h
      exact .answer (tryLock_does rfl hin hlock)
  | signalCondition c =>
      obtain ⟨k', hsignal, h⟩ := bind_eq_ok.mp h
      obtain rfl := Except.ok.inj h
      exact .answer (.of_effects (signalCondition_effects hk.inPlace rfl hsignal))
  | broadcast c =>
      obtain ⟨k', hbroadcast, h⟩ := bind_eq_ok.mp h
      obtain rfl := Except.ok.inj h
      exact .answer (.of_effects (broadcast_effects hk.inPlace rfl hbroadcast))
  | post b msg ahead =>
      obtain ⟨⟨r, k'⟩, hpost, h⟩ := bind_eq_ok.mp h
      obtain rfl := Except.ok.inj h
      exact .answer (postNow_does hk (fun _ => id) hpost)
  | fetch b =>
      obtain ⟨⟨r, k'⟩, hfetch, h⟩ := bind_eq_ok.mp h
      obtain rfl := Except.ok.inj h
      exact .answer (fetchNow_does hk (fun _ => id) hfetch)
  | resetMailbox b =>
      obtain ⟨k', hreset, h⟩ := bind_eq_ok.mp h
      obtain rfl := Except.ok.inj h
      exact .answer (.of_effects (resetMailbox_effects hk (fun _ => id) hreset))
  | setTimer delay r =>
      obtain ⟨⟨id, k'⟩, hset, h⟩ := bind_eq_ok.mp h
      obtain rfl := Except.ok.inj h
      exact .answer (setTimer_does hset)
  | resetTimer id =>
      obtain ⟨k', hreset, h⟩ := bind_eq_ok.mp h
      obtain rfl := Except.ok.inj h
      exact .answer (resetTimer_does (fun hslot => ⟨rfl, hslot⟩) hreset)

theorem finish_works (hk : k.Sound) (h : Operation.finish k₁ = .ok step)
    (heffects : Relation.ReflTransGen (Effect touched) k k₁) : Works touched k step := by
  obtain ⟨k', hpreempt, h⟩ := bind_eq_ok.mp h
  obtain rfl := Except.ok.inj h
  have hk₁ := (Does.of_effects heffects).sound hk
  exact .answer ((preempt_does hk₁.inPlace hpreempt).after heffects)

theorem operation_works {c : Operation} (hk : k.Sound) (hin : c.handlesExist k = true)
    (h : c.run k = .ok step) : Works (c.touches k) k step := by
  cases c with
  | join t => exact join_works hk.inPlace rfl h
  | yieldTurn =>
      obtain ⟨k', hyield, h⟩ := bind_eq_ok.mp h
      obtain rfl := Except.ok.inj h
      exact .answer (yieldTurn_does hk.inPlace hyield)
  | sleep ticks => exact sleep_works hk.inPlace h
  | sleepUntil deadline => exact sleepUntil_works hk.inPlace h
  | suspend timeout => exact suspend_works hk.inPlace h
  | resume t =>
      obtain ⟨k₁, hresume, h⟩ := bind_eq_ok.mp h
      exact finish_works hk h (.single (resume_effect hk.inPlace (Or.inl rfl) hresume))
  | requestTerminate t =>
      obtain rfl := Except.ok.inj h
      exact .answer (.of_effect (.mark t true (k.thread t).entry (Or.inl rfl)))
  | setPriority p => exact setPriority_works hk.inPlace (fun hheld => ⟨rfl, hheld⟩) h
  | tick =>
      obtain ⟨k', htick, h⟩ := bind_eq_ok.mp h
      obtain rfl := Except.ok.inj h
      have hanswer : Works (Operation.touches k .tick) k (k', [.answer .unit]) :=
        .answer (beginTick_does rfl htick)
      exact (hanswer.cons_plain (f := .preempt) fun _ => id).cons_plain fun _ => id
  | createSemaphore count =>
      obtain ⟨⟨r, k'⟩, hcreate, h⟩ := bind_eq_ok.mp h
      obtain rfl := Except.ok.inj h
      exact .answer (createSemaphore_does hcreate)
  | waitSemaphore s timeout =>
      obtain ⟨w, hwait, h⟩ := bind_eq_ok.mp h
      obtain rfl := Except.ok.inj h
      have ht : Operation.touches k (.waitSemaphore s timeout) (.semaphore s) := rfl
      rcases waitUnit_does hk.inPlace ht hin (Or.inl rfl) hwait with
        ⟨r, k₁, rfl, -, heffects⟩ | ⟨checks, k₁, rfl, hc, hswitch⟩
      · exact .answer (.of_effects heffects)
      · have hdoes := Does.of_switch hswitch
        exact ((Works.leaves_nothing hdoes).cons_plain fun _ => id).after_checks hc
  | signal s =>
      obtain ⟨k₁, hsignal, h⟩ := bind_eq_ok.mp h
      exact finish_works hk h (.single (signal_effect hk rfl hsignal))
  | resetSemaphore s count =>
      obtain ⟨k₁, hreset, h⟩ := bind_eq_ok.mp h
      exact finish_works hk h (.single (resetSemaphore_effect hk.inPlace rfl hreset))
  | signalAndWait s₁ s₂ =>
      have hin₂ := (Bool.and_eq_true_iff.mp hin).2
      exact signalAndWait_works hk (Or.inl rfl) (Or.inr rfl) hin₂ h
  | createMutex =>
      obtain rfl := Except.ok.inj h
      exact .answer (createMutex_does k)
  | lock m =>
      obtain ⟨⟨k', frames⟩, hlock, h⟩ := bind_eq_ok.mp h
      obtain rfl := Except.ok.inj h
      refine lock_works hk rfl hin ?_ hlock
      intro f hf o
      rw [List.mem_singleton.mp hf]
      exact id
  | tryLock m => exact interrupt_works (c := .tryLock m) hk hin h
  | unlock m =>
      obtain ⟨k₁, hrelease, h⟩ := bind_eq_ok.mp h
      exact finish_works hk h (.single (release_effect hk.inPlace rfl hrelease))
  | unlockAll =>
      obtain ⟨k₁, hrelease, h⟩ := bind_eq_ok.mp h
      exact finish_works hk h (releaseUpTo_effects hk.inPlace (fun m => ⟨m, rfl⟩) hrelease)
  | createCondVar =>
      obtain rfl := Except.ok.inj h
      exact .answer (createCondVar_does k)
  | waitCondition c m timeout =>
      have hin := (Bool.and_eq_true_iff.mp hin).2
      exact waitCondition_works hk (Or.inl rfl) (Or.inr rfl) hin h
  | signalCondition c =>
      obtain ⟨k₁, hsignal, h⟩ := bind_eq_ok.mp h
      exact finish_works hk h (signalCondition_effects hk.inPlace rfl hsignal)
  | broadcast c =>
      obtain ⟨k₁, hbroadcast, h⟩ := bind_eq_ok.mp h
      exact finish_works hk h (broadcast_effects hk.inPlace rfl hbroadcast)
  | createMailbox capacity =>
      obtain ⟨⟨r, k'⟩, hcreate, h⟩ := bind_eq_ok.mp h
      obtain rfl := Except.ok.inj h
      exact .answer (createMailbox_does hk (fun b hb => ⟨b, rfl, hb⟩) hcreate)
  | post b msg ahead timeout => exact post_works hk hin (fun _ => id) h
  | fetch b timeout => exact fetch_works hk hin (fun _ => id) h
  | resetMailbox b =>
      obtain ⟨k₁, hreset, h⟩ := bind_eq_ok.mp h
      exact finish_works hk h (resetMailbox_effects hk (fun _ => id) hreset)
  | setTimer delay r => exact interrupt_works (c := .setTimer delay r) hk hin h
  | resetTimer id => exact interrupt_works (c := .resetTimer id) hk hin h

theorem awake_ok (h : Execution.frameStep k .awake = .ok step) : step = (k, []) := by
  unfold Execution.frameStep at h
  dsimp only at h
  split at h
  · cases h
  · exact (Except.ok.inj h).symm

theorem locked_ok {m : MutexId} (h : Execution.frameStep k (.locked m) = .ok step) :
    step = (k, []) := by
  unfold Execution.frameStep at h
  dsimp only at h
  split at h
  · exact (Except.ok.inj h).symm
  · cases h

/-- A frame of the running thread, whose object exists. The thread that it collects has ended. -/
theorem frame_works {f : Frame} (hk : k.Sound) (hin : ∀ o, f.Concerns o → o.Exists k)
    (ended : ∀ t, f = .collect t → (k.thread t).state = .final)
    (h : Execution.frameStep k f = .ok step) : Works (f.touches k) k step := by
  cases f with
  | start =>
      obtain ⟨k', hexit, h⟩ := bind_eq_ok.mp h
      obtain rfl := Except.ok.inj h
      exact .leaves_nothing (exit_does hk.inPlace rfl hexit)
  | answer a =>
      obtain rfl := Except.ok.inj h
      exact .leaves_nothing (.refl k)
  | answerWakeup =>
      obtain rfl := Except.ok.inj h
      exact .answer (.refl k)
  | awake =>
      obtain rfl := awake_ok h
      exact .leaves_nothing (.refl k)
  | collect t =>
      obtain rfl := Except.ok.inj h
      exact .answer (.of_effect (.vacate rfl (ended t rfl)))
  | locked m =>
      obtain rfl := locked_ok h
      exact .leaves_nothing (.refl k)
  | relock m => exact relock_works hk rfl (hin (.mutex m) rfl) h
  | store b epoch msg ahead => exact storeAfter_works hk (fun _ => id) h
  | fetch b epoch => exact fetchAfter_works hk (fun _ => id) h
  | fire =>
      exact fire_works hk.inPlace rfl h
  | preempt =>
      obtain ⟨k', hpreempt, h⟩ := bind_eq_ok.mp h
      obtain rfl := Except.ok.inj h
      exact .leaves_nothing (preempt_does hk.inPlace hpreempt)
  | callback r entered =>
      obtain rfl := Except.ok.inj h
      exact .leaves_nothing (.refl k)

end Kernel

end RealtimeKernel

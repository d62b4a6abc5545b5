import RealtimeKernel.Proofs.Kernel.Tallies

/-!
Waits that a timeout may end. An operation wakes some of the threads that wait, each with a
result; the others wait on, in the same place and with as many ticks left. No operation but the
tick takes one from those, and none but the handling of due timers ends a wait for its time.
-/
namespace RealtimeKernel.Kernel

variable {k k' k₁ : Kernel} {touched : Object → Prop} {t u o next : ThreadId} {r : WakeupResult}
  {l : List ThreadId} {q : QueueId} {p : Option QueueId} {state : ThreadState} {ahead : Bool}

/-! The clock, and the ticks left. -/

theorem Moves.clock {th : Thread} (h : Moves ahead t th k k') : k'.clock = k.clock := by
  rw [h.frame]

/-- The clock stands still, and who waits had as many ticks left before, of the same wait. -/
structure KeepsTime (k k' : Kernel) : Prop where
  clock : k'.clock = k.clock
  sound : k'.timers.Sound
  generation : ∀ u, u ≠ k.current →
    k'.timers.generation (timeoutSlot u) = k.timers.generation (timeoutSlot u)
  remaining : ∀ u, u ≠ k.current → (k'.thread u).state.isTimed = true →
    k'.timers.remaining (timeoutSlot u) = k.timers.remaining (timeoutSlot u)

theorem KeepsTime.of_same (hq : k.timers.Sound) (clock : k'.clock = k.clock)
    (timers : k'.timers = k.timers) : KeepsTime k k' :=
  ⟨clock, timers ▸ hq, fun u _ => by rw [timers], fun u _ _ => by rw [timers]⟩

theorem KeepsTime.trans (h : KeepsTime k k₁) (h' : KeepsTime k₁ k')
    (hcurrent : k₁.current = k.current)
    (timed : ∀ u, u ≠ k.current → (k'.thread u).state.isTimed = true →
      (k₁.thread u).state.isTimed = true) : KeepsTime k k' := by
  refine ⟨h'.clock.trans h.clock, h'.sound, fun u hu => ?_, fun u hu htimed => ?_⟩
  · rw [h'.generation u (by rwa [hcurrent]), h.generation u hu]
  · rw [h'.remaining u (by rwa [hcurrent]) htimed, h.remaining u hu (timed u hu htimed)]

theorem Wakes.keepsTime (h : Wakes t r k k') (hq : k.timers.Sound) : KeepsTime k k' := by
  obtain ⟨hq', hsame⟩ := hq.cancel h.timers
  refine ⟨h.moves.clock, hq', fun u _ => TimerQueue.generation_cancel h.timers _,
    fun u _ htimed => hsame _ ?_⟩
  intro he
  rw [timeoutSlot_injective he, h.moves.thread_self] at htimed
  cases htimed

theorem Rouses.thread_of_timed (h : Rouses r l k k') (htimed : (k'.thread u).state.isTimed = true) :
    k'.thread u = k.thread u := by
  induction h with
  | nil => rfl
  | @cons t l k k₁ k' hw _ ih =>
      have hsame := ih htimed
      rw [hsame] at htimed ⊢
      refine hw.moves.thread_of_ne ?_
      rintro rfl
      rw [hw.moves.thread_self] at htimed
      cases htimed

theorem Rouses.keepsTime (h : Rouses r l k k') (hq : k.timers.Sound) : KeepsTime k k' := by
  induction h with
  | nil => exact .of_same hq rfl rfl
  | cons hw hrest ih =>
      have hfirst := hw.keepsTime hq
      refine hfirst.trans (ih hfirst.sound) hw.moves.current fun u _ htimed => ?_
      rw [← hrest.thread_of_timed htimed]
      exact htimed

theorem Lends.keepsTime (h : Lends k o k') (hq : k.timers.Sound) : KeepsTime k k' := by
  have hsame : k'.clock = k.clock ∧ k'.timers = k.timers := by
    induction h with
    | enough _ => exact ⟨rfl, rfl⟩
    | last _ hb _ => exact ⟨hb.2.clock, hb.1⟩
    | on _ hb _ _ _ ih =>
        obtain ⟨hclock, htimers⟩ := ih (hb.1 ▸ hq)
        exact ⟨hclock.trans hb.2.clock, htimers.trans hb.1⟩
  exact .of_same hq hsame.1 hsame.2

theorem Dispatches.keepsTime (h : Dispatches next k k') (hq : k.timers.Sound) : KeepsTime k k' :=
  .of_same hq h.moves.clock h.timers

theorem Dispatches.timed (h : Dispatches next k k') (htimed : (k'.thread u).state.isTimed = true) :
    (k.thread u).state.isTimed = true := by
  rw [h.thread] at htimed
  split at htimed
  · cases htimed
  · exact htimed

theorem Blocks.keepsTime (h : Blocks state p k k') (hq : k.timers.Sound) : KeepsTime k k' := by
  obtain ⟨-, k₁, next, hpark, hdispatch⟩ := h
  have hfirst : KeepsTime k k₁ := by
    rcases hpark.timers with hsame | ⟨-, delay, harm⟩
    · exact .of_same hq hpark.moves.clock hsame
    · obtain ⟨hq', -, hsame⟩ := hq.arm harm
      have hne : ∀ u, u ≠ k.current → timeoutSlot u ≠ timeoutSlot k.current :=
        fun u hu he => hu (timeoutSlot_injective he)
      refine ⟨hpark.moves.clock, hq', fun u hu => ?_, fun u hu _ => hsame _ (hne u hu)⟩
      rw [TimerQueue.generation_arm harm, if_neg (hne u hu)]
  exact hfirst.trans (hdispatch.keepsTime hfirst.sound) hpark.moves.current
    fun u _ => hdispatch.timed

theorem GivesWay.keepsTime (h : GivesWay ahead k k') (hq : k.timers.Sound) : KeepsTime k k' := by
  obtain ⟨k₁, next, hdispatch, htimers, hmoves⟩ := h
  have hfirst := hdispatch.keepsTime hq
  exact .of_same hq (hmoves.clock.trans hfirst.clock) (htimers.trans hdispatch.timers)

theorem Switch.keepsTime (h : Switch touched k k') (hq : k.timers.Sound) : KeepsTime k k' := by
  cases h with
  | giveWay h => exact h.keepsTime hq
  | park _ h => exact h.keepsTime hq
  | @awaitUnit _ s _ _ _ _ _ h =>
      have hkeeps := h.keepsTime hq
      exact ⟨hkeeps.clock, hkeeps.sound, hkeeps.generation, hkeeps.remaining⟩
  | awaitMutex _ _ _ hlends h =>
      have hfirst := hlends.keepsTime hq
      refine hfirst.trans (h.keepsTime hfirst.sound) hlends.current fun u hu htimed => ?_
      obtain ⟨-, k₂, next, hpark, hdispatch⟩ := h
      have htimed := hdispatch.timed htimed
      rwa [hpark.moves.thread_of_ne (by rwa [hlends.current])] at htimed
  | awaitCondition _ h => exact h.keepsTime hq
  | awaitExit _ _ _ _ _ h => exact h.keepsTime hq
  | @exit k₁ _ msg next _ _ hr hd =>
      have hfirst := hr.keepsTime hq
      have hboth := hfirst.trans (hd.keepsTime hfirst.sound) hr.current fun u _ => hd.timed
      exact ⟨hboth.clock, hboth.sound, hboth.generation, hboth.remaining⟩

theorem Effect.keepsTime (h : Effect touched k k') (hq : k.timers.Sound)
    (ht : ¬ touched .time) : KeepsTime k k' := by
  cases h with
  | timers clock timers _ htime =>
      obtain ⟨hclock, hgeneration, hrem⟩ := htime.resolve_left ht
      obtain ⟨hq', hsame⟩ := hrem hq
      exact ⟨hclock, hq', fun u _ => hgeneration u, fun u _ _ => hsame u⟩
  | resume _ _ hw => exact hw.keepsTime hq
  | timeOut htime => exact absurd htime ht
  | expire htime => exact absurd htime ht
  | @grant _ t s _ _ hw =>
      have hkeeps := hw.keepsTime hq
      exact ⟨hkeeps.clock, hkeeps.sound, hkeeps.generation, hkeeps.remaining⟩
  | @dismiss _ s count _ _ hr =>
      have hkeeps := hr.keepsTime hq
      exact ⟨hkeeps.clock, hkeeps.sound, hkeeps.generation, hkeeps.remaining⟩
  | notify _ _ hw => exact hw.keepsTime hq
  | @handOver _ m next _ _ _ hw =>
      have hkeeps := hw.keepsTime hq
      exact ⟨hkeeps.clock, hkeeps.sound, hkeeps.generation, hkeeps.remaining⟩
  | _ => exact .of_same hq rfl rfl

/-! Who waits on. -/

/-- A thread waits on, with the ticks that it has left. -/
structure Spared (k k' : Kernel) (u : ThreadId) : Prop where
  stand : SameStand (k.thread u) (k'.thread u)
  generation : k'.timers.generation (timeoutSlot u) = k.timers.generation (timeoutSlot u)
  remaining : k'.timers.remaining (timeoutSlot u) = k.timers.remaining (timeoutSlot u)

theorem Spared.refl (k : Kernel) (u : ThreadId) : Spared k k u := ⟨.refl _, rfl, rfl⟩

theorem Spared.trans (h : Spared k k₁ u) (h' : Spared k₁ k' u) : Spared k k' u :=
  ⟨h.stand.trans h'.stand, h'.generation.trans h.generation, h'.remaining.trans h.remaining⟩

theorem Spared.timed (h : Spared k k' u) (hu : (k.thread u).state.isTimed = true) :
    (k'.thread u).state.isTimed = true := by
  rw [h.stand.state]
  exact hu

theorem InPlace.ne_current_of_timed (hk : k.InPlace) (hu : (k.thread u).state.isTimed = true) :
    u ≠ k.current := by
  rintro rfl
  rw [hk.state_current] at hu
  cases hu

/-- Where a thread may wait that a timeout wakes. -/
theorem Arranged.queue_of_timed {runs : ThreadId → Prop} (hk : k.Arranged runs)
    (hu : (k.thread u).state.isTimed = true) : (k.thread u).queue = none ∨
      (∃ s, (k.thread u).queue = some (.semaphore s)) ∨
      ∃ c, (k.thread u).queue = some (.condVar c) := by
  have hfit := hk.fits u
  cases hq : (k.thread u).queue with
  | none => exact Or.inl rfl
  | some q =>
      rw [hq] at hfit
      cases q with
      | semaphore s => exact Or.inr (Or.inl ⟨s, rfl⟩)
      | condVar c => exact Or.inr (Or.inr ⟨c, rfl⟩)
      | _ =>
          cases hs : (k.thread u).state <;> rw [hs] at hfit hu <;>
            first | exact Bool.noConfusion hfit | exact Bool.noConfusion hu

theorem not_isTimed_of_isGone {state : ThreadState} (h : state.isGone = true) :
    state.isTimed ≠ true := by
  cases state <;> simp [ThreadState.isGone, ThreadState.isTimed] at h ⊢

theorem isBlocked_of_isTimed {state : ThreadState} (h : state.isTimed = true) :
    state.isBlocked = true := by
  cases state <;> simp [ThreadState.isTimed, ThreadState.isBlocked] at h ⊢

theorem Arranged.isTimed_of_queue {runs : ThreadId → Prop} (hk : k.Arranged runs)
    (hq : (∃ s, (k.thread u).queue = some (.semaphore s)) ∨
      ∃ c, (k.thread u).queue = some (.condVar c)) : (k.thread u).state.isTimed = true := by
  have hfit := hk.fits u
  rcases hq with ⟨s, hq⟩ | ⟨c, hq⟩ <;>
    cases hs : (k.thread u).state <;> rw [hs, hq] at hfit <;> first | rfl | cases hfit

theorem Effect.spared (h : Effect touched k k') (hk : k.InPlace) (hq : k.timers.Sound)
    (ht : ¬ touched .time) (hu : (k.thread u).state.isTimed = true)
    (hr : ¬ Reached touched u (k.thread u).queue) : Spared k k' u := by
  have hstand : SameStand (k.thread u) (k'.thread u) := by
    cases h.fate hk u with
    | same h => exact h
    | woken _ _ _ hcause =>
        rcases hcause with ⟨htime, -⟩ | hreached
        · exact absurd htime ht
        · exact absurd hreached hr
    | replaced hg => exact absurd hu (not_isTimed_of_isGone hg)
  have hkeeps := h.keepsTime hq ht
  have hne := hk.ne_current_of_timed hu
  refine ⟨hstand, hkeeps.generation u hne, hkeeps.remaining u hne ?_⟩
  rw [hstand.state]
  exact hu

/-- When the processor passes, no wait ends that a timeout bounds. -/
theorem Switch.spared (h : Switch touched k k') (hk : k.InPlace) (hq : k.timers.Sound)
    (hu : (k.thread u).state.isTimed = true) : Spared k k' u := by
  have hne := hk.ne_current_of_timed hu
  have hstand : SameStand (k.thread u) (k'.thread u) := by
    cases h.passage hk u with
    | same h => exact h
    | dispatched hs =>
        rw [hs] at hu
        cases hu
    | waits hcur => exact absurd hcur hne
    | parked hcur => exact absurd hcur hne
    | ended hcur => exact absurd hcur hne
    | roused _ hexit =>
        rcases hk.queue_of_timed hu with hnone | ⟨s, hs⟩ | ⟨c, hc⟩
        · rw [hexit] at hnone
          cases hnone
        · rw [hexit] at hs
          cases hs
        · rw [hexit] at hc
          cases hc
  have hkeeps := h.keepsTime hq
  refine ⟨hstand, hkeeps.generation u hne, hkeeps.remaining u hne ?_⟩
  rw [hstand.state]
  exact hu

/-- What an operation wakes that waits for a time: only threads that wait for something which
was touched. -/
theorem Does.spared (h : Does touched k k') (hk : k.Sound) (hq : k.timers.Sound)
    (ht : ¬ touched .time) : k'.clock = k.clock ∧ k'.timers.Sound ∧
      ∀ u, (k.thread u).state.isTimed = true → ¬ Reached touched u (k.thread u).queue →
        Spared k k' u := by
  obtain ⟨k₁, heffects, hswitch⟩ := h
  have hinv := effects_induction
    (P := fun k₁ => k₁.clock = k.clock ∧ k₁.timers.Sound ∧
      ∀ u, (k.thread u).state.isTimed = true → ¬ Reached touched u (k.thread u).queue →
        Spared k k₁ u) heffects hk ?_ ⟨rfl, hq, fun u _ _ => .refl k u⟩
  · obtain ⟨hk₁, hclock, hq₁, hspared⟩ := hinv
    rcases hswitch with rfl | hswitch
    · exact ⟨hclock, hq₁, hspared⟩
    · have hkeeps := hswitch.keepsTime hq₁
      refine ⟨hkeeps.clock.trans hclock, hkeeps.sound, fun u hu hr => ?_⟩
      have hfirst := hspared u hu hr
      exact hfirst.trans (hswitch.spared hk₁.inPlace hq₁ (hfirst.timed hu))
  · rintro k₁ k₂ hk₁ he ⟨hclock, hq₁, hspared⟩
    have hkeeps := he.keepsTime hq₁ ht
    refine ⟨hkeeps.clock.trans hclock, hkeeps.sound, fun u hu hr => ?_⟩
    have hfirst := hspared u hu hr
    refine hfirst.trans (he.spared hk₁.inPlace hq₁ ht (hfirst.timed hu) ?_)
    rw [hfirst.stand.queue]
    exact hr

/-- A thread may run, or waits for a mutex. -/
def Locking (k : Kernel) (u : ThreadId) : Prop :=
  (k.thread u).state.isRunnable = true ∨ (k.thread u).state = .waitingMutex

theorem Effect.locking (h : Effect touched k k') (hk : k.InPlace) (hu : k.Locking u) :
    k'.Locking u := by
  rcases hu with hrun | hs
  · exact Or.inl (h.keepsRunnable hk u hrun).1
  · cases h.fate hk u with
    | same h => exact Or.inr (h.state.trans hs)
    | woken _ hready =>
        rw [Locking, hready]
        exact Or.inl rfl
    | replaced hg =>
        rw [hs] at hg
        cases hg

theorem Switch.locking (h : Switch touched k k') (hk : k.InPlace) (hne : u ≠ k.current)
    (hu : k.Locking u) : k'.Locking u := by
  rcases hu with hrun | hs
  · exact Or.inl (h.keepsRunnable hk hne hrun).1
  · cases h.passage hk u with
    | same h => exact Or.inr (h.state.trans hs)
    | dispatched hready =>
        rw [hs] at hready
        cases hready
    | roused _ _ _ hrun => exact Or.inl hrun
    | waits hcur => exact absurd hcur hne
    | parked hcur => exact absurd hcur hne
    | ended hcur => exact absurd hcur hne

theorem Does.locking (h : Does touched k k') (hk : k.Sound) (hne : u ≠ k.current)
    (hu : k.Locking u) : k'.Locking u := by
  obtain ⟨k₁, heffects, hswitch⟩ := h
  obtain ⟨hk₁, hcurrent, hlocking⟩ := effects_induction
    (P := fun k₁ => k₁.current = k.current ∧ k₁.Locking u) heffects hk
    (fun k₁ k₂ hk₁ he h => ⟨he.current.trans h.1, he.locking hk₁.inPlace h.2⟩) ⟨rfl, hu⟩
  rcases hswitch with rfl | hswitch
  · exact hlocking
  · rw [← hcurrent] at hne
    exact hswitch.locking hk₁.inPlace hne hlocking

theorem Locking.not_timed (h : k.Locking u) : (k.thread u).state.isTimed = false := by
  rcases h with hrun | hs
  · cases hs : (k.thread u).state <;> rw [hs] at hrun <;> first | rfl | cases hrun
  · rw [hs]
    rfl

theorem Locking.unarmed (h : k.Locking u) (hk : k.InPlace) :
    k.timers.remaining (timeoutSlot u) = none :=
  TimerQueue.remaining_eq_none (Arranged.unarmed hk h.not_timed)

/-- Whoever gives way may run on. -/
theorem preempt_runnable (hk : k.InPlace) (h : k.preempt = .ok k') :
    (k'.thread k.current).state.isRunnable = true := by
  rcases preempt_ok hk h with ⟨-, k₁, next, -, -, hmoves⟩ | ⟨-, rfl⟩
  · rw [hmoves.thread_self]
    rfl
  · rw [hk.state_current]
    rfl

/-! How a bounded wait begins. -/

/-- The running thread waits, and has all of its time left. -/
structure Waits (delay : Delay) (k k' : Kernel) : Prop where
  timed : (k'.thread k.current).state.isTimed = true
  remaining : k'.timers.remaining (timeoutSlot k.current) = some delay.ticks

theorem dequeue_timers (h : k.dequeue q = .ok (some (t, k'))) : k'.timers = k.timers := by
  unfold dequeue at h
  split at h
  · cases h
  · cases h
  · obtain ⟨-, rfl⟩ := Prod.mk.inj (Option.some.inj (Except.ok.inj h))
    rfl

theorem takeNext_timers (h : k.takeNext = .ok (next, k')) : k'.timers = k.timers := by
  unfold takeNext at h
  obtain ⟨o, hdequeue, h⟩ := bind_eq_ok.mp h
  cases o with
  | none => cases h
  | some p =>
      obtain rfl := Except.ok.inj h
      exact dequeue_timers hdequeue

theorem block_timers (h : k.block state = .ok k') : k'.timers = k.timers := by
  unfold block at h
  dsimp only at h
  split at h
  · cases h
  · obtain ⟨⟨next, k₁⟩, hnext, h⟩ := bind_eq_ok.mp h
    obtain ⟨-, rfl⟩ := dispatch_ok h
    have htimers := takeNext_timers hnext
    exact htimers

theorem blockFor_waits {k₀ : Kernel} {delay : Delay} (hk : k.InPlace) (hq : k.timers.Sound)
    (h₀ : Moves false k.current { k.running with queue := p } k k₀) (timers : k₀.timers = k.timers)
    (timed : state.isTimed = true) (blocked : state.isBlocked = true) (fits : state.fits p = true)
    (h : k₀.blockFor state delay = .ok k') : Waits delay k k' := by
  have hblocks := blockFor_ok hk.toLinked h₀ timers timed blocked fits h
  refine ⟨?_, ?_⟩
  · rw [hblocks.thread_current hk]
    exact timed
  · unfold blockFor at h
    obtain ⟨timers', harm, h⟩ := bind_eq_ok.mp h
    rw [require_eq_ok, timers, h₀.current] at harm
    rw [block_timers h]
    exact (hq.arm harm).2.1

theorem await_waits {k₀ : Kernel} {delay : Delay} {wait : Wait} (hk : k.InPlace)
    (hq : k.timers.Sound) (h₀ : Moves false k.current { k.running with queue := p } k k₀)
    (timers : k₀.timers = k.timers) (timed : state.isTimed = true)
    (blocked : state.isBlocked = true) (fits : state.fits p = true)
    (h : k₀.await state (.after delay) = .ok wait) :
    ∃ k', wait = .blocked [.awake] k' ∧ Waits delay k k' := by
  obtain ⟨k', hblock, h⟩ := bind_eq_ok.mp h
  exact ⟨k', (Except.ok.inj h).symm, blockFor_waits hk hq h₀ timers timed blocked fits hblock⟩

/-- A bounded wait for a unit is over at once, or all of its time is left. -/
theorem waitUnit_waits {s : SemaphoreId} {delay : Delay} {wait : Wait} (hk : k.Sound)
    (hq : k.timers.Sound) (hstate : state = .waitingSemaphore ∨ state = .waitingMailbox)
    (h : k.waitUnit s (.after delay) state = .ok wait) :
    (∃ r k₁, wait = .over r k₁ ∧ k₁.Sound ∧ k₁.current = k.current) ∨
      ∃ k', wait = .blocked [.awake] k' ∧ Waits delay k k' := by
  unfold waitUnit at h
  dsimp only at h
  split at h
  · rename_i hcount
    have hpos : 0 ≤ k.semaphoreCount s := by omega
    have hrecount : Effect (fun _ => True) k _ := .recount trivial hpos hcount
    exact Or.inl ⟨_, _, (Except.ok.inj h).symm, hrecount.sound hk, rfl⟩
  · rw [if_neg nofun] at h
    obtain ⟨k₁, hqueue, h⟩ := bind_eq_ok.mp h
    have hk₁ : (k.setSemaphoreCount s (k.semaphoreCount s - 1)).InPlace :=
      InPlace.setSemaphoreCount hk.inPlace _ _
    obtain ⟨-, htimers, hmoves⟩ := enqueue_ok hk₁.toLinked hqueue
    obtain ⟨k', rfl, htimed, hrem⟩ := await_waits hk₁ hq hmoves htimers
      (by rcases hstate with rfl | rfl <;> rfl) (by rcases hstate with rfl | rfl <;> rfl)
      (by rcases hstate with rfl | rfl <;> rfl) h
    exact Or.inr ⟨k', rfl, htimed, hrem⟩

end RealtimeKernel.Kernel

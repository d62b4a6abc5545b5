import RealtimeKernel.Proofs.Pool
import RealtimeKernel.Proofs.Kernel.Pristine
import RealtimeKernel.Proofs.Execution.Safety

/-!
Requests for something new: a thread, an object, a timer. Each is turned down for the reasons
listed here and for no other, and what is turned down leaves no trace but the answer. A thread
slot that was claimed for nothing forgets a request to end that it was marked with.
-/
namespace RealtimeKernel

/-- The error that a request is turned down with. -/
def Answer.refusal? : Answer → Option KernelError
  | .thread (.error e) | .semaphore (.error e) | .mutex (.error e) | .condVar (.error e)
  | .mailbox (.error e) | .timer (.error e) => some e
  | _ => none

namespace Kernel
variable {α : Type} {k k' : Kernel} {e e' : KernelError} {count capacity : Nat}

/-- A request is turned down, for one reason, and the kernel is as it was; or there is no reason to
turn it down, and something is made. -/
inductive Makes (refused : KernelError → Prop) (k : Kernel) : Except KernelError α × Kernel → Prop
  | refused {e : KernelError} : refused e → (∀ e', refused e' → e' = e) →
    Makes refused k (.error e, k)
  | made {a : α} {k' : Kernel} : (∀ e, ¬ refused e) → Makes refused k (.ok a, k')

/-- The reason is that a table is full. -/
def IfFull (full : Prop) (reason e : KernelError) : Prop := full ∧ e = reason

/-- Why a mailbox is not made: its capacity is no good, or else there are mailboxes enough, or else
the semaphores do not suffice. -/
inductive RefusesMailbox (k : Kernel) (capacity : Nat) : KernelError → Prop
  | capacity : capacity = 0 ∨ maxMessages < capacity →
    RefusesMailbox k capacity (.invalidCapacity capacity)
  | mailboxes : 0 < capacity → capacity ≤ maxMessages → k.mailboxes.IsFull →
    RefusesMailbox k capacity .mailboxTableFull
  | semaphores : 0 < capacity → capacity ≤ maxMessages → ¬ k.mailboxes.IsFull →
    k.semaphores.free.length < 2 → RefusesMailbox k capacity .semaphoreTableFull

theorem RefusesMailbox.unique (h : RefusesMailbox k capacity e)
    (h' : RefusesMailbox k capacity e') : e' = e := by
  cases h <;> cases h' <;> first | rfl | omega | contradiction

theorem addSemaphore_full (hc : count ≤ maxCount) (hfull : k.semaphores.IsFull) :
    k.addSemaphore count = .ok (.error .semaphoreTableFull, k) := by
  unfold addSemaphore
  rw [if_pos hc, Pool.push?_of_full hfull]

theorem exists_addSemaphore (hc : count ≤ maxCount) (hfull : ¬ k.semaphores.IsFull) :
    ∃ s pool, k.addSemaphore count = .ok (.ok s, { k with semaphores := pool }) ∧
      pool.used = k.semaphores.used + 1 := by
  obtain ⟨s, pool, hpush, hused⟩ := Pool.exists_push hfull { count := (count : Int) }
  refine ⟨s, pool, ?_, hused⟩
  unfold addSemaphore
  rw [if_pos hc, hpush]

theorem createSemaphore_makes (hc : count ≤ maxCount) :
    ∃ made, k.createSemaphore count = .ok made ∧
      Makes (IfFull k.semaphores.IsFull .semaphoreTableFull) k made := by
  unfold createSemaphore
  by_cases hfull : k.semaphores.IsFull
  · rw [addSemaphore_full hc hfull]
    exact ⟨_, rfl, .refused ⟨hfull, rfl⟩ fun e he => he.2⟩
  · obtain ⟨s, pool, hadd, -⟩ := exists_addSemaphore hc hfull
    rw [hadd]
    exact ⟨_, rfl, .made fun e he => hfull he.1⟩

theorem createMutex_makes :
    Makes (IfFull k.mutexes.IsFull .mutexTableFull) k k.createMutex := by
  unfold createMutex
  by_cases hfull : k.mutexes.IsFull
  · rw [Pool.push?_of_full hfull]
    exact .refused ⟨hfull, rfl⟩ fun e he => he.2
  · obtain ⟨m, pool, hpush, -⟩ := Pool.exists_push hfull {}
    rw [hpush]
    exact .made fun e he => hfull he.1

theorem createCondVar_makes :
    Makes (IfFull k.condVars.IsFull .condVarTableFull) k k.createCondVar := by
  unfold createCondVar
  by_cases hfull : k.condVars.IsFull
  · rw [Pool.push?_of_full hfull]
    exact .refused ⟨hfull, rfl⟩ fun e he => he.2
  · obtain ⟨c, pool, hpush, -⟩ := Pool.exists_push hfull {}
    rw [hpush]
    exact .made fun e he => hfull he.1

/-- With two semaphores left, neither of the two that a mailbox needs can fail. -/
theorem exists_createMailbox (hpos : 0 < capacity) (hle : capacity ≤ maxMessages)
    (hboxes : ¬ k.mailboxes.IsFull) (hsems : ¬ k.semaphores.free.length < 2) :
    ∃ b k', k.createMailbox capacity = .ok (.ok b, k') := by
  rw [Pool.length_free] at hsems
  have hroom : ∀ {p : Pool maxSemaphores Semaphore}, p.used < maxSemaphores → ¬ p.IsFull :=
    fun hlt hfull => absurd (Pool.isFull_iff.mp hfull) (Nat.ne_of_lt hlt)
  obtain ⟨empty, pool₁, hadd₁, hused₁⟩ :=
    exists_addSemaphore (hle.trans (by decide)) (hroom (p := k.semaphores) (by omega))
  obtain ⟨full, pool₂, hadd₂, -⟩ :=
    exists_addSemaphore (k := { k with semaphores := pool₁ }) (Nat.zero_le maxCount)
      (hroom (p := pool₁) (by omega))
  obtain ⟨b, pool, hpush, -⟩ := Pool.exists_push hboxes
    { capacity, ring := .empty 0 hpos, empty, full }
  unfold createMailbox
  rw [dif_pos ⟨hpos, hle⟩, if_neg fun heq => hboxes (Pool.isFull_iff.mpr heq), if_neg hsems, hadd₁]
  simp only [bind, Except.bind, pure, Except.pure, hadd₂, hpush]
  exact ⟨_, _, rfl⟩

theorem createMailbox_makes (k : Kernel) (capacity : Nat) :
    ∃ made, k.createMailbox capacity = .ok made ∧
      Makes (RefusesMailbox k capacity) k made := by
  by_cases hcapacity : 0 < capacity ∧ capacity ≤ maxMessages
  · obtain ⟨hpos, hle⟩ := hcapacity
    by_cases hboxes : k.mailboxes.IsFull
    · have hrefuses := RefusesMailbox.mailboxes hpos hle hboxes
      refine ⟨_, ?_, .refused hrefuses fun e => hrefuses.unique⟩
      unfold createMailbox
      rw [dif_pos ⟨hpos, hle⟩, if_pos (Pool.isFull_iff.mp hboxes)]
      rfl
    · by_cases hsems : k.semaphores.free.length < 2
      · have hrefuses := RefusesMailbox.semaphores hpos hle hboxes hsems
        refine ⟨_, ?_, .refused hrefuses fun e => hrefuses.unique⟩
        rw [Pool.length_free] at hsems
        unfold createMailbox
        rw [dif_pos ⟨hpos, hle⟩, if_neg fun heq => hboxes (Pool.isFull_iff.mpr heq), if_pos hsems]
        rfl
      · obtain ⟨b, k', hmake⟩ := exists_createMailbox hpos hle hboxes hsems
        refine ⟨_, hmake, .made fun e he => ?_⟩
        cases he with
        | capacity h => omega
        | mailboxes _ _ h => exact hboxes h
        | semaphores _ _ _ h => exact hsems h
  · have hrefuses : RefusesMailbox k capacity (.invalidCapacity capacity) := .capacity (by omega)
    refine ⟨_, ?_, .refused hrefuses fun e => hrefuses.unique⟩
    unfold createMailbox
    rw [dif_neg hcapacity]
    rfl

/-- Every timer that applications may arm is armed. -/
def TimersInUse (k : Kernel) : Prop :=
  ∀ s : TimerSlot, maxThreads ≤ s.val → k.timers.isArmed s = true

theorem freeTimerSlot?_eq_none : k.freeTimerSlot? = none ↔ k.TimersInUse := by
  unfold freeTimerSlot? TimersInUse
  rw [List.find?_eq_none]
  refine ⟨fun h s hs => ?_, fun h s _ => ?_⟩
  · have hbusy := h s (List.mem_finRange s)
    simpa [hs] using hbusy
  · simpa using h s

theorem setTimer_makes (hq : k.timers.Sound) (delay : Delay) (r : Routine) :
    ∃ made, k.setTimer delay r = .ok made ∧
      Makes (IfFull k.TimersInUse .timerTableFull) k made := by
  cases hslot : k.freeTimerSlot? with
  | none =>
      refine ⟨(.error .timerTableFull, k), ?_,
        .refused ⟨freeTimerSlot?_eq_none.mp hslot, rfl⟩ fun e he => he.2⟩
      rw [setTimer, hslot]
      rfl
  | some slot =>
      obtain ⟨timers, id, hset, -⟩ := exists_setTimer hq hslot delay r
      refine ⟨_, hset, .made fun e he => ?_⟩
      rw [← freeTimerSlot?_eq_none, hslot] at he
      cases he.1

end Kernel

namespace Execution
open Kernel
variable {α : Type} {x y : Execution} {h : History} {m : Move} {k' : Kernel} {e : KernelError}

/-- A move that asks for something new, and is no misuse. -/
inductive Creates : Move → Prop
  | thread {name : String} {p : Priority} {r : Routine} : p ≠ .idle →
    Creates (.call (.spawn name p r))
  | semaphore {count : Nat} : count ≤ maxCount →
    Creates (.call (.operation (.createSemaphore count)))
  | mutex : Creates (.call (.operation .createMutex))
  | condVar : Creates (.call (.operation .createCondVar))
  | mailbox {capacity : Nat} : Creates (.call (.operation (.createMailbox capacity)))
  | timer {delay : Delay} {r : Routine} : Creates (.call (.operation (.setTimer delay r)))
  | timerAmid {delay : Delay} {r : Routine} : Creates (.interrupt (.setTimer delay r))

/-- Is every thread slot in use? -/
def ThreadsInUse (x : Execution) : Prop := ∀ t, (x.kernel.thread t).isActive = true

/-- Why such a move is turned down. A thread is turned down for want of a slot, or else by the
platform. -/
def Refused (x : Execution) : Move → KernelError → Prop
  | .call (.spawn _ _ _), e => IfFull x.ThreadsInUse .threadTableFull e ∨
    ¬ x.ThreadsInUse ∧ x.platform x.requests = .error e
  | .call (.operation (.createSemaphore _)), e =>
    IfFull x.kernel.semaphores.IsFull .semaphoreTableFull e
  | .call (.operation .createMutex), e => IfFull x.kernel.mutexes.IsFull .mutexTableFull e
  | .call (.operation .createCondVar), e => IfFull x.kernel.condVars.IsFull .condVarTableFull e
  | .call (.operation (.createMailbox capacity)), e => RefusesMailbox x.kernel capacity e
  | .call (.operation (.setTimer _ _)), e | .interrupt (.setTimer _ _), e =>
    IfFull x.kernel.TimersInUse .timerTableFull e
  | _, _ => False

/-- The execution when the running thread has its answer, and all else is as it was. -/
def answered (x : Execution) (a : Answer) : Execution := x.setFrames (.answer a :: x.frames)

/-- What a move that asks for something new comes to. -/
structure Concludes (x : Execution) (m : Move) (y : Execution) : Prop where
  /-- It is turned down for the reasons listed, and only then. -/
  answer : ∃ a, y.framesOf x.kernel.current = .answer a :: x.frames ∧
    ∀ e, a.refusal? = some e ↔ Refused x m e
  /-- Then nothing changes but that there is an answer. If the platform was asked, it was asked, and
  the slot that was free is not marked. -/
  kept : ∀ e, Refused x m e → ∃ a, a.refusal? = some e ∧ (y = x.answered a ∨
    x.platform x.requests = .error e ∧ ∃ t, (x.kernel.thread t).isActive = false ∧
      (∃ name p r, m = .call (.spawn name p r)) ∧
      y = { x.answered a with kernel := x.kernel.unmark t, requests := x.requests + 1 })
  /-- The platform is asked if there is a slot for the thread. -/
  asked : ∀ name p r, m = .call (.spawn name p r) → (y.requests = x.requests ↔ ThreadsInUse x)

theorem frames_answered (x : Execution) (a : Answer) :
    (x.answered a).framesOf x.kernel.current = .answer a :: x.frames :=
  (framesOf_setFrames x _ x.kernel.current).trans (if_pos rfl)

/-- The running thread's step ends with an answer. -/
theorem perform_answer {a : Answer} {step : Kernel → Outcome Step} {k : Kernel}
    (h : step x.kernel = .ok (k, [.answer a])) :
    x.perform x.frames step = .ok { x.answered a with kernel := k } := by
  rw [perform, h]
  rfl

theorem perform_requests {rest : List Frame} {step : Kernel → Outcome Step}
    (h : x.perform rest step = .ok y) : y.requests = x.requests := by
  obtain ⟨p, -, h⟩ := bind_eq_ok.mp h
  obtain rfl := Except.ok.inj h
  rfl

/-- What is made in one step, without the platform. -/
theorem concludes_of_makes {refused : KernelError → Prop} {made : Except KernelError α × Kernel}
    (step : Kernel → Outcome Step) (f : Except KernelError α → Answer)
    (hmove : x.move m = x.perform x.frames step)
    (hstep : step x.kernel = .ok (made.2, [.answer (f made.1)]))
    (hmakes : Makes refused x.kernel made) (hrefused : ∀ e, Refused x m e ↔ refused e)
    (herror : ∀ e, (f (.error e)).refusal? = some e) (hok : ∀ a, (f (.ok a)).refusal? = none)
    (hthread : ∀ name p r, m ≠ .call (.spawn name p r)) :
    ∃ y, x.move m = .ok y ∧ Concludes x m y := by
  have hy : x.move m = .ok { x.answered (f made.1) with kernel := made.2 } :=
    hmove.trans (perform_answer hstep)
  refine ⟨_, hy, ?_, ?_, fun name p r hm => absurd hm (hthread name p r)⟩
  · refine ⟨f made.1, frames_answered x _, fun e => ?_⟩
    rw [hrefused]
    cases hmakes with
    | @refused e₀ hreason hunique =>
        rw [herror, Option.some.injEq]
        refine ⟨?_, fun he => (hunique e he).symm⟩
        rintro rfl
        exact hreason
    | made hnone =>
        rw [hok]
        exact iff_of_false nofun (hnone e)
  · intro e he
    rw [hrefused] at he
    cases hmakes with
    | @refused e₀ hreason hunique =>
        obtain rfl := hunique e he
        exact ⟨f (.error e), herror e, Or.inl rfl⟩
    | made hnone => exact absurd he (hnone e)

section Spawn
variable {name : String} {p : Priority} {r : Routine} {t : ThreadId}
  (hp : p ≠ .idle) (hup : x.kernel.initialized = true)
include hp hup

theorem spawn_full (hslot : x.kernel.freeSlot? = none) :
    x.spawn name p r = .ok (x.answered (.thread (.error .threadTableFull))) := by
  unfold spawn create
  simp only [if_neg hp, hup, hslot]
  rfl

theorem spawn_noContext (hslot : x.kernel.freeSlot? = some t)
    (hcontext : x.platform x.requests = .error e) :
    x.spawn name p r = .ok { x.answered (.thread (.error e)) with
      kernel := x.kernel.vacate t, requests := x.requests + 1 } := by
  rw [← vacate_replaceThread x.kernel t (.create name p (some (.routine r)))]
  unfold spawn create
  simp only [if_neg hp, hup, hslot, hcontext]
  rfl

/-- The slot is free and there is a context: the caller gets the new thread. -/
theorem spawn_made (hslot : x.kernel.freeSlot? = some t)
    (hcontext : x.platform x.requests = .ok ()) (hne : t ≠ x.kernel.current)
    (h : x.spawn name p r = .ok y) :
    y.framesOf x.kernel.current = .answer (.thread (.ok t)) :: x.frames ∧
      y.requests = x.requests + 1 := by
  unfold spawn create at h
  simp only [if_neg hp, hup, hslot, hcontext] at h
  obtain ⟨⟨made, x₁⟩, hcreate, h⟩ := bind_eq_ok.mp h
  obtain ⟨rfl, rfl⟩ := Prod.mk.inj (Except.ok.inj hcreate)
  have hrequests := perform_requests h
  obtain ⟨frames, hstep, hframes⟩ := perform_ok h
  obtain ⟨k₁, -, hstep⟩ := bind_eq_ok.mp hstep
  obtain ⟨k₂, -, hstep⟩ := bind_eq_ok.mp hstep
  obtain ⟨-, rfl⟩ := Prod.mk.inj (Except.ok.inj hstep)
  refine ⟨?_, hrequests⟩
  have hcurrent := (hframes x.kernel.current).trans (if_pos rfl)
  have hrest := (get_set_fin x.contexts t x.kernel.current [.start]).trans (if_neg hne)
  exact hcurrent.trans (congrArg (List.cons _) hrest)

end Spawn

/-! Whatever was done before. -/

theorem solo_pristine (config : Config) (quantumLeft : Nat) :
    (solo config (bootThread config) quantumLeft).Pristine := by
  intro t hs
  rw [thread_solo] at hs ⊢
  split
  · rename_i ht
    rw [if_pos ht] at hs
    cases hs
  · rfl

theorem Reaches.pristine (hr : Reaches h x) (hj : JoinedOnce h) : x.kernel.Pristine := by
  induction hr with
  | boot hb =>
      obtain ⟨-, hpristine⟩ := hb.induction (fun config => solo_pristine config _)
        (fun k t hk => hk.congr rfl) fun k k' hk heffect h => heffect.pristine hk h
      exact hpristine
  | @move h x y m hr hallows hmove ih =>
      have hx := hr.orderly hj.tail
      have hpristine := ih hj.tail
      exact (move_does hx.fit hallows hmove).pristine hx.sound hpristine

/-! Why a thread is not made, and what comes of that. -/

theorem refused_spawn_of_full {name : String} {p : Priority} {r : Routine}
    (hfull : ThreadsInUse x) :
    Refused x (.call (.spawn name p r)) e ↔ KernelError.threadTableFull = e := by
  constructor
  · rintro (⟨-, he⟩ | ⟨hnot, -⟩)
    · exact he.symm
    · exact absurd hfull hnot
  · rintro rfl
    exact Or.inl ⟨hfull, rfl⟩

theorem refused_spawn_of_free {name : String} {p : Priority} {r : Routine}
    (hfree : ¬ ThreadsInUse x) :
    Refused x (.call (.spawn name p r)) e ↔ x.platform x.requests = .error e := by
  constructor
  · rintro (⟨hfull, -⟩ | ⟨-, he⟩)
    · exact absurd hfull hfree
    · exact he
  · exact fun he => Or.inr ⟨hfree, he⟩

/-- With a slot and a context, nothing is left that could go wrong. -/
theorem exists_spawn {name : String} {p : Priority} {r : Routine} (hp : p ≠ .idle)
    (hx : x.Fit) (hq : x.kernel.timers.Sound) : ∃ y, x.spawn name p r = .ok y := by
  have hfails : FailsOnly (Misuse x (.call (.spawn name p r))) (x.spawn name p r) :=
    spawn_fails hx.sound.inPlace hq hx.initialized
  refine hfails.total fun e hmisuse => ?_
  cases hmisuse with
  | idlePriority hidle =>
      rcases hidle with ⟨_, _, heq⟩ | heq
      · cases heq
        exact hp rfl
      · cases heq
  | resumes hm => rcases hm with hm | hm <;> cases hm
  | counts hm => rcases hm with hm | hm | hm <;> cases hm
  | stops hm => rcases hm with hm | hm <;> cases hm

theorem spawn_creates {name : String} {p : Priority} {r : Routine} (hp : p ≠ .idle)
    (hx : x.Fit) (hq : x.kernel.timers.Sound) (hpristine : x.kernel.Pristine) :
    ∃ y, x.move (.call (.spawn name p r)) = .ok y ∧
      Concludes x (.call (.spawn name p r)) y := by
  have hk := hx.sound.inPlace
  cases hslot : x.kernel.freeSlot? with
  | none =>
      have hfull : ThreadsInUse x := freeSlot?_eq_none.mp hslot
      refine ⟨_, spawn_full hp hx.initialized hslot, ⟨_, frames_answered x _, fun e => ?_⟩,
        fun e he => ?_, fun _ _ _ _ => iff_of_true rfl hfull⟩
      · rw [refused_spawn_of_full hfull]
        exact Option.some_inj
      · obtain rfl := (refused_spawn_of_full hfull).mp he
        exact ⟨_, rfl, Or.inl rfl⟩
  | some t =>
      have hfree := isActive_of_freeSlot hslot
      have hs : (x.kernel.thread t).state = .inactive := by simpa [Thread.isActive] using hfree
      have hnot : ¬ ThreadsInUse x := by
        intro hfull
        rw [hfull t] at hfree
        cases hfree
      cases hcontext : x.platform x.requests with
      | error e₀ =>
          have hy : x.spawn name p r = _ := spawn_noContext hp hx.initialized hslot hcontext
          rw [hpristine.vacate_eq hk hs] at hy
          refine ⟨_, hy, ⟨_, frames_answered x _, fun e => ?_⟩, fun e he => ?_,
            fun _ _ _ _ => iff_of_false (Nat.succ_ne_self _) hnot⟩
          · rw [refused_spawn_of_free hnot, hcontext, Except.error.injEq]
            exact Option.some_inj
          · rw [refused_spawn_of_free hnot, hcontext] at he
            obtain rfl := Except.error.inj he
            exact ⟨_, rfl, Or.inr ⟨hcontext, t, hfree, ⟨name, p, r, rfl⟩, rfl⟩⟩
      | ok _ =>
          have hne : t ≠ x.kernel.current := by
            rintro rfl
            rw [hk.state_current] at hs
            cases hs
          have hnone : ∀ e, ¬ Refused x (.call (.spawn name p r)) e := by
            intro e he
            rw [refused_spawn_of_free hnot, hcontext] at he
            cases he
          have hnoRefusal : ∀ e, (Answer.thread (.ok t)).refusal? ≠ some e := by
            intro e he
            cases he
          obtain ⟨y, hy⟩ : ∃ y, x.spawn name p r = .ok y := exists_spawn hp hx hq
          obtain ⟨hframes, hrequests⟩ :=
            spawn_made hp hx.initialized hslot hcontext hne hy
          refine ⟨y, hy, ⟨_, hframes, fun e => iff_of_false (hnoRefusal e) (hnone e)⟩,
            fun e he => absurd he (hnone e), fun _ _ _ _ => iff_of_false ?_ hnot⟩
          rw [hrequests]
          exact Nat.succ_ne_self _

theorem setTimer_creates {delay : Delay} {r : Routine} {m : Move} (hq : x.kernel.timers.Sound)
    (hm : m = .call (.operation (.setTimer delay r)) ∨ m = .interrupt (.setTimer delay r)) :
    ∃ y, x.move m = .ok y ∧ Concludes x m y := by
  obtain ⟨made, hmade, hmakes⟩ := setTimer_makes hq delay r
  have hstep : InterruptCall.run x.kernel (.setTimer delay r) =
      .ok (made.2, [.answer (.timer made.1)]) := by
    simp only [InterruptCall.run, hmade]
    rfl
  rcases hm with rfl | rfl
  · exact concludes_of_makes (Operation.setTimer delay r).run .timer rfl hstep hmakes
      (fun e => Iff.rfl) (fun e => rfl) (fun id => rfl) (by simp)
  · exact concludes_of_makes (InterruptCall.setTimer delay r).run .timer rfl hstep hmakes
      (fun e => Iff.rfl) (fun e => rfl) (fun id => rfl) (by simp)

/-- Whatever was done so far, what asks for something new is turned down for the reasons listed and
for no other, and then it changes nothing. -/
theorem reaches_creates (h : History) (x : Execution) (m : Move) (hr : Reaches h x)
    (hj : JoinedOnce h) (hc : Creates m) : ∃ y, x.move m = .ok y ∧ Concludes x m y := by
  obtain ⟨r, harises⟩ := hr.arises
  have hq : x.kernel.timers.Sound := harises.sound
  cases hc with
  | thread hp => exact spawn_creates hp (hr.orderly hj).fit hq (hr.pristine hj)
  | @semaphore count hcount =>
      obtain ⟨made, hmade, hmakes⟩ := createSemaphore_makes (k := x.kernel) hcount
      refine concludes_of_makes (Operation.createSemaphore count).run .semaphore rfl ?_ hmakes
        (fun e => Iff.rfl) (fun e => rfl) (fun s => rfl) (by simp)
      simp only [Operation.run, hmade]
      rfl
  | mutex =>
      exact concludes_of_makes Operation.createMutex.run .mutex rfl rfl createMutex_makes
        (fun e => Iff.rfl) (fun e => rfl) (fun s => rfl) (by simp)
  | condVar =>
      exact concludes_of_makes Operation.createCondVar.run .condVar rfl rfl createCondVar_makes
        (fun e => Iff.rfl) (fun e => rfl) (fun s => rfl) (by simp)
  | @mailbox capacity =>
      obtain ⟨made, hmade, hmakes⟩ := createMailbox_makes x.kernel capacity
      refine concludes_of_makes (Operation.createMailbox capacity).run .mailbox rfl ?_ hmakes
        (fun e => Iff.rfl) (fun e => rfl) (fun b => rfl) (by simp)
      simp only [Operation.run, hmade]
      rfl
  | timer => exact setTimer_creates hq (Or.inl rfl)
  | timerAmid => exact setTimer_creates hq (Or.inr rfl)

/-- All semaphores but one are taken, which is one too few for a mailbox. -/
def crowding : List Move :=
  .takeAnswer :: (List.replicate 23
    [.call (.operation (.createSemaphore 1)), .takeAnswer]).flatten

theorem creates_crowding : Reaches (enact crowding).1 (enact crowding).2 ∧
    JoinedOnce (enact crowding).1 ∧ Creates (.call (.operation (.createMailbox 2))) ∧
    ∃ y, (enact crowding).2.move (.call (.operation (.createMailbox 2))) = .ok y ∧
      Concludes (enact crowding).2 (.call (.operation (.createMailbox 2))) y :=
  have hr := reaches_enact (by decide +kernel)
  have hj : JoinedOnce (enact crowding).1 := by decide +kernel
  ⟨hr, hj, .mailbox, reaches_creates _ _ _ hr hj .mailbox⟩

/-- The mailbox is refused, and the one semaphore is still free. -/
example : (match (enact crowding).2.move (.call (.operation (.createMailbox 2))) with
    | .ok y => y.kernel.semaphores.free.length == 1 && y.kernel.mailboxes.used == 0 &&
      (match y.frames with
        | .answer a :: _ => a.refusal? == some .semaphoreTableFull
        | _ => false)
    | .error _ => false) = true := by decide +kernel

end Execution

end RealtimeKernel

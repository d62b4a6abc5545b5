import RealtimeKernel.Proofs.Execution.Exclusion
import RealtimeKernel.Proofs.Execution.Preemption
import RealtimeKernel.Proofs.Execution.TimerIds

/-!
What threads have left to do. For most of it a kernel in order is enough. The rest comes in few
forms, and with each of them the thread relies on something: to start, on having code; to go on
after it waited for a mutex, on owning it; to lock a mutex again, on not owning it; and while it
handles timers, on nobody else running. No timer is due unless the running thread handles it.
-/
namespace RealtimeKernel

/-- Is a kernel in order enough to do this? -/
def Frame.isPlain : Frame → Bool
  | .start | .locked _ | .relock _ | .fire | .callback .. => false
  | _ => true

def Plain (l : List Frame) : Prop := ∀ f ∈ l, f.isPlain = true

/-- Timers are being handled. -/
inductive Firing : List Frame → Prop
  | due {rest : List Frame} : Plain rest → Firing (.fire :: rest)
  | calls {r : Routine} {entered : Bool} {rest : List Frame} : Plain rest →
    Firing (.callback r entered :: .fire :: rest)
  | returns {a : Answer} {r : Routine} {rest : List Frame} : Plain rest →
    Firing (.answer a :: .callback r true :: .fire :: rest)

/-- What a thread may have left to do, and what it relies on for that. -/
inductive Agenda (k : Kernel) (u : ThreadId) : List Frame → Prop
  | plain {l : List Frame} : Plain l → Agenda k u l
  | start : k.Enterable u → Agenda k u [.start]
  | locked {m : MutexId} {a : Answer} : k.Contends u m → Agenda k u [.locked m, .answer a]
  | relock {m : MutexId} : k.idle ≠ some u → ¬ k.Contends u m → Agenda k u [.relock m]
  | wakes {m : MutexId} : k.idle ≠ some u → ¬ k.Contends u m → Agenda k u [.awake, .relock m]
  | firing {l : List Frame} : u = k.current → Firing l → Agenda k u l

theorem Plain.answer (a : Answer) : Plain [.answer a] := by simp [Plain, Frame.isPlain]

theorem Plain.checks {checks : List Frame} {later : Frame} (hc : checks = [] ∨ checks = [.awake])
    (hlater : later.isPlain = true) : Plain (checks ++ [later]) := by
  intro f hf
  rcases Kernel.mem_checks hc hf with rfl | rfl
  · rfl
  · exact hlater

theorem Plain.append {l l' : List Frame} (h : Plain l) (h' : Plain l') : Plain (l ++ l') := by
  intro f hf
  rcases List.mem_append.mp hf with hf | hf
  · exact h f hf
  · exact h' f hf

/-- All ticks that a clock has counted. -/
def Clock.total (c : Clock) : Nat := c.now.toNat + 2 ^ 32 * c.overflows.toNat

theorem Clock.advance_total (c : Clock) : (c.advance = none ∧ c.total + 1 = 2 ^ 64) ∨
    ∃ c', c.advance = some c' ∧ c'.total = c.total + 1 := by
  have hnow : (c.now + 1).toNat = (c.now.toNat + 1) % 2 ^ 32 := UInt32.toNat_add c.now 1
  have hover : (c.overflows + 1).toNat = (c.overflows.toNat + 1) % 2 ^ 32 :=
    UInt32.toNat_add c.overflows 1
  have hlt := c.now.toNat_lt
  have hlt' := c.overflows.toNat_lt
  have hzero : ∀ n : UInt32, n = 0 ↔ n.toNat = 0 := fun n => UInt32.toNat_inj.symm
  unfold advance total
  by_cases hround : c.now + 1 = 0
  · rw [if_pos hround]
    rw [hzero] at hround
    by_cases hend : c.overflows + 1 = 0
    · rw [if_pos hend]
      rw [hzero] at hend
      exact Or.inl ⟨rfl, by omega⟩
    · rw [if_neg hend]
      rw [hzero] at hend
      refine Or.inr ⟨_, rfl, ?_⟩
      change 0 + 2 ^ 32 * (c.overflows + 1).toNat = _
      omega
  · rw [if_neg hround]
    rw [hzero] at hround
    refine Or.inr ⟨_, rfl, ?_⟩
    change (c.now + 1).toNat + 2 ^ 32 * c.overflows.toNat = _
    omega

namespace Kernel
variable {k k' : Kernel} {touched : Object → Prop} {u : ThreadId} {m : MutexId} {b : MailboxId}
  {l frames : List Frame} {step : Step}

/-- What a thread relies on is not for another one to change. -/
theorem Does.agenda (h : Does touched k k') (hk : k.Sound) (hu : u ≠ k.current)
    (ha : Agenda k u l) : Agenda k' u l := by
  cases ha with
  | plain hl => exact .plain hl
  | start he => exact .start (h.enterable hk hu he)
  | locked hc => exact .locked ((h.contends_iff hk hu).mpr hc)
  | relock hidle hnot =>
      rw [← h.idle hk] at hidle
      exact .relock hidle fun hc => hnot ((h.contends_iff hk hu).mp hc)
  | wakes hidle hnot =>
      rw [← h.idle hk] at hidle
      exact .wakes hidle fun hc => hnot ((h.contends_iff hk hu).mp hc)
  | firing hcur _ => exact absurd hcur hu

/-! What operations leave to do. -/

theorem lock_agenda (hk : k.InPlace) (h : k.lock m = .ok (k', frames)) (a : Answer) :
    Agenda k' k.current (frames ++ [.answer a]) := by
  rcases lock_steps hk h with ⟨rfl, -⟩ | ⟨rfl, o, k₁, -, -, hlends, hblocks⟩
  · exact .plain (.answer a)
  · have hk₁ := hlends.arranged hk
    rw [← hlends.current] at hk₁ ⊢
    refine .locked (Or.inl ?_)
    rw [hblocks.thread_current hk₁]

theorem waitCondition_agenda {c : CondVarId} {timeout : Timeout} (hk : k.Sound)
    (h : k.waitCondition c m timeout = .ok (k', frames)) : Agenda k' k.current frames := by
  rcases waitCondition_ok hk.inPlace h with
    ⟨-, hsame⟩ | ⟨k₁, checks, k₂, -, hrelease, hc, hsame, hblocks⟩
  · obtain ⟨-, rfl⟩ := Prod.mk.inj hsame
    exact .plain (.answer _)
  · obtain ⟨rfl, rfl⟩ := Prod.mk.inj hsame
    have howner := release_owner hk.inPlace hrelease
    have heffect : Effect (fun _ => True) k k₁ := release_effect hk.inPlace trivial hrelease
    have hk₁ := heffect.inPlace hk.inPlace
    rw [← heffect.current] at howner ⊢
    have hidle : k'.idle ≠ some k₁.current := by
      rw [hblocks.idle]
      exact hblocks.1
    have hnot : ¬ k'.Contends k₁.current m := by
      rw [Contends, hblocks.thread_current hk₁, owner?_eq hblocks.mutexes]
      rintro (hq | hown)
      · cases hq
      · exact howner hown
    rcases hc with rfl | rfl
    · exact .relock hidle hnot
    · exact .wakes hidle hnot

theorem join_plain {t : ThreadId} (hk : k.InPlace) (h : k.join t = .ok step) : Plain step.2 := by
  rcases join_ok hk h with ⟨-, rfl⟩ | ⟨hcollect, -⟩
  · exact .answer _
  · rw [hcollect]
    simp [Plain, Frame.isPlain]

theorem storeAfter_plain {epoch : UInt32} {msg : Msg} {ahead : Bool} {r : WakeupResult}
    (h : storeAfter b epoch msg ahead r k = .ok step) : Plain step.2 := by
  rcases storeAfter_ok h with ⟨e, -, rfl⟩ | ⟨k₁, k', -, -, -, rfl⟩ <;> exact .answer _

theorem fetchAfter_plain {epoch : UInt32} {r : WakeupResult}
    (h : fetchAfter b epoch r k = .ok step) : Plain step.2 := by
  rcases fetchAfter_ok h with ⟨e, -, rfl⟩ | ⟨k₁, k', -, -, -, rfl⟩ <;> exact .answer _

/-- A wait for a unit is over, or it is left to be gone on with. -/
theorem waitUnit_plain {s : SemaphoreId} {timeout : Timeout} {state : ThreadState} {w : Wait}
    (hk : k.InPlace) (hs : state = .waitingSemaphore ∨ state = .waitingMailbox)
    (h : k.waitUnit s timeout state = .ok w) : (∃ r k', w = .over r k') ∨
      ∃ checks k', w = .blocked checks k' ∧ (checks = [] ∨ checks = [.awake]) := by
  rcases waitUnit_ok hk hs h with ⟨-, rfl⟩ | ⟨-, -, rfl⟩ | ⟨-, -, checks, k', rfl, hc, -⟩
  · exact Or.inl ⟨_, _, rfl⟩
  · exact Or.inl ⟨_, _, rfl⟩
  · exact Or.inr ⟨checks, k', rfl, hc⟩

theorem thenDo_plain {s : SemaphoreId} {timeout : Timeout} {w : Wait}
    {now : WakeupResult → Kernel → Outcome Step} {later : Frame} (hk : k.InPlace)
    (hwait : k.waitUnit s timeout .waitingMailbox = .ok w) (plain : later.isPlain = true)
    (hnow : ∀ r k₁ step, now r k₁ = .ok step → Plain step.2) (h : w.thenDo now later = .ok step) :
    Plain step.2 := by
  rcases waitUnit_plain hk (Or.inr rfl) hwait with ⟨r, k', rfl⟩ | ⟨checks, k', rfl, hc⟩
  · exact hnow r k' step h
  · obtain rfl := Except.ok.inj h
    exact .checks hc plain

theorem finish_plain (h : Operation.finish k = .ok step) : Plain step.2 := by
  obtain ⟨k', -, h⟩ := bind_eq_ok.mp h
  obtain rfl := Except.ok.inj h
  exact .answer _

/-- What is left of an operation to a thread that called it. -/
theorem operation_agenda {c : Operation} (hk : k.Sound) (htick : c ≠ .tick)
    (h : c.run k = .ok (k', frames)) : Agenda k' k.current frames := by
  have hin := hk.inPlace
  cases c with
  | tick => exact absurd rfl htick
  | lock m =>
      obtain ⟨⟨k₁, frames'⟩, hlock, h⟩ := bind_eq_ok.mp h
      obtain ⟨rfl, rfl⟩ := Prod.mk.inj (Except.ok.inj h)
      exact lock_agenda hin hlock _
  | waitCondition c m timeout => exact waitCondition_agenda hk h
  | join t => exact .plain (join_plain hin h)
  | sleep ticks =>
      rcases sleep_ok h with ⟨delay, k₁, -, -, hsame⟩ | ⟨k₁, -, -, hsame⟩
      · obtain ⟨-, rfl⟩ := Prod.mk.inj hsame
        exact .plain (.checks (Or.inr rfl) rfl)
      · obtain ⟨-, rfl⟩ := Prod.mk.inj hsame
        exact .plain (.answer _)
  | sleepUntil deadline =>
      rcases sleepUntil_ok h with ⟨delay, k₁, -, -, hsame⟩ | ⟨-, hsame⟩
      · obtain ⟨-, rfl⟩ := Prod.mk.inj hsame
        exact .plain (.checks (Or.inr rfl) rfl)
      · obtain ⟨-, rfl⟩ := Prod.mk.inj hsame
        exact .plain (.answer _)
  | suspend timeout =>
      rcases suspend_ok hin h with ⟨-, hsame⟩ | ⟨checks, k₁, hc, hsame, -⟩
      · obtain ⟨-, rfl⟩ := Prod.mk.inj hsame
        exact .plain (.answer _)
      · obtain ⟨-, rfl⟩ := Prod.mk.inj hsame
        exact .plain (.checks hc rfl)
  | waitSemaphore s timeout =>
      obtain ⟨w, hwait, h⟩ := bind_eq_ok.mp h
      rcases waitUnit_plain hin (Or.inl rfl) hwait with ⟨r, k₁, rfl⟩ | ⟨checks, k₁, rfl, hc⟩
      · obtain ⟨-, rfl⟩ := Prod.mk.inj (Except.ok.inj h)
        exact .plain (.answer _)
      · obtain ⟨-, rfl⟩ := Prod.mk.inj (Except.ok.inj h)
        exact .plain (.checks hc rfl)
  | signalAndWait s₁ s₂ =>
      obtain ⟨k₁, k₂, -, ⟨-, hsame, -⟩ | ⟨-, hsame, -⟩⟩ := signalAndWait_ok hk h
      · obtain ⟨-, rfl⟩ := Prod.mk.inj hsame
        exact .plain (.answer _)
      · obtain ⟨-, rfl⟩ := Prod.mk.inj hsame
        exact .plain (.checks (Or.inl rfl) rfl)
  | post b msg ahead timeout =>
      obtain ⟨w, hwait, h⟩ := post_ok h
      exact .plain (thenDo_plain hin hwait rfl (fun _ _ _ => storeAfter_plain) h)
  | fetch b timeout =>
      obtain ⟨w, hwait, h⟩ := fetch_ok h
      exact .plain (thenDo_plain hin hwait rfl (fun _ _ _ => fetchAfter_plain) h)
  | setPriority p =>
      unfold Operation.run setPriority at h
      dsimp only at h
      split at h
      · cases h
      · obtain ⟨k₁, -, h⟩ := bind_eq_ok.mp h
        obtain ⟨-, rfl⟩ := Prod.mk.inj (Except.ok.inj h)
        exact .plain (.answer _)
  | resume _ | signal _ | resetSemaphore _ _ | unlock _ | unlockAll | signalCondition _
  | broadcast _ | resetMailbox _ =>
      obtain ⟨k₁, -, h⟩ := bind_eq_ok.mp h
      exact .plain (finish_plain h)
  | requestTerminate t | createMutex | createCondVar =>
      obtain ⟨-, rfl⟩ := Prod.mk.inj (Except.ok.inj h)
      exact .plain (.answer _)
  | yieldTurn | createSemaphore _ | createMailbox _ | tryLock _ | setTimer _ _ | resetTimer _ =>
      obtain ⟨k₁, -, h⟩ := bind_eq_ok.mp h
      obtain ⟨-, rfl⟩ := Prod.mk.inj (Except.ok.inj h)
      exact .plain (.answer _)

end Kernel

namespace Execution
open Kernel

def Move.isTick : Move → Bool
  | .call (.operation .tick) | .interrupt .tick => true
  | _ => false

/-- Callbacks neither give way nor let a tick pass, and the code of the idle thread comes to no
end. -/
def Move.isProper (x : Execution) : Move → Bool
  | .interrupt .preempt | .interrupt .tick => x.frames.isEmpty
  | .call (.exit _) => x.kernel.idle ≠ some x.kernel.current
  | _ => true

/-- What is in order between two moves, beside the kernel. -/
structure Coherent (h : History) (x : Execution) : Prop where
  agenda : ∀ u, Agenda x.kernel u (x.framesOf u)
  undue : Firing x.frames ∨ x.kernel.timers.Undue
  staffed : x.kernel.Staffed
  clock : x.kernel.clock.total = ticks h

variable {x y : Execution} {h : History} {m : Move} {u : ThreadId} {frames rest : List Frame}

/-! While timers are handled. -/

/-- What a thread does that handles timers: it goes from one timer that is due to the next one, by
way of a callback or not, until none is due. -/
inductive Handles (x : Execution) : Move → Execution → Prop
  | ends {y : Execution} {rest : List Frame} : x.frames = .fire :: rest → Plain rest →
    x.kernel.timers.due? = none → x.kernel.timers.Undue → y.kernel.timers = x.kernel.timers →
    y.frames = rest → Handles x .advance y
  | wakes {y : Execution} {rest : List Frame} {s : TimerSlot} {t : ThreadId}
    {timers : TimerQueue timerSlots TimerAction} : x.frames = .fire :: rest → Plain rest →
    x.kernel.timers.due? = some s → (x.kernel.timers.cell s).action = some (.wakeup t) →
    x.kernel.timers.popExpired = (some (.wakeup t), timers) →
    { x.kernel with timers }.timeOut t = .ok y.kernel → y.frames = .fire :: rest →
    Handles x .advance y
  | calls {y : Execution} {rest : List Frame} {s : TimerSlot} {e : Routine} :
    x.frames = .fire :: rest → Plain rest →
    x.kernel.timers.due? = some s → (x.kernel.timers.cell s).action = some (.callback e) →
    y.kernel.timers.isArmed s = false → y.frames = .callback e false :: .fire :: rest →
    Handles x .advance y
  | enters {y : Execution} {rest : List Frame} {e : Routine} :
    x.frames = .callback e false :: .fire :: rest → Plain rest →
    y.frames = .callback e true :: .fire :: rest → Handles x .enter y
  | asks {y : Execution} {rest : List Frame} {e : Routine} {c : InterruptCall} {a : Answer} :
    c ≠ .tick → x.frames = .callback e true :: .fire :: rest → Plain rest →
    y.frames = .answer a :: .callback e true :: .fire :: rest → Handles x (.interrupt c) y
  | returns {y : Execution} {rest : List Frame} {e : Routine} {a : Answer} :
    x.frames = .answer a :: .callback e true :: .fire :: rest → Plain rest →
    y.frames = .callback e true :: .fire :: rest → Handles x .takeAnswer y
  | leaves {y : Execution} {rest : List Frame} {e : Routine} :
    x.frames = .callback e true :: .fire :: rest → Plain rest →
    y.frames = .fire :: rest → Handles x .leave y
  | collects {y : Execution} : Firing x.frames → y.kernel.timers = x.kernel.timers →
    y.frames = x.frames → Handles x .collectLog y

/-- The first timer that is due, if one is, is handled. -/
theorem fire_handles (hx : x.Fit) (hq : x.kernel.timers.Sound) (hframes : x.frames = .fire :: rest)
    (hrest : Plain rest) (hmove : x.advance = .ok y) :
    y.kernel.current = x.kernel.current ∧ Handles x .advance y := by
  obtain ⟨frames, hstep, hleft⟩ := advance_step hframes hmove
  have hcurrent := (fire_leaves hx.sound.inPlace hstep).1
  have hleft : y.frames = frames ++ rest := (frames_of_current hcurrent).trans hleft
  refine ⟨hcurrent, ?_⟩
  obtain ⟨timers, ⟨hpop, hsame⟩ | ⟨t, k₁, hpop, htimeOut, hsame⟩ | ⟨e, hpop, hsame⟩⟩ :=
    fire_ok hstep
  all_goals
    obtain ⟨hkernel, rfl⟩ := Prod.mk.inj hsame
    obtain ⟨-, ⟨ho, hdue, htimers, hundue⟩ | ⟨s, a, ho, hdue, haction, -, hfree⟩⟩ :=
      hq.popExpired_due hpop
  · exact .ends hframes hrest hdue hundue ((congrArg Kernel.timers hkernel).trans htimers) hleft
  · cases ho
  · cases ho
  · rw [← Option.some.inj ho] at haction
    rw [← hkernel] at htimeOut
    exact .wakes hframes hrest hdue haction hpop htimeOut hleft
  · cases ho
  · rw [← Option.some.inj ho] at haction
    have htimers : y.kernel.timers = timers := congrArg Kernel.timers hkernel
    rw [← htimers] at hfree
    exact .calls hframes hrest hdue haction hfree hleft

/-- In a callback it is for the callback to start, to call what does not block, or to end. -/
theorem callback_handles {e : Routine} {entered : Bool} (hx : x.Fit)
    (hframes : x.frames = .callback e entered :: .fire :: rest) (hrest : Plain rest)
    (hlog : m ≠ .collectLog) (hallows : x.allows m = true) (hproper : m.isProper x = true)
    (hmove : x.move m = .ok y) : y.kernel.current = x.kernel.current ∧ Handles x m y := by
  cases m with
  | interrupt c =>
      obtain ⟨frames, hstep, hmine⟩ := interrupt_step hmove
      have hnot : x.frames.isEmpty = false := by rw [hframes]; rfl
      have htick : c ≠ .tick := by rintro rfl; simp [Move.isProper, hnot] at hproper
      obtain ⟨hmild, a, ha⟩ := interrupt_mild hx.sound
        (by rintro rfl; simp [Move.isProper, hnot] at hproper) htick hstep
      obtain rfl : frames = [.answer a] := ha
      obtain ⟨hnil | ⟨r', rest', hcons⟩, -⟩ := allows_interrupt hallows
      · rw [hframes] at hnil
        cases hnil
      · rw [hframes] at hcons
        obtain ⟨rfl, rfl⟩ := Frame.callback.inj (List.cons.inj hcons).1
        rw [← frames_of_current hmild.current, hframes] at hmine
        exact ⟨hmild.current, .asks htick hframes hrest hmine⟩
  | enter =>
      obtain rfl := Except.ok.inj hmove
      obtain ⟨rest', hcons⟩ | ⟨e', rest', hcons⟩ := allows_enter hallows
      · rw [hframes] at hcons
        cases (List.cons.inj hcons).1
      · rw [hframes] at hcons
        obtain ⟨rfl, rfl⟩ := Frame.callback.inj (List.cons.inj hcons).1
        rw [enter_callback hframes]
        exact ⟨rfl, .enters hframes hrest (frames_setFrames x _)⟩
  | leave =>
      obtain rfl := Except.ok.inj hmove
      obtain ⟨e', rest', hcons⟩ := allows_leave hallows
      rw [hframes] at hcons
      obtain ⟨rfl, rfl⟩ := Frame.callback.inj (List.cons.inj hcons).1
      refine ⟨rfl, .leaves hframes hrest ?_⟩
      rw [dropFrame, hframes]
      exact frames_setFrames x _
  | call c =>
      rw [(allows_call hallows).1] at hframes
      cases hframes
  | takeAnswer =>
      obtain ⟨a, rest', hanswer⟩ := allows_takeAnswer hallows
      rw [hframes] at hanswer
      cases (List.cons.inj hanswer).1
  | advance =>
      obtain ⟨f, rest', hcons, -, hcallback⟩ := allows_advance hallows
      rw [hframes] at hcons
      exact absurd (List.cons.inj hcons).1.symm (hcallback e entered)
  | collectLog => exact absurd rfl hlog

/-- A thread that handles timers does nothing else. -/
theorem firing_handles (hf : Firing x.frames) (hx : x.Fit) (hq : x.kernel.timers.Sound)
    (hallows : x.allows m = true) (hproper : m.isProper x = true) (hmove : x.move m = .ok y) :
    y.kernel.current = x.kernel.current ∧ Handles x m y := by
  by_cases hlog : m = .collectLog
  · subst hlog
    obtain rfl := Except.ok.inj hmove
    exact ⟨rfl, .collects hf rfl rfl⟩
  -- One case for each place in the handling: before the next timer, in a callback, at an answer.
  generalize hframes : x.frames = l at hf
  cases hf with
  | @due rest hrest =>
      have hstart : Frame.fire ≠ .start := Frame.noConfusion
      have hcallback : ∀ e b, Frame.fire ≠ .callback e b := fun _ _ => Frame.noConfusion
      obtain ⟨rfl, -⟩ | rfl | rfl := move_amid hframes hstart hcallback hallows
      · exact fire_handles hx hq hframes hrest hmove
      · obtain ⟨a, rest', hanswer⟩ := allows_takeAnswer hallows
        rw [hframes] at hanswer
        cases (List.cons.inj hanswer).1
      · exact absurd rfl hlog
  | @calls e entered rest hrest =>
      exact callback_handles hx hframes hrest hlog hallows hproper hmove
  | @returns a e rest hrest =>
      have hstart : Frame.answer a ≠ .start := Frame.noConfusion
      have hcallback : ∀ e b, Frame.answer a ≠ .callback e b := fun _ _ => Frame.noConfusion
      obtain ⟨rfl, hanswer⟩ | rfl | rfl := move_amid hframes hstart hcallback hallows
      · exact absurd rfl (hanswer a)
      · obtain rfl := Except.ok.inj hmove
        refine ⟨rfl, .returns hframes hrest ?_⟩
        rw [dropFrame, hframes]
        exact frames_setFrames x _
      · exact absurd rfl hlog

/-- The handling of timers goes on until no timer is due. -/
theorem Handles.firing (h : Handles x m y) :
    Firing y.frames ∨ Plain y.frames ∧ y.kernel.timers.Undue := by
  cases h with
  | ends _ hrest _ hundue htimers hleft =>
      rw [htimers, hleft]
      exact Or.inr ⟨hrest, hundue⟩
  | wakes _ hrest _ _ _ _ hleft | leaves _ hrest hleft =>
      rw [hleft]
      exact Or.inl (.due hrest)
  | calls _ hrest _ _ _ hleft | enters _ hrest hleft | returns _ hrest hleft =>
      rw [hleft]
      exact Or.inl (.calls hrest)
  | asks _ _ hrest hleft =>
      rw [hleft]
      exact Or.inl (.returns hrest)
  | collects hf _ hleft =>
      rw [hleft]
      exact Or.inl hf

/-! While no timers are handled. -/

/-- A tick begins with the timers that are due. -/
theorem tick_leaves (hallows : x.allows m = true) (hproper : m.isProper x = true)
    (htick : m.isTick = true) (hmove : x.move m = .ok y) :
    y.kernel.current = x.kernel.current ∧ ∃ rest, Plain rest ∧ y.frames = .fire :: rest := by
  have hperform : ∃ step : Kernel → Outcome Step, ∃ rest, x.perform [] step = .ok y ∧ Plain rest ∧
      ∀ k frames, step x.kernel = .ok (k, frames) →
        x.kernel.beginTick = .ok k ∧ frames = .fire :: rest := by
    unfold Move.isTick at htick
    split at htick
    · have hperform : x.perform x.frames (Operation.run · .tick) = .ok y := hmove
      rw [(allows_call hallows).1] at hperform
      refine ⟨_, [.preempt, .answer .unit], hperform, by simp [Plain, Frame.isPlain], ?_⟩
      intro k frames hstep
      obtain ⟨k', hbegin, hstep⟩ := bind_eq_ok.mp hstep
      obtain ⟨rfl, rfl⟩ := Prod.mk.inj (Except.ok.inj hstep)
      exact ⟨hbegin, rfl⟩
    · have hperform : x.perform x.frames (InterruptCall.run · .tick) = .ok y := hmove
      rw [List.isEmpty_iff.mp hproper] at hperform
      refine ⟨_, [.answer .unit], hperform, .answer .unit, ?_⟩
      intro k frames hstep
      obtain ⟨k', hbegin, hstep⟩ := bind_eq_ok.mp hstep
      obtain ⟨rfl, rfl⟩ := Prod.mk.inj (Except.ok.inj hstep)
      exact ⟨hbegin, rfl⟩
    · cases htick
  obtain ⟨step, rest, hperform, hrest, hbegin⟩ := hperform
  obtain ⟨frames, hstep, hleft⟩ := perform_ok hperform
  obtain ⟨hbegin, rfl⟩ := hbegin _ _ hstep
  have hcurrent := beginTick_current hbegin
  refine ⟨hcurrent, rest, hrest, ?_⟩
  rw [frames_of_current hcurrent, hleft, if_pos rfl, List.append_nil]

/-- A frame that relies on nothing leaves nothing that does. -/
theorem frameStep_plain {k : Kernel} {f : Frame} {step : Step} (hf : f.isPlain = true)
    (h : frameStep k f = .ok step) : Plain step.2 := by
  cases f with
  | awake =>
      obtain rfl := awake_ok h
      exact nofun
  | answerWakeup | collect _ =>
      obtain rfl := Except.ok.inj h
      exact .answer _
  | answer _ =>
      obtain rfl := Except.ok.inj h
      exact nofun
  | store b epoch msg ahead => exact storeAfter_plain h
  | fetch b epoch => exact fetchAfter_plain h
  | preempt =>
      obtain ⟨k', -, h⟩ := bind_eq_ok.mp h
      obtain rfl := Except.ok.inj h
      exact nofun
  | _ => cases hf

/-- A thread calls back only while it handles timers. -/
theorem firing_of_callback {k : Kernel} {r : Routine} {entered : Bool}
    (ha : Agenda k u (.callback r entered :: rest)) : Firing (.callback r entered :: rest) := by
  cases ha with
  | plain hplain => cases hplain _ List.mem_cons_self
  | firing _ hf => exact hf

theorem start_inv {k : Kernel} (ha : Agenda k u (.start :: rest)) :
    rest = [] ∧ k.Enterable u := by
  cases ha with
  | plain hplain => cases hplain _ List.mem_cons_self
  | start he => exact ⟨rfl, he⟩
  | firing _ hf => cases hf

/-- A thread that has code to start does not end instead. -/
theorem not_advance_start (hx : x.Fit) (he : x.kernel.Enterable x.kernel.current)
    (hframes : x.frames = .start :: rest) : x.allows .advance = false := by
  have hentry : x.kernel.running.entry ≠ none := by
    refine he ?_
    rw [hx.sound.inPlace.state_current]
    exact nofun
  unfold allows turn
  rw [hframes]
  cases hcode : x.kernel.running.entry with
  | none => exact absurd hcode hentry
  | some e => rfl

theorem call_agenda {c : Call} (hx : x.Fit) (htick : (Move.call c).isTick = false)
    (hnil : x.frames = []) (hmove : x.call c = .ok y) :
    Agenda y.kernel x.kernel.current (y.framesOf x.kernel.current) := by
  cases c with
  | boot =>
      obtain ⟨e, -, rfl⟩ := boot_again hx.initialized hmove
      rw [framesOf_setFrames, if_pos rfl, hnil]
      exact .plain (.answer _)
  | spawn name p r =>
      obtain ⟨made, hgoes⟩ := spawn_goes hx.sound hmove
      rw [hgoes.mine, hnil]
      exact .plain (.answer _)
  | exit msg =>
      rw [(exit_goes hx.sound.inPlace hmove).mine]
      exact .plain nofun
  | operation c =>
      obtain ⟨frames, hstep, hleft⟩ := operation_step hmove
      rw [hleft, hnil, List.append_nil]
      refine operation_agenda hx.sound ?_ hstep
      rintro rfl
      cases htick

theorem interrupt_agenda {c : InterruptCall} (hx : x.Fit)
    (htick : (Move.interrupt c).isTick = false) (hnil : x.frames = [])
    (hmove : x.interrupt c = .ok y) :
    Agenda y.kernel x.kernel.current (y.framesOf x.kernel.current) := by
  obtain ⟨frames, hstep, hleft⟩ := interrupt_step hmove
  rw [hleft, hnil, List.append_nil]
  by_cases hpreempt : c = .preempt
  · subst hpreempt
    obtain ⟨k', -, hstep⟩ := bind_eq_ok.mp hstep
    obtain ⟨-, rfl⟩ := Prod.mk.inj (Except.ok.inj hstep)
    exact .plain (.answer _)
  · obtain ⟨-, a, ha⟩ := interrupt_mild hx.sound hpreempt (by rintro rfl; cases htick) hstep
    obtain rfl : frames = [.answer a] := ha
    exact .plain (.answer a)

theorem advance_agenda (ha : Agenda x.kernel x.kernel.current x.frames) (hnot : ¬ Firing x.frames)
    (hx : x.Fit) (hallows : x.allows .advance = true) (hmove : x.advance = .ok y) :
    Agenda y.kernel x.kernel.current (y.framesOf x.kernel.current) := by
  obtain ⟨f, rest, hframes, -⟩ := allows_advance hallows
  obtain ⟨frames, hstep, hleft⟩ := advance_step hframes hmove
  rw [hleft]
  rw [hframes] at ha hnot
  cases ha with
  | plain hplain =>
      have hstep := frameStep_plain (hplain f List.mem_cons_self) hstep
      exact .plain (.append hstep fun g hg => hplain g (List.mem_cons_of_mem f hg))
  | start he =>
      rw [not_advance_start hx he hframes] at hallows
      cases hallows
  | locked _ =>
      obtain ⟨-, rfl⟩ := Prod.mk.inj (locked_ok hstep)
      exact .plain (.answer _)
  | relock _ _ =>
      obtain ⟨⟨k', frames'⟩, hlock, hstep⟩ := bind_eq_ok.mp hstep
      obtain ⟨rfl, rfl⟩ := Prod.mk.inj (Except.ok.inj hstep)
      rw [List.append_nil]
      exact lock_agenda hx.sound.inPlace hlock _
  | wakes hidle hown =>
      obtain ⟨hkernel, rfl⟩ := Prod.mk.inj (awake_ok hstep)
      rw [hkernel]
      exact .relock hidle hown
  | firing _ hf => exact absurd hf hnot

/-- What the running thread has left to do after a move that is no tick. -/
theorem own_agenda (ha : Agenda x.kernel x.kernel.current x.frames) (hnot : ¬ Firing x.frames)
    (hx : x.Fit) (hallows : x.allows m = true) (htick : m.isTick = false) (hlog : m ≠ .collectLog)
    (hmove : x.move m = .ok y) :
    Agenda y.kernel x.kernel.current (y.framesOf x.kernel.current) := by
  have hno : ∀ {r entered rest}, x.frames ≠ .callback r entered :: rest := by
    intro r entered rest hframes
    rw [hframes] at ha hnot
    exact hnot (firing_of_callback ha)
  have hset : ∀ {l}, y = x.setFrames l → Plain l →
      Agenda y.kernel x.kernel.current (y.framesOf x.kernel.current) := by
    rintro l rfl hl
    rw [framesOf_setFrames, if_pos rfl]
    exact .plain hl
  cases m with
  | call c => exact call_agenda hx htick (allows_call hallows).1 hmove
  | interrupt c =>
      obtain ⟨hnil | ⟨r, rest, hframes⟩, -⟩ := allows_interrupt hallows
      · exact interrupt_agenda hx htick hnil hmove
      · exact absurd hframes hno
  | takeAnswer =>
      obtain ⟨a, rest, hframes⟩ := allows_takeAnswer hallows
      obtain rfl := Except.ok.inj hmove
      refine hset rfl ?_
      rw [hframes] at ha hnot ⊢
      cases ha with
      | plain hplain => exact fun g hg => hplain g (List.mem_cons_of_mem _ hg)
      | firing _ hf => exact absurd hf hnot
  | enter =>
      obtain rfl := Except.ok.inj hmove
      obtain ⟨rest, hframes⟩ | ⟨r, rest, hframes⟩ := allows_enter hallows
      · have hmine : x.enter.framesOf x.kernel.current = rest := by
          rw [enter_start hframes]
          exact (framesOf_setFrames x rest _).trans (if_pos rfl)
        rw [hframes] at ha
        rw [hmine, (start_inv ha).1]
        exact .plain nofun
      · exact absurd hframes hno
  | leave =>
      obtain ⟨r, rest, hframes⟩ := allows_leave hallows
      exact absurd hframes hno
  | advance => exact advance_agenda ha hnot hx hallows hmove
  | collectLog => exact absurd rfl hlog

/-! Every move. -/

/-- Whom a move may end is not the running thread, if it is the idle one. -/
theorem Coherent.not_ended (hc : Coherent h x) (hx : x.Fit) (hallows : x.allows m = true)
    (hproper : m.isProper x = true) (hmove : x.move m = .ok y)
    (ht : m.touches x (.thread x.kernel.current)) : x.kernel.idle ≠ some x.kernel.current := by
  have hrun := hx.sound.inPlace.state_current
  cases m with
  | call c =>
      cases c with
      | boot => exact ht.elim
      | spawn name p r =>
          obtain ⟨t, he, hs⟩ := ht
          rw [← Object.thread.inj he, hrun] at hs
          cases hs
      | exit msg => exact of_decide_eq_true hproper
      | operation c =>
          obtain rfl := Operation.touches_thread ht
          obtain ⟨frames, hstep, -⟩ := operation_step hmove
          simp [Operation.run, join, fail] at hstep
  | interrupt c => exact absurd ht InterruptCall.not_touches_thread
  | advance =>
      obtain ⟨f, rest, hframes, ht⟩ := ht
      cases f with
      | start =>
          have ha : Agenda x.kernel x.kernel.current x.frames := hc.agenda x.kernel.current
          rw [hframes] at ha
          rw [not_advance_start hx (start_inv ha).2 hframes] at hallows
          cases hallows
      | collect t =>
          obtain rfl := Object.thread.inj ht
          have hfinal := hx.ended x.kernel.current (by rw [hframes]; exact List.mem_cons_self)
          rw [hrun] at hfinal
          cases hfinal
      | _ => simp [Frame.touches, BoxParts] at ht
  | _ => exact ht.elim

/-- The clock stands still but for ticks. -/
theorem clock_of_move (hx : x.Fit) (hq : x.kernel.timers.Sound) (hallows : x.allows m = true)
    (htick : m.isTick = false) (hmove : x.move m = .ok y) : y.kernel.clock = x.kernel.clock := by
  cases hstops : Record.stops? ⟨x, m, y⟩ with
  | none =>
      refine (move_treats hx hq hallows hmove htick ?_).clock
      rw [hstops]
      exact nofun
  | some id =>
      obtain ⟨⟨timers, hkernel⟩, -⟩ := stops_ok hmove hstops
      rw [hkernel]

theorem ticks_eq (x : Execution) (m : Move) (y : Execution) (h : History) :
    ticks (⟨x, m, y⟩ :: h) = ticks h + m.isTick.toNat := by
  cases htick : m.isTick with
  | true => exact ticks_of_tick htick
  | false => exact ticks_of_not_tick htick

/-- The running thread keeps order for itself. -/
theorem Coherent.own (hc : Coherent h x) (hx : x.Fit) (hq : x.kernel.timers.Sound)
    (hallows : x.allows m = true) (hproper : m.isProper x = true) (hlog : m ≠ .collectLog)
    (hmove : x.move m = .ok y) :
    Agenda y.kernel x.kernel.current (y.framesOf x.kernel.current) ∧
      (Firing y.frames ∨ y.kernel.timers.Undue) := by
  by_cases hf : Firing x.frames
  · obtain ⟨hcurrent, hhandles⟩ := firing_handles hf hx hq hallows hproper hmove
    rw [← frames_of_current hcurrent]
    rcases hhandles.firing with hf | ⟨hplain, hundue⟩
    · exact ⟨.firing hcurrent.symm hf, Or.inl hf⟩
    · exact ⟨.plain hplain, Or.inr hundue⟩
  · cases htick : m.isTick with
    | true =>
        obtain ⟨hcurrent, rest, hrest, hframes⟩ := tick_leaves hallows hproper htick hmove
        rw [← frames_of_current hcurrent, hframes]
        exact ⟨.firing hcurrent.symm (.due hrest), Or.inl (.due hrest)⟩
    | false =>
        refine ⟨own_agenda (hc.agenda _) hf hx hallows htick hlog hmove, Or.inr ?_⟩
        exact (move_timersGo hallows hmove).turns.undue hq htick (hc.undue.resolve_left hf)

theorem Coherent.step (hc : Coherent h x) (hx : x.Fit) (hq : x.kernel.timers.Sound)
    (hallows : x.allows m = true) (hproper : m.isProper x = true) (hlog : m ≠ .collectLog)
    (hmove : x.move m = .ok y) : Coherent (⟨x, m, y⟩ :: h) y := by
  have hdoes := move_does hx hallows hmove
  obtain ⟨hown, hundue⟩ := hc.own hx hq hallows hproper hlog hmove
  refine ⟨fun u => ?_, hundue, ?_, ?_⟩
  · by_cases hu : u = x.kernel.current
    · rw [hu]
      exact hown
    · rcases move_others hx hallows hmove hu with hsame | ⟨hs, hstart⟩
      · rw [hsame]
        exact hdoes.agenda hx.sound hu (hc.agenda u)
      · rw [hstart]
        exact .start (hdoes.enterable hx.sound hu fun hne => absurd hs hne)
  · exact hdoes.staffed hx.sound hc.staffed (hc.not_ended hx hallows hproper hmove)
  · rw [ticks_eq, ← hc.clock]
    cases htick : m.isTick with
    | true =>
        obtain ⟨clock, timers, hclock, -, hkernel⟩ := beginTick_ok (tick_ok hmove htick).1
        rw [hkernel]
        rcases x.kernel.clock.advance_total with ⟨hnone, -⟩ | ⟨c', hsome, htotal⟩
        · rw [hnone] at hclock
          cases hclock
        · rw [hsome] at hclock
          rw [← Option.some.inj hclock]
          exact htotal
    | false => rw [clock_of_move hx hq hallows htick hmove, Bool.toNat_false, Nat.add_zero]

/-- Collecting the log changes nothing that anybody relies on. -/
theorem Coherent.withoutLog (hc : Coherent h x) :
    Coherent (⟨x, .collectLog, x.withoutLog⟩ :: h) x.withoutLog := by
  have hticks : ticks (⟨x, .collectLog, x.withoutLog⟩ :: h) = ticks h := ticks_of_not_tick rfl
  refine ⟨fun u => ?_, hc.undue, hc.staffed, hc.clock.trans hticks.symm⟩
  have ha := hc.agenda u
  change Agenda x.withoutLog.kernel u (x.framesOf u)
  generalize x.framesOf u = l at ha ⊢
  cases ha with
  | plain hl => exact .plain hl
  | start he => exact .start he
  | locked hc => exact .locked hc
  | relock hidle hnot => exact .relock hidle hnot
  | wakes hidle hnot => exact .wakes hidle hnot
  | firing hcur hf => exact .firing hcur hf

theorem Raised.coherent {config : Config} {k₁ k₂ : Kernel} {t : ThreadId}
    (hr : Raised config x k₁ k₂ t) (hundue : x.kernel.timers.Undue)
    (hclock : x.kernel.clock = {}) : Coherent [] x := by
  have hsuspended : ((withIdle k₁ t).thread t).state = .suspended := by
    change ((k₁.replaceThread t _).thread t).state = .suspended
    rw [thread_replaceThread, if_pos rfl]
    rfl
  have hresume : (withIdle k₁ t).resume t = .ok k₂ := by
    unfold resume
    rw [if_pos hsuspended]
    exact hr.ready
  have hwakes := (resume_ok hr.sound.inPlace hresume).2
  have hent : (withIdle k₁ t).Enterable t := by
    change (k₁.replaceThread t _).Enterable t
    rw [Enterable, thread_replaceThread, if_pos rfl]
    simp [Thread.create]
  refine ⟨fun u => ?_, Or.inr hundue, ?_, ?_⟩
  · rcases hr.frames u with hnil | ⟨a, ha⟩ | ⟨rfl, hstart⟩
    · rw [hnil]
      exact .plain fun f hf => absurd hf List.not_mem_nil
    · rw [ha]
      exact .plain (.answer a)
    · rw [hstart, hr.kernel]
      have hready : k₂.Enterable u := hent.wakes hwakes
      exact .start hready
  · refine ⟨t, ?_, ?_⟩
    · rw [hr.kernel]
      exact hwakes.moves.idle
    · rw [hr.kernel]
      change (k₂.thread t).state.isRunnable = true
      rw [hwakes.moves.thread_self]
      rfl
  · rw [hclock]
    rfl

theorem Booted.coherent (hb : Booted x) : Coherent [] x := by
  obtain ⟨config, k₁, k₂, t, hr⟩ := hb.raised
  obtain ⟨-, -, hclock⟩ := hb.induction (P := fun k => k.timers.Sound ∧ k.clock = {})
    (fun _ => ⟨TimerQueue.sound_empty _ _, rfl⟩) (fun _ _ hP => hP) fun k k' _ he hP =>
      have hkeeps := he.keepsTime hP.1 (by rintro ⟨t, ⟨⟩⟩)
      ⟨hkeeps.sound, hkeeps.clock.trans hP.2⟩
  refine hr.coherent ?_ hclock
  obtain ⟨config, platform, hboot, -⟩ := hb
  have hgo := move_timersGo (x := fresh config platform) (m := .call .boot) rfl hboot
  exact hgo.turns.undue (TimerQueue.sound_empty _ _) rfl (TimerQueue.undue_empty _ _)

/-- As long as callbacks and the idle thread keep to what they have to, all is in order. -/
theorem Reaches.coherent (hr : Reaches h x) (hj : JoinedOnce h)
    (hp : ∀ r ∈ h, r.move.isProper r.before = true) : Coherent h x := by
  induction hr with
  | boot hb => exact hb.coherent
  | @move h x y m hr hallows hmove ih =>
      have hc := ih hj.tail fun r hmem => hp r (List.mem_cons_of_mem _ hmem)
      by_cases hlog : m = .collectLog
      · subst hlog
        obtain rfl := Except.ok.inj hmove
        exact hc.withoutLog
      · obtain ⟨r, harises⟩ := hr.arises
        exact hc.step (hr.orderly hj.tail).fit harises.sound hallows
          (hp _ List.mem_cons_self) hlog hmove

end Execution

end RealtimeKernel

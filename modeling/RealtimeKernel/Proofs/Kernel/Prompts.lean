import RealtimeKernel.Execution.Call
import RealtimeKernel.Proofs.Kernel.Balance
import RealtimeKernel.Proofs.Kernel.Totality

/-!
Posts and fetches that do not wait. A thread begins a wait with them that is to end at once; where
nothing may block the counter is tested instead. Both come to one exchange: a unit of the one side
is taken, a message goes into the ring or out of it, and a unit is passed on to the other side.
Only a thread gives way after that.
-/
namespace RealtimeKernel

/-- Who waits for what this side gives. -/
def Side.other : Side → Side
  | .producer => .consumer
  | .consumer => .producer

/-- A post or a fetch by someone who does not wait. -/
inductive Prompt where
  | post (msg : Msg) (ahead : Bool)
  | fetch
  deriving DecidableEq, Repr

namespace Prompt

/-- As a thread calls for it. -/
def operation (b : MailboxId) : Prompt → Operation
  | post msg ahead => .post b msg ahead .immediate
  | fetch => .fetch b .immediate

/-- As it is called for where nothing may block. -/
def interrupt (b : MailboxId) : Prompt → InterruptCall
  | post msg ahead => .post b msg ahead
  | fetch => .fetch b

/-- Whose units it takes; it gives units to the other side. -/
def side : Prompt → Side
  | post .. => .producer
  | fetch => .consumer

/-- What it makes of the ring. -/
def onRing {c : Nat} (ring : Ring Msg c) : Prompt → Ring Msg c
  | post msg ahead => if ahead then ring.pushFront msg else ring.pushBack msg
  | fetch => ring.popFront.2

/-- The answer if there is a unit. -/
def success {c : Nat} (ring : Ring Msg c) : Prompt → Answer
  | post .. => .posted (.ok ())
  | fetch => .fetched (.ok ring.popFront.1)

/-- The answer if there is none. -/
def refusal : Prompt → Answer
  | post .. => .posted (.error .timeout)
  | fetch => .fetched (.error .timeout)

end Prompt

namespace Kernel

variable {k k' : Kernel} {b : MailboxId} {p : Prompt}

/-- The units of a mailbox for one side. -/
def units (k : Kernel) (b : MailboxId) (side : Side) : Int :=
  k.semaphoreCount ((k.mailbox b).gate side)

/-- A unit of the one side is taken, and a message goes in or out. -/
def stir (k : Kernel) (b : MailboxId) (p : Prompt) : Kernel :=
  let box := k.mailbox b
  (k.setSemaphoreCount (box.gate p.side) (k.units b p.side - 1)).setMailbox b
    { box with ring := p.onRing box.ring }

/-- The same, and then a unit is passed on to the other side. -/
def exchange (k : Kernel) (b : MailboxId) (p : Prompt) : Outcome Kernel :=
  (k.stir b p).signal ((k.mailbox b).gate p.side.other)

/-- What an exchange comes to. -/
inductive Exchanges (b : MailboxId) (p : Prompt) (k : Kernel) : Kernel → Prop
  /-- Nobody waits for the unit that is passed on. -/
  | keeps : k.members (.semaphore ((k.mailbox b).gate p.side.other)) = [] →
    Exchanges b p k ((k.stir b p).setSemaphoreCount ((k.mailbox b).gate p.side.other)
      (k.units b p.side.other + 1))
  /-- The first one who waits for it has it. -/
  | hands {k' : Kernel} {t : ThreadId} :
    (k.members (.semaphore ((k.mailbox b).gate p.side.other))).head? = some t →
    Wakes t .ok ((k.stir b p).setSemaphoreCount ((k.mailbox b).gate p.side.other)
      (k.units b p.side.other + 1)) k' → Exchanges b p k k'

/-! Both kinds of calls come to the exchange, or to nothing. -/

theorem interrupt_of_unit (h : 0 < k.units b p.side) :
    (p.interrupt b).run k = do
      return (← k.exchange b p, [.answer (p.success (k.mailbox b).ring)]) := by
  cases p with
  | post msg ahead =>
      have htake : k.takeUnit? (k.mailbox b).empty = _ := if_pos h
      simp only [Prompt.interrupt, InterruptCall.run, postNow, htake, bind_assoc, pure_bind]
      rfl
  | fetch =>
      have htake : k.takeUnit? (k.mailbox b).full = _ := if_pos h
      simp only [Prompt.interrupt, InterruptCall.run, fetchNow, htake, bind_assoc, pure_bind]
      rfl

theorem interrupt_of_none (h : k.units b p.side ≤ 0) :
    (p.interrupt b).run k = .ok (k, [.answer p.refusal]) := by
  cases p with
  | post msg ahead =>
      have htake : k.takeUnit? (k.mailbox b).empty = none := if_neg (not_lt.mpr h)
      simp only [Prompt.interrupt, InterruptCall.run, postNow, htake]
      rfl
  | fetch =>
      have htake : k.takeUnit? (k.mailbox b).full = none := if_neg (not_lt.mpr h)
      simp only [Prompt.interrupt, InterruptCall.run, fetchNow, htake]
      rfl

/-- With a unit at hand no wait begins, whatever its timeout is. -/
theorem waitUnit_of_unit {s : SemaphoreId} {timeout : Timeout} {state : ThreadState}
    (h : 0 < k.semaphoreCount s) : k.waitUnit s timeout state =
      .ok (.over .ok (k.setSemaphoreCount s (k.semaphoreCount s - 1))) := by
  have hcount : k.semaphoreCount s - 1 ≥ 0 := by omega
  unfold waitUnit
  rw [if_pos hcount]
  rfl

theorem waitUnit_of_none {s : SemaphoreId} {state : ThreadState}
    (h : k.semaphoreCount s ≤ 0) : k.waitUnit s .immediate state = .ok (.over .timeout k) := by
  have hcount : ¬ k.semaphoreCount s - 1 ≥ 0 := by omega
  unfold waitUnit
  rw [if_neg hcount, if_pos rfl]
  rfl

/-- No other thread ran in between, so the epoch is still that in which the wait began. -/
theorem admission_of_unit (k : Kernel) (b : MailboxId) (s : SemaphoreId) (count : Int) :
    (k.setSemaphoreCount s count).admission b (k.mailbox b).epoch .ok = .ok () :=
  admission_eq_ok.mpr ⟨rfl, rfl⟩

theorem operation_of_unit (h : 0 < k.units b p.side) :
    (p.operation b).run k = do
      let k' ← k.exchange b p
      return (← k'.preempt, [.answer (p.success (k.mailbox b).ring)]) := by
  cases p with
  | post msg ahead =>
      have hwait : k.waitUnit (k.mailbox b).empty .immediate .waitingMailbox = _ :=
        waitUnit_of_unit h
      simp only [Prompt.operation, Operation.run, Kernel.post, hwait]
      change storeAfter b (k.mailbox b).epoch msg ahead .ok _ = _
      unfold storeAfter
      rw [admission_of_unit]
      rfl
  | fetch =>
      have hwait : k.waitUnit (k.mailbox b).full .immediate .waitingMailbox = _ :=
        waitUnit_of_unit h
      simp only [Prompt.operation, Operation.run, Kernel.fetch, hwait]
      change fetchAfter b (k.mailbox b).epoch .ok _ = _
      have hbox : (k.stir b .fetch).mailbox b = _ :=
        mailbox_takeMessage (k.setSemaphoreCount (k.mailbox b).full _) b
      unfold fetchAfter
      rw [admission_of_unit]
      change (do
        let k' ← (k.stir b .fetch).signal ((k.stir b .fetch).mailbox b).empty
        return (← k'.preempt, _)) = _
      rw [hbox]
      rfl

theorem operation_of_none (h : k.units b p.side ≤ 0) :
    (p.operation b).run k = .ok (k, [.answer p.refusal]) := by
  cases p with
  | post msg ahead =>
      have hwait : k.waitUnit (k.mailbox b).empty .immediate .waitingMailbox = _ :=
        waitUnit_of_none h
      simp only [Prompt.operation, Operation.run, Kernel.post, hwait]
      rfl
  | fetch =>
      have hwait : k.waitUnit (k.mailbox b).full .immediate .waitingMailbox = _ :=
        waitUnit_of_none h
      simp only [Prompt.operation, Operation.run, Kernel.fetch, hwait]
      rfl

/-! What the exchange does, and when it fails. -/

theorem stir_sound (hk : k.Sound) (h : 0 < k.units b p.side) : (k.stir b p).Sound := by
  have htake : Effect (fun _ => True) k
      (k.setSemaphoreCount ((k.mailbox b).gate p.side) (k.units b p.side - 1)) :=
    .recount trivial h.le (by omega)
  have hwrite : Effect (fun _ => True)
      (k.setSemaphoreCount ((k.mailbox b).gate p.side) (k.units b p.side - 1)) (k.stir b p) :=
    .write _ (k.mailbox b).epoch trivial
  exact hwrite.sound (htake.sound hk)

/-- Taking a unit from the one side leaves those of the other side alone. -/
theorem stir_units (hb : k.Boxed) (hin : k.mailboxes.contains b = true) :
    (k.stir b p).semaphoreCount ((k.mailbox b).gate p.side.other) = k.units b p.side.other := by
  have hne : p.side.other ≠ p.side := by cases p <;> nofun
  exact (semaphoreCount_gate hb hin p.side p.side.other _).trans (if_neg hne)

theorem exchange_ok (hk : k.Sound) (hin : k.mailboxes.contains b = true)
    (h : 0 < k.units b p.side) (hs : k.exchange b p = .ok k') : Exchanges b p k k' := by
  have hunits : (k.stir b p).semaphoreCount ((k.mailbox b).gate p.side.other) =
      k.units b p.side.other := stir_units hk.boxed hin
  have hstir := stir_sound hk h
  rcases signal_ok hstir hs with ⟨hcount, rfl⟩ | ⟨-, t, hhead, hwakes⟩
  · rw [hunits]
    exact .keeps (hstir.counted.members_eq_nil hcount)
  · rw [hunits] at hwakes
    exact .hands hhead hwakes

theorem exists_exchange (hk : k.Sound) (hq : k.timers.Sound)
    (hin : k.mailboxes.contains b = true) (h : 0 < k.units b p.side)
    (hroom : k.units b p.side.other ≠ maxCount) : ∃ k', k.exchange b p = .ok k' := by
  have hcount : (k.stir b p).semaphoreCount ((k.mailbox b).gate p.side.other) ≠ maxCount :=
    (stir_units hk.boxed hin).trans_ne hroom
  have hfails : FailsOnly (fun _ => False) (k.exchange b p) :=
    signal_fails (stir_sound hk h).inPlace hq hcount
  exact hfails.total fun _ => id

/-- A unit that the counter of the other side cannot hold is noticed when it is passed on. -/
theorem exchange_of_max (hk : k.Sound) (hin : k.mailboxes.contains b = true)
    (hmax : k.units b p.side.other = maxCount) :
    k.exchange b p = .error ⟨.counterOverflow, k.stir b p⟩ := by
  have hcount : ((k.stir b p).semaphores.get ((k.mailbox b).gate p.side.other)).count =
      2147483647 := (stir_units hk.boxed hin).trans hmax
  unfold exchange signal addUnit
  rw [if_pos hcount]
  rfl

end Kernel

end RealtimeKernel

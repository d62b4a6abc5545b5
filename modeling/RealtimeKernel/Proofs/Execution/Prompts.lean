import RealtimeKernel.Proofs.Execution.Creation
import RealtimeKernel.Proofs.Execution.Mailboxes
import RealtimeKernel.Proofs.Kernel.Prompts
import RealtimeKernel.Proofs.Kernel.Waits

/-!
Posts and fetches that do not wait, in every execution. Threads and interrupt code each have their
own calls for that. Threads may wait at the mailbox, or may have been handed a unit and not run
since: in any case the two kinds of calls do the same, but for the thread giving way at the end.
-/
namespace RealtimeKernel.Execution
open Kernel

variable {x : Execution} {h : History} {b : MailboxId} {p : Prompt}

/-- What a post or a fetch that does not wait comes to: first as interrupt code calls for it, then
as a thread does. -/
inductive Concur (b : MailboxId) (p : Prompt) (x : Execution) :
    Outcome Execution → Outcome Execution → Prop
  /-- Without a unit both are turned down, and nothing happens but that. -/
  | refused : x.kernel.units b p.side ≤ 0 →
    Concur b p x (.ok (x.answered p.refusal)) (.ok (x.answered p.refusal))
  /-- With a unit both make the same exchange and answer the same. The thread gives way after that,
  if that is required, but it is not blocked. -/
  | served {k k' : Kernel} : 0 < x.kernel.units b p.side → Exchanges b p x.kernel k →
    k.preempt = .ok k' → (k'.thread x.kernel.current).state.isRunnable = true →
    Concur b p x (.ok { x.answered (p.success (x.kernel.mailbox b).ring) with kernel := k })
      (.ok { x.answered (p.success (x.kernel.mailbox b).ring) with kernel := k' })
  /-- If no counter can hold the unit that is passed on, both fail alike. -/
  | exhausted : 0 < x.kernel.units b p.side → x.kernel.units b p.side.other = maxCount →
    Concur b p x (.error ⟨.counterOverflow, x.kernel.stir b p⟩)
      (.error ⟨.counterOverflow, x.kernel.stir b p⟩)

/-- To a mailbox a thread that does not wait is like interrupt code. -/
structure PromptsAgree (b : MailboxId) (h : History) (x : Execution) : Prop where
  concur : ∀ p : Prompt, Concur b p x (x.move (.interrupt (p.interrupt b)))
    (x.move (.call (.operation (p.operation b))))
  /-- No counter is exhausted as long as the semaphores are used through the mailbox only. -/
  spare : OwnGates b h → ShortWaits b h → ∀ side, x.kernel.units b side ≠ maxCount

theorem interrupt_eq (x : Execution) (c : InterruptCall) :
    x.move (.interrupt c) = x.perform x.frames c.run := rfl

theorem operation_eq (x : Execution) (c : Operation) :
    x.move (.call (.operation c)) = x.perform x.frames c.run := rfl

theorem perform_error {halt : Halt} {rest : List Frame} {step : Kernel → Outcome Step}
    (hstep : step x.kernel = .error halt) : x.perform rest step = .error halt := by
  rw [perform, hstep]
  rfl

/-- Neither side of a mailbox ever has more units than there are cells. -/
theorem Served.units_le (hs : Served b h x) (side : Side) :
    x.kernel.units b side ≤ (x.kernel.mailbox b).capacity := by
  have haccount := hs.balanced.account side
  have hlength := hs.balanced.ring.length_le
  have hstock : (x.kernel.mailbox b).stock (contents b h) side ≤ (x.kernel.mailbox b).capacity := by
    cases side with
    | producer =>
        change ((x.kernel.mailbox b).capacity : Int) - (contents b h).length ≤ _
        omega
    | consumer => exact Int.ofNat_le.mpr hlength
  rw [if_neg nofun] at haccount
  unfold units
  omega

theorem concur_of_none (h : x.kernel.units b p.side ≤ 0) :
    Concur b p x (x.move (.interrupt (p.interrupt b)))
      (x.move (.call (.operation (p.operation b)))) := by
  rw [interrupt_eq, operation_eq, perform_answer (interrupt_of_none h),
    perform_answer (operation_of_none h)]
  exact .refused h

theorem concur_of_unit (hk : x.kernel.Sound) (hq : x.kernel.timers.Sound)
    (hin : x.kernel.mailboxes.contains b = true) (h : 0 < x.kernel.units b p.side) :
    Concur b p x (x.move (.interrupt (p.interrupt b)))
      (x.move (.call (.operation (p.operation b)))) := by
  have hinterrupt := interrupt_of_unit h
  have hoperation := operation_of_unit h
  rw [interrupt_eq, operation_eq]
  by_cases hmax : x.kernel.units b p.side.other = maxCount
  · rw [exchange_of_max hk hin hmax] at hinterrupt hoperation
    rw [perform_error hinterrupt, perform_error hoperation]
    exact .exhausted h hmax
  · obtain ⟨k, hexchange⟩ := exists_exchange hk hq hin h hmax
    have hstir := stir_sound hk h
    have hsignal : Effect (fun _ => True) (x.kernel.stir b p) k :=
      signal_effect hstir trivial hexchange
    have hplace := (hsignal.sound hstir).inPlace
    obtain ⟨k', hpreempt⟩ :=
      FailsOnly.total (P := fun _ => False) (preempt_fails hplace) fun _ => id
    have hruns := preempt_runnable hplace hpreempt
    rw [hsignal.current] at hruns
    rw [hexchange] at hinterrupt hoperation
    change _ = (do return (← k.preempt, _)) at hoperation
    rw [hpreempt] at hoperation
    rw [perform_answer hinterrupt, perform_answer hoperation]
    exact .served h (exchange_ok hk hin h hexchange) hpreempt hruns

/-- Whatever was done so far, posts and fetches that do not wait do the same, whoever calls for
them. -/
theorem reaches_promptsAgree (h : History) (x : Execution) (b : MailboxId) (hr : Reaches h x)
    (hj : JoinedOnce h) (hb : x.kernel.mailboxes.contains b = true) : PromptsAgree b h x := by
  have hk := (hr.orderly hj).sound
  obtain ⟨r, harises⟩ := hr.arises
  refine ⟨fun p => ?_, fun ho hw side hmax => ?_⟩
  · rcases le_or_gt (x.kernel.units b p.side) 0 with hnone | hunit
    · exact concur_of_none hnone
    · exact concur_of_unit hk harises.sound hb hunit
  · have hle := ((hr.known hj ho hw).served hb).units_le side
    have hcapacity : (x.kernel.mailbox b).capacity < maxCount :=
      (hk.boxed.size b hb).trans_lt (by decide)
    omega

/-- Two threads wait for a message. One comes, and the first of the two is handed it, but does not
run yet. -/
def promised : List Move :=
  [.takeAnswer, .call (.operation (.createMailbox 2)), .takeAnswer,
    .call (.spawn "first" .normal "work"), .takeAnswer,
    .call (.spawn "second" .normal "work"), .takeAnswer, .call (.operation .yieldTurn), .enter,
    .call (.operation (.fetch 0 .infinite)), .enter, .call (.operation (.fetch 0 .infinite)),
    .takeAnswer, .call (.operation (.post 0 7 false .infinite)), .takeAnswer]

theorem promptsAgree_promised : Reaches (enact promised).1 (enact promised).2 ∧
    JoinedOnce (enact promised).1 ∧ (enact promised).2.kernel.mailboxes.contains 0 = true ∧
    (enact promised).2.kernel.units 0 .consumer = -1 ∧
    (enact promised).2.kernel.granted 0 ((enact promised).2.claims 0) .consumer = 1 ∧
    PromptsAgree 0 (enact promised).1 (enact promised).2 :=
  have hr := reaches_enact (by decide +kernel)
  have hj : JoinedOnce (enact promised).1 := by decide +kernel
  have hb : (enact promised).2.kernel.mailboxes.contains 0 = true := by decide +kernel
  ⟨hr, hj, hb, by decide +kernel, by decide +kernel, reaches_promptsAgree _ _ 0 hr hj hb⟩

/-- The message is there, but it is promised: no fetch gets it. -/
example : [Move.interrupt (.fetch 0), .call (.operation (.fetch 0 .immediate))].all (fun m =>
    match (enact promised).2.move m with
    | .ok y => (y.kernel.mailbox 0).ring.contents 1 == [7] &&
      (match y.frames with
        | .answer (.fetched (.error .timeout)) :: _ => true
        | _ => false)
    | .error _ => false) = true := by decide +kernel

end RealtimeKernel.Execution

import RealtimeKernel.Proofs.Execution.TimerIds
import RealtimeKernel.Proofs.Kernel.Releases

/-!
The order of unlocking, in every execution: whichever way the running thread gives its mutexes
back, the same threads own them afterwards and it is left with the same priority.
-/
namespace RealtimeKernel.Execution
open Kernel

variable {h : History} {x : Execution}

/-- The running thread may unlock its mutexes in any order. -/
structure UnlocksInAnyOrder (x : Execution) : Prop where
  /-- Some of them, each once. -/
  each : ∀ l : List MutexId, l ≠ [] → l.Nodup → (∀ m ∈ l, m ∈ x.kernel.running.held) →
    ∃ k, x.kernel.releaseEach l = .ok k ∧ Released l x.kernel k ∧
      ∀ l', l.Perm l' → ∃ k', x.kernel.releaseEach l' = .ok k' ∧ SameButTurns k k'
  /-- All of them at once, after which the processor is given away if need be. -/
  all : ∃ k y, x.kernel.releaseAll = .ok k ∧
    (x.kernel.running.held ≠ [] → Released x.kernel.running.held x.kernel k) ∧
    (∀ l, x.kernel.running.held.Perm l →
      ∃ k', x.kernel.releaseEach l = .ok k' ∧ SameButTurns k k') ∧
    k.preempt = .ok y.kernel ∧ x.move (.call (.operation .unlockAll)) = .ok y

/-- In every execution the running thread may unlock its mutexes in any order. -/
theorem reaches_unlocks (h : History) (x : Execution) (hr : Reaches h x) (hj : JoinedOnce h) :
    UnlocksInAnyOrder x := by
  have hk := (hr.orderly hj).sound
  obtain ⟨r, harises⟩ := hr.arises
  have hq : x.kernel.timers.Sound := harises.sound
  refine ⟨fun l hl hnodup hheld => ?_, ?_⟩
  · obtain ⟨k, heach, -, -, hreleased⟩ := releaseEach_handsOver hk hq hnodup hheld
    exact ⟨k, heach, hreleased hl, fun l' => releaseEach_perm hk hq hnodup hheld heach⟩
  · -- All mutexes are released in the reverse order of locking, which is one order among others.
    have hperm := List.reverse_perm x.kernel.running.held
    have hnodup := hperm.nodup_iff.mpr (hk.owned.nodup x.kernel.current)
    have hheld : ∀ m ∈ x.kernel.running.held.reverse, m ∈ x.kernel.running.held :=
      fun m => List.mem_reverse.mp
    obtain ⟨k, heach, hsound, -, hreleased⟩ := releaseEach_handsOver hk hq hnodup hheld
    have hall : x.kernel.releaseAll = .ok k := (releaseUpTo_eq_releaseEach hk rfl).trans heach
    obtain ⟨k', hpreempt⟩ := FailsOnly.total (P := fun _ => False)
      (preempt_fails hsound.inPlace) fun _ => id
    refine ⟨k, { x.setFrames (.answer .unit :: x.frames) with kernel := k' }, hall,
      fun hne => ?_, fun l hl => releaseEach_perm hk hq hnodup hheld heach (hperm.trans hl),
      hpreempt, ?_⟩
    · exact (hreleased (mt List.reverse_eq_nil_iff.mp hne)).of_perm hperm
    · have hrun : Operation.unlockAll.run x.kernel = .ok (k', [.answer .unit]) := by
        rw [Operation.run, hall]
        change Operation.finish k = _
        rw [Operation.finish, hpreempt]
        rfl
      change x.perform x.frames Operation.unlockAll.run = _
      rw [perform, hrun]
      rfl

/-- The boot thread owns three mutexes. Two threads of a higher priority wait for the first and for
the last of them. -/
def contended : List Move :=
  .takeAnswer :: (List.replicate 3 [.call (.operation .createMutex), .takeAnswer]).flatten ++
    [.call (.operation (.lock 0)), .takeAnswer, .call (.operation (.lock 1)), .takeAnswer,
      .call (.operation (.lock 2)), .takeAnswer, .call (.spawn "first" .critical "work"), .enter,
      .call (.operation (.lock 0)), .takeAnswer, .call (.spawn "second" .critical "work"),
      .takeAnswer, .call (.operation .yieldTurn), .enter, .call (.operation (.lock 2)),
      .takeAnswer]

theorem unlocks_contended : Reaches (enact contended).1 (enact contended).2 ∧
    JoinedOnce (enact contended).1 ∧ UnlocksInAnyOrder (enact contended).2 :=
  have hr := reaches_enact (by decide +kernel)
  have hj : JoinedOnce (enact contended).1 := by decide +kernel
  ⟨hr, hj, reaches_unlocks _ _ hr hj⟩

/-- The turns of the new owners depend on the order of unlocking. -/
example : [[0, 2], [2, 0]].map (fun l =>
    match (enact contended).2.kernel.releaseEach l with
    | .ok k => k.members .ready
    | .error _ => []) = [[2, 3, 1], [3, 2, 1]] := by decide +kernel

end RealtimeKernel.Execution

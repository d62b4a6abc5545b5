import RealtimeKernel.Proofs.Execution.Safety

/-!
What a tick comes to. The timers that are due are handled one by one, and callbacks run in between,
which start and stop timers as they like. Still exactly those timers are handled that were to come
in this tick and that nobody stopped before it was their turn, the one armed last first, and the
handling ends as soon as the callbacks do.
-/
namespace RealtimeKernel

/-- Is it left to handle the timers that are due? -/
def Frame.isFire : Frame → Bool
  | .fire => true
  | _ => false

namespace Execution
open Kernel

/-- Are timers being handled? -/
def isHandling (x : Execution) : Bool := x.frames.any Frame.isFire

/-- The moves with which timers are handled once a tick began. Callbacks may do whatever does not
block, but they neither give way nor let a tick pass. -/
inductive Handling (y : Execution) : History → Execution → Prop
  | start : Handling y [] y
  | move {during : History} {z w : Execution} {m : Move} : Handling y during z →
    z.isHandling = true → z.allows m = true → m.isProper z = true → z.move m = .ok w →
    Handling y (⟨z, m, w⟩ :: during) w

/-- Has a slot the same timer after a move as before? -/
def Record.spares (s : TimerSlot) (r : Record) : Bool :=
  r.after.kernel.timers.isArmed s &&
    r.after.kernel.timers.generation s == r.before.kernel.timers.generation s

/-- The timer of a slot was neither handled nor stopped. -/
def Spared (s : TimerSlot) (during : History) : Prop := ∀ r ∈ during, r.spares s = true

/-- Does a move stop the timer of a slot without handling it? -/
def Record.disarms (s : TimerSlot) (r : Record) : Bool := !r.spares s && r.fires? ≠ some s

/-- When the timer of a slot was armed, by the number of the move. -/
def armedAt (s : TimerSlot) : History → Nat
  | [] => 0
  | r :: h =>
    if r.after.kernel.timers.generation s = r.before.kernel.timers.generation s then armedAt s h
    else h.length + 1

/-- The slots whose timers were handled, the last one first. -/
def handled (during : History) : List TimerSlot := during.filterMap Record.fires?

/-- The timers that are to come in the next tick. -/
def dueNext (x : Execution) : List TimerSlot :=
  (List.finRange timerSlots).filter fun s => x.kernel.timers.remaining s = some 1

def Move.isInterrupt : Move → Bool
  | .interrupt _ => true
  | _ => false

/-- The handling of timers in a tick that began when `h` had led to `x`. -/
structure Handled (h : History) (x : Execution) (during : History) (z : Execution) : Prop where
  /-- Each move goes from one timer that is due to the next one. -/
  steps : ∀ r ∈ during, Handles r.before r.move r.after
  /-- What is handled was to come in this tick, and it has been neither handled nor stopped since.
  So it was not armed during the tick. -/
  due : ∀ later r earlier s, during = later ++ r :: earlier → r.fires? = some s →
    s ∈ x.dueNext ∧ Spared s earlier
  /-- Of two timers that are handled the one that was armed later is handled first. -/
  order : (handled during).Pairwise fun s s' => armedAt s h < armedAt s' h
  /-- A callback that is about to start finds its own slot free. -/
  free : ∀ e rest, z.frames = .callback e false :: rest →
    ∃ s, (handled during).head? = some s ∧ (x.kernel.timers.cell s).action = some (.callback e) ∧
      z.kernel.timers.isArmed s = false
  /-- The deadlines of the other timers are what they were, which is one tick less to go. -/
  kept : ∀ s d, x.kernel.timers.remaining s = some (d + 1) → Spared s during →
    z.kernel.timers.remaining s = some d
  /-- The handling takes no more moves than it takes to handle what is due, once callbacks come to
  an end. -/
  bounded : during.length ≤ 3 * x.dueNext.length + 2 * during.countP (·.move.isInterrupt) +
    during.countP (·.move = .collectLog) + 1
  /-- As long as timers are handled it can go on, whatever callbacks do. -/
  goesOn : z.isHandling = true → ∃ m w, m ∈ [Move.advance, .enter, .takeAnswer, .leave] ∧
    z.allows m = true ∧ z.move m = .ok w
  /-- And what a callback calls only fails if it misuses the kernel, unless a counter is
  exhausted. -/
  misuse : z.isHandling = true → ∀ c halt, z.allows (.interrupt c) = true →
    Move.isProper z (.interrupt c) = true →
    (∀ s ∈ Move.gives? z (.interrupt c), z.kernel.semaphoreCount s ≠ maxCount) →
    z.move (.interrupt c) = .error halt → Misuse z (.interrupt c) halt.fault
  /-- In the end every timer that was to come was handled, unless it was stopped before its turn. -/
  complete : z.isHandling = false → ∀ s ∈ x.dueNext, ∃ later r earlier,
    during = later ++ r :: earlier ∧ Spared s earlier ∧
      (r.fires? = some s ∨ r.disarms s = true)
  /-- In the end no timer is due. -/
  undue : z.isHandling = false → z.kernel.timers.Undue

variable {x y z w : Execution} {h during later earlier : History} {m : Move} {r : Record}
  {s s' : TimerSlot} {rest : List Frame}

/-! What one move does to the timers. -/

theorem spares_iff : r.spares s = true ↔ r.after.kernel.timers.isArmed s = true ∧
    r.after.kernel.timers.generation s = r.before.kernel.timers.generation s := by
  simp [Record.spares]

theorem Turns.stays (h : Turns r) (hq : r.before.kernel.timers.Sound) (tick : r.isTick = false)
    (hs : r.spares s = true) : r.before.kernel.timers.Stays s r.after.kernel.timers := by
  obtain ⟨harmed, hgeneration⟩ := spares_iff.mp hs
  cases h with
  | adjusts _ _ hadjusts => exact hadjusts.stays hq harmed hgeneration
  | advances htick =>
      rw [tick] at htick
      cases htick
  | fires _ _ hpop hcuts =>
      have hstays := hcuts.stays (hq.popExpired hpop).1 harmed
      exact ((hq.popExpired_due hpop).1 s (hstays.isArmed ▸ harmed)).trans hstays

/-- A timer that is due after a move that is no tick was there before. -/
theorem Turns.spares_of_due (h : Turns r) (hq : r.before.kernel.timers.Sound)
    (tick : r.isTick = false) (hdue : r.after.kernel.timers.remaining s = some 0) :
    r.spares s = true := by
  have harmed : r.after.kernel.timers.isArmed s = true := by
    rw [(h.sound hq).isArmed_iff, hdue]
    rfl
  refine spares_iff.mpr ⟨harmed, ?_⟩
  cases h with
  | adjusts _ _ hadjusts => exact hadjusts.generation_of_due hq hdue
  | advances htick =>
      rw [tick] at htick
      cases htick
  | fires _ _ hpop hcuts =>
      exact (hcuts.generation s).trans (TimerQueue.generation_popExpired hpop s)

/-- What is handled is due, and then it is gone. -/
theorem Turns.of_fires (h : Turns r) (hq : r.before.kernel.timers.Sound)
    (hf : r.fires? = some s) : r.before.kernel.timers.due? = some s ∧ r.spares s = false := by
  cases h with
  | adjusts _ hnone | advances _ hnone =>
      rw [hnone] at hf
      cases hf
  | fires _ hdue hpop hcuts =>
      rw [hdue] at hf
      refine ⟨hf, Bool.eq_false_iff.mpr fun hs => ?_⟩
      have harmed := (spares_iff.mp hs).1
      rw [(hcuts.stays (hq.popExpired hpop).1 harmed).isArmed,
        TimerQueue.isArmed_popExpired hpop, if_pos hf] at harmed
      cases harmed

theorem Turns.ranked (h : Turns r) {rank : TimerSlot → Nat} {next : Nat}
    (hq : r.before.kernel.timers.Ranked rank) (hlt : ∀ s, rank s < next) :
    r.after.kernel.timers.Ranked fun s =>
      if r.after.kernel.timers.generation s = r.before.kernel.timers.generation s then rank s
      else next := by
  cases h with
  | adjusts _ _ hadjusts => exact hq.adjusts hadjusts hlt
  | advances _ _ hadvance =>
      refine (hq.advance hadvance).congr fun s => ?_
      rw [if_pos (TimerQueue.generation_advance hadvance s)]
  | fires _ _ hpop hcuts =>
      refine ((hq.popExpired hpop).cuts hcuts).congr fun s => ?_
      rw [if_pos ((hcuts.generation s).trans (TimerQueue.generation_popExpired hpop s))]

/-! When timers were armed. -/

theorem armedAt_le (s : TimerSlot) (h : History) : armedAt s h ≤ h.length := by
  induction h with
  | nil => exact Nat.le_refl 0
  | cons r h ih =>
      unfold armedAt
      split
      · exact Nat.le_succ_of_le ih
      · exact Nat.le_refl _

theorem armedAt_of_spared (hs : Spared s during) (h : History) :
    armedAt s (during ++ h) = armedAt s h := by
  induction during with
  | nil => rfl
  | cons r during ih =>
      obtain ⟨hr, hs⟩ := List.forall_mem_cons.mp hs
      rw [List.cons_append, armedAt, if_pos (spares_iff.mp hr).2, ih hs]

/-- Timers with one deadline stand in the order in which they were armed, the last one first. -/
theorem Reaches.ranked (hr : Reaches h x) : x.kernel.timers.Ranked fun s => armedAt s h := by
  induction hr with
  | boot hb =>
      obtain ⟨config, platform, hboot, -⟩ := hb
      have hboot : (fresh config platform).boot = .ok _ := hboot
      exact (TimerQueue.ranked_empty _).cuts (boot_cutsTimeouts hboot)
  | move _ hallows hmove ih =>
      exact (move_timersGo hallows hmove).turns.ranked ih
        fun s => Nat.lt_succ_of_le (armedAt_le s _)

/-! What the handling consists of. -/

theorem isHandling_of_firing (hf : Firing x.frames) : x.isHandling = true := by
  unfold Execution.isHandling
  generalize x.frames = l at hf
  cases hf <;> simp [Frame.isFire]

theorem isHandling_of_plain (hp : Plain x.frames) : x.isHandling = false := by
  unfold Execution.isHandling
  rw [List.any_eq_false]
  intro f hf hfire
  have hplain := hp f hf
  cases f <;> simp [Frame.isFire, Frame.isPlain] at hfire hplain

theorem Handles.isTick (h : Handles x m y) : Record.isTick ⟨x, m, y⟩ = false := by
  cases h with
  | @asks _ _ _ c _ hc => cases c <;> first | rfl | exact absurd rfl hc
  | _ => rfl

theorem Handles.joins (h : Handles x m y) (during : History) :
    joins (⟨x, m, y⟩ :: during) = Execution.joins during := by
  cases h <;> rfl

theorem Handling.uncons (hh : Handling y (r :: during) z) : Handling y during r.before := by
  cases hh with
  | move hh => exact hh

theorem Handling.of_append (hh : Handling y (later ++ during) z) : ∃ w, Handling y during w := by
  induction later generalizing z with
  | nil => exact ⟨z, hh⟩
  | cons r later ih => exact ih hh.uncons

theorem exists_of_mem_handled (hs : s ∈ handled during) : ∃ later r earlier,
    during = later ++ r :: earlier ∧ r.fires? = some s := by
  obtain ⟨r, hmem, hfires⟩ := List.mem_filterMap.mp hs
  obtain ⟨later, earlier, hsplit⟩ := List.append_of_mem hmem
  exact ⟨later, r, earlier, hsplit, hfires⟩

/-- No timer is handled twice, so there are no more of them than there are to handle. -/
theorem length_handled_le {due : List TimerSlot}
    (order : (handled during).Pairwise fun s s' => armedAt s h < armedAt s' h)
    (subset : handled during ⊆ due) : (handled during).length ≤ due.length := by
  have hnodup : (handled during).Nodup := order.imp fun hlt heq => by
    rw [heq] at hlt
    exact Nat.lt_irrefl _ hlt
  exact (List.subperm_of_subset hnodup subset).length_le

/-- What holds while timers are handled, when that began after `h`. -/
structure Ongoing (h : History) (during : History) (z : Execution) : Prop where
  reaches : Reaches (during ++ h) z
  joined : JoinedOnce (during ++ h)
  steps : ∀ r ∈ during, Handles r.before r.move r.after
  place : Firing z.frames ∨ Plain z.frames ∧ z.kernel.timers.Undue

namespace Ongoing

theorem fit (ho : Ongoing h during z) : z.Fit := (ho.reaches.orderly ho.joined).fit

theorem sound (ho : Ongoing h during z) : z.kernel.timers.Sound := by
  obtain ⟨r, harises⟩ := ho.reaches.arises
  exact harises.sound

theorem firing (ho : Ongoing h during z) (hz : z.isHandling = true) : Firing z.frames := by
  rcases ho.place with hf | ⟨hplain, -⟩
  · exact hf
  · rw [isHandling_of_plain hplain] at hz
    cases hz

theorem undue (ho : Ongoing h during z) (hz : z.isHandling = false) : z.kernel.timers.Undue := by
  rcases ho.place with hf | ⟨-, hundue⟩
  · rw [isHandling_of_firing hf] at hz
    cases hz
  · exact hundue

end Ongoing

theorem fires_of_fire (hframes : x.frames = .fire :: rest) :
    Record.fires? ⟨x, .advance, y⟩ = x.kernel.timers.due? := by
  unfold Record.fires?
  dsimp only
  rw [hframes]

section Run
variable (hr : Reaches h y) (hj : JoinedOnce h) (hrest : Plain rest)
  (hfire : y.frames = .fire :: rest)
include hr hj hrest hfire

theorem Handling.ongoing (hh : Handling y during z) : Ongoing h during z := by
  induction hh with
  | start => exact ⟨hr, hj, fun _ hmem => absurd hmem List.not_mem_nil,
      Or.inl (hfire ▸ .due hrest)⟩
  | @move during z w m _ hz hallows hproper hmove ih =>
      obtain ⟨-, hhandles⟩ := firing_handles (ih.firing hz) ih.fit ih.sound hallows hproper hmove
      refine ⟨ih.reaches.move hallows hmove, ?_, ?_, hhandles.firing⟩
      · change (Execution.joins (⟨z, m, w⟩ :: (during ++ h))).Nodup
        rw [hhandles.joins]
        exact ih.joined
      · exact List.forall_mem_cons.mpr ⟨hhandles, ih.steps⟩

/-- One move of the handling. -/
theorem Handling.turns (hh : Handling y (r :: during) z) : Turns r ∧ r.isTick = false ∧
    r.before.kernel.timers.Sound ∧ r.after = z := by
  have ho := hh.ongoing hr hj hrest hfire
  obtain ⟨hbefore, hallows, hmove, hafter⟩ := ho.reaches.uncons
  obtain ⟨r₀, harises⟩ := hbefore.arises
  exact ⟨(move_timersGo hallows hmove).turns, (ho.steps r List.mem_cons_self).isTick,
    harises.sound, hafter⟩

/-- A slot that keeps its timer has as much time left as when the handling began. -/
theorem Handling.stays (hh : Handling y during z) (hs : Spared s during) :
    y.kernel.timers.Stays s z.kernel.timers := by
  induction during generalizing z with
  | nil =>
      cases hh with
      | start => exact .refl s _
  | cons r during ih =>
      obtain ⟨hspares, hs⟩ := List.forall_mem_cons.mp hs
      obtain ⟨hturns, htick, hq, rfl⟩ := hh.turns hr hj hrest hfire
      exact (ih (hh.uncons) hs).trans (hturns.stays hq htick hspares)

/-- What is due has been in its slot since the handling began. -/
theorem Handling.spared_of_due (hh : Handling y during z)
    (hdue : z.kernel.timers.remaining s = some 0) : Spared s during := by
  induction during generalizing z with
  | nil => exact fun _ hmem => absurd hmem List.not_mem_nil
  | cons r during ih =>
      obtain ⟨hturns, htick, hq, rfl⟩ := hh.turns hr hj hrest hfire
      have hspares := hturns.spares_of_due hq htick hdue
      refine List.forall_mem_cons.mpr ⟨hspares, ih (hh.uncons) ?_⟩
      rw [← (hturns.stays hq htick hspares).remaining]
      exact hdue

/-- What is handled was due when the handling began, and it has been in its slot since then. -/
theorem Handling.of_fires (hh : Handling y (r :: earlier) z) (hfires : r.fires? = some s) :
    Spared s earlier ∧ y.kernel.timers.remaining s = some 0 ∧
      r.before.kernel.timers.due? = some s ∧ r.spares s = false := by
  obtain ⟨hturns, -, hq, -⟩ := hh.turns hr hj hrest hfire
  have hbefore : Handling y earlier r.before := hh.uncons
  obtain ⟨hdue, hspares⟩ := hturns.of_fires hq hfires
  have hzero := hq.remaining_due hdue
  have hs := hbefore.spared_of_due hr hj hrest hfire hzero
  refine ⟨hs, ?_, hdue, hspares⟩
  rw [← (hbefore.stays hr hj hrest hfire hs).remaining]
  exact hzero

/-- Of two timers that are handled the one that was armed later is handled first. -/
theorem Handling.order (hh : Handling y during z) :
    (handled during).Pairwise fun s s' => armedAt s h < armedAt s' h := by
  induction during generalizing z with
  | nil => exact List.Pairwise.nil
  | cons r during ih =>
      have hbefore : Handling y during r.before := hh.uncons
      have hlater := ih hbefore
      unfold handled at hlater ⊢
      cases hfires : r.fires? with
      | none =>
          rw [List.filterMap_cons_none hfires]
          exact hlater
      | some s =>
          rw [List.filterMap_cons_some hfires]
          refine List.pairwise_cons.mpr ⟨fun s' hs' => ?_, hlater⟩
          obtain ⟨hs, hzero, -⟩ := hh.of_fires hr hj hrest hfire hfires
          obtain ⟨later, r', earlier, rfl, hfires'⟩ := exists_of_mem_handled hs'
          obtain ⟨w, hw⟩ := hbefore.of_append
          obtain ⟨hs', -, hdue', hnot⟩ := hw.of_fires hr hj hrest hfire hfires'
          -- When the earlier one was handled the later one was due already, so it ranked lower.
          have hspares := hs r' (List.mem_append_right later List.mem_cons_self)
          have hs : Spared s earlier := fun r₁ hr₁ =>
            hs r₁ (List.mem_append_right later (List.mem_cons_of_mem r' hr₁))
          have hzero' : r'.before.kernel.timers.remaining s = some 0 := by
            rw [(hw.uncons.stays hr hj hrest hfire hs).remaining]
            exact hzero
          have hne : s ≠ s' := by
            rintro rfl
            rw [hspares] at hnot
            cases hnot
          have hranked := (hw.uncons.ongoing hr hj hrest hfire).reaches.ranked
          have hlt := hranked.rank_lt hdue' hzero' hne
          rw [armedAt_of_spared hs, armedAt_of_spared hs'] at hlt
          exact hlt

/-- A callback that is about to start is that of the timer handled last, whose slot is free. -/
theorem Handling.free (hh : Handling y during z) {e : Routine} {rest' : List Frame}
    (hframes : z.frames = .callback e false :: rest') : ∃ s, (handled during).head? = some s ∧
      (y.kernel.timers.cell s).action = some (.callback e) ∧ z.kernel.timers.isArmed s = false := by
  induction during generalizing z with
  | nil =>
      cases hh with
      | start =>
          rw [hfire] at hframes
          cases hframes
  | cons r during ih =>
      obtain ⟨-, -, -, rfl⟩ := hh.turns hr hj hrest hfire
      have hsteps := (hh.ongoing hr hj hrest hfire).steps r List.mem_cons_self
      have hbefore := hh.uncons
      obtain ⟨x, m, y'⟩ := r
      dsimp only at hframes hsteps hbefore ⊢
      cases hsteps with
      | @calls _ _ s _ hfire' _ hdue haction hfree hleft =>
          rw [hframes] at hleft
          obtain ⟨rfl, -⟩ := Frame.callback.inj (List.cons.inj hleft).1
          have hfires : Record.fires? ⟨x, .advance, y'⟩ = some s :=
            (fires_of_fire hfire').trans hdue
          have hs := (hh.of_fires hr hj hrest hfire hfires).1
          refine ⟨s, ?_, ?_, hfree⟩
          · rw [handled, List.filterMap_cons_some hfires]
            rfl
          · rw [← (hbefore.stays hr hj hrest hfire hs).action, haction]
      | collects _ htimers hleft =>
          obtain ⟨s, hhead, haction, hfree⟩ := ih hbefore (hleft ▸ hframes)
          refine ⟨s, ?_, haction, ?_⟩
          · rw [handled, List.filterMap_cons_none rfl]
            exact hhead
          · rw [htimers]
            exact hfree
      | ends _ hplain _ _ _ hleft =>
          rw [hleft] at hframes
          have hcallback := hplain _ (hframes ▸ List.mem_cons_self)
          cases hcallback
      | wakes _ _ _ _ _ _ hleft | enters _ _ hleft | asks _ _ _ hleft | returns _ _ hleft
      | leaves _ _ hleft =>
          rw [hleft] at hframes
          cases hframes

/-- The handling can go on until it ends. -/
theorem Handling.goesOn (hh : Handling y during z) (hz : z.isHandling = true) :
    ∃ m w, m ∈ [Move.advance, .enter, .takeAnswer, .leave] ∧ z.allows m = true ∧
      z.move m = .ok w := by
  have ho := hh.ongoing hr hj hrest hfire
  have hfiring := ho.firing hz
  generalize hframes : z.frames = l at hfiring
  cases hfiring with
  | @due rest' _ =>
      obtain ⟨⟨k, frames⟩, hstep⟩ := fire_total ho.fit.sound ho.sound
      refine ⟨.advance, { z.setFrames (frames ++ rest') with kernel := k }, by simp, ?_, ?_⟩
      · unfold allows turn
        rw [hframes]
      · exact (advance_eq hframes).trans (bind_eq_ok.mpr ⟨(k, frames), hstep, rfl⟩)
  | @calls e entered rest' _ =>
      cases entered with
      | false =>
          refine ⟨.enter, z.enter, by simp, ?_, rfl⟩
          unfold allows turn
          rw [hframes]
      | true =>
          refine ⟨.leave, z.dropFrame, by simp, ?_, rfl⟩
          unfold allows turn
          rw [hframes]
  | returns _ =>
      refine ⟨.takeAnswer, z.dropFrame, by simp, ?_, rfl⟩
      unfold allows turn
      rw [hframes]

theorem Handling.misuse (hh : Handling y during z) (hz : z.isHandling = true) {c : InterruptCall}
    (hallows : z.allows (.interrupt c) = true) (hproper : Move.isProper z (.interrupt c) = true)
    (hgives : ∀ s ∈ Move.gives? z (.interrupt c), z.kernel.semaphoreCount s ≠ maxCount) :
    FailsOnly (Misuse z (.interrupt c)) (z.move (.interrupt c)) := by
  have ho := hh.ongoing hr hj hrest hfire
  have hfails := interrupt_fails ho.fit.sound ho.sound (allows_interrupt hallows).2 hgives
    fun hc => by
      subst hc
      have hnil : z.frames = [] := List.isEmpty_iff.mp hproper
      rw [isHandling, hnil] at hz
      cases hz
  change FailsOnly _ (z.perform z.frames c.run)
  exact perform_fails hfails

end Run

/-- Unless the slot keeps its timer there is a first move with which it loses it. -/
theorem exists_lost (hs : ¬ Spared s during) : ∃ later r earlier,
    during = later ++ r :: earlier ∧ Spared s earlier ∧ r.spares s = false := by
  induction during with
  | nil => exact absurd (fun _ hmem => absurd hmem List.not_mem_nil) hs
  | cons r during ih =>
      by_cases hlater : Spared s during
      · refine ⟨[], r, during, rfl, hlater, Bool.eq_false_iff.mpr fun hspares => ?_⟩
        exact hs (List.forall_mem_cons.mpr ⟨hspares, hlater⟩)
      · obtain ⟨later, r', earlier, rfl, hearlier, hlost⟩ := ih hlater
        exact ⟨r :: later, r', earlier, rfl, hearlier, hlost⟩

/-! How long it takes. -/

/-- The moves that a callback takes yet, if it makes no calls any more. -/
def movesLeft : List Frame → Nat
  | .callback _ false :: _ => 2
  | .callback _ true :: _ => 1
  | .answer _ :: .callback _ true :: _ => 2
  | _ => 0

/-- The moves that the handling may have taken: three for each timer, two for each call of a
callback, and those with which the log was collected. -/
def allowance (during : History) : Nat :=
  3 * (handled during).length + 2 * during.countP (·.move.isInterrupt) +
    during.countP (·.move = .collectLog)

theorem handled_cons (r : Record) (during : History) :
    (handled (r :: during)).length = (handled during).length + r.fires?.toList.length := by
  unfold handled
  cases hfires : r.fires? with
  | none => rw [List.filterMap_cons_none hfires]; rfl
  | some s => rw [List.filterMap_cons_some hfires]; rfl

theorem Handles.spends (h : Handles x m y) (during : History)
    (hle : during.length + movesLeft x.frames ≤ allowance during) :
    (y.isHandling = true →
      during.length + 1 + movesLeft y.frames ≤ allowance (⟨x, m, y⟩ :: during)) ∧
      during.length + 1 ≤ allowance (⟨x, m, y⟩ :: during) + 1 := by
  have hsuffices : during.length + 1 + movesLeft y.frames ≤ allowance (⟨x, m, y⟩ :: during) →
      (y.isHandling = true →
        during.length + 1 + movesLeft y.frames ≤ allowance (⟨x, m, y⟩ :: during)) ∧
        during.length + 1 ≤ allowance (⟨x, m, y⟩ :: during) + 1 :=
    fun hspent => ⟨fun _ => hspent, by omega⟩
  unfold allowance at hle hsuffices ⊢
  rw [handled_cons, List.countP_cons, List.countP_cons] at hsuffices ⊢
  cases h with
  | ends hframes hrest hdue _ _ hleft =>
      refine ⟨fun hhandling => ?_, ?_⟩
      · rw [isHandling_of_plain (hleft ▸ hrest)] at hhandling
        cases hhandling
      · omega
  | wakes hframes _ hdue _ _ _ hleft | calls hframes _ hdue _ _ hleft =>
      apply hsuffices
      rw [fires_of_fire hframes, hdue, hleft]
      rw [hframes] at hle
      simp [movesLeft, Move.isInterrupt] at hle ⊢
      omega
  | enters hframes _ hleft | asks _ hframes _ hleft | returns hframes _ hleft
  | leaves hframes _ hleft =>
      apply hsuffices
      rw [hleft]
      rw [hframes] at hle
      simp [movesLeft, Move.isInterrupt, Record.fires?] at hle ⊢
      omega
  | collects _ _ hleft =>
      apply hsuffices
      rw [hleft]
      simp [Move.isInterrupt, Record.fires?] at hle ⊢
      omega

theorem Handling.spends {rest : List Frame} (hr : Reaches h y) (hj : JoinedOnce h)
    (hrest : Plain rest) (hfire : y.frames = .fire :: rest) (hh : Handling y during z) :
    (z.isHandling = true → during.length + movesLeft z.frames ≤ allowance during) ∧
      during.length ≤ allowance during + 1 := by
  induction during generalizing z with
  | nil =>
      cases hh with
      | start =>
          rw [hfire]
          exact ⟨fun _ => Nat.le_refl 0, Nat.zero_le _⟩
  | cons r during ih =>
      have hsteps := (hh.ongoing hr hj hrest hfire).steps r List.mem_cons_self
      cases hh with
      | move hh hz => exact hsteps.spends during ((ih hh).1 hz)

/-! Every tick. -/

theorem mem_dueNext : s ∈ x.dueNext ↔ x.kernel.timers.remaining s = some 1 := by
  simp [dueNext]

/-- A tick is not amiss as long as no timer is due and the clock can count it. -/
theorem exists_tick (htick : m.isTick = true) (hq : x.kernel.timers.Sound)
    (hundue : x.kernel.timers.Undue) (hclock : x.kernel.clock.advance ≠ none) :
    ∃ y, x.move m = .ok y := by
  have hbegin : ∃ k, x.kernel.beginTick = .ok k :=
    (beginTick_fails (P := fun _ => False) hq hundue hclock).total fun _ => id
  obtain ⟨k, hbegin⟩ := hbegin
  unfold Move.isTick at htick
  split at htick
  · refine ⟨_, bind_eq_ok.mpr ⟨(k, [.fire, .preempt, .answer .unit]), ?_, rfl⟩⟩
    exact bind_eq_ok.mpr ⟨k, hbegin, rfl⟩
  · refine ⟨_, bind_eq_ok.mpr ⟨(k, [.fire, .answer .unit]), ?_, rfl⟩⟩
    exact bind_eq_ok.mpr ⟨k, hbegin, rfl⟩
  · cases htick

theorem joins_of_tick (htick : m.isTick = true) (h : History) :
    joins (⟨x, m, y⟩ :: h) = joins h := by
  unfold Move.isTick at htick
  split at htick
  · rfl
  · rfl
  · cases htick

/-- A tick only brings the timers nearer. -/
theorem advance_of_tick (htick : m.isTick = true) (hallows : x.allows m = true)
    (hmove : x.move m = .ok y) : x.kernel.timers.advance = .ok y.kernel.timers := by
  have hrecord : Record.isTick ⟨x, m, y⟩ = true := htick
  cases (move_timersGo hallows hmove).turns with
  | adjusts hno | fires hno =>
      rw [hrecord] at hno
      cases hno
  | advances _ _ hadvance => exact hadvance

/-- As long as no timer is due a tick may pass, and then the timers are handled that are due. -/
theorem reaches_handled (h : History) (x : Execution) (m : Move) (hr : Reaches h x)
    (hj : JoinedOnce h) (hallows : x.allows m = true) (hproper : m.isProper x = true)
    (htick : m.isTick = true) (hundue : x.kernel.timers.Undue) :
    (x.kernel.clock.advance ≠ none → ∃ y, x.move m = .ok y) ∧
      ∀ y during z, x.move m = .ok y → Handling y during z → Handled h x during z := by
  obtain ⟨r₀, harises⟩ := hr.arises
  have hq : x.kernel.timers.Sound := harises.sound
  refine ⟨exists_tick htick hq hundue, fun y during z hmove hh => ?_⟩
  obtain ⟨-, rest, hrest, hfire⟩ := tick_leaves hallows hproper htick hmove
  have hadvance := advance_of_tick htick hallows hmove
  have hleft := (hq.advance hadvance).2.2
  have hr' := hr.move hallows hmove
  have hj' : JoinedOnce (⟨x, m, y⟩ :: h) := by
    unfold JoinedOnce
    rw [joins_of_tick htick]
    exact hj
  -- The tick itself arms nothing, so what was armed last before it still comes first.
  have harmedAt : ∀ s, armedAt s (⟨x, m, y⟩ :: h) = armedAt s h := fun s =>
    if_pos (TimerQueue.generation_advance hadvance s)
  have ho := hh.ongoing hr' hj' hrest hfire
  have hdue : ∀ later r earlier s, during = later ++ r :: earlier → r.fires? = some s →
      s ∈ x.dueNext ∧ Spared s earlier := by
    rintro later r earlier s rfl hfires
    obtain ⟨w, hw⟩ := hh.of_append
    obtain ⟨hs, hzero, -⟩ := hw.of_fires hr' hj' hrest hfire hfires
    exact ⟨mem_dueNext.mpr ((hleft s 0).mp hzero), hs⟩
  have horder : (handled during).Pairwise fun s s' => armedAt s h < armedAt s' h := by
    refine (hh.order hr' hj' hrest hfire).imp fun hlt => ?_
    rw [harmedAt, harmedAt] at hlt
    exact hlt
  have hkept : ∀ s d, x.kernel.timers.remaining s = some (d + 1) → Spared s during →
      z.kernel.timers.remaining s = some d := by
    intro s d hd hs
    rw [(hh.stays hr' hj' hrest hfire hs).remaining]
    exact (hleft s d).mpr hd
  refine ⟨ho.steps, hdue, horder, fun e rest' hframes => ?_, hkept, ?_,
    hh.goesOn hr' hj' hrest hfire, fun hz c halt hallows hproper hgives =>
      hh.misuse hr' hj' hrest hfire hz hallows hproper hgives halt, fun hz s hs => ?_, ho.undue⟩
  · obtain ⟨s, hhead, haction, hfree⟩ := hh.free hr' hj' hrest hfire hframes
    exact ⟨s, hhead, (TimerQueue.action_advance hadvance s).symm.trans haction, hfree⟩
  · have hle := length_handled_le horder fun s hs => by
      obtain ⟨later, r, earlier, hsplit, hfires⟩ := exists_of_mem_handled hs
      exact (hdue later r earlier s hsplit hfires).1
    have hspent := (hh.spends hr' hj' hrest hfire).2
    unfold allowance at hspent
    omega
  · -- A timer that stayed to the end would be due there, and none is.
    have hlost : ¬ Spared s during := fun hspared =>
      ho.undue hz s (hkept s 0 (mem_dueNext.mp hs) hspared)
    obtain ⟨later, r, earlier, hsplit, hspared, hnot⟩ := exists_lost hlost
    refine ⟨later, r, earlier, hsplit, hspared, ?_⟩
    by_cases hfires : r.fires? = some s
    · exact Or.inl hfires
    · refine Or.inr ?_
      unfold Record.disarms
      rw [hnot]
      simpa using hfires

/-! Playing the handling of a tick. -/

/-- The execution after a move, if that is no fault. -/
def next (x : Execution) (m : Move) : Execution := (x.move m).toOption.getD x

theorem move_next (h : (x.move m).isOk = true) : x.move m = .ok (x.next m) := by
  unfold next
  cases hmove : x.move m with
  | ok y => rfl
  | error e =>
      rw [hmove] at h
      cases h

theorem handling_trace {ms : List Move} (hp : (play ms [] y).isSome = true)
    (hm : ∀ r ∈ (trace y ms).1, r.before.isHandling = true ∧ r.move.isProper r.before = true) :
    Handling y (trace y ms).1 (trace y ms).2 := by
  refine trace_induction (P := fun during z => (∀ r ∈ during, r.before.isHandling = true ∧
    r.move.isProper r.before = true) → Handling y during z) ?_ (fun _ => .start) hp hm
  intro during z w m ih hallows hmove hm
  obtain ⟨⟨hz, hproper⟩, hm⟩ := List.forall_mem_cons.mp hm
  exact .move (ih hm) hz hallows hproper hmove

theorem isSome_ofTicks_one : (Delay.ofTicks? 1).isSome = true := rfl

/-- The delay that ends with the next tick. -/
def oneTick : Delay := (Delay.ofTicks? 1).get isSome_ofTicks_one

/-- Four timers and the wait of a thread. All but one are to come in the next tick. -/
def setting : List Move :=
  [.takeAnswer, .call (.operation (.createSemaphore 0)), .takeAnswer,
    .call (.spawn "worker" .normal "work"), .takeAnswer, .call (.operation .yieldTurn), .enter,
    .call (.operation (.waitSemaphore 0 (.ofTicks 1))), .takeAnswer,
    .call (.operation (.setTimer oneTick "first")), .takeAnswer,
    .call (.operation (.setTimer oneTick "second")), .takeAnswer,
    .call (.operation (.setTimer oneTick "third")), .takeAnswer,
    .call (.operation (.setTimer ((Delay.ofTicks? 2).get rfl) "fourth")), .takeAnswer]

/-- The third timer starts itself again, stops the second one and signals what the thread waits
for. So of the others only the first one is left to be handled. -/
def ringing : List Move :=
  [.advance, .enter, .interrupt (.setTimer oneTick "third"), .takeAnswer,
    .interrupt (.resetTimer ⟨17, 1⟩), .takeAnswer, .interrupt (.signal 0), .takeAnswer, .leave,
    .advance, .enter, .leave, .advance]

/-- The execution when the tick comes, and when its timers are about to be handled. -/
def beforehand : Execution := (enact setting).2

def ticked : Execution := beforehand.next (.interrupt .tick)

theorem handled_ringing :
    (Reaches (enact setting).1 beforehand ∧ JoinedOnce (enact setting).1 ∧
      beforehand.allows (.interrupt .tick) = true ∧
      Move.isProper beforehand (.interrupt .tick) = true ∧ beforehand.kernel.timers.Undue) ∧
    (beforehand.move (.interrupt .tick) = .ok ticked ∧
      Handling ticked (trace ticked ringing).1 (trace ticked ringing).2) ∧
    beforehand.dueNext = [2, 16, 17, 18] ∧ handled (trace ticked ringing).1 = [16, 18] ∧
    (trace ticked ringing).2.isHandling = false ∧
    Handled (enact setting).1 beforehand (trace ticked ringing).1 (trace ticked ringing).2 := by
  have hr : Reaches (enact setting).1 beforehand := reaches_enact (by decide +kernel)
  have hj : JoinedOnce (enact setting).1 := by decide +kernel
  have hallows : beforehand.allows (.interrupt .tick) = true := by decide +kernel
  have hproper : Move.isProper beforehand (.interrupt .tick) = true := by decide +kernel
  have hundue : ∀ s, beforehand.kernel.timers.remaining s ≠ some 0 := by decide +kernel
  have hmove : beforehand.move (.interrupt .tick) = .ok ticked := move_next (by decide +kernel)
  have hhandling : Handling ticked (trace ticked ringing).1 (trace ticked ringing).2 :=
    handling_trace (by decide +kernel) (by decide +kernel)
  have hhandled : Handled (enact setting).1 beforehand (trace ticked ringing).1
      (trace ticked ringing).2 :=
    (reaches_handled _ beforehand _ hr hj hallows hproper rfl hundue).2 ticked _ _ hmove hhandling
  exact ⟨⟨hr, hj, hallows, hproper, hundue⟩, ⟨hmove, hhandling⟩, by decide +kernel,
    by decide +kernel, by decide +kernel, hhandled⟩

end Execution
end RealtimeKernel

import Mathlib.Data.List.Perm.Basic
import RealtimeKernel.Proofs.TimerQueue.Schedule

/-!
Runs of a timer queue against absolute deadlines. A run is the list of its operations, the
last one first; `ledger` reads off it which timers are armed and when they are due, with no
look at the queue. The main theorem says that after every run the queue and the ledger agree,
in the order of the timers, the time they have left and what is taken out next, and that no
operation that its own check lets through can fail.
-/
namespace RealtimeKernel.TimerQueue

inductive Step (n : Nat) (α : Type) where
  | arm (slot : Fin n) (delay : Delay) (action : α)
  | disarm (slot : Fin n)
  | advance
  /-- Takes the first timer out if it is due. -/
  | pop

variable {n : Nat} {α : Type}

/-- The check that an operation makes before it changes anything. -/
def Admits (q : TimerQueue n α) : Step n α → Prop
  | .arm slot _ _ => q.isArmed slot = false
  | .disarm slot => q.isArmed slot = true
  | .advance => ∀ h, q.head = some h → q.delta h ≠ 0
  | .pop => True

def step (q : TimerQueue n α) : Step n α → Except Fault (TimerQueue n α)
  | .arm slot delay action => q.arm slot delay action
  | .disarm slot => q.disarm slot
  | .advance => q.advance
  | .pop => .ok q.popExpired.2

/-- A queue that comes of these operations, the last one first. -/
inductive Run : List (Step n α) → TimerQueue n α → Prop
  | nil : Run [] (empty n α)
  | cons {steps : List (Step n α)} {q q' : TimerQueue n α} (s : Step n α) :
    Run steps q → q.Admits s → q.step s = .ok q' → Run (s :: steps) q'

/-- Ticks that passed. -/
def elapsed : List (Step n α) → Nat
  | [] => 0
  | .advance :: steps => elapsed steps + 1
  | _ :: steps => elapsed steps

/-- The armed timers, the one armed last first. What is taken out is the first timer that is
due. -/
def ledger : List (Step n α) → List (Arming n α)
  | [] => []
  | .arm slot delay action :: steps =>
    ⟨slot, elapsed steps, delay, action, steps.length⟩ :: ledger steps
  | .disarm slot :: steps => (ledger steps).filter fun a => a.slot ≠ slot
  | .advance :: steps => ledger steps
  | .pop :: steps => (ledger steps).eraseP fun a => a.deadline = elapsed steps

/-- The timer armed last among those that are due. -/
def due (steps : List (Step n α)) : Option (Arming n α) :=
  (ledger steps).find? fun a => a.deadline = elapsed steps

/-- How often the timer that the operation of a number armed was taken out as due. -/
def popped (serial : Nat) : List (Step n α) → Nat
  | [] => 0
  | .pop :: steps => popped serial steps + if (due steps).any (·.serial = serial) then 1 else 0
  | _ :: steps => popped serial steps

/-- How often the timer that the operation of a number armed was disarmed. -/
def disarmed (serial : Nat) : List (Step n α) → Nat
  | [] => 0
  | .disarm slot :: steps => disarmed serial steps +
    if (ledger steps).any (fun a => a.slot = slot ∧ a.serial = serial) then 1 else 0
  | _ :: steps => disarmed serial steps

/-- The queue stands for the timers of the ledger. -/
structure Agrees (steps : List (Step n α)) (q : TimerQueue n α) : Prop where
  schedule : ∃ S, S.Perm (ledger steps) ∧ q.Schedules (elapsed steps) S
  newest_first : (ledger steps).Pairwise fun a b => b.serial < a.serial
  serial_lt : ∀ a ∈ ledger steps, a.serial < steps.length

variable {steps : List (Step n α)} {q : TimerQueue n α}

theorem Agrees.isArmed_iff (h : Agrees steps q) (slot : Fin n) :
    q.isArmed slot = true ↔ ∃ a ∈ ledger steps, a.slot = slot := by
  obtain ⟨S, hp, hS⟩ := h.schedule
  rw [hS.isArmed_iff, (hp.map Arming.slot).mem_iff, List.mem_map]

theorem Agrees.elapsed_le (h : Agrees steps q) {a : Arming n α} (ha : a ∈ ledger steps) :
    elapsed steps ≤ a.deadline := by
  obtain ⟨S, hp, hS⟩ := h.schedule
  exact hS.spaced.le_deadline (hp.mem_iff.mpr ha)

theorem Agrees.remaining (h : Agrees steps q) {a : Arming n α} (ha : a ∈ ledger steps) :
    q.remaining a.slot = some (a.deadline - elapsed steps) := by
  obtain ⟨S, hp, hS⟩ := h.schedule
  exact hS.remaining (hp.mem_iff.mpr ha)

/-- No timer is due when the first one is not. -/
theorem due_eq_none {S : List (Arming n α)} (hp : S.Perm (ledger steps))
    (hS : q.Schedules (elapsed steps) S) (ahead : ∀ a ∈ S.head?, elapsed steps < a.deadline) :
    ∀ a ∈ ledger steps, a.deadline ≠ elapsed steps := by
  intro a ha
  have ha := hp.mem_iff.mpr ha
  cases S with
  | nil => cases ha
  | cons b S =>
      have hb := ahead b rfl
      rcases List.mem_cons.mp ha with rfl | ha
      · omega
      · rcases (List.pairwise_cons.mp hS.sorted).1 a ha with hlt | ⟨heq, -⟩ <;> omega

/-- The first timer of the queue, if due, is the one armed last of those that are. -/
theorem Agrees.due_eq_head {S : List (Arming n α)} {b : Arming n α} (h : Agrees steps q)
    (hp : (b :: S).Perm (ledger steps)) (hS : q.Schedules (elapsed steps) (b :: S))
    (hb : b.deadline = elapsed steps) :
    ∃ l₁ l₂, ledger steps = l₁ ++ b :: l₂ ∧ ∀ a ∈ l₁, a.deadline ≠ elapsed steps := by
  have hmem : b ∈ ledger steps := hp.mem_iff.mp List.mem_cons_self
  cases hfind : due steps with
  | none =>
      have := List.find?_eq_none.mp hfind b hmem
      simp [hb] at this
  | some a =>
      obtain ⟨ha, l₁, l₂, hl, hl₁⟩ := List.find?_eq_some_iff_append.mp hfind
      have ha : a.deadline = elapsed steps := by simpa using ha
      have hl₁ : ∀ c ∈ l₁, c.deadline ≠ elapsed steps := by simpa using hl₁
      suffices hab : a = b from ⟨l₁, l₂, hab ▸ hl, hl₁⟩
      have hnew := h.newest_first
      rw [hl] at hmem hnew
      have hafter : b ∈ l₁ ∨ b = a ∨ b ∈ l₂ := by simpa using hmem
      rcases hafter with hb₁ | rfl | hb₂
      · exact absurd hb (hl₁ b hb₁)
      · rfl
      · have hlt : b.serial < a.serial :=
          (List.pairwise_cons.mp (List.pairwise_append.mp hnew).2.1).1 b hb₂
        have haS : a ∈ b :: S := hp.mem_iff.mpr (by rw [hl]; simp)
        rcases List.mem_cons.mp haS with rfl | haS
        · rfl
        · rcases (List.pairwise_cons.mp hS.sorted).1 a haS with hlt' | ⟨-, hlt'⟩ <;> omega

theorem agrees_nil : Agrees [] (empty n α) :=
  ⟨⟨[], List.Perm.refl _, schedules_empty n α 0⟩, List.Pairwise.nil, by simp [ledger]⟩

theorem head_ahead (admits : q.Admits .advance) {S : List (Arming n α)}
    (hS : q.Schedules (elapsed steps) S) : ∀ a ∈ S.head?, elapsed steps < a.deadline := by
  intro a ha
  cases S with
  | nil => cases ha
  | cons b S =>
      obtain rfl : b = a := Option.some.inj ha
      have hne := admits b.slot (by rw [hS.head_eq]; rfl)
      rw [ne_eq, hS.delta_head_eq_zero_iff] at hne
      have := hS.spaced.le_deadline List.mem_cons_self
      omega

/-! What one operation that its check lets through does: it succeeds, and the queue and the
ledger agree again. -/

theorem Agrees.arm (h : Agrees steps q) (slot : Fin n) (delay : Delay) (action : α)
    (admits : q.Admits (.arm slot delay action)) :
    ∃ q', q.step (.arm slot delay action) = .ok q' ∧
      Agrees (.arm slot delay action :: steps) q' := by
  obtain ⟨S, hp, hS⟩ := h.schedule
  have free : slot ∉ S.map Arming.slot := by
    rw [← hS.isArmed_iff, show q.isArmed slot = false from admits]
    exact Bool.false_ne_true
  obtain ⟨q', hq', hS'⟩ := hS.arm (x := ⟨slot, elapsed steps, delay, action, steps.length⟩)
    rfl free fun a ha => h.serial_lt a (hp.mem_iff.mp ha)
  refine ⟨q', hq', ⟨_, ?_, hS'⟩, ?_, ?_⟩
  · refine List.perm_middle.trans (List.Perm.cons _ ?_)
    rw [dueBefore_append_dueFrom]
    exact hp
  · exact List.pairwise_cons.mpr ⟨h.serial_lt, h.newest_first⟩
  · intro a ha
    rcases List.mem_cons.mp ha with rfl | ha
    · exact Nat.lt_succ_self _
    · exact Nat.lt_succ_of_lt (h.serial_lt a ha)

/-- The ledger drops the one timer of a slot. -/
theorem perm_disarm {S₁ S₂ : List (Arming n α)} {x : Arming n α}
    (hp : (S₁ ++ x :: S₂).Perm (ledger steps))
    (nodup : ((S₁ ++ x :: S₂).map Arming.slot).Nodup) :
    (S₁ ++ S₂).Perm (ledger (.disarm x.slot :: steps)) := by
  rw [List.map_append, List.map_cons] at nodup
  have free := (List.nodup_cons.mp (List.nodup_middle.mp nodup)).1
  rw [← List.map_append] at free
  have hkeep : (S₁ ++ S₂).filter (fun a => a.slot ≠ x.slot) = S₁ ++ S₂ := by
    refine List.filter_eq_self.mpr fun a ha => ?_
    simp only [ne_eq, decide_not, Bool.not_eq_eq_eq_not, Bool.not_true, decide_eq_false_iff_not]
    intro he
    exact free (he ▸ List.mem_map_of_mem ha)
  have hfil := (List.perm_middle.symm.trans hp).filter fun a => a.slot ≠ x.slot
  rw [List.filter_cons_of_neg (by simp), hkeep] at hfil
  exact hfil

theorem Agrees.disarm (h : Agrees steps q) (slot : Fin n) (admits : q.Admits (.disarm slot)) :
    ∃ q', q.step (.disarm slot) = .ok q' ∧ Agrees (.disarm slot :: steps) q' := by
  obtain ⟨S, hp, hS⟩ := h.schedule
  have hmem : slot ∈ S.map Arming.slot := (hS.isArmed_iff slot).mp admits
  obtain ⟨x, hx, rfl⟩ := List.mem_map.mp hmem
  obtain ⟨S₁, S₂, rfl⟩ := List.append_of_mem hx
  obtain ⟨q', hq', hS'⟩ := hS.disarm
  have hsub : (ledger (.disarm x.slot :: steps)).Sublist (ledger steps) := List.filter_sublist
  exact ⟨q', hq', ⟨_, perm_disarm hp hS.chain.nodup, hS'⟩, h.newest_first.sublist hsub,
    fun a ha => Nat.lt_succ_of_lt (h.serial_lt a (hsub.subset ha))⟩

/-- What is due by the ledger is the first of the schedule, unless that is ahead. -/
theorem Agrees.schedule_pop (h : Agrees steps q) :
    ∃ S, S.Perm (ledger (.pop :: steps)) ∧ q.popExpired.2.Schedules (elapsed steps) S := by
  obtain ⟨S, hp, hS⟩ := h.schedule
  by_cases ahead : ∀ a ∈ S.head?, elapsed steps < a.deadline
  · have hnone := due_eq_none hp hS ahead
    refine ⟨S, ?_, ?_⟩
    · rw [ledger, List.eraseP_of_forall_not (by simpa using hnone)]
      exact hp
    · rw [hS.popExpired_of_not_due ahead]
      exact hS
  · cases S with
    | nil => simp at ahead
    | cons b S =>
        have hb : b.deadline = elapsed steps := by
          have := hS.spaced.le_deadline List.mem_cons_self
          simp at ahead
          omega
        obtain ⟨l₁, l₂, hl, hl₁⟩ := h.due_eq_head hp hS hb
        refine ⟨S, ?_, (hS.popExpired_of_due hb).2⟩
        rw [hl] at hp
        rw [ledger, hl, List.eraseP_append_right _ (by simpa using hl₁),
          List.eraseP_cons_of_pos (by simpa using hb)]
        exact (hp.trans List.perm_middle).cons_inv

theorem Agrees.step (h : Agrees steps q) (s : Step n α) (admits : q.Admits s) :
    ∃ q', q.step s = .ok q' ∧ Agrees (s :: steps) q' := by
  cases s with
  | arm slot delay action => exact h.arm slot delay action admits
  | disarm slot => exact h.disarm slot admits
  | advance =>
      obtain ⟨S, hp, hS⟩ := h.schedule
      obtain ⟨q', hq', hS'⟩ := hS.advance (head_ahead admits hS)
      exact ⟨q', hq', ⟨S, hp, hS'⟩, h.newest_first,
        fun a ha => Nat.lt_succ_of_lt (h.serial_lt a ha)⟩
  | pop =>
      have hsub : (ledger (.pop :: steps)).Sublist (ledger steps) := List.eraseP_sublist
      exact ⟨_, rfl, h.schedule_pop, h.newest_first.sublist hsub, fun a ha =>
        Nat.lt_succ_of_lt (h.serial_lt a (hsub.subset ha))⟩

theorem Run.agrees (h : Run steps q) : Agrees steps q := by
  induction h with
  | nil => exact agrees_nil
  | @cons steps q q' s _ admits hok ih =>
      obtain ⟨q'', hq'', h⟩ := ih.step s admits
      rw [hok] at hq''
      cases hq''
      exact h

theorem Run.tail {s : Step n α} (h : Run (s :: steps) q) : ∃ q, Run steps q := by
  cases h with
  | cons _ hrun => exact ⟨_, hrun⟩

theorem Run.serial_of_due (h : Run steps q) {a : Arming n α} (ha : due steps = some a) :
    a.serial < steps.length :=
  h.agrees.serial_lt a (List.mem_of_find?_eq_some ha)

/-- Before the operation of a number nothing happened to the timer that it arms. -/
theorem Run.untouched (h : Run steps q) {serial : Nat} (hs : steps.length ≤ serial) :
    popped serial steps = 0 ∧ disarmed serial steps = 0 := by
  induction steps generalizing q with
  | nil => exact ⟨rfl, rfl⟩
  | cons s steps ih =>
      obtain ⟨r, hr⟩ := h.tail
      have hlt : steps.length < serial := hs
      obtain ⟨hp, hd⟩ := ih hr (Nat.le_of_lt hlt)
      cases s with
      | arm slot delay action => exact ⟨hp, hd⟩
      | advance => exact ⟨hp, hd⟩
      | disarm slot =>
          refine ⟨hp, ?_⟩
          rw [disarmed, hd, if_neg]
          simp only [List.any_eq_true, decide_eq_true_eq, not_exists, not_and]
          rintro a ha - rfl
          exact Nat.lt_asymm hlt (hr.agrees.serial_lt a ha)
      | pop =>
          refine ⟨?_, hd⟩
          rw [popped, hp, if_neg]
          intro hany
          cases hdue : due steps with
          | none => simp [hdue] at hany
          | some a =>
              have hlt' := hr.serial_of_due hdue
              simp only [hdue, Option.any_some, decide_eq_true_eq] at hany
              omega

/-- Of one timer of a serial at most, a slot has it or has none of that serial. -/
theorem countP_of_slot (l : List (Arming n α)) (slot : Fin n) (serial : Nat)
    (hle : l.countP (fun a => decide (a.serial = serial)) ≤ 1) :
    (l.filter fun a => !decide (a.slot ≠ slot)).countP (fun a => decide (a.serial = serial)) =
      if l.any (fun a => a.slot = slot ∧ a.serial = serial) then 1 else 0 := by
  split
  · rename_i hany
    obtain ⟨a, ha, hp⟩ := List.any_eq_true.mp hany
    have hp : a.slot = slot ∧ a.serial = serial := by simpa using hp
    have hpos : 0 < (l.filter fun a => !decide (a.slot ≠ slot)).countP
        (fun a => decide (a.serial = serial)) :=
      List.countP_pos_iff.mpr
        ⟨a, List.mem_filter.mpr ⟨ha, by simpa using hp.1⟩, by simpa using hp.2⟩
    have hfilter : (l.filter fun a => !decide (a.slot ≠ slot)).countP
        (fun a => decide (a.serial = serial)) ≤ l.countP fun a => decide (a.serial = serial) :=
      List.filter_sublist.countP_le
    omega
  · rename_i hany
    refine List.countP_eq_zero.mpr fun a ha hs => hany ?_
    obtain ⟨ha, hslot⟩ := List.mem_filter.mp ha
    exact List.any_eq_true.mpr ⟨a, ha, by simpa using ⟨by simpa using hslot, by simpa using hs⟩⟩

/-- A timer once armed is still armed, or it was taken out as due, or it was disarmed: one of
these, and once. -/
theorem Run.account {later earlier : List (Step n α)} {slot : Fin n} {delay : Delay} {action : α}
    (h : Run (later ++ .arm slot delay action :: earlier) q) :
    popped earlier.length (later ++ .arm slot delay action :: earlier) +
      disarmed earlier.length (later ++ .arm slot delay action :: earlier) +
      (ledger (later ++ .arm slot delay action :: earlier)).countP
        (fun a => a.serial = earlier.length) = 1 := by
  -- On the steps after the arming: a serial leaves the ledger once, by a pop or a disarming.
  induction later generalizing q with
  | nil =>
      obtain ⟨r, hr⟩ := h.tail
      obtain ⟨hp, hd⟩ := hr.untouched (Nat.le_refl earlier.length)
      have hnone : (ledger earlier).countP (fun a => a.serial = earlier.length) = 0 := by
        refine List.countP_eq_zero.mpr fun a ha => ?_
        have := hr.agrees.serial_lt a ha
        simpa using Nat.ne_of_lt this
      simp only [List.nil_append, popped, disarmed, ledger, hp, hd, List.countP_cons, hnone,
        decide_true, if_true, Nat.zero_add]
  | cons s later ih =>
      obtain ⟨r, hr⟩ := h.tail
      have ih := ih hr
      rw [List.cons_append] at *
      generalize hsteps : later ++ Step.arm slot delay action :: earlier = steps at *
      have hlen : earlier.length < steps.length := by
        rw [← hsteps, List.length_append, List.length_cons]
        omega
      cases s with
      | arm slot delay action =>
          simp only [popped, disarmed, ledger, List.countP_cons, decide_eq_true_eq,
            if_neg (Nat.ne_of_gt hlen)]
          exact ih
      | advance => exact ih
      | disarm slot =>
          have hsplit := List.countP_eq_countP_filter_add (ledger steps)
            (fun a => decide (a.serial = earlier.length)) (fun a => decide (a.slot ≠ slot))
          have hgone := countP_of_slot (ledger steps) slot earlier.length (by omega)
          simp only [popped, disarmed, ledger]
          omega
      | pop =>
          simp only [popped, disarmed, ledger]
          cases hdue : due steps with
          | none =>
              rw [List.eraseP_of_forall_not (by simpa [due] using hdue)]
              simpa [hdue] using ih
          | some a =>
              obtain ⟨ha, l₁, l₂, hl, hl₁⟩ := List.find?_eq_some_iff_append.mp hdue
              rw [hl, List.countP_append, List.countP_cons] at ih
              rw [hl, List.eraseP_append_right _ (by simpa using hl₁),
                List.eraseP_cons_of_pos (by simpa using ha), List.countP_append]
              simp only [Option.any_some]
              omega

/-- What a queue owes to its ledger. -/
structure MeetsDeadlines (steps : List (Step n α)) (q : TimerQueue n α) : Prop where
  /-- The members are linked one to the next in both directions, from one end to the other,
  and none is met twice. -/
  holds : q.toChain.Holds q.links q.slots
  slots_back : q.toChain.toListBack q.links = q.slots.reverse
  mem_slots : ∀ slot, slot ∈ q.slots ↔ q.isArmed slot = true
  isArmed_iff : ∀ slot, q.isArmed slot = true ↔ ∃ a ∈ ledger steps, a.slot = slot
  /-- An armed timer has left what it was armed for, less the ticks since. -/
  remaining : ∀ a ∈ ledger steps, a.start ≤ elapsed steps ∧
    elapsed steps - a.start ≤ a.delay.ticks ∧
    q.remaining a.slot = some (a.delay.ticks - (elapsed steps - a.start))
  /-- The timers stand by deadline, of those with one deadline the one armed last first. -/
  order : ∃ S : List (Arming n α), S.Perm (ledger steps) ∧
    q.slots = S.map Arming.slot ∧ S.Pairwise Arming.Before
  isSome_popExpired : q.popExpired.1.isSome = true ↔ ∃ slot, q.remaining slot = some 0
  popExpired_eq : q.popExpired.1 = (due steps).map Arming.action
  /-- What is taken out is the timer armed last among those with no time left. -/
  latest_due : ∀ a, due steps = some a → q.remaining a.slot = some 0 ∧
    ∀ b ∈ ledger steps, q.remaining b.slot = some 0 → b.serial ≤ a.serial
  /-- A timer that is not disarmed is taken out once, and neither before nor after its time. -/
  popped_once : ∀ (later earlier : List (Step n α)) (slot : Fin n) (delay : Delay) (action : α),
    steps = later ++ .arm slot delay action :: earlier → disarmed earlier.length steps = 0 →
    popped earlier.length steps ≤ 1 ∧
    (elapsed steps < elapsed earlier + delay.ticks → popped earlier.length steps = 0) ∧
    (elapsed earlier + delay.ticks < elapsed steps ∨
      elapsed earlier + delay.ticks = elapsed steps ∧ q.popExpired.1 = none →
      popped earlier.length steps = 1)
  /-- No operation fails that its own check lets through, so no delta leaves its range. -/
  step_ok : ∀ s, q.Admits s → ∃ q', q.step s = .ok q'
  /-- No sum of deltas from the head on leaves the range of `Ticks`. -/
  sum_lt : ∀ i, ((q.slots.take i).map fun slot => (q.delta slot).toNat).sum < 2 ^ 32

theorem Agrees.popExpired_eq (h : Agrees steps q) :
    q.popExpired.1 = (due steps).map Arming.action := by
  obtain ⟨S, hp, hS⟩ := h.schedule
  by_cases ahead : ∀ a ∈ S.head?, elapsed steps < a.deadline
  · have hnone : due steps = none :=
      List.find?_eq_none.mpr (by simpa using due_eq_none hp hS ahead)
    rw [hS.popExpired_of_not_due ahead, hnone]
    rfl
  · cases S with
    | nil => simp at ahead
    | cons b S =>
        have hb : b.deadline = elapsed steps := by
          have := hS.spaced.le_deadline List.mem_cons_self
          simp at ahead
          omega
        obtain ⟨l₁, l₂, hl, hl₁⟩ := h.due_eq_head hp hS hb
        have hdue : due steps = some b :=
          List.find?_eq_some_iff_append.mpr
            ⟨by simpa using hb, l₁, l₂, hl, by simpa using hl₁⟩
        rw [(hS.popExpired_of_due hb).1, hdue]
        rfl

theorem Agrees.remaining_eq_zero_iff (h : Agrees steps q) {a : Arming n α}
    (ha : a ∈ ledger steps) : q.remaining a.slot = some 0 ↔ a.deadline = elapsed steps := by
  have hle := h.elapsed_le ha
  rw [h.remaining ha, Option.some.injEq]
  omega

theorem Agrees.latest_due (h : Agrees steps q) {a : Arming n α} (ha : due steps = some a) :
    q.remaining a.slot = some 0 ∧
      ∀ b ∈ ledger steps, q.remaining b.slot = some 0 → b.serial ≤ a.serial := by
  obtain ⟨hd, l₁, l₂, hl, hl₁⟩ := List.find?_eq_some_iff_append.mp ha
  have hmem : a ∈ ledger steps := List.mem_of_find?_eq_some ha
  refine ⟨(h.remaining_eq_zero_iff hmem).mpr (by simpa using hd), fun b hb h0 => ?_⟩
  have hb0 := (h.remaining_eq_zero_iff hb).mp h0
  have hnew := h.newest_first
  rw [hl] at hb hnew
  have hafter : b ∈ l₁ ∨ b = a ∨ b ∈ l₂ := by simpa using hb
  rcases hafter with hb₁ | rfl | hb₂
  · have := hl₁ b hb₁
    simp [hb0] at this
  · exact Nat.le_refl _
  · exact Nat.le_of_lt ((List.pairwise_cons.mp (List.pairwise_append.mp hnew).2.1).1 b hb₂)

section Arming
variable {later earlier : List (Step n α)} {slot : Fin n} {delay : Delay} {action : α}

/-- The number of an operation names the timer that it armed. -/
theorem Run.eq_of_serial (h : Run (later ++ .arm slot delay action :: earlier) q) {a : Arming n α}
    (ha : a ∈ ledger (later ++ .arm slot delay action :: earlier))
    (hs : a.serial = earlier.length) :
    a = ⟨slot, elapsed earlier, delay, action, earlier.length⟩ := by
  induction later generalizing q with
  | nil =>
      obtain ⟨r, hr⟩ := h.tail
      rcases List.mem_cons.mp ha with rfl | ha
      · rfl
      · exact absurd hs (Nat.ne_of_lt (hr.agrees.serial_lt a ha))
  | cons s later ih =>
      obtain ⟨r, hr⟩ := h.tail
      have ih := ih hr
      cases s with
      | arm slot delay action =>
          rcases List.mem_cons.mp ha with rfl | ha
          · simp only [List.append_eq, List.length_append, List.length_cons] at hs
            omega
          · exact ih ha
      | disarm slot => exact ih (List.mem_of_mem_filter ha)
      | advance => exact ih ha
      | pop => exact ih (List.mem_of_mem_eraseP ha)

theorem Run.deadline_le_of_popped (h : Run (later ++ .arm slot delay action :: earlier) q)
    (hp : popped earlier.length (later ++ .arm slot delay action :: earlier) ≠ 0) :
    elapsed earlier + delay.ticks ≤ elapsed (later ++ .arm slot delay action :: earlier) := by
  induction later generalizing q with
  | nil =>
      obtain ⟨r, hr⟩ := h.tail
      exact absurd (hr.untouched (Nat.le_refl _)).1 hp
  | cons s later ih =>
      obtain ⟨r, hr⟩ := h.tail
      have ih := ih hr
      cases s with
      | arm slot delay action => exact ih hp
      | disarm slot => exact ih hp
      | advance => exact Nat.le_succ_of_le (ih hp)
      | pop =>
          by_cases hbefore : popped earlier.length (later ++ .arm slot delay action :: earlier) = 0
          · rw [List.cons_append, popped, hbefore] at hp
            cases hdue : due (later ++ .arm slot delay action :: earlier) with
            | none => simp [hdue] at hp
            | some a =>
                have hs : a.serial = earlier.length := by simpa [hdue] using hp
                have hd := List.find?_some hdue
                rw [hr.eq_of_serial (List.mem_of_find?_eq_some hdue) hs] at hd
                exact Nat.le_of_eq (of_decide_eq_true hd)
          · exact ih hbefore

/-- A timer that has time left was not taken out; one that has none left, or would have, was,
unless it is about to be. -/
theorem Run.popped_once (h : Run (later ++ .arm slot delay action :: earlier) q)
    (kept : disarmed earlier.length (later ++ .arm slot delay action :: earlier) = 0) :
    popped earlier.length (later ++ .arm slot delay action :: earlier) ≤ 1 ∧
    (elapsed (later ++ .arm slot delay action :: earlier) < elapsed earlier + delay.ticks →
      popped earlier.length (later ++ .arm slot delay action :: earlier) = 0) ∧
    (elapsed earlier + delay.ticks < elapsed (later ++ .arm slot delay action :: earlier) ∨
      elapsed earlier + delay.ticks = elapsed (later ++ .arm slot delay action :: earlier) ∧
        q.popExpired.1 = none →
      popped earlier.length (later ++ .arm slot delay action :: earlier) = 1) := by
  have hsum := h.account
  have hearly := h.deadline_le_of_popped
  refine ⟨by omega, fun hlt => ?_, fun hlate => ?_⟩
  · by_contra hne
    exact Nat.not_le_of_lt hlt (hearly hne)
  · by_contra hne
    have hpos : 0 < (ledger (later ++ .arm slot delay action :: earlier)).countP
        fun a => a.serial = earlier.length := by omega
    obtain ⟨a, ha, hs⟩ := List.countP_pos_iff.mp hpos
    have hs : a.serial = earlier.length := by simpa using hs
    have hle := h.agrees.elapsed_le ha
    have hrem := h.agrees.remaining_eq_zero_iff ha
    have hdeadline : a.deadline = elapsed earlier + delay.ticks := by
      rw [h.eq_of_serial ha hs]
      rfl
    rcases hlate with hlt | ⟨heq, hnone⟩
    · omega
    · rw [h.agrees.popExpired_eq, Option.map_eq_none_iff] at hnone
      have := List.find?_eq_none.mp hnone a ha
      simp only [decide_eq_true_eq] at this
      omega

end Arming

/-- After every run the queue meets the deadlines of the ledger. -/
theorem run_meetsDeadlines (h : Run steps q) : MeetsDeadlines steps q := by
  obtain ⟨S, hp, hS⟩ := h.agrees.schedule
  have hslots := hS.slots_eq
  refine {
    holds := hslots ▸ hS.chain
    slots_back := by rw [hslots]; exact hS.chain.toListBack
    mem_slots := fun slot => by rw [hslots, hS.isArmed_iff]
    isArmed_iff := h.agrees.isArmed_iff
    remaining := ?_
    order := ⟨S, hp, hslots, hS.sorted⟩
    isSome_popExpired := ?_
    popExpired_eq := h.agrees.popExpired_eq
    latest_due := fun a ha => h.agrees.latest_due ha
    popped_once := ?_
    step_ok := fun s hs => ?_
    sum_lt := ?_ }
  · intro a ha
    have hstart := hS.start_le a (hp.mem_iff.mpr ha)
    have hle := h.agrees.elapsed_le ha
    have hrem := h.agrees.remaining ha
    simp only [Arming.deadline] at hle hrem
    refine ⟨hstart, by omega, ?_⟩
    rw [hrem, Option.some.injEq]
    omega
  · rw [h.agrees.popExpired_eq, Option.isSome_map]
    constructor
    · intro hsome
      obtain ⟨a, ha⟩ := Option.isSome_iff_exists.mp hsome
      exact ⟨a.slot, (h.agrees.latest_due ha).1⟩
    · rintro ⟨slot, h0⟩
      have harmed : q.isArmed slot = true := by
        by_contra hnot
        rw [TimerQueue.remaining, if_neg hnot] at h0
        cases h0
      obtain ⟨a, ha, rfl⟩ := (h.agrees.isArmed_iff slot).mp harmed
      have hd := (h.agrees.remaining_eq_zero_iff ha).mp h0
      rw [due, List.find?_isSome]
      exact ⟨a, ha, by simpa using hd⟩
  · rintro later earlier slot delay action rfl kept
    exact h.popped_once kept
  · obtain ⟨q', hq', -⟩ := h.agrees.step s hs
    exact ⟨q', hq'⟩
  · intro i
    rw [hslots, ← List.map_take]
    have hsp : q.Spaced (elapsed steps) (S.take i ++ S.drop i) := by
      rw [List.take_append_drop]
      exact hS.spaced
    have hsum := ((spaced_append _ _ _).mp hsp).1.sum_delta
    have hlast : lastDeadline (elapsed steps) (S.take i) < elapsed steps + 2 ^ 32 := by
      rcases List.eq_nil_or_concat (S.take i) with hnil | ⟨T, a, hT⟩
      · rw [hnil, lastDeadline]
        omega
      · rw [hT, List.concat_eq_append, lastDeadline_concat]
        refine hS.deadline_lt (List.mem_of_mem_take (i := i) ?_)
        rw [hT]
        simp
    omega

/-- Two timers that are due at one tick: the one armed later is taken out first. -/
theorem meetsDeadlines_two : ∃ q : TimerQueue 3 Bool,
    Run [.pop, .advance, .advance, .arm 1 ⟨2, by decide, by decide⟩ true, .advance,
      .arm 0 ⟨3, by decide, by decide⟩ false] q ∧
    MeetsDeadlines [.pop, .advance, .advance, .arm 1 ⟨2, by decide, by decide⟩ true, .advance,
      .arm 0 ⟨3, by decide, by decide⟩ false] q ∧ q.remaining 0 = some 0 := by
  have run : ∃ q : TimerQueue 3 Bool,
      Run [.pop, .advance, .advance, .arm 1 ⟨2, by decide, by decide⟩ true, .advance,
        .arm 0 ⟨3, by decide, by decide⟩ false] q ∧ q.remaining 0 = some 0 := by
    refine ⟨_, .cons _ (.cons _ (.cons _ (.cons _ (.cons _ (.cons _ .nil rfl rfl) ?_ rfl) rfl rfl)
      ?_ rfl) ?_ rfl) trivial rfl, by decide⟩
    all_goals rintro h ⟨⟩; decide
  obtain ⟨q, hrun, hleft⟩ := run
  exact ⟨q, hrun, run_meetsDeadlines hrun, hleft⟩

end RealtimeKernel.TimerQueue

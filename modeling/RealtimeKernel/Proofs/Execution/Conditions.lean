import Mathlib.Algebra.BigOperators.Group.Finset.Piecewise
import RealtimeKernel.Proofs.Execution.TimerIds
import RealtimeKernel.Proofs.Execution.Timeouts
import RealtimeKernel.Proofs.Kernel.Conditions

/-!
Condition variables neither lose wakeups nor invent any. Who waits stands in the queue from the
wait on until a signal, a broadcast or its timeout reaches it; the first of them to do so is what
the wait returns with. So what signals and broadcasts give out is what waits return with, or are
about to.
-/
namespace RealtimeKernel.Execution
open Kernel

/-- The condition variable and the mutex of a wait, unless the wait is over at once. -/
def Move.awaits? : Move → Option (CondVarId × MutexId)
  | .call (.operation (.waitCondition c m timeout)) =>
    if timeout = .immediate then none else some (c, m)
  | _ => none

def Move.signals? : Move → Option CondVarId
  | .call (.operation (.signalCondition c)) | .interrupt (.signalCondition c) => some c
  | _ => none

def Move.broadcasts? : Move → Option CondVarId
  | .call (.operation (.broadcast c)) | .interrupt (.broadcast c) => some c
  | _ => none

/-- What reaches a thread in the queue of a condition variable, and what its wait returns for
that. -/
inductive Record.Reaching (r : Record) (c : CondVarId) (u : ThreadId) : WakeupResult → Prop
  | signal : r.move.signals? = some c →
    (r.before.kernel.members (.condVar c)).head? = some u → r.Reaching c u .ok
  | broadcast : r.move.broadcasts? = some c → u ∈ r.before.kernel.members (.condVar c) →
    r.Reaching c u .reset
  | timeout : r.expires? = some u → r.Reaching c u .timeout

/-- A wait for a condition, and what ended it if anything did. -/
structure ConditionWait where
  condVar : CondVarId
  mutex : MutexId
  result : Option WakeupResult

/-- The wait for a condition that a thread did not return from so far. -/
def waitIn? (u : ThreadId) : History → Option ConditionWait
  | [] => none
  | r :: h =>
    if r.caller = u then
      match r.move with
      | .call _ | .interrupt _ => r.move.awaits?.map fun p => ⟨p.1, p.2, none⟩
      | .takeAnswer => none
      | _ => waitIn? u h
    else (waitIn? u h).map fun a => { a with result := a.result.or (r.wakes? u) }

/-- The waiters of a condition variable to which a record gives this result. -/
def Record.gives (c : CondVarId) (r : Record) : WakeupResult → Nat
  | .ok => if r.move.signals? = some c ∧ r.before.kernel.members (.condVar c) ≠ [] then 1 else 0
  | .reset =>
    if r.move.broadcasts? = some c then (r.before.kernel.members (.condVar c)).length else 0
  | .timeout => if ∃ u ∈ r.before.kernel.members (.condVar c), r.expires? = some u then 1 else 0

/-- Does a wait at a condition variable return, and with this result? -/
def Record.returns (c : CondVarId) (w : WakeupResult) (earlier : History) (r : Record) : Bool :=
  match r.move, r.before.frames with
  | .takeAnswer, .answer (.wakeup w') :: _ =>
    w' = w && (waitIn? r.caller earlier).any (·.condVar = c)
  | _, _ => false

/-- Was the thread woken with this result? -/
def ConditionWait.due (c : CondVarId) (w : WakeupResult) (a : ConditionWait) : Bool :=
  a.condVar = c && a.result = some w

/-- The threads that a record wakes with this result in the queue of a condition variable. -/
def Record.woken (c : CondVarId) (w : WakeupResult) (r : Record) : Finset ThreadId :=
  Finset.univ.filter fun u =>
    (r.before.kernel.thread u).queue = some (.condVar c) ∧ r.wakes? u = some w

def given (c : CondVarId) (w : WakeupResult) (h : History) : Nat := (h.map (·.gives c w)).sum

def returned (c : CondVarId) (w : WakeupResult) : History → Nat
  | [] => 0
  | r :: h => returned c w h + (r.returns c w h).toNat

/-- The threads that were woken with this result and did not return so far. -/
def pending (c : CondVarId) (w : WakeupResult) (h : History) : Nat :=
  (Finset.univ.filter fun u => (waitIn? u h).any (·.due c w)).card

/-- A thread stands in the queue of a condition variable, and has a mutex to lock then. -/
structure Queued (c : CondVarId) (m : MutexId) (u : ThreadId) (x : Execution) : Prop where
  queue : (x.kernel.thread u).queue = some (.condVar c)
  frames : ∃ checks, (checks = [] ∨ checks = [.awake]) ∧ x.framesOf u = checks ++ [.relock m]

/-- A wait ends with the first record that reaches the thread. -/
structure Ended (c : CondVarId) (u : ThreadId) (during : History) (r : Record) (w : WakeupResult) :
    Prop where
  calm : ∀ r' ∈ during, ∀ w', ¬ r'.Reaching c u w'
  reaching : r.Reaching c u w
  runnable : (r.after.kernel.thread u).state.isRunnable = true
  wakeup : (r.after.kernel.thread u).wakeup = w

/-- Where a thread is in its wait: in the queue, or about to return with what ended the wait. -/
def ConditionWait.Holds (a : ConditionWait) (u : ThreadId) (x : Execution) : Prop :=
  match a.result with
  | none => Queued a.condVar a.mutex u x
  | some w => Returning (.waitCondition a.condVar a.mutex .infinite) w u x

variable {x y : Execution} {h later earlier : History} {mv : Move} {t u : ThreadId} {r : Record}
  {c : CondVarId} {m : MutexId} {w : WakeupResult} {a : ConditionWait}

/-! What a move does to those who wait, whichever timers it stops. -/

theorem thread_of_stops {id : TimerId} (hmove : x.move mv = .ok y)
    (hstops : Record.stops? ⟨x, mv, y⟩ = some id) :
    y.kernel.thread u = x.kernel.thread u ∧ Record.wakes? ⟨x, mv, y⟩ u = none := by
  obtain ⟨⟨timers, hkernel⟩, hwakes⟩ := stops_ok hmove hstops
  refine ⟨?_, congrFun hwakes u⟩
  rw [hkernel]
  rfl

/-- A thread that waits goes on waiting in its place unless the move wakes it. -/
theorem move_stands (hx : x.Fit) (hq : x.kernel.timers.Sound) (hallows : x.allows mv = true)
    (hmove : x.move mv = .ok y) (hu : (x.kernel.thread u).state.isTimed = true) :
    (Record.wakes? ⟨x, mv, y⟩ u = none ∧
      SameStand (x.kernel.thread u) (y.kernel.thread u)) ∨
    ∃ w, Record.wakes? ⟨x, mv, y⟩ u = some w ∧ (y.kernel.thread u).state.isRunnable = true ∧
      (y.kernel.thread u).wakeup = w := by
  have hsame : y.kernel.thread u = x.kernel.thread u →
      SameStand (x.kernel.thread u) (y.kernel.thread u) := fun heq => heq ▸ .refl _
  cases hstops : Record.stops? ⟨x, mv, y⟩ with
  | some id =>
      obtain ⟨hthread, hnone⟩ := thread_of_stops hmove hstops
      exact Or.inl ⟨hnone, hsame hthread⟩
  | none =>
      cases htick : Record.isTick ⟨x, mv, y⟩ with
      | true =>
          have hthreads := (beginTick_passes hq (tick_ok hmove htick).1).1
          rw [wakes_of_tick htick]
          exact Or.inl ⟨rfl, hsame (by simp only [thread, hthreads])⟩
      | false =>
          have htreats := move_treats hx hq hallows hmove htick
            fun id hid => by rw [hstops] at hid; cases hid
          cases hwakes : Record.wakes? ⟨x, mv, y⟩ u with
          | none => exact Or.inl ⟨rfl, (htreats.spared u hu hwakes).stand⟩
          | some w => exact Or.inr ⟨w, rfl, htreats.woken u w hu hwakes⟩

theorem Move.signals_inv (hs : mv.signals? = some c) :
    mv = .call (.operation (.signalCondition c)) ∨ mv = .interrupt (.signalCondition c) := by
  unfold signals? at hs
  split at hs
  · rw [Option.some.inj hs]
    exact Or.inl rfl
  · rw [Option.some.inj hs]
    exact Or.inr rfl
  · cases hs

theorem Move.broadcasts_inv (hb : mv.broadcasts? = some c) :
    mv = .call (.operation (.broadcast c)) ∨ mv = .interrupt (.broadcast c) := by
  unfold broadcasts? at hb
  split at hb
  · rw [Option.some.inj hb]
    exact Or.inl rfl
  · rw [Option.some.inj hb]
    exact Or.inr rfl
  · cases hb

theorem notices_of_signals (hs : mv.signals? = some c) :
    Record.notices ⟨x, mv, y⟩ = firstOf (.condVar c) .ok x.kernel := by
  rcases Move.signals_inv hs with rfl | rfl <;> rfl

theorem notices_of_broadcasts (hb : mv.broadcasts? = some c) :
    Record.notices ⟨x, mv, y⟩ = allOf (.condVar c) .reset x.kernel := by
  rcases Move.broadcasts_inv hb with rfl | rfl <;> rfl

/-- A notice reaches a waiter through its condition variable. -/
theorem reaching_of_notices (hx : x.Fit) (hmove : x.move mv = .ok y)
    (hu : (x.kernel.thread u).queue = some (.condVar c))
    (hsome : Record.notices ⟨x, mv, y⟩ u = some w) : Record.Reaching ⟨x, mv, y⟩ c u w := by
  have hk := hx.sound.inPlace
  have hsame : ∀ c', u ∈ x.kernel.members (.condVar c') → c' = c := by
    intro c' hmem
    have hqueue := (hk.mem_iff u _).mp hmem
    rw [hu] at hqueue
    exact (QueueId.condVar.inj (Option.some.inj hqueue)).symm
  have hnot : ∀ t, (x.kernel.thread t).state = .suspended → u ≠ t := by
    rintro t hs rfl
    have hfits := hk.fits u
    rw [hu, hs] at hfits
    cases hfits
  have hfirst : ∀ c' r, firstOf (.condVar c') r x.kernel u = some w →
      c' = c ∧ w = r ∧ (x.kernel.members (.condVar c)).head? = some u := by
    intro c' r hfirst
    unfold firstOf at hfirst
    split at hfirst
    · rename_i hhead
      obtain rfl := hsame c' (List.mem_of_head? hhead)
      exact ⟨rfl, (Option.some.inj hfirst).symm, hhead⟩
    · cases hfirst
  have hall : ∀ c' r, allOf (.condVar c') r x.kernel u = some w → c' = c ∧ w = r := by
    intro c' r hall
    unfold allOf at hall
    split at hall
    · rename_i hqueue
      exact ⟨hsame c' ((hk.mem_iff u _).mpr hqueue), (Option.some.inj hall).symm⟩
    · cases hall
  -- Who waits for a condition is not suspended, so that it cannot have been resumed.
  unfold Record.notices at hsome
  dsimp only at hsome
  split at hsome
  · rename_i t
    obtain ⟨frames, hstep, -⟩ := operation_step hmove
    rw [if_neg (hnot t (resume_state hk hstep))] at hsome
    cases hsome
  · rename_i t
    obtain ⟨frames, hstep, -⟩ := interrupt_step hmove
    rw [if_neg (hnot t (resume_state hk hstep))] at hsome
    cases hsome
  · obtain ⟨rfl, rfl, hhead⟩ := hfirst _ _ hsome
    exact .signal rfl hhead
  · obtain ⟨rfl, rfl, hhead⟩ := hfirst _ _ hsome
    exact .signal rfl hhead
  · obtain ⟨rfl, rfl⟩ := hall _ _ hsome
    exact .broadcast rfl ((hk.mem_iff u _).mpr hu)
  · obtain ⟨rfl, rfl⟩ := hall _ _ hsome
    exact .broadcast rfl ((hk.mem_iff u _).mpr hu)
  · cases hsome

/-- Who stands in the queue of a condition variable is woken by what reaches it. -/
theorem wakes_iff_reaching (hx : x.Fit) (hmove : x.move mv = .ok y)
    (hu : (x.kernel.thread u).queue = some (.condVar c)) :
    Record.wakes? ⟨x, mv, y⟩ u = some w ↔ Record.Reaching ⟨x, mv, y⟩ c u w := by
  have hk := hx.sound.inPlace
  have hwakes : Record.wakes? ⟨x, mv, y⟩ u = (Record.notices ⟨x, mv, y⟩ u).or
      (if Record.expires? ⟨x, mv, y⟩ = some u then some .timeout else none) := by
    have hnot : ∀ s, (x.kernel.thread u).queue ≠ some (.semaphore s) := by
      intro s hs
      rw [hu] at hs
      cases hs
    rw [Record.wakes?, Record.event?, dismissed_eq_none hnot, signalled_eq_none hnot]
    rfl
  have hmem : u ∈ x.kernel.members (.condVar c) := (hk.mem_iff u _).mpr hu
  rw [hwakes]
  constructor
  · intro hsome
    cases hnotices : Record.notices ⟨x, mv, y⟩ u with
    | some w' =>
        rw [hnotices] at hsome
        obtain rfl := Option.some.inj hsome
        exact reaching_of_notices hx hmove hu hnotices
    | none =>
        rw [hnotices, Option.none_or] at hsome
        split at hsome
        · rename_i hexpires
          rw [← Option.some.inj hsome]
          exact .timeout hexpires
        · cases hsome
  · intro hr
    cases hr with
    | signal hs hhead =>
        rw [notices_of_signals hs, firstOf, if_pos hhead]
        rfl
    | broadcast hb hmem =>
        rw [notices_of_broadcasts hb, allOf, if_pos hu]
        rfl
    | timeout he =>
        obtain rfl : mv = .advance := (expires_eq_some he).1
        rw [if_pos he]
        rfl

/-! What signals and broadcasts do to the queues. -/

/-- A signal wakes the first waiter; without one, nothing happens but a preemption that is due. -/
theorem releases_of_signals (hx : x.Fit) (hmove : x.move mv = .ok y)
    (hs : mv.signals? = some c) :
    Releases (.condVar c) ((x.kernel.members (.condVar c)).take 1)
      ((x.kernel.members (.condVar c)).drop 1) .ok x.kernel y.kernel ∧
    (x.kernel.members (.condVar c) = [] →
      y.kernel = x.kernel ∨ x.kernel.preempt = .ok y.kernel) := by
  have hk := hx.sound
  rcases Move.signals_inv hs with rfl | rfl
  · obtain ⟨frames, hstep, -⟩ := operation_step hmove
    obtain ⟨k₁, hsignal, hstep⟩ := bind_eq_ok.mp hstep
    obtain ⟨k₂, hpreempt, hstep⟩ := bind_eq_ok.mp hstep
    obtain ⟨rfl, -⟩ := Prod.mk.inj (Except.ok.inj hstep)
    have heffects : Relation.ReflTransGen (Effect fun _ => True) x.kernel k₁ :=
      signalCondition_effects hk.inPlace trivial hsignal
    obtain ⟨hk₁, hcurrent⟩ := effects_induction (P := fun k => k.current = x.kernel.current)
      heffects hk (fun _ _ _ he hk => he.current.trans hk) rfl
    obtain ⟨hreleases, hnone⟩ := signalCondition_releases hk.inPlace hsignal
    refine ⟨hreleases.preempt hk.inPlace hk₁.inPlace nofun hcurrent hpreempt, fun hnil => ?_⟩
    rw [hnone hnil] at hpreempt
    exact Or.inr hpreempt
  · obtain ⟨frames, hstep, -⟩ := interrupt_step hmove
    obtain ⟨k₁, hsignal, hstep⟩ := bind_eq_ok.mp hstep
    obtain ⟨rfl, -⟩ := Prod.mk.inj (Except.ok.inj hstep)
    obtain ⟨hreleases, hnone⟩ := signalCondition_releases hk.inPlace hsignal
    exact ⟨hreleases, fun hnil => Or.inl (hnone hnil)⟩

/-- A broadcast wakes all waiters. -/
theorem releases_of_broadcasts (hx : x.Fit) (hmove : x.move mv = .ok y)
    (hb : mv.broadcasts? = some c) :
    Releases (.condVar c) (x.kernel.members (.condVar c)) [] .reset x.kernel y.kernel := by
  have hk := hx.sound
  rcases Move.broadcasts_inv hb with rfl | rfl
  · obtain ⟨frames, hstep, -⟩ := operation_step hmove
    obtain ⟨k₁, hbroadcast, hstep⟩ := bind_eq_ok.mp hstep
    obtain ⟨k₂, hpreempt, hstep⟩ := bind_eq_ok.mp hstep
    obtain ⟨rfl, -⟩ := Prod.mk.inj (Except.ok.inj hstep)
    have heffects : Relation.ReflTransGen (Effect fun _ => True) x.kernel k₁ :=
      broadcast_effects hk.inPlace trivial hbroadcast
    obtain ⟨hk₁, hcurrent⟩ := effects_induction (P := fun k => k.current = x.kernel.current)
      heffects hk (fun _ _ _ he hk => he.current.trans hk) rfl
    have hreleases := broadcast_releases hk.inPlace hbroadcast
    exact hreleases.preempt hk.inPlace hk₁.inPlace nofun hcurrent hpreempt
  · obtain ⟨frames, hstep, -⟩ := interrupt_step hmove
    obtain ⟨k₁, hbroadcast, hstep⟩ := bind_eq_ok.mp hstep
    obtain ⟨rfl, -⟩ := Prod.mk.inj (Except.ok.inj hstep)
    exact broadcast_releases hk.inPlace hbroadcast

/-! Who stands in the queue of a condition variable. -/

theorem Move.awaits_inv (ha : mv.awaits? = some (c, m)) : ∃ timeout, timeout ≠ .immediate ∧
    mv = .call (.operation (.waitCondition c m timeout)) := by
  unfold awaits? at ha
  split at ha
  · rename_i timeout
    split at ha
    · cases ha
    · rename_i htimeout
      obtain ⟨rfl, rfl⟩ := Prod.mk.inj (Option.some.inj ha)
      exact ⟨timeout, htimeout, rfl⟩
  · cases ha

/-- A wait puts its caller into the queue. -/
theorem queued_of_awaits (hx : x.Fit) (hallows : x.allows mv = true) (hmove : x.move mv = .ok y)
    (ha : mv.awaits? = some (c, m)) : Queued c m x.kernel.current y := by
  obtain ⟨timeout, htimeout, rfl⟩ := Move.awaits_inv ha
  have hk := hx.sound.inPlace
  have hstep := operation_left (r := ⟨x, _, y⟩) rfl hallows hmove
  rcases waitCondition_ok hk hstep with
    ⟨himm, -⟩ | ⟨k₁, checks, k', -, hrelease, hc, hsame, hblocks⟩
  · exact absurd himm htimeout
  · obtain ⟨hkernel, hleft⟩ := Prod.mk.inj hsame
    have heffect : Effect (fun _ => True) x.kernel k₁ := release_effect hk trivial hrelease
    have hthread := hblocks.thread_current (heffect.inPlace hk)
    rw [heffect.current, ← hkernel] at hthread
    refine ⟨?_, checks, hc, hleft⟩
    rw [hthread]

/-- What is given a condition variable: a wait, a signal or a broadcast. -/
theorem touches_condVar (ht : mv.touches x (.condVar c)) :
    mv.signals? = some c ∨ mv.broadcasts? = some c ∨
      ∃ m timeout, mv = .call (.operation (.waitCondition c m timeout)) := by
  cases mv with
  | call o =>
      cases o with
      | operation o =>
          cases o with
          | waitCondition c' m timeout =>
              obtain rfl := Object.condVar.inj (ht.resolve_right nofun)
              exact Or.inr (Or.inr ⟨m, timeout, rfl⟩)
          | signalCondition c' =>
              obtain rfl := Object.condVar.inj ht
              exact Or.inl rfl
          | broadcast c' =>
              obtain rfl := Object.condVar.inj ht
              exact Or.inr (Or.inl rfl)
          | _ => simp [Move.touches, Call.touches, Operation.touches, BoxParts] at ht
      | _ => simp [Move.touches, Call.touches] at ht
  | interrupt o =>
      cases o with
      | signalCondition c' =>
          obtain rfl := Object.condVar.inj ht
          exact Or.inl rfl
      | broadcast c' =>
          obtain rfl := Object.condVar.inj ht
          exact Or.inr (Or.inl rfl)
      | _ => simp [Move.touches, InterruptCall.touches, BoxParts] at ht
  | advance =>
      obtain ⟨f, rest, -, ht⟩ := ht
      cases f <;> simp [Frame.touches, BoxParts] at ht
  | _ => exact ht.elim

/-- Only a wait brings a thread into the queue, and only its caller. -/
theorem queue_of_move (hx : x.Fit) (hallows : x.allows mv = true) (hmove : x.move mv = .ok y)
    (hu : (y.kernel.thread u).queue = some (.condVar c)) :
    (x.kernel.thread u).queue = some (.condVar c) ∨
      u = x.kernel.current ∧ ∃ m, mv.awaits? = some (c, m) := by
  have hdoes := move_does hx hallows hmove
  have hk := hx.sound.inPlace
  have hmem := ((hdoes.sound hx.sound).inPlace.mem_iff u _).mpr hu
  have hleft : ∀ {woken left w}, Releases (.condVar c) woken left w x.kernel y.kernel →
      (x.kernel.thread u).queue = some (.condVar c) := by
    intro woken left w hreleases
    rw [hreleases.after] at hmem
    rw [← hk.mem_iff, hreleases.before]
    exact List.mem_append_right _ hmem
  by_cases ht : mv.touches x (.condVar c)
  · rcases touches_condVar ht with hs | hb | ⟨m, timeout, rfl⟩
    · exact Or.inl (hleft (releases_of_signals hx hmove hs).1)
    · exact Or.inl (hleft (releases_of_broadcasts hx hmove hb))
    · by_cases hcur : u = x.kernel.current
      · refine Or.inr ⟨hcur, m, if_neg ?_⟩
        rintro rfl
        have hstep := operation_left (r := ⟨x, _, y⟩) rfl hallows hmove
        rcases waitCondition_ok hk hstep with ⟨-, hsame⟩ | ⟨-, -, -, hnot, -⟩
        · rw [(Prod.mk.inj hsame).1, hk.queue_eq_none hcur] at hu
          cases hu
        · exact hnot rfl
      · exact Or.inl (hdoes.waited hx.sound hu (Or.inl hcur))
  · exact Or.inl (hdoes.waited hx.sound hu (Or.inr ht))

theorem Queued.ne_current (hq : Queued c m u x) (hx : x.Fit) : u ≠ x.kernel.current :=
  hx.sound.inPlace.not_runs hq.queue

/-- A waiter stays in the queue unless the move wakes it; then it is about to return. -/
theorem Queued.step (hq : Queued c m u x) (hx : x.Fit) (ht : x.kernel.timers.Sound)
    (hallows : x.allows mv = true) (hmove : x.move mv = .ok y) :
    (Record.wakes? ⟨x, mv, y⟩ u = none ∧ Queued c m u y) ∨
      ∃ w, Record.wakes? ⟨x, mv, y⟩ u = some w ∧
        Returning (.waitCondition c m .infinite) w u y := by
  have htimed := hx.sound.inPlace.isTimed_of_queue (Or.inr ⟨c, hq.queue⟩)
  have hactive : (x.kernel.thread u).state ≠ .inactive := by
    intro hs
    rw [hs] at htimed
    cases htimed
  obtain ⟨checks, hc, hframes⟩ := hq.frames
  have hframes := (framesOf_of_move hx hallows hmove (hq.ne_current hx) hactive).trans hframes
  rcases move_stands hx ht hallows hmove htimed with ⟨hnone, hstand⟩ | ⟨w, hsome, hrun, hwakeup⟩
  · exact Or.inl ⟨hnone, hstand.queue.trans hq.queue, checks, hc, hframes⟩
  · exact Or.inr ⟨w, hsome, .resumes hc hframes rfl hrun hwakeup⟩

/-! The wait that a thread is in, over a history. -/

theorem waitIn_of_ne (hu : r.caller ≠ u) :
    waitIn? u (r :: h) =
      (waitIn? u h).map fun a => { a with result := a.result.or (r.wakes? u) } := by
  rw [waitIn?, if_neg hu]

theorem waitIn_of_awaits (ha : r.move.awaits? = some (c, m)) :
    waitIn? r.caller (r :: h) = some ⟨c, m, none⟩ := by
  obtain ⟨timeout, -, hm⟩ := Move.awaits_inv ha
  rw [waitIn?, if_pos rfl]
  rw [hm] at ha ⊢
  exact congrArg (Option.map _) ha

/-- A thread goes on with what it has to do. -/
theorem waitIn_of_eq (hu : r.caller = u) (hm : r.move = .advance ∨ r.move = .collectLog) :
    waitIn? u (r :: h) = waitIn? u h := by
  rw [waitIn?, if_pos hu]
  rcases hm with hm | hm <;> rw [hm]

/-- A thread that is about to return does nothing else. -/
theorem Returning.turn {o : Operation} (hr : Returning o w x.kernel.current x)
    (hallows : x.allows mv = true) : mv = .advance ∨ mv = .takeAnswer ∨ mv = .collectLog := by
  have hamid : ∀ {f rest}, x.frames = f :: rest → f ≠ .start → (∀ e b, f ≠ .callback e b) →
      mv = .advance ∨ mv = .takeAnswer ∨ mv = .collectLog := fun hframes hstart hcallback =>
    (move_amid hframes hstart hcallback hallows).imp_left And.left
  cases hr with
  | resumes hc hframes hf =>
      rcases hc with rfl | rfl
      · exact hamid hframes hf.plain.1 hf.plain.2
      · exact hamid hframes nofun nofun
  | locks hframes => exact hamid hframes nofun nofun
  | answers hframes => exact hamid hframes nofun nofun

/-- It returns with what ended the wait. -/
theorem Returning.answer {a : ConditionWait}
    (hr : Returning (.waitCondition a.condVar a.mutex .infinite) w x.kernel.current x)
    (hallows : x.allows .takeAnswer = true) : x.frames = [.answer (.wakeup w)] := by
  obtain ⟨e, rest, hframes⟩ := allows_takeAnswer hallows
  have hold : x.framesOf x.kernel.current = .answer e :: rest := hframes
  cases hr with
  | resumes hc hx hf =>
      obtain rfl := hf
      rw [hold] at hx
      rcases hc with rfl | rfl <;> cases (List.cons.inj hx).1
  | locks hx =>
      rw [hold] at hx
      cases (List.cons.inj hx).1
  | answers hx ha =>
      obtain rfl := ha
      exact hx

theorem ConditionWait.Holds.own (ha : a.Holds x.kernel.current x) (hx : x.Fit)
    (hallows : x.allows mv = true) (hmove : x.move mv = .ok y) (hnot : mv ≠ .takeAnswer) :
    a.Holds x.kernel.current y ∧ (mv = .advance ∨ mv = .collectLog) := by
  unfold Holds at ha ⊢
  split
  · rename_i hresult
    rw [hresult] at ha
    exact absurd rfl (ha.ne_current hx)
  · rename_i hresult
    rw [hresult] at ha
    refine ⟨ha.of_own hx hallows hmove hnot, ?_⟩
    rcases ha.turn hallows with hm | hm | hm
    · exact Or.inl hm
    · exact absurd hm hnot
    · exact Or.inr hm

theorem ConditionWait.Holds.other (ha : a.Holds u x) (hx : x.Fit) (ht : x.kernel.timers.Sound)
    (hallows : x.allows mv = true) (hmove : x.move mv = .ok y) (hu : x.kernel.current ≠ u) :
    Holds { a with result := a.result.or (Record.wakes? ⟨x, mv, y⟩ u) } u y := by
  obtain ⟨c, m, result⟩ := a
  cases result with
  | none =>
      rcases Queued.step ha hx ht hallows hmove with ⟨hnone, hqueued⟩ | ⟨w, hsome, hreturning⟩
      · rw [hnone]
        exact hqueued
      · rw [hsome]
        exact hreturning
  | some w => exact Returning.step ha hx hallows hmove fun _ => hu

/-- Where a thread is in its wait. -/
theorem Reaches.waitIn (hr : Reaches h x) (hj : JoinedOnce h) (ha : waitIn? u h = some a) :
    a.Holds u x := by
  induction hr generalizing a with
  | boot _ => cases ha
  | @move h x y mv hr hallows hmove ih =>
      have hx := (hr.orderly hj.tail).fit
      by_cases hcur : x.kernel.current = u
      · subst hcur
        rw [waitIn?, if_pos (show Record.caller ⟨x, mv, y⟩ = x.kernel.current from rfl)] at ha
        dsimp only at ha
        cases mv with
        | call o =>
            obtain ⟨⟨c, m⟩, hawaits, rfl⟩ := Option.map_eq_some_iff.mp ha
            exact queued_of_awaits hx hallows hmove hawaits
        | interrupt o => cases ha
        | takeAnswer => cases ha
        | _ => exact ((ih hj.tail ha).own hx hallows hmove nofun).1
      · rw [waitIn_of_ne (show Record.caller ⟨x, mv, y⟩ ≠ u from hcur)] at ha
        obtain ⟨b, hb, rfl⟩ := Option.map_eq_some_iff.mp ha
        exact (ih hj.tail hb).other hx hr.in_time hallows hmove hcur

/-- A kernel that was just brought up has nobody in the queue of a condition variable. -/
theorem Booted.not_queued (hb : Booted x) : (x.kernel.thread u).queue ≠ some (.condVar c) := by
  have hsolo : ∀ config,
      ((solo config (bootThread config) config.quantum).thread u).queue ≠ some (.condVar c) := by
    intro config hu
    rw [thread_solo] at hu
    split at hu <;> cases hu
  exact (hb.induction (P := fun k => (k.thread u).queue ≠ some (.condVar c)) hsolo
    (fun _ _ hnone => hnone) fun k k' hk he hnone hu =>
      hnone (he.waited hk.inPlace nofun hu)).2

/-- Whoever stands in the queue of a condition variable is in a wait that nothing ended. -/
theorem Reaches.waitIn_of_queue (hr : Reaches h x) (hj : JoinedOnce h)
    (hu : (x.kernel.thread u).queue = some (.condVar c)) :
    ∃ m, waitIn? u h = some ⟨c, m, none⟩ := by
  induction hr with
  | boot hb => exact absurd hu hb.not_queued
  | @move h x y mv hr hallows hmove ih =>
      have hx := (hr.orderly hj.tail).fit
      have hy := ((hr.move hallows hmove).orderly hj).sound.inPlace
      rcases queue_of_move hx hallows hmove hu with hold | ⟨rfl, m, hawaits⟩
      · obtain ⟨m, hwait⟩ := ih hj.tail hold
        have hcur : x.kernel.current ≠ u := Ne.symm (hx.sound.inPlace.not_runs hold)
        have htimed := hx.sound.inPlace.isTimed_of_queue (Or.inr ⟨c, hold⟩)
        refine ⟨m, ?_⟩
        rw [waitIn_of_ne (show Record.caller ⟨x, mv, y⟩ ≠ u from hcur), hwait]
        rcases move_stands hx hr.in_time hallows hmove htimed with ⟨hnone, -⟩ | ⟨w, -, hrun, -⟩
        · rw [hnone]
          rfl
        · exact absurd hrun (not_isRunnable_of_isBlocked (hy.isBlocked_of_queue hu nofun))
      · exact ⟨m, waitIn_of_awaits (r := ⟨x, mv, y⟩) hawaits⟩

theorem Reaches.waitIn_iff (hr : Reaches h x) (hj : JoinedOnce h) :
    (∃ m, waitIn? u h = some ⟨c, m, none⟩) ↔ u ∈ x.kernel.members (.condVar c) := by
  rw [(hr.orderly hj).sound.inPlace.mem_iff]
  constructor
  · rintro ⟨m, hwait⟩
    have hqueued : Queued c m u x := hr.waitIn hj hwait
    exact hqueued.queue
  · exact hr.waitIn_of_queue hj

/-- A wait that was not returned from goes on until something reaches the thread. -/
theorem Reaches.waitIn_of_call (hr : Reaches (later ++ r :: earlier) x)
    (hj : JoinedOnce (later ++ r :: earlier)) (ha : r.move.awaits? = some (c, m))
    (hnot : ∀ r' ∈ later, r'.move = .takeAnswer → r'.caller ≠ r.caller) :
    (waitIn? r.caller (later ++ r :: earlier) = some ⟨c, m, none⟩ ∧
      ∀ r' ∈ later, ∀ w, ¬ r'.Reaching c r.caller w) ∨
    ∃ after r' during w, later = after ++ r' :: during ∧ Ended c r.caller during r' w ∧
      waitIn? r.caller (later ++ r :: earlier) = some ⟨c, m, some w⟩ := by
  induction later generalizing x with
  | nil => exact Or.inl ⟨waitIn_of_awaits ha, fun _ hmem => absurd hmem List.not_mem_nil⟩
  | cons r' later ih =>
      obtain ⟨hbefore, hallows, hmove, rfl⟩ := hr.uncons
      have hx := (hbefore.orderly hj.tail).fit
      have hnot' := hnot r' List.mem_cons_self
      rcases ih hbefore hj.tail fun r'' hr'' => hnot r'' (List.mem_cons_of_mem r' hr'') with
        ⟨hwait, hcalm⟩ | ⟨after, r'', during, w, rfl, hended, hwait⟩
      · have hqueued : Queued c m r.caller r'.before := hbefore.waitIn hj.tail hwait
        have hcur : r'.caller ≠ r.caller := (hqueued.ne_current hx).symm
        have hreaching := fun w => wakes_iff_reaching (w := w) hx hmove hqueued.queue
        have htimed := hx.sound.inPlace.isTimed_of_queue (Or.inr ⟨c, hqueued.queue⟩)
        have hnew := waitIn_of_ne (h := later ++ r :: earlier) hcur
        rw [hwait] at hnew
        rcases move_stands hx hbefore.in_time hallows hmove htimed with
          ⟨hnone, -⟩ | ⟨w, hsome, hrun, hwakeup⟩
        · have hnone : r'.wakes? r.caller = none := hnone
          rw [hnone] at hnew
          refine Or.inl ⟨hnew, fun r'' hmem w hr'' => ?_⟩
          rcases List.mem_cons.mp hmem with rfl | hmem
          · have hsome := (hreaching w).mpr hr''
            rw [hnone] at hsome
            cases hsome
          · exact hcalm r'' hmem w hr''
        · have hsome : r'.wakes? r.caller = some w := hsome
          rw [hsome] at hnew
          have hended := (hreaching w).mp hsome
          exact Or.inr ⟨[], r', later, w, rfl, ⟨hcalm, hended, hrun, hwakeup⟩, hnew⟩
      · refine Or.inr ⟨r' :: after, r'', during, w, rfl, hended, ?_⟩
        by_cases hcur : r'.caller = r.caller
        · have hholds := hbefore.waitIn hj.tail hwait
          rw [← hcur] at hholds
          have hm := (hholds.own hx hallows hmove fun htake => hnot' htake hcur).2
          exact (waitIn_of_eq hcur hm).trans hwait
        · have hnew := waitIn_of_ne (h := (after ++ r'' :: during) ++ r :: earlier) hcur
          rw [hwait] at hnew
          exact hnew

/-! The account of a condition variable. -/

theorem returns_of_ne (hm : r.move ≠ .takeAnswer) : r.returns c w h = false := by
  unfold Record.returns
  split
  · rename_i htake _
    exact absurd htake hm
  · rfl

theorem returns_of_frames {w' : WakeupResult} (hframes : x.frames = [.answer (.wakeup w')])
    (hwait : waitIn? x.kernel.current h = some a) (hresult : a.result = some w') :
    Record.returns c w h ⟨x, .takeAnswer, y⟩ = a.due c w := by
  unfold Record.returns Record.caller ConditionWait.due
  dsimp only
  rw [hframes, hwait, hresult]
  simp [Bool.and_comm]

theorem returns_of_none (hwait : waitIn? x.kernel.current h = none) :
    Record.returns c w h ⟨x, mv, y⟩ = false := by
  unfold Record.returns Record.caller
  dsimp only
  split
  · rw [hwait]
    simp
  · rfl

/-- A call of a thread that is in no wait leaves nothing to return. -/
theorem due_of_new (hnone : waitIn? u h = none) (hu : r.caller = u) :
    (waitIn? u (r :: h)).any (·.due c w) = false := by
  rw [waitIn?, if_pos hu]
  split
  all_goals first
    | exact (congrArg (Option.any _) hnone).trans rfl
    | rfl
    | cases r.move.awaits? <;> simp [ConditionWait.due]

/-- The running thread returns what is due, or it stays due. -/
theorem due_of_own (hr : Reaches h x) (hj : JoinedOnce h) (hallows : x.allows mv = true)
    (hmove : x.move mv = .ok y) :
    ((waitIn? x.kernel.current (⟨x, mv, y⟩ :: h)).any (·.due c w)).toNat +
      (Record.returns c w h ⟨x, mv, y⟩).toNat =
    ((waitIn? x.kernel.current h).any (·.due c w)).toNat := by
  have hx := (hr.orderly hj).fit
  have hcaller : Record.caller ⟨x, mv, y⟩ = x.kernel.current := rfl
  cases hwait : waitIn? x.kernel.current h with
  | none =>
      rw [due_of_new hwait hcaller, returns_of_none hwait]
      rfl
  | some a =>
      have hholds := hr.waitIn hj hwait
      by_cases htake : mv = .takeAnswer
      · subst htake
        obtain ⟨c', m', result⟩ := a
        cases result with
        | none =>
            have hqueued : Queued c' m' x.kernel.current x := hholds
            exact absurd rfl (hqueued.ne_current hx)
        | some w' =>
            have hframes := Returning.answer hholds hallows
            rw [returns_of_frames hframes hwait rfl, waitIn?, if_pos hcaller]
            exact Nat.zero_add _
      · rw [returns_of_ne htake, waitIn_of_eq hcaller (hholds.own hx hallows hmove htake).2, hwait]
        rfl

/-- Another thread owes nothing new unless it is woken in the queue. -/
theorem due_of_other (hr : Reaches h x) (hj : JoinedOnce h) (hu : x.kernel.current ≠ u) :
    ((waitIn? u (⟨x, mv, y⟩ :: h)).any (·.due c w)).toNat =
    ((waitIn? u h).any (·.due c w)).toNat +
      if (x.kernel.thread u).queue = some (.condVar c) ∧
        Record.wakes? ⟨x, mv, y⟩ u = some w then 1 else 0 := by
  have hqueue := fun c => (hr.orderly hj).sound.inPlace.mem_iff u (.condVar c)
  have hwaits := fun c => (hr.waitIn_iff (u := u) (c := c) hj).trans (hqueue c)
  have hnot : (∀ m, waitIn? u h ≠ some ⟨c, m, none⟩) →
      (x.kernel.thread u).queue ≠ some (.condVar c) := by
    intro hno hq
    obtain ⟨m, hm⟩ := (hwaits c).mpr hq
    exact hno m hm
  rw [waitIn_of_ne (show Record.caller ⟨x, mv, y⟩ ≠ u from hu)]
  cases hwait : waitIn? u h with
  | none => simp [hnot (by simp [hwait])]
  | some a =>
      obtain ⟨c', m', result⟩ := a
      cases result with
      | none =>
          have hq := (hwaits c').mp ⟨m', hwait⟩
          simp [hq, ConditionWait.due, Bool.toNat]
      | some w' => simp [hnot (by simp [hwait]), ConditionWait.due]

theorem mem_woken (hx : x.Fit) (hmove : x.move mv = .ok y) :
    u ∈ Record.woken c w ⟨x, mv, y⟩ ↔
      u ∈ x.kernel.members (.condVar c) ∧ Record.Reaching ⟨x, mv, y⟩ c u w := by
  rw [Record.woken, Finset.mem_filter, hx.sound.inPlace.mem_iff]
  refine (and_iff_right (Finset.mem_univ u)).trans (and_congr_right fun hq => ?_)
  exact wakes_iff_reaching hx hmove hq

/-- They are as many as the record gives the result. -/
theorem card_woken (hx : x.Fit) (hmove : x.move mv = .ok y) :
    (Record.woken c w ⟨x, mv, y⟩).card = Record.gives c ⟨x, mv, y⟩ w := by
  have hmem := fun u => mem_woken (u := u) (c := c) (w := w) hx hmove
  have hnone : (∀ u, u ∈ x.kernel.members (.condVar c) → ¬ Record.Reaching ⟨x, mv, y⟩ c u w) →
      (Record.woken c w ⟨x, mv, y⟩).card = 0 := by
    intro hnot
    rw [Finset.card_eq_zero, Finset.eq_empty_iff_forall_notMem]
    exact fun u hu => hnot u ((hmem u).mp hu).1 ((hmem u).mp hu).2
  have hone : ∀ t, t ∈ x.kernel.members (.condVar c) → Record.Reaching ⟨x, mv, y⟩ c t w →
      (∀ u, Record.Reaching ⟨x, mv, y⟩ c u w → u = t) →
        (Record.woken c w ⟨x, mv, y⟩).card = 1 := by
    intro t ht hreaching honly
    rw [Finset.card_eq_one]
    refine ⟨t, Finset.eq_singleton_iff_unique_mem.mpr ⟨(hmem t).mpr ⟨ht, hreaching⟩, ?_⟩⟩
    exact fun u hu => honly u ((hmem u).mp hu).2
  -- A signal and a timeout reach one waiter at most, a broadcast all of them.
  cases w with
  | ok =>
      change _ = if mv.signals? = some c ∧ x.kernel.members (.condVar c) ≠ [] then 1 else 0
      split
      · rename_i hfound
        obtain ⟨t, l, hl⟩ := List.exists_cons_of_ne_nil hfound.2
        have hhead : (x.kernel.members (.condVar c)).head? = some t := by
          rw [hl]
          rfl
        refine hone t (List.mem_of_head? hhead) (.signal hfound.1 hhead) fun u hu => ?_
        cases hu with
        | signal _ hu => exact Option.some.inj (hu.symm.trans hhead)
      · rename_i hfound
        refine hnone fun u hu hreaching => ?_
        cases hreaching with
        | signal hs => exact hfound ⟨hs, List.ne_nil_of_mem hu⟩
  | reset =>
      change _ = if mv.broadcasts? = some c then (x.kernel.members (.condVar c)).length else 0
      split
      · rename_i hb
        rw [← List.toFinset_card_of_nodup (hx.sound.inPlace.hold.nodup (.condVar c))]
        congr 1
        ext u
        rw [hmem, List.mem_toFinset]
        exact and_iff_left_of_imp fun hu => .broadcast hb hu
      · rename_i hb
        refine hnone fun u hu hreaching => ?_
        cases hreaching with
        | broadcast hb' => exact hb hb'
  | timeout =>
      change _ = if ∃ u ∈ x.kernel.members (.condVar c), Record.expires? ⟨x, mv, y⟩ = some u
        then 1 else 0
      split
      · rename_i hfound
        obtain ⟨t, ht, hexpires⟩ := hfound
        refine hone t ht (.timeout hexpires) fun u hu => ?_
        cases hu with
        | timeout hu => exact Option.some.inj (hu.symm.trans hexpires)
      · rename_i hfound
        refine hnone fun u hu hreaching => ?_
        cases hreaching with
        | timeout hexpires => exact hfound ⟨u, hu, hexpires⟩

theorem pending_eq_sum :
    pending c w h = Finset.univ.sum fun u => ((waitIn? u h).any (·.due c w)).toNat := by
  rw [pending, Finset.card_filter]
  refine Finset.sum_congr rfl fun u _ => ?_
  cases (waitIn? u h).any (·.due c w) <;> rfl

theorem pending_step (hr : Reaches h x) (hj : JoinedOnce h) (hallows : x.allows mv = true)
    (hmove : x.move mv = .ok y) :
    pending c w (⟨x, mv, y⟩ :: h) + (Record.returns c w h ⟨x, mv, y⟩).toNat =
      pending c w h + Record.gives c ⟨x, mv, y⟩ w := by
  have hx := (hr.orderly hj).fit
  have hreturns : (Record.returns c w h ⟨x, mv, y⟩).toNat = Finset.univ.sum fun u =>
      if u = x.kernel.current then (Record.returns c w h ⟨x, mv, y⟩).toNat else 0 := by
    rw [Finset.sum_ite_eq', if_pos (Finset.mem_univ _)]
  rw [← card_woken hx hmove, pending_eq_sum, pending_eq_sum, hreturns, Record.woken,
    Finset.card_filter, ← Finset.sum_add_distrib, ← Finset.sum_add_distrib]
  -- Thread by thread: only the wait of the running thread can return.
  refine Finset.sum_congr rfl fun u _ => ?_
  by_cases hu : u = x.kernel.current
  · have hnot : ¬ ((x.kernel.thread u).queue = some (.condVar c) ∧
        Record.wakes? ⟨x, mv, y⟩ u = some w) := by
      rw [hx.sound.inPlace.queue_eq_none hu]
      rintro ⟨⟨⟩, -⟩
    rw [if_pos hu, if_neg hnot, hu]
    exact due_of_own hr hj hallows hmove
  · rw [if_neg hu, due_of_other hr hj (Ne.symm hu)]
    rfl

/-- What signals, broadcasts and timeouts gave was returned, or is still due. -/
theorem Reaches.given_eq (hr : Reaches h x) (hj : JoinedOnce h) :
    given c w h = returned c w h + pending c w h := by
  induction hr with
  | boot _ => simp [given, returned, pending, waitIn?]
  | @move h x y mv hr hallows hmove ih =>
      have hstep := pending_step (c := c) (w := w) hr hj.tail hallows hmove
      have hgiven : given c w (⟨x, mv, y⟩ :: h) = Record.gives c ⟨x, mv, y⟩ w + given c w h :=
        List.sum_cons
      rw [hgiven, ih hj.tail, returned]
      omega

/-! All histories. -/

/-- The wait that began with this record goes on: nothing reached the thread, which stands in the
queue. -/
structure Awaits (r : Record) (c : CondVarId) (later : History) (x : Execution) : Prop where
  calm : ∀ r' ∈ later, ∀ w, ¬ r'.Reaching c r.caller w
  member : r.caller ∈ x.kernel.members (.condVar c)
  state : (x.kernel.thread r.caller).state = .waitingCondVar

structure Accounts (h : History) (x : Execution) : Prop where
  /-- In the queue stand those whose wait nothing ended so far. -/
  members : ∀ c u, (∃ m, waitIn? u h = some ⟨c, m, none⟩) ↔ u ∈ x.kernel.members (.condVar c)
  /-- As long as a wait did not return, it goes on or it is about to. -/
  waits : ∀ later r earlier c m, h = later ++ r :: earlier → r.move.awaits? = some (c, m) →
    (∀ r' ∈ later, r'.move = .takeAnswer → r'.caller ≠ r.caller) →
      Awaits r c later x ∨ ∃ after r' during w, later = after ++ r' :: during ∧
        Ended c r.caller during r' w ∧ Returning (.waitCondition c m .infinite) w r.caller x
  /-- It returns with what reached the thread first. -/
  returns : ∀ later r' between r earlier c m, h = later ++ r' :: (between ++ r :: earlier) →
    r.move.awaits? = some (c, m) → r'.move = .takeAnswer → r'.caller = r.caller →
    (∀ r'' ∈ between, r''.move = .takeAnswer → r''.caller ≠ r.caller) →
      ∃ after r'' during w, between = after ++ r'' :: during ∧
        Ended c r.caller during r'' w ∧ r'.before.frames = [.answer (.wakeup w)]
  /-- A signal is for the first waiter; if there is none, nothing happens but a preemption that
  was due. -/
  signals : ∀ r ∈ h, ∀ c, r.move.signals? = some c →
    Releases (.condVar c) ((r.before.kernel.members (.condVar c)).take 1)
      ((r.before.kernel.members (.condVar c)).drop 1) .ok r.before.kernel r.after.kernel ∧
    (r.before.kernel.members (.condVar c) = [] →
      r.after.kernel = r.before.kernel ∨ r.before.kernel.preempt = .ok r.after.kernel)
  broadcasts : ∀ r ∈ h, ∀ c, r.move.broadcasts? = some c →
    Releases (.condVar c) (r.before.kernel.members (.condVar c)) [] .reset
      r.before.kernel r.after.kernel
  balance : ∀ c w, given c w h = returned c w h + pending c w h

theorem Reaches.awaits_or_ended (hr : Reaches (later ++ r :: earlier) x)
    (hj : JoinedOnce (later ++ r :: earlier)) (ha : r.move.awaits? = some (c, m))
    (hnot : ∀ r' ∈ later, r'.move = .takeAnswer → r'.caller ≠ r.caller) :
    Awaits r c later x ∨ ∃ after r' during w, later = after ++ r' :: during ∧
      Ended c r.caller during r' w ∧ Returning (.waitCondition c m .infinite) w r.caller x := by
  rcases hr.waitIn_of_call hj ha hnot with
    ⟨hwait, hcalm⟩ | ⟨after, r', during, w, hl, hended, hwait⟩
  · have hk := (hr.orderly hj).sound.inPlace
    have hmem := (hr.waitIn_iff hj).mp ⟨m, hwait⟩
    refine Or.inl ⟨hcalm, hmem, ?_⟩
    have hfits := hk.fits r.caller
    rw [(hk.mem_iff _ _).mp hmem] at hfits
    revert hfits
    cases (x.kernel.thread r.caller).state <;> simp [ThreadState.fits]
  · exact Or.inr ⟨after, r', during, w, hl, hended, hr.waitIn hj hwait⟩

theorem reaches_accounts (hr : Reaches h x) (hj : JoinedOnce h) : Accounts h x := by
  refine ⟨fun c u => hr.waitIn_iff hj, ?_, ?_, ?_, ?_, fun c w => hr.given_eq hj⟩
  · rintro later r earlier c m rfl ha hnot
    exact hr.awaits_or_ended hj ha hnot
  · rintro later r' between r earlier c m rfl ha htake hcaller hnot
    obtain ⟨y, hy⟩ := hr.earlier
    obtain ⟨hbefore, hallows, -, -⟩ := hy.uncons
    have hj' := hj.earlier.tail
    rw [htake] at hallows
    rcases hbefore.waitIn_of_call hj' ha hnot with
      ⟨hwait, -⟩ | ⟨after, r'', during, w, hl, hended, hwait⟩
    · have hqueued : Queued c m r.caller r'.before := hbefore.waitIn hj' hwait
      exact absurd hcaller.symm (hqueued.ne_current (hbefore.orderly hj').fit)
    · have hholds := hbefore.waitIn hj' hwait
      rw [← hcaller] at hholds
      exact ⟨after, r'', during, w, hl, hended, Returning.answer hholds hallows⟩
  · intro r hmem c hs
    obtain ⟨h', hbefore, -, -, hmove⟩ := hr.orderly_of_mem hj hmem
    exact releases_of_signals hbefore.fit hmove hs
  · intro r hmem c hb
    obtain ⟨h', hbefore, -, -, hmove⟩ := hr.orderly_of_mem hj hmem
    exact releases_of_broadcasts hbefore.fit hmove hb

/-- A thread waits three times: it is signalled, it is told with all the others, and its time is up.
The last time it did not return so far. -/
def notifying : List Move :=
  [.takeAnswer, .call (.operation .createMutex), .takeAnswer, .call (.operation .createCondVar),
    .takeAnswer, .call (.spawn "waiter" .critical "wait"), .enter, .call (.operation (.lock 0)),
    .takeAnswer, .call (.operation (.waitCondition 0 0 .infinite)), .takeAnswer,
    .call (.operation (.signalCondition 0)), .advance, .takeAnswer,
    .call (.operation (.waitCondition 0 0 .infinite)), .takeAnswer,
    .call (.operation (.broadcast 0)), .advance, .takeAnswer,
    .call (.operation (.waitCondition 0 0 (.ofTicks 1))), .takeAnswer,
    .interrupt .tick, .advance, .advance, .takeAnswer, .call (.operation .yieldTurn), .advance]

theorem accounts_notifying : Reaches (enact notifying).1 (enact notifying).2 ∧
    JoinedOnce (enact notifying).1 ∧
    ([.ok, .reset, .timeout].map fun w => (given 0 w (enact notifying).1,
      returned 0 w (enact notifying).1, pending 0 w (enact notifying).1)) =
        [(1, 1, 0), (1, 1, 0), (1, 0, 1)] ∧
    Accounts (enact notifying).1 (enact notifying).2 :=
  have hr := reaches_enact (by decide +kernel)
  have hj : JoinedOnce (enact notifying).1 := by decide +kernel
  ⟨hr, hj, by decide +kernel, reaches_accounts hr hj⟩

end RealtimeKernel.Execution

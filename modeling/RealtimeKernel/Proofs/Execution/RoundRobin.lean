import RealtimeKernel.Proofs.Execution.Turns

/-!
Undisturbed round robin. While no timer is armed and threads do nothing but let ticks pass or
yield, the running thread and its equals rotate: with every quantum that is used up and with
every yield the next one runs, and all others of a lower priority wait. A thread without equals
is not switched out at all.
-/
namespace RealtimeKernel.Execution
open Kernel

variable {x y z : Execution} {A low : List ThreadId} {k₀ : Kernel} {p : Stand}
  {pending : List Frame} {m : Move} {t : ThreadId}

/-! Such runs fail only when the clock is exhausted, and there are runs of every length. -/

theorem exists_perform {rest : List Frame} {step : Kernel → Outcome Step}
    (h : ∃ s, step x.kernel = .ok s) : ∃ y, x.perform rest step = .ok y := by
  obtain ⟨s, hs⟩ := h
  exact ⟨_, bind_eq_ok.mpr ⟨s, hs, rfl⟩⟩

theorem exists_allows (h : x.frames ≠ []) :
    ∃ m ∈ [Move.takeAnswer, .enter, .leave, .advance], x.allows m = true := by
  have hshows := x.turn_shows
  cases hturn : x.turn with
  | code =>
      rw [hturn] at hshows
      exact absurd hshows h
  | callbackCode r => exact ⟨.leave, by simp, by simp [allows, hturn]⟩
  | answer a => exact ⟨.takeAnswer, by simp, by simp [allows, hturn]⟩
  | entry e => exact ⟨.enter, by simp, by simp [allows, hturn]⟩
  | callback r => exact ⟨.enter, by simp, by simp [allows, hturn]⟩
  | work => exact ⟨.advance, by simp, by simp [allows, hturn]⟩

theorem TakesTurns.exists_advance (hx : TakesTurns A low k₀ p pending x)
    (hpending : pending <:+ [.fire, .preempt]) (hallows : x.allows .advance = true) :
    ∃ y, x.advance = .ok y := by
  obtain ⟨l, hframes, hreturns⟩ := hx.mine
  obtain ⟨f, rest, hl, hanswer, -⟩ := allows_advance hallows
  rw [advance_eq hl]
  refine exists_perform ?_
  rw [hl] at hframes
  rcases pending_cases hpending with rfl | rfl | rfl
  · obtain rfl := (List.cons.inj hframes).1
    exact ⟨_, fire_quiet hx.quiet⟩
  · obtain rfl := (List.cons.inj hframes).1
    obtain ⟨k', hk'⟩ := (preempt_fails (P := fun _ => False) hx.inPlace).total fun _ => id
    exact ⟨(k', []), bind_eq_ok.mpr ⟨k', hk', rfl⟩⟩
  · obtain rfl : f :: rest = l := hframes
    rcases hreturns.cons with ⟨rfl, -, hentry⟩ | ⟨hends, -⟩
    · have hnot : x.allows .advance = false := by
        obtain ⟨e, he⟩ := Option.ne_none_iff_exists'.mp hentry
        unfold allows turn
        rw [hl]
        simp only [running, he]
      rw [hnot] at hallows
      cases hallows
    · cases f with
      | answer a => exact absurd rfl (hanswer a)
      | answerWakeup => exact ⟨_, rfl⟩
      | awake => exact ⟨_, if_neg (by rw [hx.unarmed]; exact Bool.false_ne_true)⟩
      | locked m => exact ⟨_, if_pos (of_decide_eq_true hends)⟩
      | collect u => exact ⟨_, rfl⟩
      | _ => cases hends

/-- No move fails, unless there is no time after the next tick. -/
theorem TakesTurns.total (hx : TakesTurns A low k₀ p pending x)
    (hpending : pending <:+ [.fire, .preempt]) (hallows : x.allows m = true)
    (hm : ∀ c, m.choice? = some c → c = .inl (.operation .yieldTurn) ∨
      c = .inl (.operation .tick) ∧ x.kernel.clock.total + 1 < 2 ^ 64) :
    ∃ y, x.move m = .ok y := by
  cases m with
  | call c =>
      rcases hm _ rfl with hc | ⟨hc, hclock⟩
      · obtain rfl := Sum.inl.inj hc
        obtain ⟨k', hk'⟩ := (yieldTurn_fails (P := fun _ => False) hx.inPlace).total fun _ => id
        have hstep : Operation.yieldTurn.run x.kernel = .ok (k', [.answer .unit]) :=
          bind_eq_ok.mpr ⟨k', hk', rfl⟩
        change ∃ y, x.perform x.frames Operation.yieldTurn.run = .ok y
        exact exists_perform ⟨_, hstep⟩
      · obtain rfl := Sum.inl.inj hc
        obtain ⟨k', hk'⟩ := beginTick_total hx.quiet hclock
        have hstep : Operation.tick.run x.kernel = .ok (k', [.fire, .preempt, .answer .unit]) :=
          bind_eq_ok.mpr ⟨k', hk', rfl⟩
        change ∃ y, x.perform x.frames Operation.tick.run = .ok y
        exact exists_perform ⟨_, hstep⟩
  | interrupt c =>
      rcases hm _ rfl with hc | ⟨hc, -⟩ <;> cases hc
  | advance => exact hx.exists_advance hpending hallows
  | _ => exact ⟨_, rfl⟩

theorem Run.trans {ms ms' : List Move} (h : Run x ms y) (h' : Run y ms' z) :
    Run x (ms ++ ms') z := by
  induction h with
  | nil x => exact h'
  | cons hallows hmove _ ih => exact .cons hallows hmove (ih h')

theorem Calls.trans {os os' : List Operation} (h : Calls os x y) (h' : Calls os' y z) :
    Calls (os ++ os') x z := by
  obtain ⟨ms, hrun, hms⟩ := h
  obtain ⟨ms', hrun', hms'⟩ := h'
  refine ⟨ms ++ ms', hrun.trans hrun', ?_⟩
  rw [List.filterMap_append, hms, hms', List.map_append]

/-- The kernel does something by itself. -/
theorem Calls.of_move (hallows : x.allows m = true) (hm : m.choice? = none)
    (hmove : x.move m = .ok y) : Calls [] x y := by
  refine ⟨[m], .cons hallows hmove (.nil y), ?_⟩
  rw [List.filterMap_cons_none hm]
  rfl

/-- The running thread gets back to its code. -/
theorem TakesTurns.comesBack (hx : TakesTurns A low k₀ p [] x) :
    ∃ z, Calls [] x z ∧ TakesTurns A low k₀ p [] z ∧ z.frames = [] := by
  induction hw : weight x.frames using Nat.strong_induction_on generalizing x with
  | _ w ih =>
      by_cases hnil : x.frames = []
      · exact ⟨x, ⟨[], .nil x, rfl⟩, hx, hnil⟩
      · obtain ⟨m, hm, hallows⟩ := exists_allows hnil
        have hchoice : m.choice? = none := by
          simp only [List.mem_cons, List.not_mem_nil, or_false] at hm
          rcases hm with rfl | rfl | rfl | rfl <;> rfl
        obtain ⟨y, hmove⟩ := hx.total List.nil_suffix hallows fun c hc => by
          rw [hchoice] at hc
          cases hc
        obtain ⟨hy, hless⟩ := hx.unwinds hallows hm hmove
        obtain ⟨z, hcalls, hz⟩ := ih _ (hw ▸ hless) hy rfl
        exact ⟨z, (Calls.of_move hallows hchoice hmove).trans hcalls, hz⟩

theorem TakesTurns.advances (hx : TakesTurns A low k₀ p pending x)
    (hpending : pending <:+ [.fire, .preempt]) (hne : pending ≠ []) :
    ∃ y, x.move .advance = .ok y ∧ Calls [] x y := by
  have hallows : x.allows .advance = true := by simp [allows, hx.works hpending hne]
  obtain ⟨y, hmove⟩ := hx.exists_advance hpending hallows
  exact ⟨y, hmove, .of_move hallows rfl hmove⟩

/-- The tick that is under way comes to an end. -/
theorem TakesTurns.ends (hx : TakesTurns A low k₀ p pending x)
    (hpending : pending <:+ [.fire, .preempt]) :
    ∃ z, Calls [] x z ∧ TakesTurns A low k₀ (p.settle A.length k₀.config.quantum pending) [] z ∧
      z.frames = [] := by
  have hchecks : ∀ {x}, TakesTurns A low k₀ p [.preempt] x → ∃ z, Calls [] x z ∧
      TakesTurns A low k₀ (p.check A.length k₀.config.quantum) [] z ∧ z.frames = [] := by
    intro x hx
    obtain ⟨y, hmove, hcalls⟩ := hx.advances ⟨[.fire], rfl⟩ (by simp)
    obtain ⟨z, hcalls', hz⟩ := (hx.checks hmove).comesBack
    exact ⟨z, hcalls.trans hcalls', hz⟩
  rcases pending_cases hpending with rfl | rfl | rfl
  · obtain ⟨y, hmove, hcalls⟩ := hx.advances hpending (by simp)
    obtain ⟨z, hcalls', hz⟩ := hchecks (hx.fires hmove)
    exact ⟨z, hcalls.trans hcalls', hz⟩
  · exact hchecks hx
  · exact hx.comesBack

/-- Threads may call anything of this, in any order, as long as there is time. -/
theorem TakesTurns.happens {os : List Operation} (hx : TakesTurns A low k₀ p [] x)
    (hnil : x.frames = []) (hos : ∀ o ∈ os, o ∈ [Operation.tick, .yieldTurn])
    (clock : k₀.clock.total + p.ticks + os.count .tick < 2 ^ 64) :
    ∃ z, Calls os x z ∧ z.frames = [] := by
  induction os generalizing x p with
  | nil => exact ⟨x, ⟨[], .nil x, rfl⟩, hnil⟩
  | cons o os ih =>
      obtain ⟨ho, hos⟩ := List.forall_mem_cons.mp hos
      have hturn : x.turn = .code := by
        unfold turn
        rw [hnil]
      have hallows : x.allows (.call (.operation o)) = true := by
        simp only [List.mem_cons, List.not_mem_nil, or_false] at ho
        rcases ho with rfl | rfl <;> simp [allows, hturn, Call.handlesExist, Operation.handlesExist]
      obtain ⟨y, hmove⟩ := hx.total List.nil_suffix hallows fun c hc => by
        obtain rfl := Option.some.inj hc
        simp only [List.mem_cons, List.not_mem_nil, or_false] at ho
        rcases ho with rfl | rfl
        · refine Or.inr ⟨rfl, ?_⟩
          rw [List.count_cons_self] at clock
          rw [hx.clock]
          omega
        · exact Or.inl rfl
      obtain ⟨p₁, pending, hy, hpending, -, hstand⟩ := hx.called ho hallows hmove
      obtain ⟨z₁, hends, hz₁, hnil₁⟩ := hy.ends hpending
      rw [hstand] at hz₁
      have hticks := Stand.ticks_after (n := A.length) (q := k₀.config.quantum) p o os
      obtain ⟨z, hcalls, hz⟩ := ih hz₁ hnil₁ hos (by
        change k₀.clock.total + (p.after A.length k₀.config.quantum o).ticks + _ < _
        omega)
      have hcall : Calls [o] x y :=
        ⟨[.call (.operation o)], .cons hallows hmove (.nil y), rfl⟩
      exact ⟨z, hcall.trans (hends.trans hcalls), hz⟩

/-! Taking turns. -/

/-- Equals are about to take turns: the running thread was just dispatched, no thread that is
ready has a higher priority, no timer is armed, and whoever is to run has only to return to its
code. -/
structure Poised (x : Execution) : Prop where
  inPlace : x.kernel.InPlace
  quantum : 0 < x.kernel.config.quantum
  full : x.kernel.quantumLeft = x.kernel.config.quantum
  first : ∀ t ∈ x.kernel.members .ready,
    x.kernel.running.priority.level ≤ (x.kernel.priorityOf t).level
  timers : x.kernel.timers.Sound
  unarmed : ∀ slot, x.kernel.timers.isArmed slot = false
  returns : ∀ t ∈ x.kernel.peers, x.kernel.Returns t (x.framesOf t)

/-- The equals of the running thread have rotated, and the ready threads of a lower priority wait
as before. -/
structure Rotated (x : Execution) (turns left : Nat) (z : Execution) : Prop where
  current : x.kernel.peers[turns % x.kernel.peers.length]? = some z.kernel.current
  line : z.kernel.current :: z.kernel.members .ready =
    x.kernel.peers.rotate turns ++ x.kernel.lesser
  left : z.kernel.quantumLeft = left

/-- What comes of an execution in which threads do nothing but let ticks pass, or yield. -/
structure RoundRobin (x : Execution) : Prop where
  /-- Every quantum of ticks is a turn, as soon as the last tick is over. -/
  ticks : ∀ k z, Calls (.replicate k .tick) x z → .preempt ∉ z.frames →
    Rotated x (k / x.kernel.config.quantum)
      (if 1 < x.kernel.peers.length then x.kernel.config.quantum - k % x.kernel.config.quantum
        else x.kernel.config.quantum - k) z
  /-- Every yield is a turn. -/
  yields : ∀ k z, Calls (.replicate k .yieldTurn) x z →
    Rotated x k x.kernel.config.quantum z
  /-- A thread without equals goes on, and its yields do not count. -/
  alone : x.kernel.peers.length = 1 → ∀ os z, (∀ o ∈ os, o ∈ [Operation.tick, .yieldTurn]) →
    Calls os x z → z.kernel.current = x.kernel.current ∧
      z.kernel.contextSwitches = x.kernel.contextSwitches ∧
      z.kernel.quantumLeft = x.kernel.config.quantum - os.count .tick
  /-- All this can happen, in any order, as long as the clock can count it. -/
  happens : ∀ os, (∀ o ∈ os, o ∈ [Operation.tick, .yieldTurn]) →
    x.kernel.clock.total + os.count .tick < 2 ^ 64 → ∃ z, Calls os x z ∧ z.frames = []
  /-- And on the way nothing fails. -/
  goesOn : ∀ os z m, (∀ o ∈ os, o ∈ [Operation.tick, .yieldTurn]) → Calls os x z →
    z.allows m = true →
    (∀ c, m.choice? = some c → c = .inl (.operation .yieldTurn) ∨
      c = .inl (.operation .tick) ∧ z.kernel.clock.total + 1 < 2 ^ 64) →
    ∃ y, z.move m = .ok y

theorem Poised.takesTurns (hx : Poised x) :
    TakesTurns x.kernel.peers x.kernel.lesser x.kernel ⟨0, x.kernel.config.quantum, 0⟩ [] x := by
  refine ⟨hx.inPlace, ?_, hx.full, ?_, rfl, rfl, hx.timers.head_eq_none hx.unarmed, hx.unarmed,
    ⟨x.frames, rfl, hx.returns _ List.mem_cons_self⟩, fun t ht _ => hx.returns t ht⟩
  · rw [List.rotate_zero]
    exact hx.inPlace.rota hx.first
  · exact (UInt32.add_zero _).symm

/-- What a run comes to between two ticks. -/
theorem Poised.stands (hx : Poised x) {os : List Operation}
    (hos : ∀ o ∈ os, o ∈ [Operation.tick, .yieldTurn]) (hcalls : Calls os x z) :
    ∃ p pending, TakesTurns x.kernel.peers x.kernel.lesser x.kernel p pending z ∧
      pending <:+ [.fire, .preempt] ∧ (pending ≠ [] → .tick ∈ os) ∧
      p.settle x.kernel.peers.length x.kernel.config.quantum pending =
        os.foldl (Stand.after x.kernel.peers.length x.kernel.config.quantum)
          ⟨0, x.kernel.config.quantum, 0⟩ := by
  obtain ⟨ms, hrun, hms⟩ := hcalls
  obtain ⟨p, pending, hz, hpending, htick, hstand⟩ :=
    hx.takesTurns.run hrun List.nil_suffix hos hms
  exact ⟨p, pending, hz, hpending, fun hne => (htick hne).resolve_left fun h => h rfl, hstand⟩

theorem TakesTurns.rotated (hz : TakesTurns x.kernel.peers x.kernel.lesser k₀ p pending z) :
    Rotated x p.turns p.left z := by
  refine ⟨?_, hz.rota.line, hz.left⟩
  have hpos : 0 < x.kernel.peers.length := Nat.succ_pos _
  rw [← List.head?_rotate (Nat.mod_lt _ hpos), List.rotate_mod]
  obtain ⟨l, hl, -⟩ := hz.rota.exists_cons
  rw [hl]
  rfl

/-- Only the turns since the last full round count. -/
theorem Rotated.congr {n n' left : Nat} (h : Rotated x n left z)
    (same : n % x.kernel.peers.length = n' % x.kernel.peers.length) : Rotated x n' left z := by
  refine ⟨same ▸ h.current, ?_, h.left⟩
  rw [← List.rotate_mod, ← same, List.rotate_mod]
  exact h.line

theorem Poised.ticks (hx : Poised x) {k : Nat} (hcalls : Calls (.replicate k .tick) x z)
    (hnot : .preempt ∉ z.frames) : Rotated x (k / x.kernel.config.quantum)
      (if 1 < x.kernel.peers.length then x.kernel.config.quantum - k % x.kernel.config.quantum
        else x.kernel.config.quantum - k) z := by
  have hos : ∀ o ∈ List.replicate k Operation.tick, o ∈ [Operation.tick, .yieldTurn] := by
    intro o ho
    rw [List.eq_of_mem_replicate ho]
    exact List.mem_cons_self
  obtain ⟨p, pending, hz, hpending, -, hstand⟩ := hx.stands hos hcalls
  obtain ⟨l, hframes, -⟩ := hz.mine
  rw [hframes] at hnot
  obtain rfl : pending = [] := by
    rcases pending_cases hpending with rfl | rfl | rfl
    · simp at hnot
    · simp at hnot
    · rfl
  rw [Stand.after_ticks hx.quantum] at hstand
  obtain rfl : p = _ := hstand
  have hrotated := hz.rotated
  split at hrotated <;> rename_i hn
  · rw [if_pos hn]
    exact hrotated
  · rw [if_neg hn]
    refine hrotated.congr ?_
    obtain hone : x.kernel.peers.length = 1 := by
      have hpos : 0 < x.kernel.peers.length := Nat.succ_pos _
      omega
    rw [hone, Nat.mod_one, Nat.mod_one]

theorem Poised.yields (hx : Poised x) {k : Nat} (hcalls : Calls (.replicate k .yieldTurn) x z) :
    Rotated x k x.kernel.config.quantum z := by
  have hos : ∀ o ∈ List.replicate k Operation.yieldTurn, o ∈ [Operation.tick, .yieldTurn] := by
    intro o ho
    rw [List.eq_of_mem_replicate ho]
    exact List.mem_cons_of_mem _ List.mem_cons_self
  obtain ⟨p, pending, hz, -, htick, hstand⟩ := hx.stands hos hcalls
  obtain rfl : pending = [] := by
    by_contra hne
    cases List.eq_of_mem_replicate (htick hne)
  rw [Stand.after_yields] at hstand
  obtain rfl : p = _ := hstand
  have hrotated := hz.rotated
  dsimp only at hrotated
  refine hrotated.congr ?_
  split
  · rfl
  · obtain hone : x.kernel.peers.length = 1 := by
      have hpos : 0 < x.kernel.peers.length := Nat.succ_pos _
      omega
    rw [hone, Nat.mod_one, Nat.mod_one]

theorem Poised.alone (hx : Poised x) (hone : x.kernel.peers.length = 1) {os : List Operation}
    (hos : ∀ o ∈ os, o ∈ [Operation.tick, .yieldTurn]) (hcalls : Calls os x z) :
    z.kernel.current = x.kernel.current ∧
      z.kernel.contextSwitches = x.kernel.contextSwitches ∧
      z.kernel.quantumLeft = x.kernel.config.quantum - os.count .tick := by
  obtain ⟨p, pending, hz, -, -, hstand⟩ := hx.stands hos hcalls
  have hsettle : p.settle x.kernel.peers.length x.kernel.config.quantum pending = p := by
    unfold Stand.settle Stand.check Stand.pass
    rw [if_neg (by omega : ¬ 1 < x.kernel.peers.length), ite_self, ite_self]
  rw [hsettle, Stand.after_alone hone] at hstand
  subst hstand
  refine ⟨?_, hz.switches.trans (UInt32.add_zero _), hz.left⟩
  have hline := hz.rota.line
  dsimp only at hline
  rw [List.rotate_zero] at hline
  exact (List.cons.inj hline).1

/-- Equals take turns in a fixed order as long as nothing else goes on. -/
theorem poised_roundRobin (x : Execution) (hx : Poised x) : RoundRobin x := by
  refine ⟨fun k z => hx.ticks, fun k z => hx.yields, fun hone os z hos => hx.alone hone hos,
    fun os hos hclock => ?_, fun os z m hos hcalls hallows hm => ?_⟩
  · obtain ⟨y, hcalls, hy, hnil⟩ := hx.takesTurns.comesBack
    obtain ⟨z, hcalls', hz⟩ := hy.happens hnil hos hclock
    exact ⟨z, hcalls.trans hcalls', hz⟩
  · obtain ⟨p, pending, hz, hpending, -, -⟩ := hx.stands hos hcalls
    exact hz.total hpending hallows hm

/-! Where this comes about. -/

/-- A thread that may run has what its operation returns with. -/
theorem Reaches.returns {h : History} (hr : Reaches h x) (hj : JoinedOnce h)
    (hp : ∀ r ∈ h, r.move.isProper r.before = true)
    (runs : (x.kernel.thread t).state.isRunnable = true)
    (plain : ∀ f ∈ x.framesOf t, f.isReturn = true) : x.kernel.Returns t (x.framesOf t) := by
  have ho := hr.orderly hj
  have hk := ho.sound.inPlace
  have hqueue : ∀ q, (x.kernel.thread t).queue = some q → q = .ready := by
    intro q hq
    by_contra hne
    exact not_isRunnable_of_isBlocked (hk.isBlocked_of_queue hq hne) runs
  have ha := (hr.coherent hj hp).agenda t
  have hcollects := ho.collects t
  generalize x.framesOf t = l at ha plain hcollects
  cases ha with
  | plain hplain =>
      refine Or.inr fun f hf => ?_
      have hreturn := plain f hf
      have hf' := hplain f hf
      cases f with
      | answer a => rfl
      | answerWakeup => rfl
      | awake => rfl
      | collect u =>
          rcases (hcollects u hf).target with ⟨hq, -⟩ | hfinal
          · cases hqueue _ hq
          · simp only [endsCall, hfinal]
            rfl
      | start => cases hf'
      | locked m => cases hf'
      | _ => cases hreturn
  | start henter =>
      refine Or.inl ⟨rfl, henter ?_⟩
      intro hs
      rw [hs] at runs
      cases runs
  | @locked m a hcontends =>
      have howner : x.kernel.owner? m = some t := by
        apply hcontends.resolve_left
        intro hq
        cases hqueue _ hq
      refine Or.inr ?_
      simp [endsCall, howner]
  | relock => cases plain _ List.mem_cons_self
  | wakes => cases plain _ (List.mem_cons_of_mem _ List.mem_cons_self)
  | firing _ hf =>
      cases hf with
      | due => cases plain _ List.mem_cons_self
      | calls => cases plain _ List.mem_cons_self
      | returns => cases plain _ (List.mem_cons_of_mem _ List.mem_cons_self)

theorem Reaches.poised {h : History} (hr : Reaches h x) (hj : JoinedOnce h)
    (hp : ∀ r ∈ h, r.move.isProper r.before = true) (quantum : 0 < x.kernel.config.quantum)
    (full : x.kernel.quantumLeft = x.kernel.config.quantum)
    (first : ∀ t ∈ x.kernel.members .ready,
      x.kernel.running.priority.level ≤ (x.kernel.priorityOf t).level)
    (unarmed : ∀ slot, x.kernel.timers.isArmed slot = false)
    (plain : ∀ t ∈ x.kernel.peers, ∀ f ∈ x.framesOf t, f.isReturn = true) : Poised x := by
  have hk := (hr.orderly hj).sound.inPlace
  refine ⟨hk, quantum, full, first, hr.in_time, unarmed, fun t ht => ?_⟩
  refine hr.returns hj hp ?_ (plain t ht)
  rcases List.mem_cons.mp ht with rfl | ht
  · rw [hk.state_current]
    rfl
  · rw [hk.ready_iff.mpr (List.mem_filter.mp ht).1]
    rfl

/-- The boot thread makes two others of its own priority. -/
def turning : List Move :=
  [.takeAnswer, .call (.spawn "left" .normal "work"), .takeAnswer,
    .call (.spawn "right" .normal "work")]

theorem roundRobin_turning : Poised (enact turning).2 ∧ RoundRobin (enact turning).2 :=
  have hr := reaches_enact (by decide +kernel)
  have hx : Poised (enact turning).2 := hr.poised (by decide +kernel) (by decide +kernel)
    (by decide +kernel) (by decide +kernel) (by decide +kernel) (by decide +kernel)
    (by decide +kernel)
  ⟨hx, poised_roundRobin _ hx⟩

end RealtimeKernel.Execution

import Mathlib.Data.List.Rotate
import RealtimeKernel.Proofs.Execution.Agenda
import RealtimeKernel.Proofs.Kernel.Rota

/-!
Runs in which threads do nothing but let ticks pass, or yield. As long as no timer is armed the
kernel does what a counter of turns and of the quantum says (`Stand`); `TakesTurns` relates the two,
and every move keeps it.
-/
namespace RealtimeKernel

theorem TimerQueue.Sound.head_eq_none {n : Nat} {α : Type} {q : TimerQueue n α} (h : q.Sound)
    (unarmed : ∀ slot, q.isArmed slot = false) : q.head = none := by
  obtain ⟨now, S, h⟩ := h
  cases S with
  | nil => exact h.head_eq
  | cons a S =>
      have harmed := (h.isArmed_iff a.slot).mpr (List.mem_map_of_mem List.mem_cons_self)
      rw [unarmed] at harmed
      cases harmed

/-- Does the frame end an operation, or start a thread? -/
def Frame.isReturn : Frame → Bool
  | .start | .answer _ | .answerWakeup | .awake | .collect _ | .locked _ => true
  | _ => false

namespace Kernel

variable {k k' : Kernel} {t : ThreadId} {frames : List Frame} {f : Frame}

/-- Does the frame only end an operation that has done all else? -/
def endsCall (k : Kernel) (t : ThreadId) : Frame → Bool
  | .answer _ | .answerWakeup | .awake => true
  | .collect u => (k.thread u).state.isGone
  | .locked m => k.owner? m = some t
  | _ => false

/-- A thread with these frames has only to start, or to return from an operation. -/
def Returns (k : Kernel) (t : ThreadId) (frames : List Frame) : Prop :=
  frames = [.start] ∧ (k.thread t).entry ≠ none ∨ ∀ f ∈ frames, k.endsCall t f = true

theorem returns_nil (k : Kernel) (t : ThreadId) : k.Returns t [] := Or.inr nofun

theorem endsCall_upheld (hu : Upholds k k') (h : k.endsCall t f = true) :
    k'.endsCall t f = true := by
  cases f with
  | collect u => exact hu.gone u h
  | locked m =>
      simp only [endsCall, hu.owner?] at h ⊢
      exact h
  | _ => exact h

theorem Returns.upheld (h : k.Returns t frames) (hu : Upholds k k')
    (entry : (k'.thread t).entry = (k.thread t).entry) : k'.Returns t frames := by
  refine h.imp (fun hstart => ?_) fun hends f hf => endsCall_upheld hu (hends f hf)
  rw [entry]
  exact hstart

theorem Returns.cons (h : k.Returns t (f :: frames)) :
    f = .start ∧ frames = [] ∧ (k.thread t).entry ≠ none ∨
      k.endsCall t f = true ∧ ∀ g ∈ frames, k.endsCall t g = true := by
  rcases h with ⟨hstart, hentry⟩ | hends
  · obtain ⟨rfl, rfl⟩ := List.cons.inj hstart
    exact Or.inl ⟨rfl, rfl, hentry⟩
  · exact Or.inr (List.forall_mem_cons.mp hends)

/-- A tick leaves timers alone if none is armed. -/
theorem beginTick_quiet (quiet : k.timers.head = none) (h : k.beginTick = .ok k') :
    ∃ clock, k.clock.advance = some clock ∧
      k' = { k with clock, quantumLeft := k.quantumLeft - 1 } := by
  obtain ⟨clock, timers, hclock, htimers, rfl⟩ := beginTick_ok h
  rw [TimerQueue.advance, quiet] at htimers
  obtain rfl := Except.ok.inj htimers
  exact ⟨clock, hclock, rfl⟩

theorem beginTick_total (quiet : k.timers.head = none) (clock : k.clock.total + 1 < 2 ^ 64) :
    ∃ k', k.beginTick = .ok k' := by
  rcases k.clock.advance_total with ⟨-, hend⟩ | ⟨c, hc, -⟩
  · omega
  · unfold beginTick TimerQueue.advance
    rw [hc]
    dsimp only
    rw [quiet]
    exact ⟨_, rfl⟩

theorem fire_quiet (quiet : k.timers.head = none) : k.fire = .ok (k, []) := by
  rw [fire, TimerQueue.popExpired, quiet]
  rfl

end Kernel

/-- Where a rota stands. -/
structure Stand where
  /-- How many turns are over. -/
  turns : Nat
  /-- What is left of the quantum. -/
  left : Nat
  /-- How many ticks were charged. -/
  ticks : Nat

namespace Stand

variable {n q : Nat}

def charge (p : Stand) : Stand := { p with left := p.left - 1, ticks := p.ticks + 1 }

/-- The turn passes on, if there is anybody else. -/
def pass (n q : Nat) (p : Stand) : Stand :=
  if 1 < n then { p with turns := p.turns + 1, left := q } else p

/-- The turn passes on if the quantum is used up. -/
def check (n q : Nat) (p : Stand) : Stand := if p.left = 0 then p.pass n q else p

/-- What an operation does to a rota of `n` threads with the quantum `q`. -/
def after (n q : Nat) (p : Stand) : Operation → Stand
  | .tick => p.charge.check n q
  | .yieldTurn => p.pass n q
  | _ => p

/-- What the rota comes to when the tick is over that is under way, if one is. -/
def settle (n q : Nat) (pending : List Frame) (p : Stand) : Stand :=
  if pending.isEmpty then p else p.check n q

theorem after_tick (p : Stand) : p.after n q .tick =
    if 1 < n ∧ p.left - 1 = 0 then ⟨p.turns + 1, q, p.ticks + 1⟩
    else ⟨p.turns, p.left - 1, p.ticks + 1⟩ := by
  unfold after charge check pass
  split <;> split <;> simp_all

theorem after_ticks (quantum : 0 < q) (k : Nat) :
    (List.replicate k Operation.tick).foldl (after n q) ⟨0, q, 0⟩ =
      if 1 < n then ⟨k / q, q - k % q, k⟩ else ⟨0, q - k, k⟩ := by
  induction k with
  | zero => simp
  | succ k ih =>
      rw [List.replicate_succ', List.foldl_append, ih, List.foldl_cons, List.foldl_nil]
      by_cases hn : 1 < n
      · have hlt : k % q < q := Nat.mod_lt k quantum
        have hk : q * (k / q) + k % q = k := Nat.div_add_mod k q
        rw [if_pos hn, if_pos hn, after_tick]
        by_cases hover : k % q + 1 = q
        · have hsucc : k + 1 = q * (k / q + 1) := by
            rw [Nat.mul_add, Nat.mul_one]
            omega
          rw [if_pos ⟨hn, by dsimp only; omega⟩, hsucc, Nat.mul_div_cancel_left _ quantum,
            Nat.mul_mod_right, Nat.sub_zero, ← hsucc]
        · have hsucc : k + 1 = k % q + 1 + q * (k / q) := by omega
          have hsame : (k + 1) / q = k / q ∧ (k + 1) % q = k % q + 1 :=
            (Nat.div_mod_unique quantum).mpr ⟨hsucc.symm, by omega⟩
          rw [if_neg (by dsimp only; omega), hsame.1, hsame.2, Nat.sub_sub]
      · rw [if_neg hn, if_neg hn, after_tick, if_neg fun hboth => hn hboth.1, Nat.sub_sub]

theorem after_yields (k : Nat) :
    (List.replicate k Operation.yieldTurn).foldl (after n q) ⟨0, q, 0⟩ =
      ⟨if 1 < n then k else 0, q, 0⟩ := by
  induction k with
  | zero => simp
  | succ k ih =>
      rw [List.replicate_succ', List.foldl_append, ih, List.foldl_cons, List.foldl_nil]
      simp only [after, pass]
      split <;> rfl

/-- Without equals a thread has its turn for ever. -/
theorem after_alone (alone : n = 1) (p : Stand) (os : List Operation) :
    os.foldl (after n q) p =
      ⟨p.turns, p.left - os.count .tick, p.ticks + os.count .tick⟩ := by
  induction os generalizing p with
  | nil => rfl
  | cons o os ih =>
      rw [List.foldl_cons, ih, List.count_cons]
      subst alone
      by_cases htick : o = .tick
      · subst htick
        rw [after_tick, if_neg fun hboth => Nat.lt_irrefl 1 hboth.1, if_pos (beq_self_eq_true _),
          Nat.sub_sub, Nat.add_assoc, Nat.add_comm 1]
      · rw [if_neg (by simpa using htick)]
        have hsame : after 1 q p o = p := by
          cases o with
          | tick => exact absurd rfl htick
          | _ => rfl
        rw [hsame]
        rfl

theorem ticks_after (p : Stand) (o : Operation) (os : List Operation) :
    (p.after n q o).ticks + os.count .tick = p.ticks + (o :: os).count .tick := by
  rw [List.count_cons]
  by_cases htick : o = .tick
  · subst htick
    have hticks : (after n q p .tick).ticks = p.ticks + 1 := by
      rw [after_tick]
      split <;> rfl
    rw [hticks, if_pos (beq_self_eq_true _)]
    omega
  · rw [if_neg (by simpa using htick)]
    have hticks : (after n q p o).ticks = p.ticks := by
      cases o with
      | tick => exact absurd rfl htick
      | yieldTurn =>
          rw [after, pass]
          split <;> rfl
      | _ => rfl
    rw [hticks]
    rfl

end Stand

namespace Execution
open Kernel

variable {x y z : Execution} {A low : List ThreadId} {k₀ : Kernel} {p p' : Stand}
  {pending pending' l : List Frame} {m : Move} {t : ThreadId} {o : Operation}

/-- What application code decides to do with a move. -/
def Move.choice? : Move → Option (Call ⊕ InterruptCall)
  | .call c => some (.inl c)
  | .interrupt c => some (.inr c)
  | _ => none

/-- Threads call these operations, whichever runs, and nothing else is done. -/
def Calls (os : List Operation) (x z : Execution) : Prop :=
  ∃ ms, Run x ms z ∧ ms.filterMap Move.choice? = os.map fun o => .inl (.operation o)

/-- A rota at work: what the running thread has to do in the tick that it is in is `pending`, and
apart from that all have only to return to their code. -/
structure TakesTurns (A low : List ThreadId) (k₀ : Kernel) (p : Stand) (pending : List Frame)
    (x : Execution) : Prop where
  inPlace : x.kernel.InPlace
  rota : Rota (A.rotate p.turns) low x.kernel
  left : x.kernel.quantumLeft = p.left
  switches : x.kernel.contextSwitches = k₀.contextSwitches + .ofNat p.turns
  clock : x.kernel.clock.total = k₀.clock.total + p.ticks
  config : x.kernel.config = k₀.config
  quiet : x.kernel.timers.head = none
  unarmed : ∀ slot, x.kernel.timers.isArmed slot = false
  mine : ∃ l, x.frames = pending ++ l ∧ x.kernel.Returns x.kernel.current l
  others : ∀ t ∈ A, t ≠ x.kernel.current → x.kernel.Returns t (x.framesOf t)

/-- The same thread goes on, with the same rota. -/
theorem TakesTurns.goesOn (hx : TakesTurns A low k₀ p pending x) (hs : SameRota x.kernel y.kernel)
    (turns : p'.turns = p.turns) (left : y.kernel.quantumLeft = p'.left)
    (clock : y.kernel.clock.total = k₀.clock.total + p'.ticks)
    (frames : ∀ u, y.framesOf u = if u = x.kernel.current then pending' ++ l else x.framesOf u)
    (returns : y.kernel.Returns x.kernel.current l) : TakesTurns A low k₀ p' pending' y := by
  have htimers := hs.upholds.timers
  refine ⟨hs.inPlace, ?_, left, ?_, clock, hs.config.trans hx.config, htimers ▸ hx.quiet,
    htimers ▸ hx.unarmed, ⟨l, ?_, ?_⟩, fun t ht hne => ?_⟩
  · rw [turns]
    exact hx.rota.congr hs.current hs.ready hs.priorityOf
  · rw [hs.contextSwitches, hx.switches, turns]
  · rw [frames_of_current hs.current, frames, if_pos rfl]
  · rw [hs.current]
    exact returns
  · rw [hs.current] at hne
    rw [frames, if_neg hne]
    refine (hx.others t ht hne).upheld hs.upholds (hs.entry t ?_)
    exact (hx.rota.mem (List.mem_rotate.mpr ht)).resolve_left hne

/-- The next thread of the rota runs. -/
theorem TakesTurns.passes (hx : TakesTurns A low k₀ p pending x)
    (ht : TurnsOver (A.rotate p.turns) low x.kernel y.kernel)
    (frames : ∀ u, y.framesOf u = if u = x.kernel.current then l else x.framesOf u)
    (returns : x.kernel.Returns x.kernel.current l) :
    TakesTurns A low k₀ ⟨p.turns + 1, k₀.config.quantum, p.ticks⟩ [] y := by
  have hreturns : ∀ u ∈ A, y.kernel.Returns u (y.framesOf u) := by
    intro u hu
    rw [frames]
    split
    · rename_i heq
      rw [heq]
      exact returns.upheld ht.upholds (ht.entry _)
    · rename_i hne
      exact (hx.others u hu hne).upheld ht.upholds (ht.entry _)
  have hrota : Rota (A.rotate (p.turns + 1)) low y.kernel := by
    rw [← List.rotate_rotate]
    exact ht.rota
  have hmem : y.kernel.current ∈ A := by
    obtain ⟨l, hl, -⟩ := hrota.exists_cons
    rw [← List.mem_rotate (n := p.turns + 1), hl]
    exact List.mem_cons_self
  have htimers := ht.upholds.timers
  refine ⟨ht.inPlace, hrota, ?_, ?_, ?_, ht.config.trans hx.config, htimers ▸ hx.quiet,
    htimers ▸ hx.unarmed, ⟨y.frames, rfl, hreturns _ hmem⟩, fun u hu _ => hreturns u hu⟩
  · rw [ht.quantumLeft, hx.config]
  · rw [ht.contextSwitches, hx.switches, UInt32.ofNat_add, UInt32.add_assoc]
    rfl
  · rw [ht.clock, hx.clock]

/-- How much a thread has left to do until its code goes on. -/
def weight (frames : List Frame) : Nat :=
  (frames.map fun f => match f with
    | .answer _ => 1
    | _ => 2).sum

/-- A frame is done with, and the thread is nearer to its code. -/
structure Unwinds (f : Frame) (fs : List Frame) (k k' : Kernel) : Prop where
  same : SameRota k k'
  left : k'.quantumLeft = k.quantumLeft
  clock : k'.clock = k.clock
  plain : ∀ g ∈ fs, ∃ a, g = .answer a
  less : weight fs < weight [f]

/-- The kernel returns from an operation that has done all else. -/
theorem frameStep_unwinds {k k' : Kernel} {f : Frame} {fs : List Frame} (hk : k.InPlace)
    (hf : k.endsCall k.current f = true) (hanswer : ∀ a, f ≠ .answer a)
    (hstep : frameStep k f = .ok (k', fs)) : Unwinds f fs k k' := by
  cases f with
  | answer a => exact absurd rfl (hanswer a)
  | answerWakeup =>
      obtain ⟨rfl, rfl⟩ := Prod.mk.inj (Except.ok.inj hstep)
      exact ⟨hk.sameRota, rfl, rfl, by simp, by simp [weight]⟩
  | awake =>
      simp only [frameStep] at hstep
      split at hstep
      · cases hstep
      · obtain ⟨rfl, rfl⟩ := Prod.mk.inj (Except.ok.inj hstep)
        exact ⟨hk.sameRota, rfl, rfl, nofun, by simp [weight]⟩
  | locked m =>
      simp only [frameStep] at hstep
      split at hstep
      · obtain ⟨rfl, rfl⟩ := Prod.mk.inj (Except.ok.inj hstep)
        exact ⟨hk.sameRota, rfl, rfl, nofun, by simp [weight]⟩
      · cases hstep
  | collect u =>
      obtain ⟨rfl, rfl⟩ := Prod.mk.inj (Except.ok.inj hstep)
      exact ⟨hk.sameRota_vacate hf, rfl, rfl, by simp, by simp [weight]⟩
  | _ => cases hf

theorem weight_append (l l' : List Frame) : weight (l ++ l') = weight l + weight l' := by
  simp [weight]

theorem TakesTurns.returns (hx : TakesTurns A low k₀ p [] x) :
    x.kernel.Returns x.kernel.current x.frames := by
  obtain ⟨l, hframes, hreturns⟩ := hx.mine
  rw [hframes]
  exact hreturns

/-- A thread of the rota takes an answer. -/
theorem TakesTurns.takes {a : Answer} (hx : TakesTurns A low k₀ p [] x)
    (hframes : x.frames = .answer a :: l) :
    TakesTurns A low k₀ p [] x.dropFrame ∧ weight x.dropFrame.frames < weight x.frames := by
  have hy : x.dropFrame = x.setFrames l := by
    rw [dropFrame, hframes]
    rfl
  have hreturns := hx.returns
  rw [hframes] at hreturns
  rw [hy]
  constructor
  · refine hx.goesOn (l := l) hx.inPlace.sameRota rfl hx.left hx.clock (framesOf_setFrames x l) ?_
    rcases hreturns.cons with ⟨hstart, -⟩ | ⟨-, hrest⟩
    · cases hstart
    · exact Or.inr hrest
  · rw [hframes, frames_setFrames]
    simp [weight]

/-- A thread of the rota begins with its code. -/
theorem TakesTurns.begins (hx : TakesTurns A low k₀ p [] x) (hframes : x.frames = .start :: l) :
    TakesTurns A low k₀ p [] x.enter ∧ weight x.enter.frames < weight x.frames := by
  have hreturns := hx.returns
  rw [hframes] at hreturns
  rcases hreturns.cons with ⟨-, rfl, -⟩ | ⟨hends, -⟩
  · have hy : x.enter = { x.setFrames [] with
        kernel := x.kernel.modifyThread x.kernel.current fun th => { th with entry := none } } := by
      rw [enter, hframes]
    have hmine : ∀ u, x.enter.framesOf u =
        if u = x.kernel.current then [] else x.framesOf u := by
      rw [hy]
      exact framesOf_setFrames x []
    have hcurrent : x.enter.kernel.current = x.kernel.current := by
      rw [hy]
      rfl
    have hnil : x.enter.frames = [] := by rw [frames_of_current hcurrent, hmine, if_pos rfl]
    constructor
    · rw [hy] at hmine ⊢
      exact hx.goesOn (l := []) hx.inPlace.sameRota_enter rfl hx.left hx.clock hmine
        (returns_nil _ _)
    · rw [hnil, hframes]
      simp [weight]
  · cases hends

/-- A thread of the rota gets nearer to the end of its operation. -/
theorem TakesTurns.nears {f : Frame} (hx : TakesTurns A low k₀ p [] x)
    (hframes : x.frames = f :: l) (hallows : x.allows .advance = true)
    (hmove : x.move .advance = .ok y) :
    TakesTurns A low k₀ p [] y ∧ weight y.frames < weight x.frames := by
  have hreturns := hx.returns
  rw [hframes] at hreturns
  obtain ⟨f', rest, hl, hanswer, -⟩ := allows_advance hallows
  obtain ⟨rfl, rfl⟩ := List.cons.inj (hframes.symm.trans hl)
  have hadvance : x.perform l (frameStep · f) = .ok y := (advance_eq hframes).symm.trans hmove
  rcases hreturns.cons with ⟨rfl, rfl, hentry⟩ | ⟨hends, hrest⟩
  · obtain ⟨e, he⟩ := Option.ne_none_iff_exists'.mp hentry
    have hcode : x.kernel.running.entry = some e := he
    have hturn : x.turn = .entry e := by simp only [turn, hframes, hcode]
    simp [allows, hturn] at hallows
  · obtain ⟨fs, hstep, hmine⟩ := perform_ok hadvance
    have hu := frameStep_unwinds hx.inPlace hends hanswer hstep
    constructor
    · refine hx.goesOn (l := fs ++ l) hu.same rfl (hu.left.trans hx.left) ?_ hmine
        (Or.inr fun g hg => ?_)
      · rw [hu.clock, hx.clock]
      · rcases List.mem_append.mp hg with hg | hg
        · obtain ⟨a, rfl⟩ := hu.plain g hg
          rfl
        · exact endsCall_upheld hu.same.upholds (hrest g hg)
    · have hless := hu.less
      have hweight : weight (f :: l) = weight [f] + weight l := weight_append [f] l
      rw [hframes, frames_of_current hu.same.current, hmine, if_pos rfl, weight_append, hweight]
      exact Nat.add_lt_add_right hless _

/-- A thread of the rota calls back nothing. -/
theorem TakesTurns.not_callback {r : Routine} {entered : Bool} (hx : TakesTurns A low k₀ p [] x) :
    x.frames ≠ .callback r entered :: l := by
  intro hframes
  have hreturns := hx.returns
  rw [hframes] at hreturns
  rcases hreturns.cons with ⟨hstart, -⟩ | ⟨hends, -⟩
  · cases hstart
  · cases hends

/-- A thread of the rota starts, or gets nearer to its code. -/
theorem TakesTurns.unwinds (hx : TakesTurns A low k₀ p [] x) (hallows : x.allows m = true)
    (hm : m ∈ [Move.takeAnswer, .enter, .leave, .advance]) (hmove : x.move m = .ok y) :
    TakesTurns A low k₀ p [] y ∧ weight y.frames < weight x.frames := by
  simp only [List.mem_cons, List.not_mem_nil, or_false] at hm
  rcases hm with rfl | rfl | rfl | rfl
  · obtain ⟨a, rest, hl⟩ := allows_takeAnswer hallows
    obtain rfl := Except.ok.inj hmove
    exact hx.takes hl
  · obtain rfl := Except.ok.inj hmove
    rcases allows_enter hallows with ⟨rest, hl⟩ | ⟨r, rest, hl⟩
    · exact hx.begins hl
    · exact absurd hl hx.not_callback
  · obtain ⟨r, rest, hl⟩ := allows_leave hallows
    exact absurd hl hx.not_callback
  · obtain ⟨f, rest, hl, -⟩ := allows_advance hallows
    exact hx.nears hl hallows hmove

/-- A tick is charged. -/
theorem TakesTurns.tick (hx : TakesTurns A low k₀ p [] x) (hnil : x.frames = [])
    (hmove : x.move (.call (.operation .tick)) = .ok y) :
    TakesTurns A low k₀ p.charge [.fire, .preempt] y := by
  have hmove : x.perform x.frames Operation.tick.run = .ok y := hmove
  rw [hnil] at hmove
  obtain ⟨frames, hstep, hmine⟩ := perform_ok hmove
  obtain ⟨k', hbegin, hstep⟩ := bind_eq_ok.mp hstep
  obtain ⟨hk', rfl⟩ := Prod.mk.inj (Except.ok.inj hstep)
  subst hk'
  obtain ⟨clock, hclock, hk'⟩ := beginTick_quiet hx.quiet hbegin
  refine hx.goesOn (l := [.answer .unit]) ?_ rfl ?_ ?_ hmine (Or.inr ?_)
  · rw [hk']
    exact hx.inPlace.sameRota_of_clock clock _ _
  · rw [hk']
    exact congrArg (· - 1) hx.left
  · rw [hk']
    rcases x.kernel.clock.advance_total with ⟨hnone, -⟩ | ⟨c, hc, htotal⟩
    · rw [hnone] at hclock
      cases hclock
    · obtain rfl := Option.some.inj (hclock.symm.trans hc)
      change clock.total = k₀.clock.total + (p.ticks + 1)
      rw [htotal, hx.clock, Nat.add_assoc]
  · simp [endsCall]

/-- The running thread gives its turn away, if there is anybody else. -/
theorem TakesTurns.yields (hx : TakesTurns A low k₀ p [] x) (hnil : x.frames = [])
    (hmove : x.move (.call (.operation .yieldTurn)) = .ok y) :
    TakesTurns A low k₀ (p.pass A.length k₀.config.quantum) [] y := by
  have hmove : x.perform x.frames Operation.yieldTurn.run = .ok y := hmove
  rw [hnil] at hmove
  obtain ⟨frames, hstep, hmine⟩ := perform_ok hmove
  obtain ⟨k', hyield, hstep⟩ := bind_eq_ok.mp hstep
  obtain ⟨hk', rfl⟩ := Prod.mk.inj (Except.ok.inj hstep)
  subst hk'
  have hyield := hx.rota.yieldTurn_ok hx.inPlace hyield
  have hreturns : ∀ {k : Kernel} {t : ThreadId}, k.Returns t [.answer .unit] :=
    Or.inr (by simp [endsCall])
  rw [List.length_rotate] at hyield
  unfold Stand.pass
  split at hyield <;> rename_i hn
  · rw [if_pos hn]
    exact hx.passes hyield hmine hreturns
  · rw [if_neg hn]
    refine hx.goesOn (l := [.answer .unit]) ?_ rfl ?_ ?_ hmine hreturns
    · rw [hyield]
      exact hx.inPlace.sameRota
    · rw [hyield, hx.left]
    · rw [hyield, hx.clock]

/-- No timer is due. -/
theorem TakesTurns.fires (hx : TakesTurns A low k₀ p [.fire, .preempt] x)
    (hmove : x.move .advance = .ok y) : TakesTurns A low k₀ p [.preempt] y := by
  obtain ⟨l, hframes, hreturns⟩ := hx.mine
  have hmove : x.perform (.preempt :: l) (frameStep · .fire) = .ok y :=
    (advance_eq hframes).symm.trans hmove
  obtain ⟨frames, hstep, hmine⟩ := perform_ok hmove
  have hstep : x.kernel.fire = .ok (y.kernel, frames) := hstep
  rw [fire_quiet hx.quiet] at hstep
  obtain ⟨hkernel, rfl⟩ := Prod.mk.inj (Except.ok.inj hstep)
  refine hx.goesOn (l := l) ?_ rfl ?_ ?_ hmine ?_
  · rw [← hkernel]
    exact hx.inPlace.sameRota
  · rw [← hkernel, hx.left]
  · rw [← hkernel, hx.clock]
  · rw [← hkernel]
    exact hreturns

/-- The turn is over if the quantum is, and if there is anybody else. -/
theorem TakesTurns.checks (hx : TakesTurns A low k₀ p [.preempt] x)
    (hmove : x.move .advance = .ok y) :
    TakesTurns A low k₀ (p.check A.length k₀.config.quantum) [] y := by
  obtain ⟨l, hframes, hreturns⟩ := hx.mine
  have hmove : x.perform l (frameStep · .preempt) = .ok y :=
    (advance_eq hframes).symm.trans hmove
  obtain ⟨frames, hstep, hmine⟩ := perform_ok hmove
  obtain ⟨k', hpreempt, hstep⟩ := bind_eq_ok.mp hstep
  obtain ⟨hk', rfl⟩ := Prod.mk.inj (Except.ok.inj hstep)
  subst hk'
  have hpreempt := hx.rota.preempt_ok hx.inPlace hpreempt
  rw [List.length_rotate, hx.left] at hpreempt
  split at hpreempt
  · rename_i hover
    rw [Stand.check, if_pos hover.2, Stand.pass, if_pos hover.1]
    exact hx.passes hpreempt hmine hreturns
  · rename_i hover
    have hsame : p.check A.length k₀.config.quantum = p := by
      unfold Stand.check Stand.pass
      split
      · rename_i hzero
        rw [if_neg fun hn => hover ⟨hn, hzero⟩]
      · rfl
    rw [hsame]
    refine hx.goesOn (l := l) ?_ rfl ?_ ?_ hmine ?_
    · rw [hpreempt]
      exact hx.inPlace.sameRota
    · rw [hpreempt, hx.left]
    · rw [hpreempt, hx.clock]
    · rw [hpreempt]
      exact hreturns

theorem TakesTurns.withoutLog (hx : TakesTurns A low k₀ p pending x) :
    TakesTurns A low k₀ p pending x.withoutLog := by
  obtain ⟨l, hframes, hreturns⟩ := hx.mine
  refine hx.goesOn (l := l) (hx.inPlace.sameRota_of_clock _ _ []) rfl hx.left hx.clock ?_ ?_
  · intro u
    split
    · rename_i hu
      rw [hu]
      exact hframes
    · rfl
  · exact hreturns

/-- What is left of a tick. -/
theorem pending_cases (h : pending <:+ [.fire, .preempt]) :
    pending = [.fire, .preempt] ∨ pending = [.preempt] ∨ pending = [] := by
  rw [List.suffix_cons_iff, List.suffix_cons_iff, List.suffix_nil] at h
  exact h

/-- While a tick is under way the kernel is at work. -/
theorem TakesTurns.works (hx : TakesTurns A low k₀ p pending x)
    (hpending : pending <:+ [.fire, .preempt]) (hne : pending ≠ []) : x.turn = .work := by
  obtain ⟨l, hframes, -⟩ := hx.mine
  unfold turn
  rw [hframes]
  rcases pending_cases hpending with rfl | rfl | rfl
  · rfl
  · rfl
  · exact absurd rfl hne

theorem TakesTurns.pending_eq_nil (hx : TakesTurns A low k₀ p pending x)
    (hpending : pending <:+ [.fire, .preempt]) (hallows : x.allows m = true)
    (hm : m ∈ [Move.takeAnswer, .enter, .leave]) : pending = [] := by
  by_contra hne
  have hturn := hx.works hpending hne
  simp only [List.mem_cons, List.not_mem_nil, or_false] at hm
  rcases hm with rfl | rfl | rfl <;> simp [allows, hturn] at hallows

/-- What the kernel does by itself ends the tick that is under way, and changes nothing else. -/
theorem TakesTurns.proceeds (hx : TakesTurns A low k₀ p pending x)
    (hpending : pending <:+ [.fire, .preempt]) (hallows : x.allows m = true)
    (hm : m.choice? = none) (hmove : x.move m = .ok y) :
    ∃ p' pending', TakesTurns A low k₀ p' pending' y ∧ pending' <:+ pending ∧
      p'.settle A.length k₀.config.quantum pending' =
        p.settle A.length k₀.config.quantum pending := by
  have hreturning : m ∈ [Move.takeAnswer, .enter, .leave] → TakesTurns A low k₀ p [] y := by
    intro hm
    obtain rfl := hx.pending_eq_nil hpending hallows hm
    refine (hx.unwinds hallows ?_ hmove).1
    simp only [List.mem_cons, List.not_mem_nil, or_false] at hm ⊢
    tauto
  cases m with
  | call c => cases hm
  | interrupt c => cases hm
  | collectLog =>
      obtain rfl := Except.ok.inj hmove
      exact ⟨p, pending, hx.withoutLog, List.suffix_refl _, rfl⟩
  | advance =>
      rcases pending_cases hpending with rfl | rfl | rfl
      · exact ⟨p, _, hx.fires hmove, ⟨[.fire], rfl⟩, rfl⟩
      · exact ⟨_, _, hx.checks hmove, List.nil_suffix, rfl⟩
      · exact ⟨p, [], (hx.unwinds hallows (by simp) hmove).1, List.nil_suffix, rfl⟩
  | _ =>
      obtain rfl := hx.pending_eq_nil hpending hallows (by simp)
      exact ⟨p, [], hreturning (by simp), List.nil_suffix, rfl⟩

/-- A call moves the rota on. -/
theorem TakesTurns.called (hx : TakesTurns A low k₀ p pending x)
    (ho : o ∈ [Operation.tick, .yieldTurn]) (hallows : x.allows (.call (.operation o)) = true)
    (hmove : x.move (.call (.operation o)) = .ok y) :
    ∃ p' pending', TakesTurns A low k₀ p' pending' y ∧ pending' <:+ [.fire, .preempt] ∧
      (pending' ≠ [] → o = .tick) ∧ p'.settle A.length k₀.config.quantum pending' =
        (p.settle A.length k₀.config.quantum pending).after A.length k₀.config.quantum o := by
  have hidle := (allows_call hallows).1
  obtain ⟨l, hframes, -⟩ := hx.mine
  rw [hidle] at hframes
  obtain rfl := (List.append_eq_nil_iff.mp hframes.symm).1
  simp only [List.mem_cons, List.not_mem_nil, or_false] at ho
  rcases ho with rfl | rfl
  · exact ⟨_, _, hx.tick hidle hmove, List.suffix_refl _, fun _ => rfl, rfl⟩
  · exact ⟨_, _, hx.yields hidle hmove, List.nil_suffix, fun hne => absurd rfl hne, rfl⟩

/-- A whole run moves the rota on as its calls say. -/
theorem TakesTurns.run {ms : List Move} {os : List Operation} (hrun : Run x ms z)
    (hx : TakesTurns A low k₀ p pending x) (hpending : pending <:+ [.fire, .preempt])
    (hos : ∀ o ∈ os, o ∈ [Operation.tick, .yieldTurn])
    (hms : ms.filterMap Move.choice? = os.map fun o => .inl (.operation o)) :
    ∃ p' pending', TakesTurns A low k₀ p' pending' z ∧ pending' <:+ [.fire, .preempt] ∧
      (pending' ≠ [] → pending ≠ [] ∨ .tick ∈ os) ∧
      p'.settle A.length k₀.config.quantum pending' =
        os.foldl (Stand.after A.length k₀.config.quantum)
          (p.settle A.length k₀.config.quantum pending) := by
  induction hrun generalizing p pending os with
  | nil x =>
      obtain rfl : os = [] := List.map_eq_nil_iff.mp hms.symm
      exact ⟨p, pending, hx, hpending, Or.inl, rfl⟩
  | @cons x y z m ms hallows hmove _ ih =>
      cases hm : m.choice? with
      | none =>
          rw [List.filterMap_cons_none hm] at hms
          obtain ⟨p₁, pending₁, hy, hsuffix, hstand⟩ := hx.proceeds hpending hallows hm hmove
          obtain ⟨p', pending', hz, hpending', htick, hstand'⟩ :=
            ih hy (hsuffix.trans hpending) hos hms
          refine ⟨p', pending', hz, hpending', fun hne => (htick hne).imp_left ?_, ?_⟩
          · rintro hne₁ rfl
            exact hne₁ (List.suffix_nil.mp hsuffix)
          · rw [hstand', hstand]
      | some c =>
          rw [List.filterMap_cons_some hm] at hms
          obtain ⟨o, os, rfl, hc, hms⟩ := List.map_eq_cons_iff.mp hms.symm
          obtain ⟨ho, hos⟩ := List.forall_mem_cons.mp hos
          have hcall : m = .call (.operation o) := by
            subst hc
            cases m with
            | call c => rw [Sum.inl.inj (Option.some.inj hm)]
            | interrupt c => cases hm
            | _ => cases hm
          subst hcall
          obtain ⟨p₁, pending₁, hy, hpending₁, htick₁, hstand⟩ := hx.called ho hallows hmove
          obtain ⟨p', pending', hz, hpending', htick, hstand'⟩ := ih hy hpending₁ hos hms.symm
          refine ⟨p', pending', hz, hpending', fun hne => Or.inr ?_, ?_⟩
          · rcases htick hne with hne₁ | hmem
            · rw [htick₁ hne₁]
              exact List.mem_cons_self
            · exact List.mem_cons_of_mem o hmem
          · rw [hstand', hstand, List.foldl_cons]

end Execution

end RealtimeKernel

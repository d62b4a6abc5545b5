import RealtimeKernel.Proofs.Execution.Timeouts
import RealtimeKernel.Proofs.Kernel.Persistence

/-!
Mutual exclusion. A mutex and its owner name each other, and nobody waits for a free mutex. Who
comes back from locking a mutex owns it, and so does who comes back from waiting for a condition,
however the wait ended; and it stays the owner until it unlocks the mutex itself.
-/
namespace RealtimeKernel

namespace Kernel
variable {k k' k₁ : Kernel} {touched : Object → Prop} {m : MutexId} {t u : ThreadId}

/-! Only the owner itself gives a mutex away. -/

theorem Effect.owner_kept (h : Effect touched k k') (ho : k.Owned) (howner : k.owner? m = some u)
    (hu : u ≠ k.current ∨ ¬ touched (.mutex m)) : k'.owner? m = some u := by
  have hkept : k'.mutexes = k.mutexes → k'.owner? m = some u :=
    fun hsame => (owner?_eq hsame m).trans howner
  have hother : ∀ m', touched (.mutex m') → k.owner? m' = some k.current → m ≠ m' := by
    rintro m' ht hown rfl
    rw [howner] at hown
    rcases hu with hne | hnot
    · exact hne (Option.some.inj hown)
    · exact hnot ht
  cases h with
  | resume _ _ hw => exact hkept hw.moves.mutexes
  | timeOut _ _ _ hw => exact hkept hw.moves.mutexes
  | expire _ _ hw => exact hkept hw.moves.mutexes
  | grant _ _ hw => exact hkept hw.moves.mutexes
  | dismiss _ _ hr => exact hkept hr.mutexes
  | notify _ _ hw => exact hkept hw.moves.mutexes
  | @take m' _ _ hfree =>
      rw [owner?_acquire, if_neg]
      · exact howner
      · rintro rfl
        rw [howner] at hfree
        cases hfree
  | free ht hown _ =>
      rw [owner?_strike, if_neg (hother _ ht hown)]
      exact howner
  | handOver ht hown _ hw =>
      rw [owner?_eq hw.moves.mutexes, owner?_acquire, if_neg (hother _ ht hown), owner?_strike,
        if_neg (hother _ ht hown)]
      exact howner
  | newMutex hpush => exact (ho.owner?_push hpush m).trans howner
  | _ => exact hkept rfl

theorem Does.owner_kept (h : Does touched k k') (hk : k.Sound) (howner : k.owner? m = some u)
    (hu : u ≠ k.current ∨ ¬ touched (.mutex m)) : k'.owner? m = some u := by
  obtain ⟨k₁, heffects, hswitch⟩ := h
  obtain ⟨-, howner₁, -⟩ := effects_induction
    (P := fun k₁ => k₁.owner? m = some u ∧ k₁.current = k.current) heffects hk
    (fun k₁ k₂ hk₁ he ⟨howner, hcurrent⟩ =>
      ⟨he.owner_kept hk₁.owned howner (by rw [hcurrent]; exact hu), he.current.trans hcurrent⟩)
    ⟨howner, rfl⟩
  rcases hswitch with rfl | hswitch
  · exact howner₁
  · exact (owner?_eq hswitch.mutexes m).trans howner₁

/-- Only the owner of a mutex waits for a condition with it. -/
theorem waitCondition_owner {c : CondVarId} {timeout : Timeout} {step : Step}
    (h : k.waitCondition c m timeout = .ok step) : k.owner? m = some k.current := by
  unfold waitCondition at h
  split at h
  · assumption
  · cases h

end Kernel

namespace Execution
open Kernel

/-- The mutex that a call is to come back with. -/
def Move.locks? : Move → Option MutexId
  | .call (.operation (.lock m)) | .call (.operation (.tryLock m)) | .interrupt (.tryLock m)
  | .call (.operation (.waitCondition _ m _)) => some m
  | _ => none

/-- The mutex that a thread is to come back with from the call that it is in. -/
def acquiring (u : ThreadId) : History → Option MutexId
  | [] => none
  | r :: h =>
    if r.caller = u then
      match r.move with
      | .call _ | .interrupt _ => r.move.locks?
      | .takeAnswer => none
      | _ => acquiring u h
    else acquiring u h

/-- A thread comes back from a call with a mutex: it locked it, it waited for a condition, or its
attempt to lock the mutex went well. -/
structure Record.Returns (r : Record) (earlier : History) (m : MutexId) : Prop where
  move : r.move = .takeAnswer
  call : acquiring r.caller earlier = some m
  success : r.before.frames.head? ≠ some (.answer (.flag false))

/-- Does a thread unlock a mutex? A wait for a condition that is none does not. -/
def Record.unlocks (r : Record) (m : MutexId) : Bool :=
  match r.move with
  | .call (.operation (.unlock m')) => m' = m
  | .call (.operation .unlockAll) => true
  | .call (.operation (.waitCondition _ m' timeout)) => m' = m && timeout ≠ .immediate
  | _ => false

/-- The mutex that the running thread locks, or lends its priority for. -/
def Record.lends? (r : Record) : Option MutexId :=
  match r.move, r.before.frames with
  | .call (.operation (.lock m)), _ => some m
  | .advance, .relock m :: _ => some m
  | _, _ => none

/-- What a move does that may be about a mutex. -/
inductive Record.Handles (r : Record) (m : MutexId) : Prop
  | locks {frames : List Frame} : r.lends? = some m → r.unlocks m = false →
    r.before.kernel.lock m = .ok (r.after.kernel, frames) → r.Handles m
  | tries {locked : Bool} : r.lends? = none → r.unlocks m = false →
    r.before.kernel.mutexes.contains m = true →
    r.before.kernel.tryLock m = .ok (locked, r.after.kernel) → r.Handles m
  | spares : r.lends? = none → r.unlocks m = false → r.after.kernel = r.before.kernel →
    r.Handles m
  | unlocks {k : Kernel} : r.lends? = none → r.unlocks m = true →
    r.before.kernel.release m = .ok k ∨ r.before.kernel.releaseAll = .ok k →
    k.preempt = .ok r.after.kernel → r.Handles m
  | waits {k : Kernel} {c : CondVarId} : r.lends? = none → r.unlocks m = true →
    r.before.kernel.release m = .ok k →
    Blocks .waitingCondVar (some (.condVar c)) k r.after.kernel → r.Handles m

/-- Who owns which mutex, and for how long. -/
structure Excludes (h : History) (x : Execution) : Prop where
  owner_iff : ∀ m t, x.kernel.owner? m = some t ↔ m ∈ (x.kernel.thread t).held
  once : ∀ m t, x.kernel.owner? m = some t → (x.kernel.thread t).held.count m = 1
  alive : ∀ m t, x.kernel.owner? m = some t →
    (x.kernel.thread t).isActive = true ∧ (x.kernel.thread t).state ≠ .final
  nobody : ∀ m, x.kernel.owner? m = none → x.kernel.members (.mutex m) = []
  /-- Who came back with a mutex and has not unlocked it since owns it. -/
  owns : ∀ later r earlier m, h = later ++ r :: earlier → r.Returns earlier m →
    (∀ r' ∈ later, r'.caller = r.caller → r'.unlocks m = false) →
      x.kernel.owner? m = some r.caller

/-- How far a thread is with a call that it is to come back from with a mutex. -/
inductive Stage (m : MutexId) (u : ThreadId) (x : Execution) : Prop
  | refused {rest : List Frame} : x.framesOf u = .answer (.flag false) :: rest → Stage m u x
  | owns {a : Answer} {rest : List Frame} :
    x.framesOf u = .answer a :: rest → x.kernel.owner? m = some u → Stage m u x
  | locks {a : Answer} : x.framesOf u = [.locked m, .answer a] → Stage m u x
  | waits {checks : List Frame} : checks = [] ∨ checks = [.awake] →
    x.framesOf u = checks ++ [.relock m] → Stage m u x

variable {x y : Execution} {h later earlier : History} {mv : Move} {m : MutexId} {t u : ThreadId}
  {r : Record}

/-! An owner stays the owner. -/

/-- A mutex that the caller owns is not one that it can lock. -/
theorem lock_not_owner {k : Kernel} {step : Step} (hk : k.InPlace)
    (h : k.lock m = .ok step) : k.owner? m ≠ some k.current := by
  rcases lock_steps hk h with ⟨-, hfree, -⟩ | ⟨-, o, -, howner, hne, -⟩
  · rw [hfree]
    exact nofun
  · rw [howner]
    exact fun heq => hne (Option.some.inj heq)

theorem handles_of_touches (hx : x.Fit) (hallows : x.allows mv = true) (hmove : x.move mv = .ok y)
    (htouch : mv.touches x (.mutex m)) : Record.Handles ⟨x, mv, y⟩ m := by
  -- Only these calls name a mutex, and only one frame: that which locks it again after a wait.
  cases mv with
  | call c =>
      have hin := (allows_call hallows).2
      cases c with
      | operation c =>
          obtain ⟨frames, hstep, -⟩ := operation_step hmove
          cases c with
          | lock m' =>
              obtain rfl := Object.mutex.inj htouch
              obtain ⟨⟨k', frames'⟩, hlock, hstep⟩ := bind_eq_ok.mp hstep
              obtain ⟨rfl, -⟩ := Prod.mk.inj (Except.ok.inj hstep)
              exact .locks rfl rfl hlock
          | tryLock m' =>
              obtain rfl := Object.mutex.inj htouch
              obtain ⟨⟨locked, k'⟩, htry, hstep⟩ := bind_eq_ok.mp hstep
              obtain ⟨rfl, -⟩ := Prod.mk.inj (Except.ok.inj hstep)
              exact .tries rfl rfl hin htry
          | unlock m' =>
              obtain rfl := Object.mutex.inj htouch
              obtain ⟨k₁, hrelease, hstep⟩ := bind_eq_ok.mp hstep
              exact .unlocks rfl (decide_eq_true rfl) (Or.inl hrelease) (finish_ok hstep)
          | unlockAll =>
              obtain ⟨k₁, hrelease, hstep⟩ := bind_eq_ok.mp hstep
              exact .unlocks rfl rfl (Or.inr hrelease) (finish_ok hstep)
          | waitCondition c m' timeout =>
              obtain rfl := Object.mutex.inj (htouch.resolve_left nofun)
              rcases waitCondition_ok hx.sound.inPlace hstep with
                ⟨htimeout, hsame⟩ | ⟨k₁, checks, k', htimeout, hrelease, -, hsame, hblocks⟩
              · exact .spares rfl (by simp [Record.unlocks, htimeout]) (Prod.mk.inj hsame).1
              · obtain ⟨rfl, -⟩ := Prod.mk.inj hsame
                exact .waits rfl (by simp [Record.unlocks, htimeout]) hrelease hblocks
          | _ => simp [Move.touches, Call.touches, Operation.touches, BoxParts] at htouch
      | _ => simp [Move.touches, Call.touches] at htouch
  | interrupt c =>
      have hin := (allows_interrupt hallows).2
      obtain ⟨frames, hstep, -⟩ := interrupt_step hmove
      cases c with
      | tryLock m' =>
          obtain rfl := Object.mutex.inj htouch
          obtain ⟨⟨locked, k'⟩, htry, hstep⟩ := bind_eq_ok.mp hstep
          obtain ⟨rfl, -⟩ := Prod.mk.inj (Except.ok.inj hstep)
          exact .tries rfl rfl hin htry
      | _ => simp [Move.touches, InterruptCall.touches, BoxParts] at htouch
  | advance =>
      obtain ⟨f, rest, hframes, ht⟩ := htouch
      obtain ⟨frames, hstep, -⟩ := advance_step hframes hmove
      cases f with
      | relock m' =>
          obtain rfl := Object.mutex.inj ht
          obtain ⟨⟨k', frames'⟩, hlock, hstep⟩ := bind_eq_ok.mp hstep
          obtain ⟨rfl, -⟩ := Prod.mk.inj (Except.ok.inj hstep)
          refine .locks ?_ rfl hlock
          unfold Record.lends?
          dsimp only
          rw [hframes]
      | _ => simp [Frame.touches, BoxParts] at ht
  | _ => exact htouch.elim

/-- What the owner of a mutex may do to it is to unlock it. -/
theorem owner_kept_of_touches (hx : x.Fit) (hallows : x.allows mv = true)
    (hmove : x.move mv = .ok y) (howner : x.kernel.owner? m = some x.kernel.current)
    (htouch : mv.touches x (.mutex m)) (hnot : Record.unlocks ⟨x, mv, y⟩ m = false) :
    y.kernel.owner? m = some x.kernel.current := by
  cases handles_of_touches hx hallows hmove htouch with
  | locks _ _ hlock => exact absurd howner (lock_not_owner hx.sound.inPlace hlock)
  | tries _ _ _ htry =>
      rcases tryLock_ok htry with ⟨-, -, hsame⟩ | ⟨-, hfree, -⟩
      · rw [hsame]
        exact howner
      · rw [howner] at hfree
        cases hfree
  | spares _ _ hsame =>
      rw [show y.kernel = x.kernel from hsame]
      exact howner
  | unlocks _ hunlocks _ _ => exact absurd hunlocks (Bool.eq_false_iff.mp hnot)
  | waits _ hunlocks _ _ => exact absurd hunlocks (Bool.eq_false_iff.mp hnot)

/-- Nobody but the owner takes a mutex from it, and it only by unlocking. -/
theorem owner_kept (hx : x.Fit) (hallows : x.allows mv = true) (hmove : x.move mv = .ok y)
    (howner : x.kernel.owner? m = some u)
    (hnot : x.kernel.current = u → Record.unlocks ⟨x, mv, y⟩ m = false) :
    y.kernel.owner? m = some u := by
  have hkept := (move_does hx hallows hmove).owner_kept hx.sound howner
  by_cases hu : u = x.kernel.current
  · subst hu
    by_cases htouch : mv.touches x (.mutex m)
    · exact owner_kept_of_touches hx hallows hmove howner htouch (hnot rfl)
    · exact hkept (Or.inr htouch)
  · exact hkept (Or.inl hu)

/-! How a call comes back with a mutex. -/

/-- A thread is in a call that it is to come back from with a mutex. -/
structure Attains (m : MutexId) (u : ThreadId) (x : Execution) : Prop where
  alive : (x.kernel.thread u).state.isGone = false
  stage : Stage m u x

theorem Stage.congr (hs : Stage m u x) (hframes : y.framesOf u = x.framesOf u)
    (howner : x.kernel.owner? m = some u → y.kernel.owner? m = some u) : Stage m u y := by
  cases hs with
  | refused hx => exact .refused (hframes.trans hx)
  | owns hx hown => exact .owns (hframes.trans hx) (howner hown)
  | locks hx => exact .locks (hframes.trans hx)
  | waits hc hx => exact .waits hc (hframes.trans hx)

/-- Another thread's move. -/
theorem Attains.of_other (ha : Attains m u x) (hx : x.Fit) (hallows : x.allows mv = true)
    (hmove : x.move mv = .ok y) (hu : x.kernel.current ≠ u) : Attains m u y := by
  have hactive : (x.kernel.thread u).state ≠ .inactive := by
    intro hs
    have halive := ha.alive
    rw [hs] at halive
    cases halive
  refine ⟨?_, ha.stage.congr (framesOf_of_move hx hallows hmove hu.symm hactive) ?_⟩
  · rcases ((move_does hx hallows hmove).affects hx.sound).alive u ha.alive with halive | ⟨heq, -⟩
    · exact halive
    · exact absurd heq.symm hu
  · exact fun howner => owner_kept hx hallows hmove howner fun heq => absurd heq hu

/-- A step of the running thread that only concerns a mutex. -/
theorem alive_of_step (hx : x.Fit) (hallows : x.allows mv = true) (hmove : x.move mv = .ok y)
    (ht : ¬ mv.touches x (.thread x.kernel.current)) :
    (y.kernel.thread x.kernel.current).state.isGone = false := by
  have halive : (x.kernel.thread x.kernel.current).state.isGone = false := by
    rw [hx.sound.inPlace.state_current]
    rfl
  rcases ((move_does hx hallows hmove).affects hx.sound).alive _ halive with
    halive | ⟨-, htouch, -⟩
  · exact halive
  · exact absurd htouch ht

/-- A mutex is locked at once, or waited for. -/
theorem stage_of_lock {k' : Kernel} {frames : List Frame} {a : Answer} (hk : x.kernel.InPlace)
    (hlock : x.kernel.lock m = .ok (k', frames)) (hkernel : y.kernel = k')
    (hleft : y.framesOf x.kernel.current = frames ++ [.answer a]) : Stage m x.kernel.current y := by
  rcases lock_steps hk hlock with ⟨rfl, -, rfl⟩ | ⟨rfl, -⟩
  · refine .owns hleft ?_
    rw [hkernel, owner?_acquire, if_pos rfl]
  · exact .locks hleft

/-- An attempt to lock a mutex is over at once. -/
theorem stage_of_tryLock {k' : Kernel} {locked : Bool} {rest : List Frame}
    (htry : x.kernel.tryLock m = .ok (locked, k')) (hkernel : y.kernel = k')
    (hleft : y.framesOf x.kernel.current = .answer (.flag locked) :: rest) :
    Stage m x.kernel.current y := by
  rcases tryLock_ok htry with ⟨rfl, -⟩ | ⟨rfl, -, rfl⟩
  · exact .refused hleft
  · refine .owns hleft ?_
    rw [hkernel, owner?_acquire, if_pos rfl]

/-- A call of the running thread that it is to come back from with a mutex. -/
theorem attains_of_call (hx : x.Fit) (hallows : x.allows mv = true) (hmove : x.move mv = .ok y)
    (hlocks : mv.locks? = some m) : Attains m x.kernel.current y := by
  have hk := hx.sound.inPlace
  unfold Move.locks? at hlocks
  split at hlocks
  · rename_i m'
    obtain rfl := Option.some.inj hlocks
    have hstep := operation_left (r := ⟨x, _, y⟩) rfl hallows hmove
    refine ⟨alive_of_step hx hallows hmove nofun, ?_⟩
    obtain ⟨⟨k', frames⟩, hlock, hstep⟩ := bind_eq_ok.mp hstep
    obtain ⟨hkernel, hleft⟩ := Prod.mk.inj (Except.ok.inj hstep)
    exact stage_of_lock hk hlock hkernel.symm hleft.symm
  · rename_i m'
    obtain rfl := Option.some.inj hlocks
    have hstep := operation_left (r := ⟨x, _, y⟩) rfl hallows hmove
    refine ⟨alive_of_step hx hallows hmove nofun, ?_⟩
    obtain ⟨⟨locked, k'⟩, htry, hstep⟩ := bind_eq_ok.mp hstep
    obtain ⟨hkernel, hleft⟩ := Prod.mk.inj (Except.ok.inj hstep)
    exact stage_of_tryLock htry hkernel.symm hleft.symm
  · rename_i m'
    obtain rfl := Option.some.inj hlocks
    obtain ⟨frames, hstep, hleft⟩ := interrupt_step hmove
    refine ⟨alive_of_step hx hallows hmove nofun, ?_⟩
    obtain ⟨⟨locked, k'⟩, htry, hstep⟩ := bind_eq_ok.mp hstep
    obtain ⟨hkernel, rfl⟩ := Prod.mk.inj (Except.ok.inj hstep)
    exact stage_of_tryLock htry hkernel.symm hleft
  · rename_i c m' timeout
    obtain rfl := Option.some.inj hlocks
    have hstep := operation_left (r := ⟨x, _, y⟩) rfl hallows hmove
    refine ⟨alive_of_step hx hallows hmove ?_, ?_⟩
    · rintro (htouch | htouch) <;> cases htouch
    · rcases waitCondition_ok hk hstep with ⟨-, hsame⟩ | ⟨k₁, checks, k', -, -, hc, hsame, -⟩
      · obtain ⟨hkernel, hleft⟩ := Prod.mk.inj hsame
        refine .owns hleft ?_
        rw [hkernel]
        exact waitCondition_owner hstep
      · exact .waits hc (Prod.mk.inj hsame).2
  · cases hlocks

/-- A thread goes on with a call that it is to come back from with a mutex. -/
theorem Attains.advance (ha : Attains m x.kernel.current x) (hx : x.Fit)
    (hallows : x.allows .advance = true) (hmove : x.move .advance = .ok y) :
    Attains m x.kernel.current y := by
  obtain ⟨f, rest, hframes, hanswer, -⟩ := allows_advance hallows
  obtain ⟨frames, hstep, hleft⟩ := advance_step hframes hmove
  have hold : x.framesOf x.kernel.current = f :: rest := hframes
  have halive : (∀ o, f.touches x.kernel o → o = .mutex m) →
      (y.kernel.thread x.kernel.current).state.isGone = false := by
    intro ht
    refine alive_of_step hx hallows hmove ?_
    rw [touches_advance hframes]
    exact fun htouch => nomatch ht _ htouch
  cases ha.stage with
  | refused hx' =>
      rw [hold] at hx'
      exact absurd (List.cons.inj hx').1 (hanswer _)
  | owns hx' =>
      rw [hold] at hx'
      exact absurd (List.cons.inj hx').1 (hanswer _)
  | @locks a hx' =>
      rw [hold] at hx'
      obtain ⟨rfl, rfl⟩ := List.cons.inj hx'
      refine ⟨halive nofun, ?_⟩
      have hsame := locked_ok hstep
      obtain ⟨hkernel, rfl⟩ := Prod.mk.inj hsame
      refine .owns hleft ?_
      rw [hkernel]
      unfold frameStep at hstep
      dsimp only at hstep
      split at hstep
      · assumption
      · cases hstep
  | @waits checks hc hx' =>
      rw [hold] at hx'
      rcases hc with rfl | rfl
      · obtain ⟨rfl, rfl⟩ := List.cons.inj hx'
        refine ⟨halive fun o ho => ho, ?_⟩
        obtain ⟨⟨k', frames'⟩, hlock, hstep⟩ := bind_eq_ok.mp hstep
        obtain ⟨hkernel, rfl⟩ := Prod.mk.inj (Except.ok.inj hstep)
        rw [List.append_nil] at hleft
        exact stage_of_lock hx.sound.inPlace hlock hkernel.symm hleft
      · obtain ⟨rfl, rfl⟩ := List.cons.inj hx'
        refine ⟨halive nofun, ?_⟩
        obtain ⟨-, rfl⟩ := Prod.mk.inj (awake_ok hstep)
        exact .waits (Or.inl rfl) hleft

/-- A thread that is in such a call has nothing else to do. -/
theorem Stage.turn (hs : Stage m x.kernel.current x) : ∃ f rest, x.frames = f :: rest ∧
    f ≠ .start ∧ ∀ e b, f ≠ .callback e b := by
  cases hs with
  | refused hx => exact ⟨_, _, hx, nofun, nofun⟩
  | owns hx => exact ⟨_, _, hx, nofun, nofun⟩
  | locks hx => exact ⟨_, _, hx, nofun, nofun⟩
  | waits hc hx => rcases hc with rfl | rfl <;> exact ⟨_, _, hx, nofun, nofun⟩

/-- Whoever is in a call that it is to come back from with a mutex comes closer to that. -/
theorem Reaches.attains (hr : Reaches h x) (hj : JoinedOnce h) (hu : acquiring u h = some m) :
    Attains m u x := by
  induction hr with
  | boot _ => cases hu
  | @move h x y mv hr hallows hmove ih =>
      have ih := ih hj.tail
      have hx := (hr.orderly hj.tail).fit
      by_cases hcur : x.kernel.current = u
      · subst hcur
        rw [acquiring, if_pos (show Record.caller ⟨x, mv, y⟩ = x.kernel.current from rfl)] at hu
        dsimp only at hu
        cases mv with
        | call c => exact attains_of_call hx hallows hmove hu
        | interrupt c => exact attains_of_call hx hallows hmove hu
        | takeAnswer => cases hu
        | advance => exact (ih hu).advance hx hallows hmove
        | collectLog =>
            obtain rfl := Except.ok.inj hmove
            exact ⟨(ih hu).alive, (ih hu).stage.congr rfl id⟩
        | enter | leave =>
            obtain ⟨f, rest, hframes, hstart, hcallback⟩ := (ih hu).stage.turn
            obtain ⟨⟨⟩, -⟩ | ⟨⟨⟩⟩ | ⟨⟨⟩⟩ := move_amid hframes hstart hcallback hallows
      · rw [acquiring, if_neg (show Record.caller ⟨x, mv, y⟩ ≠ u from hcur)] at hu
        exact (ih hu).of_other hx hallows hmove hcur

/-- Who comes back with a mutex owns it. -/
theorem Reaches.owner_of_returns (hr : Reaches (r :: earlier) x) (hj : JoinedOnce (r :: earlier))
    (hreturns : r.Returns earlier m) : x.kernel.owner? m = some r.caller := by
  obtain ⟨hbefore, hallows, hmove, rfl⟩ := hr.uncons
  have hattains := hbefore.attains hj.tail hreturns.call
  rw [hreturns.move] at hallows hmove
  obtain ⟨a, rest, hframes⟩ := allows_takeAnswer hallows
  rw [← Except.ok.inj hmove]
  change r.before.kernel.owner? m = some r.caller
  have hframes : r.before.framesOf r.caller = .answer a :: rest := hframes
  cases hattains.stage with
  | refused hx =>
      refine absurd ?_ hreturns.success
      change (r.before.framesOf r.caller).head? = _
      rw [hx]
      rfl
  | owns _ howner => exact howner
  | locks hx =>
      rw [hframes] at hx
      cases (List.cons.inj hx).1
  | waits hc hx =>
      rw [hframes] at hx
      rcases hc with rfl | rfl <;> cases (List.cons.inj hx).1

/-- It stays the owner until it unlocks the mutex. -/
theorem Reaches.owner_until (hr : Reaches (later ++ r :: earlier) x)
    (hj : JoinedOnce (later ++ r :: earlier)) (hreturns : r.Returns earlier m)
    (hnot : ∀ r' ∈ later, r'.caller = r.caller → r'.unlocks m = false) :
    x.kernel.owner? m = some r.caller := by
  induction later generalizing x with
  | nil => exact hr.owner_of_returns hj hreturns
  | cons r' later ih =>
      obtain ⟨hbefore, hallows, hmove, rfl⟩ := hr.uncons
      have howner := ih hbefore hj.tail fun r'' hmem => hnot r'' (List.mem_cons_of_mem r' hmem)
      exact owner_kept (hbefore.orderly hj.tail).fit hallows hmove howner
        (hnot r' List.mem_cons_self)

theorem reaches_excludes (hr : Reaches h x) (hj : JoinedOnce h) : Excludes h x := by
  have hk := (hr.orderly hj).sound
  have ho := hk.owned
  refine ⟨ho.owner_iff, fun m t howner => ?_, fun m t howner => ?_, fun m hfree => ?_, ?_⟩
  · exact List.count_eq_one_of_mem (ho.nodup t) ((ho.owner_iff m t).mp howner)
  · have hheld := (ho.owner_iff m t).mp howner
    have halive : (x.kernel.thread t).state.isGone ≠ true := by
      intro hgone
      rw [ho.gone t hgone] at hheld
      cases hheld
    refine ⟨?_, ?_⟩
    · rw [Thread.isActive]
      cases hs : (x.kernel.thread t).state with
      | inactive => exact absurd (by rw [hs]; rfl) halive
      | _ => rfl
    · intro hs
      exact halive (by rw [hs]; rfl)
  · rw [List.eq_nil_iff_forall_not_mem]
    intro t hmem
    obtain ⟨o, howner, -⟩ := ho.waiter m t id ((hk.inPlace.mem_iff t _).mp hmem)
    rw [hfree] at howner
    cases howner
  · rintro later r earlier m rfl hreturns hnot
    exact hr.owner_until hj hreturns hnot

/-- A thread of high priority waits for a condition. It locks the mutex again while another thread
owns it, which unlocks it then. -/
def signalling : List Move :=
  [.takeAnswer, .call (.operation .createMutex), .takeAnswer, .call (.operation .createCondVar),
    .takeAnswer, .call (.spawn "waiter" .critical "wait"), .enter, .call (.operation (.lock 0)),
    .takeAnswer, .call (.operation (.waitCondition 0 0 .infinite)), .takeAnswer,
    .call (.operation (.lock 0)), .takeAnswer, .call (.operation (.signalCondition 0)), .advance,
    .takeAnswer, .call (.operation (.unlock 0)), .advance, .takeAnswer]

theorem excludes_signalling : Reaches (enact signalling).1 (enact signalling).2 ∧
    JoinedOnce (enact signalling).1 ∧ Excludes (enact signalling).1 (enact signalling).2 :=
  have hr := reaches_enact (by decide +kernel)
  have hj : JoinedOnce (enact signalling).1 := by decide +kernel
  ⟨hr, hj, reaches_excludes hr hj⟩

/-- The last answer is that of the wait. -/
example : acquiring 2 ((enact signalling).1.drop 1) = some 0 ∧
    (enact signalling).2.kernel.owner? 0 = some 2 := by decide +kernel

end Execution

end RealtimeKernel

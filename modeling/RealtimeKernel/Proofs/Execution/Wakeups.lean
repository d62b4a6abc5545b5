import RealtimeKernel.Proofs.Execution.Conservation
import RealtimeKernel.Proofs.Kernel.Events

/-!
Whom a move wakes, and with what result. Both are read off the move and the execution before it.
Of the threads that a timeout may wake the others wait on, in the same place and with as many
ticks left, unless the move is a tick.
-/
namespace RealtimeKernel

/-- May a thread wait for it that a timeout may wake? -/
def Object.isAwaited : Object → Bool
  | .semaphore _ | .condVar _ | .suspended _ | .thread _ | .time => true
  | .mutex _ | .mailbox _ | .ownerBase => false

namespace Execution
open Kernel

def Record.isTick (r : Record) : Bool :=
  match r.move with
  | .call (.operation .tick) | .interrupt .tick => true
  | _ => false

/-- Who is resumed, or is notified through a condition variable. -/
def Record.notices (r : Record) : Wakeups :=
  match r.move with
  | .call (.operation (.resume t)) | .interrupt (.resume t) =>
    fun u => if u = t then some .ok else none
  | .call (.operation (.signalCondition c)) | .interrupt (.signalCondition c) =>
    firstOf (.condVar c) .ok r.before.kernel
  | .call (.operation (.broadcast c)) | .interrupt (.broadcast c) =>
    allOf (.condVar c) .reset r.before.kernel
  | _ => fun _ => none

/-- What reaches a thread that waits: a reset, a unit, a notice, or nothing. -/
def Record.event? (r : Record) : Wakeups := fun u =>
  (dismissed (r.resets? ·) r.before.kernel u).or
    ((signalled (r.signals ·) r.before.kernel u).or (r.notices u))

/-- The thread whose time is up and is woken for that. -/
def Record.expires? (r : Record) : Option ThreadId :=
  match r.move, r.before.frames with
  | .advance, .fire :: _ => r.before.kernel.expired?
  | _, _ => none

def Record.wakes? (r : Record) : Wakeups := fun u =>
  (r.event? u).or (if r.expires? = some u then some .timeout else none)

/-- A timer that a call stops. -/
def Record.stops? (r : Record) : Option TimerId :=
  match r.move with
  | .call (.operation (.resetTimer id)) | .interrupt (.resetTimer id) => some id
  | _ => none

/-- A timer that a call started. -/
def Record.starts? (r : Record) : Option TimerId :=
  match r.move, r.left with
  | .call (.operation (.setTimer ..)), .answer (.timer (.ok id)) :: _
  | .interrupt (.setTimer ..), .answer (.timer (.ok id)) :: _ => some id
  | _, _ => none

/-- Application code stops only timers that it was given. -/
def OwnTimers : History → Prop
  | [] => True
  | r :: h => (∀ id ∈ r.stops?, id ∈ h.filterMap Record.starts?) ∧ OwnTimers h

variable {x y : Execution} {h : History} {m : Move} {s : SemaphoreId} {t u : ThreadId} {r : Record}
  {b : MailboxId} {frames : List Frame} {w : Wakeups}

/-! Moves that wake for one reason only. -/

theorem dismissed_none (k : Kernel) : dismissed (fun _ => none) k = fun _ => none := by
  funext u
  unfold dismissed
  split <;> rfl

theorem wakes_eq_notices (resets : ∀ s, r.resets? s = none) (signals : ∀ s, r.signals s = 0)
    (expires : r.expires? = none) : r.wakes? = r.notices := by
  funext u
  have hdismissed := congrFun (dismissed_none r.before.kernel) u
  have hsignalled := congrFun (signalled_zero r.before.kernel) u
  simp [Record.wakes?, Record.event?, resets, signals, expires, hdismissed, hsignalled]

theorem wakes_eq_signalled (resets : ∀ s, r.resets? s = none) (notices : r.notices = fun _ => none)
    (expires : r.expires? = none) : r.wakes? = signalled (r.signals ·) r.before.kernel := by
  funext u
  have hdismissed := congrFun (dismissed_none r.before.kernel) u
  simp [Record.wakes?, Record.event?, resets, notices, expires, hdismissed]

theorem wakes_eq_dismissed (signals : ∀ s, r.signals s = 0) (notices : r.notices = fun _ => none)
    (expires : r.expires? = none) : r.wakes? = dismissed (r.resets? ·) r.before.kernel := by
  funext u
  have hsignalled := congrFun (signalled_zero r.before.kernel) u
  simp [Record.wakes?, Record.event?, signals, notices, expires, hsignalled]

/-! What a move does to those who wait. -/

/-- A move that nobody waits for. -/
theorem untouched_treats (hx : x.Fit) (hq : x.kernel.timers.Sound) (hallows : x.allows m = true)
    (hmove : x.move m = .ok y)
    (ht : ∀ o, m.touches x o → o.isAwaited = true →
      ∃ t, o = .thread t ∧ (x.kernel.thread t).state.isTimed = false) :
    Treats (fun _ => none) x.kernel y.kernel := by
  have hnot : ∀ o, o.isAwaited = true → (∀ t, o ≠ .thread t) → ¬ m.touches x o := by
    intro o ho hne htouch
    obtain ⟨t, heq, -⟩ := ht o htouch ho
    exact hne t heq
  refine (move_does hx hallows hmove).treats hx.sound hq (hnot _ rfl nofun) fun u hu =>
    hx.sound.inPlace.not_reached hu ⟨hnot _ rfl nofun, ?_⟩ (fun s _ => hnot _ rfl nofun)
      fun c _ => hnot _ rfl nofun
  intro htouch
  obtain ⟨t, heq, hnot⟩ := ht _ htouch rfl
  obtain rfl := Object.thread.inj heq
  rw [hu] at hnot
  cases hnot

theorem finish_treats {k k₁ : Kernel} {step : Step} (hk : k.Sound)
    (heffects : Relation.ReflTransGen (Effect fun _ => True) k k₁) (htreats : Treats w k k₁)
    (h : Operation.finish k₁ = .ok step) : Treats w k step.1 := by
  obtain ⟨k₂, hpreempt, h⟩ := bind_eq_ok.mp h
  obtain rfl := Except.ok.inj h
  obtain ⟨hk₁, hcurrent⟩ := effects_induction (P := fun k₁ => k₁.current = k.current)
    heffects hk (fun _ _ _ he hcurrent => he.current.trans hcurrent) rfl
  exact htreats.preempt hk.inPlace hk₁.inPlace hcurrent hpreempt

/-- A thread that joins another one wakes nobody. -/
theorem join_treats {k : Kernel} {step : Step} (hk : k.Sound) (hq : k.timers.Sound)
    (h : k.join t = .ok step) : Treats (fun _ => none) k step.1 := by
  rcases join_ok hk.inPlace h with ⟨hfinal, rfl⟩ | ⟨-, hawaits⟩
  · have hvacate : Effect (· = .thread t) k (k.vacate t) := .vacate rfl hfinal
    refine (Does.of_effect hvacate).treats hk hq nofun fun u hu =>
      hk.inPlace.not_reached hu ⟨nofun, ?_⟩ (fun _ _ => nofun) fun _ _ => nofun
    intro heq
    rw [Object.thread.inj heq, hfinal] at hu
    cases hu
  · have hswitch : Switch (fun _ => True) k step.1 := hawaits.switch trivial
    exact hswitch.treats hk.inPlace hq

theorem operation_treats {c : Operation} (hx : x.Fit) (hq : x.kernel.timers.Sound)
    (hallows : x.allows (.call (.operation c)) = true)
    (hmove : x.move (.call (.operation c)) = .ok y) (htick : c ≠ .tick)
    (hown : ∀ id, c = .resetTimer id → maxThreads ≤ id.slot.val) :
    Treats (Record.wakes? ⟨x, .call (.operation c), y⟩) x.kernel y.kernel := by
  obtain ⟨hnil, hexist⟩ := allows_call hallows
  have hk := hx.sound
  obtain ⟨frames, hstep, hleft⟩ := operation_step hmove
  rw [hnil, List.append_nil] at hleft
  have hdelivery : ∀ {b a}, c.attempt? = some (b, a) →
      Record.delivery b ⟨x, .call (.operation c), y⟩ = a.delivery frames :=
    fun ha => delivery_of_left hleft ha
  have huntouched : (∀ o, c.touches x.kernel o → o.isAwaited = true → ∃ t, o = .thread t ∧
      (x.kernel.thread t).state.isTimed = false) → Treats (fun _ => none) x.kernel y.kernel :=
    untouched_treats hx hq hallows hmove
  cases c with
  | tick => exact absurd rfl htick
  | join t =>
      rw [wakes_eq_notices (fun _ => rfl) (fun _ => rfl) rfl]
      exact join_treats hk hq hstep
  | resume t =>
      rw [wakes_eq_notices (fun _ => rfl) (fun _ => rfl) rfl]
      obtain ⟨k₁, hresume, hstep⟩ := bind_eq_ok.mp hstep
      exact finish_treats hk (.single (resume_effect hk.inPlace (Or.inl trivial) hresume))
        (resume_treats hk.inPlace hq hresume) hstep
  | waitSemaphore s timeout =>
      rw [wakes_eq_notices (fun _ => rfl) (fun _ => rfl) rfl]
      obtain ⟨wait, hwait, hstep⟩ := bind_eq_ok.mp hstep
      have htreats := waitSemaphore_treats hk hq hexist hwait
      rw [Except.ok.inj hstep] at htreats
      exact htreats
  | signal s =>
      rw [wakes_eq_signalled (fun _ => rfl) rfl rfl]
      obtain ⟨k₁, hsignal, hstep⟩ := bind_eq_ok.mp hstep
      exact finish_treats hk (.single (signal_effect hk trivial hsignal))
        (signal_treats hk hq hsignal) hstep
  | resetSemaphore s n =>
      rw [wakes_eq_dismissed (fun _ => rfl) rfl rfl]
      obtain ⟨k₁, hreset, hstep⟩ := bind_eq_ok.mp hstep
      exact finish_treats hk (.single (resetSemaphore_effect hk.inPlace trivial hreset))
        (resetSemaphore_treats hk.inPlace hq hreset) hstep
  | signalAndWait s₁ s₂ =>
      rw [wakes_eq_signalled (fun _ => rfl) rfl rfl]
      have hexist₂ := (Bool.and_eq_true_iff.mp hexist).2
      exact signalAndWait_treats hk hq hexist₂ hstep
  | waitCondition c m timeout =>
      rw [wakes_eq_notices (fun _ => rfl) (fun _ => rfl) rfl]
      exact waitCondition_treats hk hq hstep
  | signalCondition c =>
      rw [wakes_eq_notices (fun _ => rfl) (fun _ => rfl) rfl]
      obtain ⟨k₁, hsignal, hstep⟩ := bind_eq_ok.mp hstep
      exact finish_treats hk (signalCondition_effects hk.inPlace trivial hsignal)
        (signalCondition_treats hk.inPlace hq hsignal) hstep
  | broadcast c =>
      rw [wakes_eq_notices (fun _ => rfl) (fun _ => rfl) rfl]
      obtain ⟨k₁, hbroadcast, hstep⟩ := bind_eq_ok.mp hstep
      exact finish_treats hk (broadcast_effects hk.inPlace trivial hbroadcast)
        (broadcast_treats hk.inPlace hq hbroadcast) hstep
  | post b msg ahead timeout =>
      rw [wakes_eq_signalled (fun _ => rfl) rfl rfl]
      change Treats (signalled (fun s => signalsOf _ s (Record.delivery b _)) _) _ _
      rw [hdelivery rfl]
      exact post_treats hk hq hexist hstep
  | fetch b timeout =>
      rw [wakes_eq_signalled (fun _ => rfl) rfl rfl]
      change Treats (signalled (fun s => signalsOf _ s (Record.delivery b _)) _) _ _
      rw [hdelivery rfl]
      exact fetch_treats hk hq hexist hstep
  | resetMailbox b =>
      have hsignals : ∀ s, Record.signals s ⟨x, .call (.operation (.resetMailbox b)), y⟩ = 0 := by
        intro s
        change signalsOf _ s (Record.delivery b _) = 0
        rw [hdelivery rfl]
        rfl
      rw [wakes_eq_dismissed hsignals rfl rfl]
      obtain ⟨k₁, hreset, hstep⟩ := bind_eq_ok.mp hstep
      exact finish_treats hk (resetMailbox_effects hk (fun _ _ => trivial) hreset)
        (resetMailbox_treats hk hq hexist hreset) hstep
  | resetTimer id =>
      rw [wakes_eq_notices (fun _ => rfl) (fun _ => rfl) rfl]
      exact huntouched fun o ht _ => absurd ht.2 (Nat.not_lt.mpr (hown id rfl))
  | lock m | tryLock m | unlock m =>
      rw [wakes_eq_notices (fun _ => rfl) (fun _ => rfl) rfl]
      refine huntouched ?_
      rintro _ rfl ⟨⟩
  | unlockAll =>
      rw [wakes_eq_notices (fun _ => rfl) (fun _ => rfl) rfl]
      refine huntouched ?_
      rintro _ ⟨m, rfl⟩ ⟨⟩
  | setPriority p =>
      rw [wakes_eq_notices (fun _ => rfl) (fun _ => rfl) rfl]
      refine huntouched ?_
      rintro _ ⟨rfl, -⟩ ⟨⟩
  | createMailbox capacity =>
      rw [wakes_eq_notices (fun _ => rfl) (fun _ => rfl) rfl]
      refine huntouched ?_
      rintro _ ⟨b, rfl, -⟩ ⟨⟩
  | _ =>
      rw [wakes_eq_notices (fun _ => rfl) (fun _ => rfl) rfl]
      exact huntouched nofun

theorem interrupt_treats {c : InterruptCall} (hx : x.Fit) (hq : x.kernel.timers.Sound)
    (hallows : x.allows (.interrupt c) = true) (hmove : x.move (.interrupt c) = .ok y)
    (htick : c ≠ .tick) (hown : ∀ id, c = .resetTimer id → maxThreads ≤ id.slot.val) :
    Treats (Record.wakes? ⟨x, .interrupt c, y⟩) x.kernel y.kernel := by
  have hexist := (allows_interrupt hallows).2
  have hk := hx.sound
  obtain ⟨frames, hstep, hleft⟩ := interrupt_step hmove
  have hdelivery : ∀ {b a}, c.attempt? = some (b, a) →
      Record.delivery b ⟨x, .interrupt c, y⟩ = a.delivery (frames ++ x.frames) :=
    fun ha => delivery_of_left hleft ha
  have huntouched : (∀ o, c.touches x.kernel o → o.isAwaited = true → ∃ t, o = .thread t ∧
      (x.kernel.thread t).state.isTimed = false) → Treats (fun _ => none) x.kernel y.kernel :=
    untouched_treats hx hq hallows hmove
  cases c with
  | tick => exact absurd rfl htick
  | resume t =>
      rw [wakes_eq_notices (fun _ => rfl) (fun _ => rfl) rfl]
      obtain ⟨k₁, hresume, hstep⟩ := bind_eq_ok.mp hstep
      obtain ⟨rfl, -⟩ := Prod.mk.inj (Except.ok.inj hstep)
      exact resume_treats hk.inPlace hq hresume
  | signal s =>
      rw [wakes_eq_signalled (fun _ => rfl) rfl rfl]
      obtain ⟨k₁, hsignal, hstep⟩ := bind_eq_ok.mp hstep
      obtain ⟨rfl, -⟩ := Prod.mk.inj (Except.ok.inj hstep)
      exact signal_treats hk hq hsignal
  | resetSemaphore s n =>
      rw [wakes_eq_dismissed (fun _ => rfl) rfl rfl]
      obtain ⟨k₁, hreset, hstep⟩ := bind_eq_ok.mp hstep
      obtain ⟨rfl, -⟩ := Prod.mk.inj (Except.ok.inj hstep)
      exact resetSemaphore_treats hk.inPlace hq hreset
  | signalCondition c =>
      rw [wakes_eq_notices (fun _ => rfl) (fun _ => rfl) rfl]
      obtain ⟨k₁, hsignal, hstep⟩ := bind_eq_ok.mp hstep
      obtain ⟨rfl, -⟩ := Prod.mk.inj (Except.ok.inj hstep)
      exact signalCondition_treats hk.inPlace hq hsignal
  | broadcast c =>
      rw [wakes_eq_notices (fun _ => rfl) (fun _ => rfl) rfl]
      obtain ⟨k₁, hbroadcast, hstep⟩ := bind_eq_ok.mp hstep
      obtain ⟨rfl, -⟩ := Prod.mk.inj (Except.ok.inj hstep)
      exact broadcast_treats hk.inPlace hq hbroadcast
  | post b msg ahead =>
      rw [wakes_eq_signalled (fun _ => rfl) rfl rfl]
      obtain ⟨⟨e, k'⟩, hpost, hstep⟩ := bind_eq_ok.mp hstep
      obtain ⟨rfl, rfl⟩ := Prod.mk.inj (Except.ok.inj hstep)
      change Treats (signalled (fun s => signalsOf _ s (Record.delivery b _)) _) _ _
      rw [hdelivery rfl]
      exact postNow_treats hk hq hpost
  | fetch b =>
      rw [wakes_eq_signalled (fun _ => rfl) rfl rfl]
      obtain ⟨⟨e, k'⟩, hfetch, hstep⟩ := bind_eq_ok.mp hstep
      obtain ⟨rfl, rfl⟩ := Prod.mk.inj (Except.ok.inj hstep)
      change Treats (signalled (fun s => signalsOf _ s (Record.delivery b _)) _) _ _
      rw [hdelivery rfl]
      exact fetchNow_treats hk hq hfetch
  | resetMailbox b =>
      have hsignals : ∀ s, Record.signals s ⟨x, .interrupt (.resetMailbox b), y⟩ = 0 := by
        intro s
        change signalsOf _ s (Record.delivery b _) = 0
        rw [hdelivery rfl]
        rfl
      rw [wakes_eq_dismissed hsignals rfl rfl]
      obtain ⟨k₁, hreset, hstep⟩ := bind_eq_ok.mp hstep
      obtain ⟨rfl, -⟩ := Prod.mk.inj (Except.ok.inj hstep)
      exact resetMailbox_treats hk hq hexist hreset
  | resetTimer id =>
      rw [wakes_eq_notices (fun _ => rfl) (fun _ => rfl) rfl]
      exact huntouched fun o ht _ => absurd ht.2 (Nat.not_lt.mpr (hown id rfl))
  | tryLock m =>
      rw [wakes_eq_notices (fun _ => rfl) (fun _ => rfl) rfl]
      refine huntouched ?_
      rintro _ rfl ⟨⟩
  | _ =>
      rw [wakes_eq_notices (fun _ => rfl) (fun _ => rfl) rfl]
      exact huntouched nofun

theorem expires_advance {f : Frame} {rest : List Frame} (hframes : x.frames = f :: rest)
    (hf : f ≠ .fire) : Record.expires? ⟨x, .advance, y⟩ = none := by
  unfold Record.expires?
  dsimp only
  rw [hframes]
  cases f with
  | fire => exact absurd rfl hf
  | _ => rfl

theorem advance_treats (hx : x.Fit) (hq : x.kernel.timers.Sound)
    (hallows : x.allows .advance = true) (hmove : x.move .advance = .ok y) :
    Treats (Record.wakes? ⟨x, .advance, y⟩) x.kernel y.kernel := by
  have hk := hx.sound
  obtain ⟨f, rest, hframes, -⟩ := allows_advance hallows
  obtain ⟨frames, hstep, hleft⟩ := advance_step hframes hmove
  have hsignals := fun s => signals_advance (y := y) (s := s) hframes
  have hexpires := expires_advance (y := y) hframes
  have huntouched : (∀ o, f.touches x.kernel o → o.isAwaited = true → ∃ t, o = .thread t ∧
      (x.kernel.thread t).state.isTimed = false) → Treats (fun _ => none) x.kernel y.kernel := by
    intro ht
    refine untouched_treats hx hq hallows hmove ?_
    rw [touches_advance hframes]
    exact ht
  have hdelivery : ∀ {b a}, f.attempt? = some (b, a) →
      Record.delivery b ⟨x, .advance, y⟩ = a.delivery (frames ++ rest) :=
    fun ha => delivery_of_left hleft ((attempt_advance hframes).trans ha)
  cases f with
  | fire =>
      refine (fire_treats hk.inPlace hq hstep).congr fun u _ => ?_
      have hdismissed := congrFun (dismissed_none x.kernel) u
      have hsignalled := congrFun (signalled_zero x.kernel) u
      have hexpired : Record.expires? ⟨x, .advance, y⟩ = x.kernel.expired? := by
        unfold Record.expires?
        dsimp only
        rw [hframes]
      have hnone : Record.event? ⟨x, .advance, y⟩ u = none := by
        simp [Record.event?, hsignals, Record.resets?, Record.notices, Frame.attempt?, hdismissed,
          hsignalled]
      rw [Record.wakes?, hnone, hexpired, Option.none_or]
  | store b epoch msg ahead =>
      rw [wakes_eq_signalled (fun _ => rfl) rfl (hexpires (by simp))]
      simp only [hsignals, Frame.attempt?]
      rw [hdelivery rfl, Attempt.delivery, postDelivery_append (storeAfter_ne_nil hstep)]
      exact storeAfter_treats hk hq hstep
  | fetch b epoch =>
      rw [wakes_eq_signalled (fun _ => rfl) rfl (hexpires (by simp))]
      simp only [hsignals, Frame.attempt?]
      rw [hdelivery rfl, Attempt.delivery, fetchDelivery_append (fetchAfter_ne_nil hstep)]
      exact fetchAfter_treats hk hq hstep
  | start =>
      rw [wakes_eq_notices (fun _ => rfl) hsignals (hexpires (by simp))]
      refine huntouched ?_
      rintro _ rfl -
      exact ⟨_, rfl, congrArg ThreadState.isTimed hk.inPlace.state_current⟩
  | collect t =>
      rw [wakes_eq_notices (fun _ => rfl) hsignals (hexpires (by simp))]
      refine huntouched ?_
      rintro _ rfl -
      have hfinal := hx.ended t (by rw [hframes]; exact List.mem_cons_self)
      exact ⟨t, rfl, congrArg ThreadState.isTimed hfinal⟩
  | relock m =>
      rw [wakes_eq_notices (fun _ => rfl) hsignals (hexpires (by simp))]
      refine huntouched ?_
      rintro _ rfl ⟨⟩
  | _ =>
      rw [wakes_eq_notices (fun _ => rfl) hsignals (hexpires (by simp))]
      exact huntouched fun o ho => ho.elim

/-- What a move that is no tick does to those who wait. -/
theorem move_treats (hx : x.Fit) (hq : x.kernel.timers.Sound) (hallows : x.allows m = true)
    (hmove : x.move m = .ok y) (htick : Record.isTick ⟨x, m, y⟩ = false)
    (hown : ∀ id ∈ Record.stops? ⟨x, m, y⟩, maxThreads ≤ id.slot.val) :
    Treats (Record.wakes? ⟨x, m, y⟩) x.kernel y.kernel := by
  have huntouched := untouched_treats hx hq hallows hmove
  cases m with
  | call c =>
      cases c with
      | operation c =>
          refine operation_treats hx hq hallows hmove ?_ ?_
          · rintro rfl
            cases htick
          · rintro id rfl
            exact hown id rfl
      | boot =>
          rw [wakes_eq_notices (fun _ => rfl) (fun _ => rfl) rfl]
          exact huntouched nofun
      | spawn name p e =>
          rw [wakes_eq_notices (fun _ => rfl) (fun _ => rfl) rfl]
          refine huntouched ?_
          rintro _ ⟨t, rfl, hs⟩ -
          exact ⟨t, rfl, congrArg ThreadState.isTimed hs⟩
      | exit msg =>
          rw [wakes_eq_notices (fun _ => rfl) (fun _ => rfl) rfl]
          refine huntouched ?_
          rintro _ rfl -
          exact ⟨_, rfl, congrArg ThreadState.isTimed hx.sound.inPlace.state_current⟩
  | interrupt c =>
      refine interrupt_treats hx hq hallows hmove ?_ ?_
      · rintro rfl
        cases htick
      · rintro id rfl
        exact hown id rfl
  | advance => exact advance_treats hx hq hallows hmove
  | _ =>
      rw [wakes_eq_notices (fun _ => rfl) (fun _ => rfl) rfl]
      exact huntouched nofun

theorem signalled_eq_none {k : Kernel} {i : SemaphoreId → Nat}
    (hu : ∀ s, (k.thread u).queue ≠ some (.semaphore s)) : signalled i k u = none := by
  unfold signalled
  split
  · rename_i s hs
    exact absurd hs (hu s)
  · rfl

theorem resume_state {k : Kernel} (hk : k.InPlace) {f : Kernel → Outcome Step}
    {step : Step} (h : (k.resume t >>= f) = .ok step) : (k.thread t).state = .suspended := by
  obtain ⟨k₁, hresume, -⟩ := bind_eq_ok.mp h
  exact (resume_ok hk hresume).1

theorem notices_eq_none (hx : x.Fit) (hmove : x.move m = .ok y)
    (hu : (x.kernel.thread u).state.isTimed = false) :
    Record.notices ⟨x, m, y⟩ u = none := by
  have hk := hx.sound.inPlace
  have hnot : ∀ c, (x.kernel.thread u).queue ≠ some (.condVar c) := by
    intro c hc
    rw [hk.isTimed_of_queue (Or.inr ⟨c, hc⟩)] at hu
    cases hu
  have hresumed : ∀ {t}, (x.kernel.thread t).state = .suspended → u ≠ t := by
    rintro t hs rfl
    rw [hs] at hu
    cases hu
  have hfirst : ∀ c r, firstOf (.condVar c) r x.kernel u = none := by
    refine fun c r => if_neg fun hhead => hnot c ?_
    exact hk.queue_of_head hhead
  have hall : ∀ c r, allOf (.condVar c) r x.kernel u = none := fun c r => if_neg (hnot c)
  unfold Record.notices
  dsimp only
  split
  · rename_i t
    obtain ⟨frames, hstep, -⟩ := operation_step hmove
    exact if_neg (hresumed (resume_state hk hstep))
  · rename_i t
    obtain ⟨frames, hstep, -⟩ := interrupt_step hmove
    exact if_neg (hresumed (resume_state hk hstep))
  · exact hfirst _ _
  · exact hfirst _ _
  · exact hall _ _
  · exact hall _ _
  · rfl

/-- Only a thread wakes that waits. -/
theorem wakes_eq_none (hx : x.Fit) (hmove : x.move m = .ok y)
    (hu : (x.kernel.thread u).state.isTimed = false) : Record.wakes? ⟨x, m, y⟩ u = none := by
  have hk := hx.sound.inPlace
  have hnot : ∀ s, (x.kernel.thread u).queue ≠ some (.semaphore s) := by
    intro s hs
    rw [hk.isTimed_of_queue (Or.inl ⟨s, hs⟩)] at hu
    cases hu
  have hexpires : Record.expires? ⟨x, m, y⟩ ≠ some u := by
    unfold Record.expires?
    dsimp only
    split
    · intro hexpired
      rw [hk.isTimed_of_expired hexpired] at hu
      cases hu
    · exact nofun
  rw [Record.wakes?, Record.event?, if_neg hexpires]
  rw [dismissed_eq_none hnot, signalled_eq_none hnot, notices_eq_none hx hmove hu]
  rfl

/-! Ticks. -/

theorem tick_ok (hmove : x.move m = .ok y) (htick : Record.isTick ⟨x, m, y⟩ = true) :
    x.kernel.beginTick = .ok y.kernel ∧
      ∀ u, u ≠ x.kernel.current → y.framesOf u = x.framesOf u := by
  have hperform : ∃ step : Kernel → Outcome Step, x.perform x.frames step = .ok y ∧
      ∀ k frames, step x.kernel = .ok (k, frames) → x.kernel.beginTick = .ok k := by
    unfold Record.isTick at htick
    dsimp only at htick
    split at htick
    · refine ⟨(Operation.run · .tick), hmove, fun k frames hstep => ?_⟩
      obtain ⟨k', hbegin, hstep⟩ := bind_eq_ok.mp hstep
      rw [← (Prod.mk.inj (Except.ok.inj hstep)).1]
      exact hbegin
    · refine ⟨(InterruptCall.run · .tick), hmove, fun k frames hstep => ?_⟩
      obtain ⟨k', hbegin, hstep⟩ := bind_eq_ok.mp hstep
      rw [← (Prod.mk.inj (Except.ok.inj hstep)).1]
      exact hbegin
    · cases htick
  obtain ⟨step, hperform, hbegin⟩ := hperform
  obtain ⟨frames, hstep, hframes⟩ := perform_ok hperform
  refine ⟨hbegin _ _ hstep, fun u hu => ?_⟩
  rw [hframes, if_neg hu]

/-! Timers of the application. -/

/-- To stop a timer is to change the timers only, and wakes nobody. -/
theorem stops_ok {id : TimerId} (hmove : x.move m = .ok y)
    (hstops : Record.stops? ⟨x, m, y⟩ = some id) :
    (∃ timers, y.kernel = { x.kernel with timers }) ∧
      Record.wakes? ⟨x, m, y⟩ = fun _ => none := by
  have hreset : x.perform x.frames (InterruptCall.run · (.resetTimer id)) = .ok y →
      ∃ timers, y.kernel = { x.kernel with timers } := by
    intro hperform
    obtain ⟨frames, hstep, -⟩ := perform_ok hperform
    obtain ⟨k', hreset, hstep⟩ := bind_eq_ok.mp hstep
    obtain ⟨-, timers, -, rfl⟩ := resetTimer_ok hreset
    exact ⟨timers, (Prod.mk.inj (Except.ok.inj hstep)).1.symm⟩
  unfold Record.stops? at hstops
  dsimp only at hstops
  split at hstops
  · obtain rfl := Option.some.inj hstops
    exact ⟨hreset hmove, wakes_eq_notices (fun _ => rfl) (fun _ => rfl) rfl⟩
  · obtain rfl := Option.some.inj hstops
    exact ⟨hreset hmove, wakes_eq_notices (fun _ => rfl) (fun _ => rfl) rfl⟩
  · cases hstops

theorem setTimer_slot {k k' : Kernel} {delay : Delay} {e : Routine} {id : TimerId}
    (h : k.setTimer delay e = .ok (.ok id, k')) : maxThreads ≤ id.slot.val := by
  rcases setTimer_ok h with ⟨hid, -⟩ | ⟨slot, timers, hid, hslot, -, -⟩
  · cases hid
  · rw [Except.ok.inj hid]
    exact hslot

theorem slot_of_starts {id : TimerId} (hmove : r.before.move r.move = .ok r.after)
    (hid : r.starts? = some id) : maxThreads ≤ id.slot.val := by
  have hset : ∃ delay e rest, r.before.perform r.before.frames
      (InterruptCall.run · (.setTimer delay e)) = .ok r.after ∧
        r.left = .answer (.timer (.ok id)) :: rest := by
    unfold Record.starts? at hid
    split at hid
    · rename_i hm hleft
      rw [hm] at hmove
      obtain rfl := Option.some.inj hid
      exact ⟨_, _, _, hmove, hleft⟩
    · rename_i hm hleft
      rw [hm] at hmove
      obtain rfl := Option.some.inj hid
      exact ⟨_, _, _, hmove, hleft⟩
    · cases hid
  obtain ⟨delay, e, rest, hperform, hleft⟩ := hset
  obtain ⟨frames, hstep, hframes⟩ := perform_ok hperform
  obtain ⟨⟨made, k'⟩, hset, hstep⟩ := bind_eq_ok.mp hstep
  obtain ⟨-, rfl⟩ := Prod.mk.inj (Except.ok.inj hstep)
  rw [Record.left, hframes, if_pos rfl] at hleft
  obtain rfl := Answer.timer.inj (Frame.answer.inj (List.cons.inj hleft).1)
  exact setTimer_slot hset

theorem Reaches.slot_of_starts (hr : Reaches h x) {id : TimerId}
    (hid : id ∈ h.filterMap Record.starts?) : maxThreads ≤ id.slot.val := by
  induction hr with
  | boot _ => cases hid
  | move _ _ hmove ih =>
      rw [List.filterMap_cons] at hid
      split at hid
      · exact ih hid
      · rename_i hstarts
        rcases List.mem_cons.mp hid with rfl | hid
        · exact Execution.slot_of_starts hmove hstarts
        · exact ih hid

theorem Reaches.slot_of_stops (hr : Reaches h r.before) (ho : OwnTimers (r :: h)) :
    ∀ id ∈ r.stops?, maxThreads ≤ id.slot.val := fun id hid => hr.slot_of_starts (ho.1 id hid)

instance OwnTimers.decidable : (h : History) → Decidable (OwnTimers h)
  | [] => isTrue trivial
  | r :: h =>
    have := OwnTimers.decidable h
    inferInstanceAs (Decidable ((∀ id ∈ r.stops?, id ∈ h.filterMap Record.starts?) ∧ OwnTimers h))

/-- The timers are in order whatever happened. -/
theorem Reaches.timers_sound (hr : Reaches h x) (hj : JoinedOnce h) (ho : OwnTimers h) :
    x.kernel.timers.Sound := by
  induction hr with
  | boot hb =>
      obtain ⟨-, hq⟩ := hb.induction (P := fun k => k.timers.Sound)
        (fun _ => TimerQueue.sound_empty _ _) (fun _ _ hq => hq) fun k k' _ he hq =>
          (he.keepsTime hq (by rintro ⟨t, ⟨⟩⟩)).sound
      exact hq
  | @move h x y m hr hallows hmove ih =>
      have hq := ih hj.tail ho.2
      cases htick : Record.isTick ⟨x, m, y⟩ with
      | true => exact (beginTick_passes hq (tick_ok hmove htick).1).2.2.1
      | false =>
          have hx := hr.orderly hj.tail
          exact (move_treats hx.fit hq hallows hmove htick (hr.slot_of_stops ho)).sound

end Execution

end RealtimeKernel

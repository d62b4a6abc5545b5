import RealtimeKernel.Proofs.Execution.Mailboxes
import RealtimeKernel.Proofs.Kernel.Tallies

/-!
The units of a semaphore are neither made nor lost. A ledger is kept of the history alone: what
the semaphore was given when it was made or reset, the signals since then, and the units that
threads got, at once or while they waited.
-/
namespace RealtimeKernel.Execution
open Kernel

def Record.signals (s : SemaphoreId) (r : Record) : Nat :=
  match r.move with
  | .call (.operation (.signal s')) | .interrupt (.signal s')
  | .call (.operation (.signalAndWait s' _)) => if s' = s then 1 else 0
  | m =>
    match m.attempt? r.before with
    | some (b, _) => signalsOf (r.before.kernel.mailbox b) s (r.delivery b)
    | none => 0

/-- The units that the thread gets at once. -/
def Record.takes (s : SemaphoreId) (r : Record) : Nat :=
  match r.move with
  | .call (.operation (.waitSemaphore s' _)) | .call (.operation (.signalAndWait _ s')) =>
    if s' = s && wonAtOnce r.left then 1 else 0
  -- A thread that goes on was handed its unit before.
  | .advance => 0
  | m =>
    match m.attempt? r.before with
    | some (b, _) => takesOf (r.before.kernel.mailbox b) s (r.delivery b)
    | none => 0

/-- The waits for a unit that are granted: one comes to its end at once, or waiters are handed
units. -/
def Record.grants (s : SemaphoreId) (r : Record) : Nat :=
  r.takes s + handed s r.before.kernel r.after.kernel

/-- The count to which the semaphore is reset. -/
def Record.resets? (s : SemaphoreId) (r : Record) : Option Nat :=
  match r.move with
  | .call (.operation (.resetSemaphore s' n)) | .interrupt (.resetSemaphore s' n) =>
    if s' = s then some n else none
  | .call (.operation (.resetMailbox b)) | .interrupt (.resetMailbox b) =>
    (r.before.kernel.mailbox b).resetsTo s
  | _ => none

structure Ledger where
  /-- The count at the start: when the semaphore was made or was last reset. -/
  base : Int := 0
  signals : Nat := 0
  grants : Nat := 0

def ledger (s : SemaphoreId) : History → Ledger
  | [] => {}
  | r :: h =>
    if r.before.kernel.semaphores.contains s then
      match r.resets? s with
      | some n => { base := n }
      | none =>
        { ledger s h with
          signals := (ledger s h).signals + r.signals s
          grants := (ledger s h).grants + r.grants s }
    else { base := r.after.kernel.semaphoreCount s }

variable {x y : Execution} {h : History} {m : Move} {s : SemaphoreId} {t u : ThreadId} {r : Record}
  {b : MailboxId} {a : Attempt} {frames : List Frame}

/-! What a move does to the ledger. -/

/-- A move that is not about a semaphore. -/
theorem untouched_tallies (hx : x.Fit) (hin : x.kernel.semaphores.contains s = true)
    (hallows : x.allows m = true) (hmove : x.move m = .ok y)
    (ht : ¬ m.touches x (.semaphore s)) : Tallies s 0 0 x.kernel y.kernel :=
  (move_does hx hallows hmove).tallies hx.sound ht hin

theorem finish_tallies {k k₁ : Kernel} {step : Step} {i : Nat} (hk : k.Sound)
    (hin : k.semaphores.contains s = true) (heffect : Effect (fun _ => True) k k₁)
    (htally : Tallies s i 0 k k₁) (h : Operation.finish k₁ = .ok step) :
    Tallies s i 0 k step.1 := by
  obtain ⟨k₂, hpreempt, h⟩ := bind_eq_ok.mp h
  obtain rfl := Except.ok.inj h
  have hk₁ := heffect.sound hk
  have hpreempt := preempt_tallies hk₁ (heffect.grows.semaphores s hin) hpreempt
  exact htally.trans hk.inPlace hk₁.inPlace heffect.current hpreempt

/-- A reset of a mailbox that the semaphore is not one of. -/
theorem not_boxParts_of_resetsTo {k : Kernel} (h : (k.mailbox b).resetsTo s = none) :
    ¬ k.BoxParts b (.semaphore s) := by
  unfold Mailbox.resetsTo at h
  split at h
  · cases h
  · split at h
    · cases h
    · rename_i hempty hfull
      rintro (ho | ho | ho)
      · cases ho
      · exact hempty (Object.semaphore.inj ho).symm
      · exact hfull (Object.semaphore.inj ho).symm

theorem operation_tallies {c : Operation} (hx : x.Fit)
    (hin : x.kernel.semaphores.contains s = true)
    (hallows : x.allows (.call (.operation c)) = true)
    (hmove : x.move (.call (.operation c)) = .ok y)
    (hnone : Record.resets? s ⟨x, .call (.operation c), y⟩ = none) :
    Tallies s (Record.signals s ⟨x, .call (.operation c), y⟩)
      (Record.takes s ⟨x, .call (.operation c), y⟩) x.kernel y.kernel := by
  obtain ⟨hnil, hexist⟩ := allows_call hallows
  have hk := hx.sound
  obtain ⟨frames, hstep, hleft⟩ := operation_step hmove
  rw [hnil, List.append_nil] at hleft
  have hdelivery : ∀ {b a}, c.attempt? = some (b, a) →
      Record.delivery b ⟨x, .call (.operation c), y⟩ = a.delivery frames :=
    fun ha => delivery_of_left hleft ha
  have huntouched : ¬ c.touches x.kernel (.semaphore s) → Tallies s 0 0 x.kernel y.kernel :=
    untouched_tallies hx hin hallows hmove
  cases c with
  | waitSemaphore s' timeout =>
      obtain ⟨w, hwait, hstep⟩ := bind_eq_ok.mp hstep
      have htally := waitSemaphore_tallies hk hin hexist hwait
      rw [Except.ok.inj hstep, ← hleft] at htally
      exact htally
  | signal s' =>
      obtain ⟨k₁, hsignal, hstep⟩ := bind_eq_ok.mp hstep
      have heffect : Effect (fun _ => True) x.kernel k₁ := signal_effect hk trivial hsignal
      exact finish_tallies hk hin heffect (signal_tallies hk hin hsignal) hstep
  | signalAndWait s₁ s₂ =>
      have hexist₂ := (Bool.and_eq_true_iff.mp hexist).2
      have htally := signalAndWait_tallies hk hin hexist₂ hstep
      rw [← hleft] at htally
      exact htally
  | post b msg ahead timeout =>
      change Tallies s (signalsOf _ s (Record.delivery b _)) (takesOf _ s (Record.delivery b _)) _ _
      rw [hdelivery rfl]
      exact post_tallies hk hin hexist hstep
  | fetch b timeout =>
      change Tallies s (signalsOf _ s (Record.delivery b _)) (takesOf _ s (Record.delivery b _)) _ _
      rw [hdelivery rfl]
      exact fetch_tallies hk hin hexist hstep
  | resetSemaphore s' n =>
      refine huntouched ?_
      intro ht
      rw [← Object.semaphore.inj ht] at hnone
      cases (if_pos rfl).symm.trans hnone
  | resetMailbox b =>
      change Tallies s (signalsOf _ s (Record.delivery b _)) (takesOf _ s (Record.delivery b _)) _ _
      rw [hdelivery rfl]
      exact huntouched (not_boxParts_of_resetsTo hnone)
  | setPriority p => exact huntouched fun ht => nomatch ht.1
  | createMailbox capacity =>
      refine huntouched ?_
      rintro ⟨b, hb, -⟩
      cases hb
  | unlockAll =>
      refine huntouched ?_
      rintro ⟨m, hm⟩
      cases hm
  | waitCondition c m timeout =>
      refine huntouched ?_
      rintro (ht | ht) <;> cases ht
  | _ => exact huntouched nofun

theorem interrupt_tallies {c : InterruptCall} (hx : x.Fit)
    (hin : x.kernel.semaphores.contains s = true) (hallows : x.allows (.interrupt c) = true)
    (hmove : x.move (.interrupt c) = .ok y)
    (hnone : Record.resets? s ⟨x, .interrupt c, y⟩ = none) :
    Tallies s (Record.signals s ⟨x, .interrupt c, y⟩) (Record.takes s ⟨x, .interrupt c, y⟩)
      x.kernel y.kernel := by
  have hk := hx.sound
  obtain ⟨frames, hstep, hleft⟩ := interrupt_step hmove
  have hdelivery : ∀ {b a}, c.attempt? = some (b, a) →
      Record.delivery b ⟨x, .interrupt c, y⟩ = a.delivery (frames ++ x.frames) :=
    fun ha => delivery_of_left hleft ha
  have huntouched : ¬ c.touches x.kernel (.semaphore s) → Tallies s 0 0 x.kernel y.kernel :=
    untouched_tallies hx hin hallows hmove
  cases c with
  | signal s' =>
      obtain ⟨k₁, hsignal, hstep⟩ := bind_eq_ok.mp hstep
      obtain ⟨rfl, -⟩ := Prod.mk.inj (Except.ok.inj hstep)
      exact signal_tallies hk hin hsignal
  | post b msg ahead =>
      obtain ⟨⟨e, k'⟩, hpost, hstep⟩ := bind_eq_ok.mp hstep
      obtain ⟨rfl, rfl⟩ := Prod.mk.inj (Except.ok.inj hstep)
      change Tallies s (signalsOf _ s (Record.delivery b _)) (takesOf _ s (Record.delivery b _)) _ _
      rw [hdelivery rfl]
      exact postNow_tallies hk hin hpost
  | fetch b =>
      obtain ⟨⟨e, k'⟩, hfetch, hstep⟩ := bind_eq_ok.mp hstep
      obtain ⟨rfl, rfl⟩ := Prod.mk.inj (Except.ok.inj hstep)
      change Tallies s (signalsOf _ s (Record.delivery b _)) (takesOf _ s (Record.delivery b _)) _ _
      rw [hdelivery rfl]
      exact fetchNow_tallies hk hin hfetch
  | resetSemaphore s' n =>
      refine huntouched ?_
      intro ht
      rw [← Object.semaphore.inj ht] at hnone
      cases (if_pos rfl).symm.trans hnone
  | resetMailbox b =>
      change Tallies s (signalsOf _ s (Record.delivery b _)) (takesOf _ s (Record.delivery b _)) _ _
      rw [hdelivery rfl]
      exact huntouched (not_boxParts_of_resetsTo hnone)
  | _ => exact huntouched nofun

theorem postDelivery_append {msg : Msg} {ahead : Bool} {rest : List Frame} (h : frames ≠ []) :
    postDelivery msg ahead (frames ++ rest) = postDelivery msg ahead frames := by
  cases frames with
  | nil => exact absurd rfl h
  | cons f _ =>
      cases f with
      | answer a =>
          cases a with
          | posted e => cases e <;> rfl
          | _ => rfl
      | _ => rfl

theorem fetchDelivery_append {rest : List Frame} (h : frames ≠ []) :
    fetchDelivery (frames ++ rest) = fetchDelivery frames := by
  cases frames with
  | nil => exact absurd rfl h
  | cons f _ =>
      cases f with
      | answer a =>
          cases a with
          | fetched e => cases e <;> rfl
          | _ => rfl
      | _ => rfl

theorem signals_advance {f : Frame} {rest : List Frame} (hframes : x.frames = f :: rest) :
    Record.signals s ⟨x, .advance, y⟩ =
      match f.attempt? with
      | some (b, _) => signalsOf (x.kernel.mailbox b) s (Record.delivery b ⟨x, .advance, y⟩)
      | none => 0 := by
  rw [← attempt_advance hframes]
  rfl

theorem advance_tallies (hx : x.Fit) (hin : x.kernel.semaphores.contains s = true)
    (hallows : x.allows .advance = true) (hmove : x.move .advance = .ok y) :
    Tallies s (Record.signals s ⟨x, .advance, y⟩) 0 x.kernel y.kernel := by
  have hk := hx.sound
  obtain ⟨f, rest, hframes, -⟩ := allows_advance hallows
  have huntouched : ¬ f.touches x.kernel (.semaphore s) → Tallies s 0 0 x.kernel y.kernel := by
    intro ht
    refine untouched_tallies hx hin hallows hmove ?_
    rw [touches_advance hframes]
    exact ht
  obtain ⟨frames, hstep, hleft⟩ := advance_step hframes hmove
  have hdelivery : ∀ {b a}, f.attempt? = some (b, a) →
      Record.delivery b ⟨x, .advance, y⟩ = a.delivery (frames ++ rest) :=
    fun ha => delivery_of_left hleft ((attempt_advance hframes).trans ha)
  rw [signals_advance hframes]
  cases f with
  | store b epoch msg ahead =>
      change Tallies s (signalsOf _ s (Record.delivery b _)) 0 _ _
      rw [hdelivery rfl, Attempt.delivery, postDelivery_append (storeAfter_ne_nil hstep)]
      exact storeAfter_tallies hk hin hstep
  | fetch b epoch =>
      change Tallies s (signalsOf _ s (Record.delivery b _)) 0 _ _
      rw [hdelivery rfl, Attempt.delivery, fetchDelivery_append (fetchAfter_ne_nil hstep)]
      exact fetchAfter_tallies hk hin hstep
  | _ => exact huntouched nofun

/-- What a move that resets nothing does to a semaphore that was made. -/
theorem move_tallies (hx : x.Fit) (hin : x.kernel.semaphores.contains s = true)
    (hallows : x.allows m = true) (hmove : x.move m = .ok y)
    (hnone : Record.resets? s ⟨x, m, y⟩ = none) :
    Tallies s (Record.signals s ⟨x, m, y⟩) (Record.takes s ⟨x, m, y⟩) x.kernel y.kernel := by
  have huntouched : ¬ m.touches x (.semaphore s) → Tallies s 0 0 x.kernel y.kernel :=
    untouched_tallies hx hin hallows hmove
  cases m with
  | call c =>
      cases c with
      | operation c => exact operation_tallies hx hin hallows hmove hnone
      | spawn name p e =>
          refine huntouched ?_
          rintro ⟨t, ht, -⟩
          cases ht
      | _ => exact huntouched nofun
  | interrupt c => exact interrupt_tallies hx hin hallows hmove hnone
  | advance => exact advance_tallies hx hin hallows hmove
  | _ => exact huntouched nofun

/-- What a reset does to all semaphores that it sets. -/
theorem move_resets {n : Nat} (hx : x.Fit) (hallows : x.allows m = true)
    (hmove : x.move m = .ok y) (hsome : Record.resets? s ⟨x, m, y⟩ = some n) :
    Resets (fun s => Record.resets? s ⟨x, m, y⟩) x.kernel y.kernel := by
  have hk := hx.sound
  cases m with
  | call c =>
      have hexist := (allows_call hallows).2
      cases c with
      | operation c =>
          obtain ⟨frames, hstep, -⟩ := operation_step hmove
          cases c with
          | resetSemaphore s' n =>
              obtain ⟨k₁, hreset, hstep⟩ := bind_eq_ok.mp hstep
              obtain ⟨k₂, hpreempt, hstep⟩ := bind_eq_ok.mp hstep
              obtain ⟨rfl, -⟩ := Prod.mk.inj (Except.ok.inj hstep)
              have heffect : Effect (fun _ => True) x.kernel k₁ :=
                resetSemaphore_effect hk.inPlace trivial hreset
              have hdismissed := resetSemaphore_dismissed hk.inPlace hreset
              exact hdismissed.resets.preempt hk.inPlace hdismissed.inPlace heffect.current hpreempt
          | resetMailbox b =>
              obtain ⟨k₁, hreset, hstep⟩ := bind_eq_ok.mp hstep
              obtain ⟨k₂, hpreempt, hstep⟩ := bind_eq_ok.mp hstep
              obtain ⟨rfl, -⟩ := Prod.mk.inj (Except.ok.inj hstep)
              have heffects : Relation.ReflTransGen (Effect fun _ => True) x.kernel k₁ :=
                resetMailbox_effects hk (fun _ _ => trivial) hreset
              obtain ⟨hk₁, hcurrent⟩ := effects_induction
                (P := fun k => k.current = x.kernel.current)
                heffects hk (fun _ _ _ he hk => he.current.trans hk) rfl
              have hresets := resetMailbox_resets hk hexist hreset
              exact hresets.preempt hk.inPlace hk₁.inPlace hcurrent hpreempt
          | _ => cases hsome
      | _ => cases hsome
  | interrupt c =>
      have hexist := (allows_interrupt hallows).2
      obtain ⟨frames, hstep, -⟩ := interrupt_step hmove
      cases c with
      | resetSemaphore s' n =>
          obtain ⟨k₁, hreset, hstep⟩ := bind_eq_ok.mp hstep
          obtain ⟨rfl, -⟩ := Prod.mk.inj (Except.ok.inj hstep)
          exact (resetSemaphore_dismissed hk.inPlace hreset).resets
      | resetMailbox b =>
          obtain ⟨k₁, hreset, hstep⟩ := bind_eq_ok.mp hstep
          obtain ⟨rfl, -⟩ := Prod.mk.inj (Except.ok.inj hstep)
          exact resetMailbox_resets hk hexist hreset
      | _ => cases hsome
  | _ => cases hsome

/-! All histories. -/

theorem move_keepsRunnable (hx : x.Fit) (hallows : x.allows m = true) (hmove : x.move m = .ok y)
    (ht : t ≠ x.kernel.current) : KeepsRunnable x.kernel y.kernel t :=
  (move_does hx hallows hmove).keepsRunnable hx.sound ht

/-- A semaphore that was just made has no waiters. -/
theorem count_of_new (hx : Orderly h x) (hy : y.kernel.Sound) (hallows : x.allows m = true)
    (hmove : x.move m = .ok y) (hnew : x.kernel.semaphores.contains s = false) :
    0 ≤ y.kernel.semaphoreCount s := by
  have hbefore := hx.sound.counted.members_eq_nil (hx.sound.counted.unused s hnew)
  have hafter : y.kernel.members (.semaphore s) = [] := by
    rw [List.eq_nil_iff_forall_not_mem]
    intro t hmem
    have hq := (hy.inPlace.mem_iff t _).mp hmem
    have hq : (x.kernel.thread t).queue = some (.semaphore s) :=
      (move_does hx.fit hallows hmove).enters hx.sound (not_touches_new hx.fit hallows hnew) hq
    have hmem := (hx.sound.inPlace.mem_iff t _).mpr hq
    rw [hbefore] at hmem
    cases hmem
  have hlength := hy.counted.length_eq s
  rw [hafter] at hlength
  simp only [List.length_nil] at hlength
  omega

theorem Booted.semaphores_empty (hb : Booted x) : x.kernel.semaphores.contains s = false := by
  obtain ⟨config, k₁, k₂, t, hr⟩ := hb.raised
  obtain ⟨-, -, -, hmoves⟩ := ready_ok hr.sound.inPlace.toLinked hr.ready
  have hsame : x.kernel.semaphores =
    (solo config (bootThread config) config.quantum).semaphores := by
    rw [hr.kernel, ← boot_eq hr.boot]
    exact hmoves.semaphores
  rw [hsame]
  rfl

/-- The ledger is right. -/
theorem Reaches.balance (hr : Reaches h x) (hj : JoinedOnce h)
    (hin : x.kernel.semaphores.contains s = true) :
    max (x.kernel.semaphoreCount s) 0 =
      (ledger s h).base + (ledger s h).signals - (ledger s h).grants := by
  induction hr with
  | boot hb =>
      rw [hb.semaphores_empty] at hin
      cases hin
  | @move h x y m hr hallows hmove ih =>
      have hx := hr.orderly hj.tail
      have hy := (hr.move hallows hmove).orderly hj
      rw [ledger]
      split
      · rename_i hin
        have ih := ih hj.tail hin
        split
        · rename_i n hsome
          have hcount := (move_resets hx.fit hallows hmove hsome).count s n hsome
          change y.kernel.semaphoreCount s = n at hcount
          rw [hcount]
          simp
        · rename_i hnone
          have hcount := (move_tallies hx.fit hin hallows hmove hnone).count
          simp only [Record.grants]
          push_cast
          omega
      · rename_i hnew
        have hcount := count_of_new hx hy.sound hallows hmove (eq_false_of_ne_true hnew)
        simp [hcount]

/-- Whoever was handed a unit keeps it until it runs. -/
theorem Reaches.keeps_unit {later earlier : History} (hr : Reaches (later ++ r :: earlier) x)
    (hj : JoinedOnce (later ++ r :: earlier))
    (runnable : (r.after.kernel.thread t).state.isRunnable = true)
    (waits : ∀ r' ∈ later, r'.before.kernel.current ≠ t) :
    (x.kernel.thread t).state.isRunnable = true ∧
      (x.kernel.thread t).wakeup = (r.after.kernel.thread t).wakeup := by
  induction later generalizing x with
  | nil =>
      obtain ⟨-, -, -, rfl⟩ := hr.uncons
      exact ⟨runnable, rfl⟩
  | cons r' later ih =>
      obtain ⟨hbefore, hallows, hmove, rfl⟩ := hr.uncons
      have hx := hbefore.orderly hj.tail
      obtain ⟨hrun, hwakeup⟩ := ih hbefore hj.tail fun r hr => waits r (List.mem_cons_of_mem _ hr)
      have hnot := waits r' List.mem_cons_self
      obtain ⟨hrun', hwakeup'⟩ := move_keepsRunnable hx.fit hallows hmove (Ne.symm hnot) hrun
      exact ⟨hrun', hwakeup'.trans hwakeup⟩

/-- A semaphore is made with the count that the call gives. -/
theorem createSemaphore_count {k k' : Kernel} {n : Nat}
    (h : k.createSemaphore n = .ok (.ok s, k')) :
    k.semaphores.contains s = false ∧ k'.semaphoreCount s = n := by
  rcases createSemaphore_ok h with ⟨-, err, he⟩ | ⟨s', pool, he, hpush, rfl⟩
  · cases he
  · obtain rfl := Except.ok.inj he
    refine ⟨Pool.not_contains_of_push hpush, ?_⟩
    change (pool.get s).count = n
    rw [Pool.get_push hpush, if_pos rfl]

structure Conserves (s : SemaphoreId) (h : History) (x : Execution) : Prop where
  /-- A unit is there if it was there at the start or was signalled since, and nobody got it. -/
  balance : max (x.kernel.semaphoreCount s) 0 =
    (ledger s h).base + (ledger s h).signals - (ledger s h).grants
  waiters : ((x.kernel.members (.semaphore s)).length : Int) = max 0 (-x.kernel.semaphoreCount s)
  /-- Nobody waits while a unit is there. -/
  available : 0 < x.kernel.semaphoreCount s → x.kernel.members (.semaphore s) = []
  /-- A new semaphore starts as it was asked for. -/
  created : ∀ r ∈ h, ∀ n, r.move = .call (.operation (.createSemaphore n)) →
    r.left = [.answer (.semaphore (.ok s))] →
      r.before.kernel.semaphores.contains s = false ∧ r.after.kernel.semaphoreCount s = n
  /-- Those of a new mailbox start with a unit for each cell and with none. -/
  boxed : ∀ r ∈ h, ∀ b capacity, r.move = .call (.operation (.createMailbox capacity)) →
    r.left = [.answer (.mailbox (.ok b))] →
      ((r.after.kernel.mailbox b).empty = s → r.before.kernel.semaphores.contains s = false ∧
        r.after.kernel.semaphoreCount s = capacity) ∧
      ((r.after.kernel.mailbox b).full = s → r.before.kernel.semaphores.contains s = false ∧
        r.after.kernel.semaphoreCount s = 0)
  /-- Until a thread runs that was handed a unit, nothing changes that. -/
  kept : ∀ later r earlier t, h = later ++ r :: earlier →
    Handed s r.before.kernel r.after.kernel t → (∀ r' ∈ later, r'.before.kernel.current ≠ t) →
      (x.kernel.thread t).state.isRunnable = true ∧ (x.kernel.thread t).wakeup = .ok
  reset : ∀ r ∈ h, ∀ n, r.resets? s = some n →
    r.after.kernel.semaphoreCount s = n ∧ r.after.kernel.members (.semaphore s) = []
  /-- All who wait when a semaphore is reset are sent away, and nobody else wakes. -/
  dismissed : ∀ r ∈ h, ∀ n, r.resets? s = some n → ∀ t,
    ((r.before.kernel.thread t).queue = some (.semaphore s) →
      (r.after.kernel.thread t).state.isRunnable = true ∧
        (r.after.kernel.thread t).wakeup = .reset) ∧
    ((r.before.kernel.thread t).state.isRunnable = false →
      (r.after.kernel.thread t).state.isRunnable = true →
        ∃ s', (r.resets? s').isSome = true ∧
          (r.before.kernel.thread t).queue = some (.semaphore s'))

theorem reaches_conserves (hr : Reaches h x) (hj : JoinedOnce h)
    (hin : x.kernel.semaphores.contains s = true) : Conserves s h x := by
  have hcounted := (hr.orderly hj).sound.counted
  refine ⟨hr.balance hj hin, ?_, ?_, ?_, ?_, ?_, ?_, ?_⟩
  · have hlength := hcounted.length_eq s
    omega
  · exact fun hpos => hcounted.members_eq_nil hpos.le
  · intro r hmem n hm hleft
    obtain ⟨h', hbefore, -, hallows, hmove⟩ := hr.orderly_of_mem hj hmem
    have hstep := operation_left hm hallows hmove
    obtain ⟨⟨e, k'⟩, hcreate, hstep⟩ := bind_eq_ok.mp hstep
    obtain ⟨rfl, heq⟩ := Prod.mk.inj (Except.ok.inj hstep)
    obtain rfl : e = .ok s := by simpa [hleft] using heq
    exact createSemaphore_count hcreate
  · intro r hmem b capacity hm hleft
    obtain ⟨h', hbefore, -, hallows, hmove⟩ := hr.orderly_of_mem hj hmem
    have hstep := operation_left hm hallows hmove
    obtain ⟨⟨e, k'⟩, hcreate, hstep⟩ := bind_eq_ok.mp hstep
    obtain ⟨rfl, heq⟩ := Prod.mk.inj (Except.ok.inj hstep)
    obtain rfl : e = .ok b := by simpa [hleft] using heq
    obtain ⟨hpos, empty, full, hmailbox, hne, hempty, hfull, hcount⟩ := createMailbox_made hcreate
    rw [hmailbox]
    constructor
    · rintro rfl
      refine ⟨hempty, ?_⟩
      rw [hcount, if_neg hne, if_pos rfl]
    · rintro rfl
      refine ⟨hfull, ?_⟩
      rw [hcount, if_pos rfl]
  · intro later r earlier t heq hhanded waits
    subst heq
    obtain ⟨-, hrun, hok⟩ := hhanded
    obtain ⟨hrun', hwakeup⟩ := hr.keeps_unit hj hrun waits
    exact ⟨hrun', hwakeup.trans hok⟩
  · intro r hmem n hsome
    obtain ⟨h', hbefore, hafter, hallows, hmove⟩ := hr.orderly_of_mem hj hmem
    have hcount := (move_resets hbefore.fit hallows hmove hsome).count s n hsome
    refine ⟨hcount, hafter.sound.counted.members_eq_nil ?_⟩
    rw [hcount]
    exact Int.natCast_nonneg n
  · intro r hmem n hsome t
    obtain ⟨h', hbefore, -, hallows, hmove⟩ := hr.orderly_of_mem hj hmem
    have hresets := move_resets hbefore.fit hallows hmove hsome
    refine ⟨hresets.woken t s n hsome, ?_⟩
    intro hnot hrun
    obtain ⟨s', n', hsome', hq⟩ := hresets.only t hnot hrun
    exact ⟨s', Option.isSome_of_eq_some hsome', hq⟩

/-- The one unit goes to the boot thread at once. Another thread waits for one and is handed it,
and a reset comes last. -/
def sharing : List Move :=
  [.takeAnswer, .call (.operation (.createSemaphore 1)), .takeAnswer,
    .call (.operation (.waitSemaphore 0 .infinite)), .takeAnswer,
    .call (.spawn "worker" .normal "work"), .takeAnswer, .call (.operation .yieldTurn), .enter,
    .call (.operation (.waitSemaphore 0 (.after ⟨5, by decide, by decide⟩))), .takeAnswer,
    .interrupt (.signal 0), .takeAnswer, .call (.operation (.signal 0)), .takeAnswer,
    .call (.operation (.resetSemaphore 0 3)), .takeAnswer, .interrupt (.signal 0)]

theorem conserves_sharing : Reaches (enact sharing).1 (enact sharing).2 ∧
    JoinedOnce (enact sharing).1 ∧ (enact sharing).2.kernel.semaphores.contains 0 = true ∧
    Conserves 0 (enact sharing).1 (enact sharing).2 :=
  have hr := reaches_enact (by decide +kernel)
  have hj : JoinedOnce (enact sharing).1 := by decide +kernel
  have hin : (enact sharing).2.kernel.semaphores.contains 0 = true := by decide +kernel
  ⟨hr, hj, hin, reaches_conserves hr hj hin⟩

end RealtimeKernel.Execution

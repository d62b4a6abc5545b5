import RealtimeKernel.Proofs.Execution.Conditions
import RealtimeKernel.Proofs.Execution.Exclusion
import RealtimeKernel.Proofs.Kernel.Successions

/-!
Waiters are served in turn. The history tells who came when into a queue, and who rose in it when a
higher priority was lent to it. Whoever is woken alone has the highest priority in its queue, and
has had it there for the longest time; if all are woken, they become ready in this order.
-/
namespace RealtimeKernel.Execution
open Kernel

/-- Who comes into a queue of waiters, or rises in one. The newest come first: the running thread
goes to its place once its priority is lent. -/
def Record.arrivals (r : Record) : List ThreadId :=
  arrival r.caller (r.after.kernel.thread r.caller).queue ++
    match r.lends? with
    | some m => (r.before.kernel.beneficiaries m).reverse
    | none => []

def arrivals (h : History) : List ThreadId := h.flatMap Record.arrivals

/-- Is it this thread's turn? -/
structure First (log : List ThreadId) (k : Kernel) (q : QueueId) (t : ThreadId) : Prop where
  member : t ∈ k.members q
  precedes : ∀ u ∈ k.members q, u ≠ t → Precedes log k t u

/-- The thread whose turn it is may run again, and nobody else comes out of the queue. -/
structure ServesFirst (log : List ThreadId) (q : QueueId) (t : ThreadId) (k k' : Kernel) : Prop
    extends First log k q t where
  runnable : (k'.thread t).state.isRunnable = true
  wakeup : (k'.thread t).wakeup = .ok
  stay : ∀ u ∈ k.members q, u ≠ t → u ∈ k'.members q

/-- All come out of a queue, and line up in their order. -/
structure Dismisses (log : List ThreadId) (q : QueueId) (k k' : Kernel) : Prop where
  order : (k.members q).Pairwise (Precedes log k)
  runnable : ∀ u ∈ k.members q, (k'.thread u).state.isRunnable = true ∧
    (k'.thread u).wakeup = .reset
  lined : LinesUp (k.members q) k k'

variable {x y : Execution} {h later earlier : History} {mv : Move} {t u : ThreadId} {r : Record}
  {s : SemaphoreId} {m : MutexId} {c : CondVarId} {q : QueueId} {log : List ThreadId}

/-! What a move does to those who wait. -/

/-- A move that is about a mutex locks it, or has nobody wait for one. -/
theorem lends_of_touches (hx : x.Fit) (hallows : x.allows mv = true) (hmove : x.move mv = .ok y)
    (htouch : mv.touches x (.mutex m)) :
    (∃ frames, Record.lends? ⟨x, mv, y⟩ = some m ∧
      x.kernel.lock m = .ok (y.kernel, frames)) ∨
    Record.lends? ⟨x, mv, y⟩ = none ∧ Unlent x.kernel y.kernel := by
  have hk := hx.sound
  cases handles_of_touches hx hallows hmove htouch with
  | locks hlends _ hlock => exact Or.inl ⟨_, hlends, hlock⟩
  | tries hlends _ hin htry => exact Or.inr ⟨hlends, tryLock_unlent hin htry⟩
  | spares hlends _ hsame =>
      refine Or.inr ⟨hlends, ?_⟩
      rw [show y.kernel = x.kernel from hsame]
      exact .of_effects .refl
  | unlocks hlends _ hrelease hpreempt =>
      exact Or.inr ⟨hlends, .preempt hk (unlocking_effects hk.inPlace hrelease) hpreempt⟩
  | @waits k₁ c hlends _ hrelease hblocks =>
      refine Or.inr ⟨hlends, k₁, (· = .condVar c), ?_, .of_switch ?_, nofun⟩
      · exact unlocking_effects hk.inPlace (Or.inl hrelease)
      · exact .awaitCondition rfl hblocks

theorem touches_of_lends (hlends : Record.lends? ⟨x, mv, y⟩ = some m) :
    mv.touches x (.mutex m) := by
  unfold Record.lends? at hlends
  dsimp only at hlends
  split at hlends
  · obtain rfl := Option.some.inj hlends
    exact rfl
  · rename_i hframes
    obtain rfl := Option.some.inj hlends
    rw [touches_advance hframes]
    exact rfl
  · cases hlends

/-- A move locks a mutex, or it has nobody wait for one. -/
theorem move_lends_or (hx : x.Fit) (hallows : x.allows mv = true) (hmove : x.move mv = .ok y) :
    (∃ m frames, Record.lends? ⟨x, mv, y⟩ = some m ∧
      x.kernel.lock m = .ok (y.kernel, frames)) ∨
    Record.lends? ⟨x, mv, y⟩ = none ∧ Unlent x.kernel y.kernel := by
  by_cases htouch : ∃ m, mv.touches x (.mutex m)
  · obtain ⟨m, htouch⟩ := htouch
    exact (lends_of_touches hx hallows hmove htouch).imp_left fun h => ⟨m, h⟩
  · have hnot := not_exists.mp htouch
    refine Or.inr ⟨?_, ?_⟩
    · cases hlends : Record.lends? ⟨x, mv, y⟩ with
      | none => rfl
      | some m => exact absurd (touches_of_lends hlends) (hnot m)
    · exact .of_does (move_does hx hallows hmove) hnot

theorem move_arrives (hx : x.Fit) (hallows : x.allows mv = true) (hmove : x.move mv = .ok y) :
    Arrives (Record.arrivals ⟨x, mv, y⟩) x.kernel y.kernel := by
  unfold Record.arrivals
  rcases move_lends_or hx hallows hmove with ⟨m, frames, hlends, hlock⟩ | ⟨hlends, hunlent⟩
  · rw [hlends]
    exact lock_arrives hx.sound.inPlace hlock
  · rw [hlends, List.append_nil]
    exact hunlent.arrives hx.sound

/-- The queues stand in the order of the history. -/
theorem Reaches.fair (hr : Reaches h x) (hj : JoinedOnce h) : Fair (arrivals h) x.kernel := by
  induction hr with
  | boot hb =>
      refine (hb.induction (P := Fair []) (fun config => ?_) (fun _ _ hfair => ?_) ?_).2
      -- Nobody waits at first, and what follows up to the first move are effects.
      · have hnil : ∀ q, (solo config (bootThread config) config.quantum).members q = [] :=
          members_solo config config.quantum rfl
        refine ⟨fun q _ => ?_, fun q _ u hu => ?_⟩
        · rw [hnil]
          exact List.Pairwise.nil
        · rw [hnil] at hu
          cases hu
      · exact ⟨hfair.order, hfair.logged⟩
      · exact fun k k' hk he hfair => (he.departs hk.inPlace).fair [] hfair
  | @move h x y mv hr hallows hmove ih =>
      exact (move_arrives (hr.orderly hj.tail).fit hallows hmove).fair _ (ih hj.tail)

theorem first_of_fair {k : Kernel} (hfair : Fair log k) (hne : q ≠ .ready)
    (hhead : (k.members q).head? = some t) : First log k q t := by
  obtain ⟨l, hl⟩ := List.head?_eq_some_iff.mp hhead
  have horder := hfair.order q hne
  rw [hl, List.pairwise_cons] at horder
  refine ⟨List.mem_of_head? hhead, fun u hu hut => horder.1 u ?_⟩
  rw [hl] at hu
  exact (List.mem_cons.mp hu).resolve_left hut

/-! Units of semaphores. -/

/-- Who signals a semaphore does not wake anybody else. -/
theorem only_signals (hs : Record.signals s ⟨x, mv, y⟩ ≠ 0) :
    (∀ s', Record.resets? s' ⟨x, mv, y⟩ = none) ∧
      Record.notices ⟨x, mv, y⟩ = (fun _ => none) ∧ Record.expires? ⟨x, mv, y⟩ = none := by
  have hreset : ∀ {b}, mv.attempt? x = some (b, .reset) →
      signalsOf (x.kernel.mailbox b) s (Record.delivery b ⟨x, mv, y⟩) = 0 := by
    intro b ha
    rw [delivery_of_attempt y ha]
    rfl
  cases mv with
  | call c =>
      cases c with
      | operation c =>
          cases c with
          | resetMailbox b => exact absurd (hreset rfl) hs
          | _ => first | exact absurd rfl hs | exact ⟨fun _ => rfl, rfl, rfl⟩
      | _ => exact absurd rfl hs
  | interrupt c =>
      cases c with
      | resetMailbox b => exact absurd (hreset rfl) hs
      | _ => first | exact absurd rfl hs | exact ⟨fun _ => rfl, rfl, rfl⟩
  | advance =>
      refine ⟨fun _ => rfl, rfl, ?_⟩
      unfold Record.expires?
      dsimp only
      split
      · rename_i hframes
        unfold Record.signals at hs
        dsimp only at hs
        rw [attempt_advance hframes] at hs
        exact absurd rfl hs
      · rfl
  | _ => exact absurd rfl hs

theorem wakes_of_signals (hx : x.Fit) (hs : Record.signals s ⟨x, mv, y⟩ ≠ 0)
    (hu : u ∈ x.kernel.members (.semaphore s)) :
    Record.wakes? ⟨x, mv, y⟩ u =
      if (x.kernel.members (.semaphore s)).head? = some u then some .ok else none := by
  obtain ⟨hresets, hnotices, hexpires⟩ := only_signals hs
  rw [wakes_eq_signalled hresets hnotices hexpires, signalled,
    (hx.sound.inPlace.mem_iff u _).mp hu]
  simp [hs]

theorem serves_of_signals (hx : x.Fit) (hy : y.kernel.InPlace) (hq : x.kernel.timers.Sound)
    (hfair : Fair log x.kernel) (hallows : x.allows mv = true) (hmove : x.move mv = .ok y)
    (hs : Record.signals s ⟨x, mv, y⟩ ≠ 0) (waited : x.kernel.members (.semaphore s) ≠ []) :
    ∃ t, ServesFirst log (.semaphore s) t x.kernel y.kernel := by
  have hk := hx.sound.inPlace
  obtain ⟨t, hhead⟩ : ∃ t, (x.kernel.members (.semaphore s)).head? = some t :=
    ⟨_, List.head?_eq_some_head waited⟩
  -- Nobody but the first waiter is woken, so the others stand where they stood.
  have hstands := fun u (hu : u ∈ x.kernel.members (.semaphore s)) =>
    move_stands hx hq hallows hmove
      (hk.isTimed_of_queue (Or.inl ⟨s, (hk.mem_iff u _).mp hu⟩))
  have hwakes := fun u (hu : u ∈ x.kernel.members (.semaphore s)) =>
    wakes_of_signals (y := y) hx hs hu
  have ht := List.mem_of_head? hhead
  have htwakes := hwakes t ht
  rw [if_pos hhead] at htwakes
  rcases hstands t ht with ⟨hnone, -⟩ | ⟨w, hw, hrun, hwakeup⟩
  · rw [hnone] at htwakes
    cases htwakes
  · obtain rfl := Option.some.inj (htwakes.symm.trans hw)
    refine ⟨t, first_of_fair hfair nofun hhead, hrun, hwakeup, fun u hu hut => ?_⟩
    have hnot := hwakes u hu
    rw [hhead, if_neg fun heq => hut (Option.some.inj heq).symm] at hnot
    rcases hstands u hu with ⟨-, hsame⟩ | ⟨w', hw', -⟩
    · rw [hy.mem_iff, hsame.queue]
      exact (hk.mem_iff u _).mp hu
    · rw [hnot] at hw'
      cases hw'

/-! Mutexes and condition variables. -/

/-- A mutex that is waited for changes hands only to the thread whose turn it is. -/
theorem serves_of_owner (hx : x.Fit) (hy : y.kernel.InPlace) (hfair : Fair log x.kernel)
    (hallows : x.allows mv = true) (hmove : x.move mv = .ok y)
    (waited : x.kernel.members (.mutex m) ≠ [])
    (hnew : y.kernel.owner? m ≠ x.kernel.owner? m) :
    ∃ t, ServesFirst log (.mutex m) t x.kernel y.kernel ∧ y.kernel.owner? m = some t := by
  have hk := hx.sound.inPlace
  have hdoes := move_does hx hallows hmove
  obtain ⟨t, htakes⟩ := (hdoes.takesOver hx.sound waited).resolve_left hnew
  have hfirst : First log x.kernel (.mutex m) t := first_of_fair hfair nofun htakes.first
  refine ⟨t, ⟨hfirst, htakes.runnable, htakes.wakeup, ?_⟩, htakes.owner⟩
  intro u hu hut
  have hqueue := (hk.mem_iff u _).mp hu
  have hne : u ≠ x.kernel.current := hk.not_runs hqueue
  -- Who contends for the mutex goes on doing so. There is one new owner, so the others wait.
  rcases (hdoes.contends_iff hx.sound hne).mpr (Or.inl hqueue) with hstays | howner
  · exact (hy.mem_iff u _).mpr hstays
  · exact absurd (Option.some.inj (howner.symm.trans htakes.owner)) hut

theorem touches_of_unlocks (hunlocks : Record.unlocks ⟨x, mv, y⟩ m = true) :
    mv.touches x (.mutex m) := by
  unfold Record.unlocks at hunlocks
  dsimp only at hunlocks
  split at hunlocks
  · exact congrArg Object.mutex (of_decide_eq_true hunlocks).symm
  · exact ⟨m, rfl⟩
  · have hm := of_decide_eq_true (Bool.and_eq_true_iff.mp hunlocks).1
    exact Or.inr (congrArg Object.mutex hm.symm)
  · cases hunlocks

/-- Who unlocks a mutex does not own it any more. -/
theorem owner_of_unlocks (hx : x.Fit) (hallows : x.allows mv = true) (hmove : x.move mv = .ok y)
    (hunlocks : Record.unlocks ⟨x, mv, y⟩ m = true) :
    y.kernel.owner? m ≠ some x.kernel.current := by
  have hk := hx.sound
  cases handles_of_touches hx hallows hmove (touches_of_unlocks hunlocks) with
  | locks _ hnot _ => exact absurd hunlocks (Bool.eq_false_iff.mp hnot)
  | tries _ hnot _ _ => exact absurd hunlocks (Bool.eq_false_iff.mp hnot)
  | spares _ hnot _ => exact absurd hunlocks (Bool.eq_false_iff.mp hnot)
  | unlocks _ _ hrelease hpreempt =>
      have hk₁ := (effects_depart (unlocking_effects hk.inPlace hrelease) hk).1
      rw [preempt_owner hk₁.inPlace hpreempt]
      exact hrelease.elim (release_owner hk.inPlace) (releaseAll_owner hk)
  | @waits k₁ c _ _ hrelease hblocks =>
      have hswitch : Switch (fun _ => True) k₁ y.kernel := .awaitCondition trivial hblocks
      rw [owner?_eq hswitch.mutexes]
      exact release_owner hk.inPlace hrelease

/-- Who unlocks a mutex that is waited for gives it to the thread whose turn it is. -/
theorem serves_of_unlocks (hx : x.Fit) (hy : y.kernel.InPlace) (hfair : Fair log x.kernel)
    (hallows : x.allows mv = true) (hmove : x.move mv = .ok y)
    (hunlocks : Record.unlocks ⟨x, mv, y⟩ m = true)
    (howner : x.kernel.owner? m = some x.kernel.current)
    (waited : x.kernel.members (.mutex m) ≠ []) :
    ∃ t, ServesFirst log (.mutex m) t x.kernel y.kernel ∧ y.kernel.owner? m = some t := by
  refine serves_of_owner hx hy hfair hallows hmove waited ?_
  rw [howner]
  exact owner_of_unlocks hx hallows hmove hunlocks

theorem serves_of_notice (hx : x.Fit) (hfair : Fair log x.kernel) (hmove : x.move mv = .ok y)
    (hs : mv.signals? = some c) (waited : x.kernel.members (.condVar c) ≠ []) :
    ∃ t, ServesFirst log (.condVar c) t x.kernel y.kernel := by
  obtain ⟨hreleases, -⟩ := releases_of_signals hx hmove hs
  obtain ⟨t, l, hl⟩ := List.exists_cons_of_ne_nil waited
  rw [hl] at hreleases
  have hhead : (x.kernel.members (.condVar c)).head? = some t := by
    rw [hl]
    rfl
  obtain ⟨hrun, hwakeup⟩ := hreleases.runnable t List.mem_cons_self
  refine ⟨t, first_of_fair hfair nofun hhead, hrun, hwakeup, fun u hu hut => ?_⟩
  rw [hl] at hu
  rw [hreleases.after]
  exact (List.mem_cons.mp hu).resolve_left hut

/-! All waiters at once. -/

/-- The waiters at both semaphores of a mailbox. -/
theorem resetMailbox_linesUp {k k₁ k' : Kernel} {n : Nat} {b : MailboxId} (hk : k.Sound)
    (hin : k.mailboxes.contains b = true) (hreset : k.resetMailbox b = .ok k₁)
    (hs : (k.mailbox b).resetsTo s = some n) (hlast : k' = k₁ ∨ k₁.preempt = .ok k') :
    LinesUp (k.members (.semaphore s)) k k' := by
  refine linesUp_of_effects hk (resetMailbox_effects hk (fun _ _ => trivial) hreset) hlast ?_
  intro p
  rw [resetMailbox_readyAt hk hin hreset]
  rcases Mailbox.resetsTo_ok hs with ⟨rfl, -⟩ | ⟨rfl, -⟩
  · exact (List.sublist_append_left _ _).append_left _
  · exact (List.sublist_append_right _ _).append_left _

theorem dismisses_of_resets {n : Nat} (hx : x.Fit) (hfair : Fair log x.kernel)
    (hallows : x.allows mv = true) (hmove : x.move mv = .ok y)
    (hr : Record.resets? s ⟨x, mv, y⟩ = some n) :
    Dismisses log (.semaphore s) x.kernel y.kernel := by
  have hk := hx.sound
  have hresets := move_resets hx hallows hmove hr
  refine ⟨hfair.order _ nofun, fun u hu => ?_, ?_⟩
  · exact hresets.woken u s n hr ((hk.inPlace.mem_iff u _).mp hu)
  -- A thread that resets a semaphore may have to give way; a callback goes on.
  unfold Record.resets? at hr
  dsimp only at hr
  split at hr
  · split at hr
    · rename_i s' n' hs
      subst hs
      have hstep := operation_left (r := ⟨x, _, y⟩) rfl hallows hmove
      obtain ⟨k₁, hreset, hfinish⟩ := bind_eq_ok.mp hstep
      exact resetSemaphore_linesUp hk hreset (Or.inr (finish_ok hfinish))
    · cases hr
  · split at hr
    · rename_i s' n' hs
      subst hs
      obtain ⟨frames, hstep, -⟩ := interrupt_step hmove
      obtain ⟨k₁, hreset, hstep⟩ := bind_eq_ok.mp hstep
      exact resetSemaphore_linesUp hk hreset (Or.inl (Prod.mk.inj (Except.ok.inj hstep)).1.symm)
    · cases hr
  · have hin := (allows_call hallows).2
    have hstep := operation_left (r := ⟨x, _, y⟩) rfl hallows hmove
    obtain ⟨k₁, hreset, hfinish⟩ := bind_eq_ok.mp hstep
    exact resetMailbox_linesUp hk hin hreset hr (Or.inr (finish_ok hfinish))
  · rename_i b
    have hin := (allows_interrupt hallows).2
    obtain ⟨frames, hstep, -⟩ := interrupt_step hmove
    obtain ⟨k₁, hreset, hstep⟩ := bind_eq_ok.mp hstep
    exact resetMailbox_linesUp hk hin hreset hr
      (Or.inl (Prod.mk.inj (Except.ok.inj hstep)).1.symm)
  · cases hr

theorem dismisses_of_broadcast (hx : x.Fit) (hfair : Fair log x.kernel)
    (hallows : x.allows mv = true) (hmove : x.move mv = .ok y)
    (hb : mv.broadcasts? = some c) : Dismisses log (.condVar c) x.kernel y.kernel := by
  have hk := hx.sound
  refine ⟨hfair.order _ nofun, (releases_of_broadcasts hx hmove hb).runnable, ?_⟩
  rcases Move.broadcasts_inv hb with rfl | rfl
  · have hstep := operation_left (r := ⟨x, _, y⟩) rfl hallows hmove
    obtain ⟨k₁, hcast, hfinish⟩ := bind_eq_ok.mp hstep
    exact broadcast_linesUp hk hcast (Or.inr (finish_ok hfinish))
  · obtain ⟨frames, hstep, -⟩ := interrupt_step hmove
    obtain ⟨k₁, hcast, hstep⟩ := bind_eq_ok.mp hstep
    exact broadcast_linesUp hk hcast (Or.inl (Prod.mk.inj (Except.ok.inj hstep)).1.symm)

/-! All histories. -/

/-- Who became ready with a move stands behind its equals. -/
theorem move_behind (hx : x.Fit) (hy : y.kernel.InPlace) (hallows : x.allows mv = true)
    (hmove : x.move mv = .ok y) (before : t ∉ x.kernel.members .ready)
    (ready : t ∈ y.kernel.members .ready) (ht : t ≠ x.kernel.current)
    (hu : u ∈ x.kernel.members .ready) (same : x.kernel.priorityOf u = y.kernel.priorityOf t)
    (stays : u ∈ y.kernel.members .ready) : [u, t].Sublist (y.kernel.members .ready) := by
  rcases move_lends_or hx hallows hmove with ⟨m, frames, -, hlock⟩ | ⟨-, hunlent⟩
  · exact absurd ((lock_ready hx.sound.inPlace hlock).1 t ready) before
  · exact (hunlent.fallsIn hx.sound).behind hy before ready ht hu same stays

/-- Waiters are served in turn. -/
structure InTurn (h : History) (x : Execution) : Prop where
  fair : Fair (arrivals h) x.kernel
  /-- Those arrive who were not in the queue before, or had another priority there. -/
  arrives : ∀ r ∈ h, ∀ q, q ≠ .ready → ∀ u ∈ r.after.kernel.members q, u ∈ r.arrivals ↔
    u ∉ r.before.kernel.members q ∨ r.after.kernel.priorityOf u ≠ r.before.kernel.priorityOf u
  /-- A signal, or a message that is stored or fetched, hands on a unit. -/
  signals : ∀ later r earlier s, h = later ++ r :: earlier → r.signals s ≠ 0 →
    r.before.kernel.members (.semaphore s) ≠ [] →
      ∃ t, ServesFirst (arrivals earlier) (.semaphore s) t r.before.kernel r.after.kernel
  unlocks : ∀ later r earlier m, h = later ++ r :: earlier → r.unlocks m = true →
    r.before.kernel.owner? m = some r.caller → r.before.kernel.members (.mutex m) ≠ [] →
      ∃ t, ServesFirst (arrivals earlier) (.mutex m) t r.before.kernel r.after.kernel ∧
        r.after.kernel.owner? m = some t
  /-- In no other way does a mutex change hands while it is waited for. -/
  handOvers : ∀ later r earlier m, h = later ++ r :: earlier →
    r.after.kernel.owner? m ≠ r.before.kernel.owner? m →
    r.before.kernel.members (.mutex m) ≠ [] →
      ∃ t, ServesFirst (arrivals earlier) (.mutex m) t r.before.kernel r.after.kernel ∧
        r.after.kernel.owner? m = some t
  notices : ∀ later r earlier c, h = later ++ r :: earlier → r.move.signals? = some c →
    r.before.kernel.members (.condVar c) ≠ [] →
      ∃ t, ServesFirst (arrivals earlier) (.condVar c) t r.before.kernel r.after.kernel
  resets : ∀ later r earlier s n, h = later ++ r :: earlier → r.resets? s = some n →
    Dismisses (arrivals earlier) (.semaphore s) r.before.kernel r.after.kernel
  broadcasts : ∀ later r earlier c, h = later ++ r :: earlier → r.move.broadcasts? = some c →
    Dismisses (arrivals earlier) (.condVar c) r.before.kernel r.after.kernel
  /-- Whoever becomes ready comes behind its equals that are ready. -/
  behind : ∀ r ∈ h, ∀ t u, t ≠ r.caller → t ∉ r.before.kernel.members .ready →
    t ∈ r.after.kernel.members .ready → u ∈ r.before.kernel.members .ready →
    u ∈ r.after.kernel.members .ready →
    r.before.kernel.priorityOf u = r.after.kernel.priorityOf t →
      [u, t].Sublist (r.after.kernel.members .ready)

/-- A record, and what is known of the execution before it. -/
theorem Reaches.at_record (hr : Reaches (later ++ r :: earlier) x)
    (hj : JoinedOnce (later ++ r :: earlier)) : r.before.Fit ∧ r.after.kernel.InPlace ∧
      r.before.kernel.timers.Sound ∧ Fair (arrivals earlier) r.before.kernel ∧
      r.before.allows r.move = true ∧ r.before.move r.move = .ok r.after := by
  obtain ⟨y, hy⟩ := hr.earlier
  have hj := hj.earlier
  obtain ⟨hbefore, hallows, hmove, rfl⟩ := hy.uncons
  exact ⟨(hbefore.orderly hj.tail).fit, (hy.orderly hj).sound.inPlace, hbefore.in_time,
    hbefore.fair hj.tail, hallows, hmove⟩

theorem move_arrivals_iff (hx : x.Fit) (hallows : x.allows mv = true) (hmove : x.move mv = .ok y)
    (hne : q ≠ .ready) (hu : u ∈ y.kernel.members q) : u ∈ Record.arrivals ⟨x, mv, y⟩ ↔
      u ∉ x.kernel.members q ∨ y.kernel.priorityOf u ≠ x.kernel.priorityOf u := by
  have harrives := move_arrives hx hallows hmove
  have hk := hx.sound.inPlace
  constructor
  · intro hmem
    refine (harrives.new q hne u hu hmem).imp ?_ fun hlt heq => ?_
    · exact fun hcurrent hbefore => hk.not_runs_of_mem hbefore hcurrent
    · rw [heq] at hlt
      exact Nat.lt_irrefl _ hlt
  · intro hnew
    by_contra hnot
    obtain ⟨hbefore, hsame⟩ := harrives.old q hne u hu hnot
    rcases hnew with hout | hprio
    · exact hout hbefore
    · exact hprio hsame

theorem reaches_inTurn (hr : Reaches h x) (hj : JoinedOnce h) : InTurn h x := by
  refine ⟨hr.fair hj, ?_, ?_, ?_, ?_, ?_, ?_, ?_, ?_⟩
  · intro r hmem q hne u hu
    obtain ⟨h', hbefore, -, hallows, hmove⟩ := hr.orderly_of_mem hj hmem
    exact move_arrivals_iff hbefore.fit hallows hmove hne hu
  · rintro later r earlier s rfl hs hwaited
    obtain ⟨hx, hy, htimers, hfair, hallows, hmove⟩ := hr.at_record hj
    exact serves_of_signals hx hy htimers hfair hallows hmove hs hwaited
  · rintro later r earlier m rfl hunlocks howner hwaited
    obtain ⟨hx, hy, -, hfair, hallows, hmove⟩ := hr.at_record hj
    exact serves_of_unlocks hx hy hfair hallows hmove hunlocks howner hwaited
  · rintro later r earlier m rfl hnew hwaited
    obtain ⟨hx, hy, -, hfair, hallows, hmove⟩ := hr.at_record hj
    exact serves_of_owner hx hy hfair hallows hmove hwaited hnew
  · rintro later r earlier c rfl hs hwaited
    obtain ⟨hx, -, -, hfair, -, hmove⟩ := hr.at_record hj
    exact serves_of_notice hx hfair hmove hs hwaited
  · rintro later r earlier s n rfl hreset
    obtain ⟨hx, -, -, hfair, hallows, hmove⟩ := hr.at_record hj
    exact dismisses_of_resets hx hfair hallows hmove hreset
  · rintro later r earlier c rfl hb
    obtain ⟨hx, -, -, hfair, hallows, hmove⟩ := hr.at_record hj
    exact dismisses_of_broadcast hx hfair hallows hmove hb
  · intro r hmem t u ht hbefore hready hu hstays hsame
    obtain ⟨h', horderly, hafter, hallows, hmove⟩ := hr.orderly_of_mem hj hmem
    exact move_behind horderly.fit hafter.sound.inPlace hallows hmove hbefore hready ht hu hsame
      hstays

/-- Three threads wait for a unit. The first one has a lower priority than the second, until it is
lent the same by a fourth thread that waits for its mutex; the third one comes after that. The
second one gets a unit and ends, and then the semaphore is reset. -/
def queueing : List Move :=
  [.takeAnswer, .call (.operation .createMutex), .takeAnswer,
    .call (.operation (.createSemaphore 0)), .takeAnswer,
    .call (.spawn "owner" (.raised .normal 8) "hold"), .enter, .call (.operation (.lock 0)),
    .takeAnswer, .call (.operation (.waitSemaphore 0 .infinite)), .takeAnswer,
    .call (.spawn "equal" (.raised .normal 16) "wait"), .enter,
    .call (.operation (.waitSemaphore 0 .infinite)), .takeAnswer,
    .call (.spawn "lender" (.raised .normal 16) "lock"), .enter, .call (.operation (.lock 0)),
    .takeAnswer, .call (.spawn "late" (.raised .normal 16) "wait"), .enter,
    .call (.operation (.waitSemaphore 0 .infinite)), .takeAnswer,
    .call (.operation (.signal 0)), .advance, .takeAnswer, .call (.exit 0), .takeAnswer,
    .call (.operation (.resetSemaphore 0 0))]

theorem inTurn_queueing : Reaches (enact queueing).1 (enact queueing).2 ∧
    JoinedOnce (enact queueing).1 ∧ arrivals (enact queueing).1 = [5, 4, 2, 3, 2] ∧
    (enact queueing).2.kernel.current = 2 ∧
    (enact queueing).2.kernel.members .ready = [5, mainThread, 1] ∧
    InTurn (enact queueing).1 (enact queueing).2 :=
  have hr := reaches_enact (by decide +kernel)
  have hj : JoinedOnce (enact queueing).1 := by decide +kernel
  ⟨hr, hj, by decide +kernel, by decide +kernel, by decide +kernel, reaches_inTurn hr hj⟩

end RealtimeKernel.Execution

import RealtimeKernel.Proofs.Execution.Moves

/-!
Executions from the time that the kernel was brought up. A history keeps every move with the
executions before and after it, so what happened can be read off it.
-/
namespace RealtimeKernel.Execution
open Kernel

/-- A kernel that was never brought up. -/
def fresh (config : Config) (platform : Platform) : Execution := { kernel := { config }, platform }

/-- A fresh kernel was just brought up. -/
def Booted (x : Execution) : Prop :=
  ∃ config platform, (fresh config platform).call .boot = .ok x ∧
    x.frames = [.answer (.thread (.ok mainThread))]

structure Record where
  before : Execution
  move : Move
  after : Execution

/-- What the thread whose move it was has left to do. -/
def Record.left (r : Record) : List Frame := r.after.framesOf r.before.kernel.current

/-- The newest record comes first. -/
abbrev History := List Record

/-- The executions that application code may bring about on some platform. -/
inductive Reaches : History → Execution → Prop
  | boot {x : Execution} : Booted x → Reaches [] x
  | move {h : History} {x y : Execution} {m : Move} :
    Reaches h x → x.allows m = true → x.move m = .ok y → Reaches (⟨x, m, y⟩ :: h) y

/-- Threads that a slot got so far. -/
def births (t : ThreadId) (h : History) : Nat :=
  h.countP fun r => !(r.before.kernel.thread t).isActive && (r.after.kernel.thread t).isActive

/-- The threads that were joined: each by its slot and its number in it. -/
def joins : History → List (ThreadId × Nat)
  | [] => []
  | r :: h =>
    match r.move with
    | .call (.operation (.join t)) => (t, births t h) :: joins h
    | _ => joins h

/-- No thread was joined twice. -/
def JoinedOnce (h : History) : Prop := (joins h).Nodup

variable {x y : Execution} {h : History} {m : Move} {t u : ThreadId} {r : Record}

/-- A run with one more move at its end. -/
theorem Run.snoc {ms : List Move} {z : Execution} (h : Run x ms y) (hallows : y.allows m = true)
    (hmove : y.move m = .ok z) : Run x (ms ++ [m]) z := by
  induction h with
  | nil x => exact .cons hallows hmove (.nil z)
  | cons hallows' hmove' _ ih => exact .cons hallows' hmove' (ih hallows hmove)

/-- What a thread that called an operation has left to do is what the operation left. -/
theorem operation_left {c : Operation} (hm : r.move = .call (.operation c))
    (hallows : r.before.allows r.move = true) (hmove : r.before.move r.move = .ok r.after) :
    c.run r.before.kernel = .ok (r.after.kernel, r.left) := by
  rw [hm] at hallows hmove
  obtain ⟨frames, hstep, hleft⟩ := operation_step hmove
  rw [Record.left, hleft, (allows_call hallows).1, List.append_nil]
  exact hstep

/-- A history is one move longer than that of the execution before its newest one. -/
theorem Reaches.uncons (hr : Reaches (r :: h) x) : Reaches h r.before ∧
    r.before.allows r.move = true ∧ r.before.move r.move = .ok r.after ∧ r.after = x := by
  cases hr with
  | move hr hallows hmove => exact ⟨hr, hallows, hmove, rfl⟩

theorem Reaches.earlier {later : History} (hr : Reaches (later ++ h) x) : ∃ y, Reaches h y := by
  induction later generalizing x with
  | nil => exact ⟨x, hr⟩
  | cons r later ih => exact ih hr.uncons.1

theorem births_cons_of_active (h : History)
    (hactive : (r.before.kernel.thread t).state ≠ .inactive) :
    births t (r :: h) = births t h := by
  have hnew : (r.before.kernel.thread t).isActive = true := by simpa [Thread.isActive] using hactive
  rw [births, List.countP_cons_of_neg]
  · rfl
  · simp [hnew]

theorem joins_cons (r : Record) (h : History) :
    joins (r :: h) = joins h ∨ ∃ t, r.move = .call (.operation (.join t)) ∧
      joins (r :: h) = (t, births t h) :: joins h := by
  simp only [joins]
  split
  · rename_i t hm
    exact Or.inr ⟨t, hm, rfl⟩
  · exact Or.inl rfl

theorem mem_joins_cons {c : ThreadId × Nat} (hc : c ∈ joins h) : c ∈ joins (r :: h) := by
  rcases joins_cons r h with hsame | ⟨t, -, hnew⟩
  · rw [hsame]
    exact hc
  · rw [hnew]
    exact List.mem_cons_of_mem _ hc

theorem JoinedOnce.tail (hj : JoinedOnce (r :: h)) : JoinedOnce h := by
  unfold JoinedOnce at hj ⊢
  rcases joins_cons r h with hsame | ⟨t, -, hnew⟩
  · rw [← hsame]
    exact hj
  · rw [hnew] at hj
    exact (List.nodup_cons.mp hj).2

theorem JoinedOnce.earlier {later : History} (hj : JoinedOnce (later ++ h)) : JoinedOnce h := by
  induction later with
  | nil => exact hj
  | cons r later ih => exact ih hj.tail

theorem joins_join (hm : m = .call (.operation (.join t))) :
    joins (⟨x, m, y⟩ :: h) = (t, births t h) :: joins h := by
  subst hm
  rfl

theorem JoinedOnce.not_mem (hj : JoinedOnce (⟨x, m, y⟩ :: h))
    (hm : m = .call (.operation (.join t))) : (t, births t h) ∉ joins h := by
  rw [JoinedOnce, joins_join hm] at hj
  exact (List.nodup_cons.mp hj).1

/-- A thread is about to collect another one: it waits for its end, or the other one has ended. -/
structure Collects (h : History) (x : Execution) (u t : ThreadId) : Prop where
  alone : x.framesOf u = [.collect t]
  alive : (x.kernel.thread u).state.isGone = false
  target : (x.kernel.thread u).queue = some (.exit t) ∧ (x.kernel.thread t).state.isGone = false ∨
    (x.kernel.thread t).state = .final
  claimed : (t, births t h) ∈ joins h

/-- The kernel is sound, what threads need is there, and no two of them collect the same one. -/
structure Orderly (h : History) (x : Execution) : Prop where
  sound : x.kernel.Sound
  initialized : x.kernel.initialized = true
  exist : ∀ u, ∀ f ∈ x.framesOf u, ∀ o, f.Concerns o → o.Exists x.kernel
  collects : ∀ u t, .collect t ∈ x.framesOf u → Collects h x u t
  unique : ∀ u u' t, .collect t ∈ x.framesOf u → .collect t ∈ x.framesOf u' → u = u'

theorem Collects.active (hc : Collects h x u t) : (x.kernel.thread t).state ≠ .inactive := by
  intro hs
  rcases hc.target with ⟨-, halive⟩ | hfinal
  · rw [hs] at halive
    cases halive
  · rw [hs] at hfinal
    cases hfinal

theorem Orderly.fit (hx : Orderly h x) : x.Fit := by
  refine ⟨hx.sound, hx.initialized, hx.exist, fun u t hmem => (hx.collects u t hmem).alone, ?_⟩
  intro t hmem
  rcases (hx.collects x.kernel.current t hmem).target with ⟨hq, -⟩ | hfinal
  · exact absurd rfl (hx.sound.inPlace.not_runs hq)
  · exact hfinal

theorem exists_mono {k k' : Kernel} {o : Object} (ho : o.Exists k)
    (hg : Grows k k') : o.Exists k' := by
  cases o with
  | semaphore s => exact hg.semaphores s ho
  | mutex m => exact hg.mutexes m ho
  | condVar c => exact hg.condVars c ho
  | thread t => trivial
  | mailbox b => exact hg.mailboxes b ho
  | ownerBase | suspended | time => trivial

/-- Whom a move may collect or end: not a thread that another one is about to collect. -/
theorem Orderly.untouched (hx : Orderly h x) (hj : JoinedOnce (⟨x, m, y⟩ :: h))
    (hc : .collect t ∈ x.framesOf u) (hu : u ≠ x.kernel.current)
    (hfinal : (x.kernel.thread t).state = .final) : ¬ m.touches x (.thread t) := by
  have hrun := hx.sound.inPlace.state_current
  have hcollects := hx.collects u t hc
  intro ht
  cases m with
  | call c =>
      cases c with
      | boot => exact ht
      | spawn name p r =>
          obtain ⟨t', heq, hs⟩ := ht
          obtain rfl := Object.thread.inj heq
          exact hcollects.active hs
      | exit msg =>
          rw [Object.thread.inj ht, hrun] at hfinal
          cases hfinal
      | operation c =>
          obtain rfl := Operation.touches_thread ht
          exact hj.not_mem rfl hcollects.claimed
  | interrupt c => exact InterruptCall.not_touches_thread ht
  | advance =>
      obtain ⟨f, rest, hframes, ht⟩ := ht
      cases f with
      | start =>
          rw [Object.thread.inj ht, hrun] at hfinal
          cases hfinal
      | collect t' =>
          obtain rfl := Object.thread.inj ht
          refine hu (hx.unique u x.kernel.current t hc ?_)
          change _ ∈ x.frames
          rw [hframes]
          exact List.mem_cons_self
      | _ => simp [Frame.touches, BoxParts] at ht
  | _ => exact ht

/-- Who was about to collect a thread before another one's move still is. -/
theorem Orderly.collects_of_other (hx : Orderly h x) (hj : JoinedOnce (⟨x, m, y⟩ :: h))
    (hd : Does (m.touches x) x.kernel y.kernel) (hc : .collect t ∈ x.framesOf u)
    (hu : u ≠ x.kernel.current) (hsame : y.framesOf u = x.framesOf u) :
    Collects (⟨x, m, y⟩ :: h) y u t := by
  have haffects := hd.affects hx.sound
  have hcollects := hx.collects u t hc
  refine ⟨hsame.trans hcollects.alone, ?_, ?_, ?_⟩
  · rcases haffects.alive u hcollects.alive with halive | ⟨hcur, -⟩
    · exact halive
    · exact absurd hcur hu
  · rcases hcollects.target with ⟨hq, halive⟩ | hfinal
    · rcases haffects.waits u t hq with hq' | hfinal
      · rcases haffects.alive t halive with halive' | ⟨-, -, hfinal⟩
        · exact Or.inl ⟨hq', halive'⟩
        · exact Or.inr hfinal
      · exact Or.inr hfinal
    · exact Or.inr (haffects.final t (hx.untouched hj hc hu hfinal) hfinal).1
  · rw [births_cons_of_active h hcollects.active]
    exact mem_joins_cons hcollects.claimed

theorem Orderly.collects_of_claimed (hx : Orderly h x) {frames rest : List Frame}
    (hd : Does (m.touches x) x.kernel y.kernel) (hc : Claimed m frames rest x y t)
    (hframes : y.framesOf x.kernel.current = frames ++ rest) :
    Collects (⟨x, m, y⟩ :: h) y x.kernel.current t := by
  have haffects := hd.affects hx.sound
  have hy := (hd.sound hx.sound).inPlace
  refine ⟨hframes.trans hc.frames, ?_, ?_, ?_⟩
  · have hblocked := hy.isBlocked_of_queue hc.queue nofun
    exact Bool.eq_false_of_not_eq_true (not_isGone_of_isBlocked hblocked)
  · rcases haffects.alive t hc.alive with halive | ⟨-, -, hfinal⟩
    · exact Or.inl ⟨hc.queue, halive⟩
    · exact Or.inr hfinal
  · rw [births_cons_of_active h, joins_join hc.move]
    · exact List.mem_cons_self
    · intro hs
      have halive := hc.alive
      rw [hs] at halive
      cases halive

/-- A frame that collects a thread is an old one of another thread, or the new one of a join. -/
theorem collects_from {frames rest : List Frame} (hg : MoveGoes m frames rest x y)
    (hmem : .collect t ∈ y.framesOf u) :
    (u ≠ x.kernel.current ∧ y.framesOf u = x.framesOf u) ∨
      u = x.kernel.current ∧ Claimed m frames rest x y t := by
  by_cases hu : u = x.kernel.current
  · rw [hu, hg.mine, List.mem_append] at hmem
    exact Or.inr ⟨hu, hg.claimed t (hmem.resolve_right (hg.not_rest t))⟩
  · rcases hg.others u hu with hsame | ⟨-, hstart⟩
    · exact Or.inl ⟨hu, hsame⟩
    · rw [hstart] at hmem
      cases List.mem_singleton.mp hmem

theorem Orderly.step (hx : Orderly h x) (hj : JoinedOnce (⟨x, m, y⟩ :: h))
    {frames rest : List Frame} (hg : MoveGoes m frames rest x y) :
    Orderly (⟨x, m, y⟩ :: h) y := by
  have hgrows := hg.works.does.grows hx.sound
  refine ⟨hg.works.does.sound hx.sound, hgrows.initialized.trans hx.initialized, ?_, ?_, ?_⟩
  · intro u f hf o ho
    by_cases hu : u = x.kernel.current
    · rw [hu, hg.mine, List.mem_append] at hf
      rcases hf with hf | hf
      · exact (hg.works.frames f hf o ho).2
      · exact exists_mono (hx.exist x.kernel.current f (hg.rest_subset f hf) o ho) hgrows
    · rcases hg.others u hu with hsame | ⟨-, hstart⟩
      · rw [hsame] at hf
        exact exists_mono (hx.exist u f hf o ho) hgrows
      · rw [hstart] at hf
        rw [List.mem_singleton.mp hf] at ho
        cases ho
  · intro u t hmem
    rcases collects_from hg hmem with ⟨hu, hsame⟩ | ⟨rfl, hclaimed⟩
    · rw [hsame] at hmem
      exact hx.collects_of_other hj hg.works.does hmem hu hsame
    · exact hx.collects_of_claimed hg.works.does hclaimed hg.mine
  · have hold : ∀ u t, .collect t ∈ y.framesOf u → y.framesOf u = x.framesOf u →
        ¬ Claimed m frames rest x y t := by
      intro u t hmem hsame hclaimed
      rw [hsame] at hmem
      exact hj.not_mem hclaimed.move (hx.collects u t hmem).claimed
    intro u u' t hmem hmem'
    rcases collects_from hg hmem with ⟨-, hsame⟩ | ⟨hu, hclaimed⟩
    · rcases collects_from hg hmem' with ⟨-, hsame'⟩ | ⟨hu', hclaimed⟩
      · rw [hsame] at hmem
        rw [hsame'] at hmem'
        exact hx.unique u u' t hmem hmem'
      · exact absurd hclaimed (hold u t hmem hsame)
    · rcases collects_from hg hmem' with ⟨-, hsame'⟩ | ⟨hu', -⟩
      · exact absurd hclaimed (hold u' t hmem' hsame')
      · exact hu.trans hu'.symm

/-- Collecting the log changes nothing else. -/
theorem Orderly.withoutLog (hx : Orderly h x) : Orderly (⟨x, .collectLog, x.withoutLog⟩ :: h)
    x.withoutLog := by
  have heffect : Effect (fun _ => False) x.kernel x.withoutLog.kernel :=
    .quiet _ [] (Nat.le_refl _)
  refine ⟨heffect.sound hx.sound, hx.initialized, ?_, ?_, hx.unique⟩
  · exact fun u f hf o ho => exists_mono (hx.exist u f hf o ho) heffect.grows
  · intro u t hmem
    have hcollects := hx.collects u t hmem
    refine ⟨hcollects.alone, hcollects.alive, hcollects.target, ?_⟩
    rw [births_cons_of_active h hcollects.active]
    exact mem_joins_cons hcollects.claimed

/-! Bringing the kernel up. -/

theorem fresh_thread (config : Config) (initialized : Bool) (t : ThreadId) :
    ({ config, initialized } : Kernel).thread t = {} := get_replicate _ _

theorem fresh_arranged (config : Config) (initialized : Bool) :
    ({ config, initialized } : Kernel).Arranged fun _ => False := by
  have hthread := fresh_thread config initialized
  have hmembers : ({ config, initialized } : Kernel).members = fun _ => [] :=
    Queues.hold_empty.members_eq
  refine ⟨linked_of_blank rfl fun t => by rw [hthread], ?_, ?_, ?_, ?_⟩
  · intro q
    rw [hmembers]
    exact List.Pairwise.nil
  · intro t
    rw [hthread]
    rfl
  · intro t
    rw [hthread]
    exact iff_of_false nofun id
  · intro s a ha
    have hcell : ({ config, initialized } : Kernel).timers.cell s = {} :=
      get_replicate _ _
    rw [hcell] at ha
    cases ha

/-- The boot thread is alone. -/
def solo (config : Config) (main : Thread) (quantumLeft : Nat) : Kernel :=
  { ({ config, initialized := true } : Kernel).replaceThread mainThread main with
    current := mainThread
    quantumLeft }

section Solo
variable (config : Config) {main : Thread} (quantumLeft : Nat)

theorem thread_solo (t : ThreadId) :
    (solo config main quantumLeft).thread t = if t = mainThread then main else {} := by
  rw [← fresh_thread config true t]
  exact thread_replaceThread { config, initialized := true } mainThread t main

theorem members_solo (hqueue : main.queue = none) (q : QueueId) :
    (solo config main quantumLeft).members q = [] := by
  have hfree : (({ config, initialized := true } : Kernel).thread mainThread).queue = none := by
    rw [fresh_thread]
  exact (replaceThread_members (fresh_arranged config true).toLinked hfree hqueue q).trans
    (congrFun Queues.hold_empty.members_eq q)

theorem solo_inPlace (hqueue : main.queue = none) (hstate : main.state = .running) :
    (solo config main quantumLeft).InPlace := by
  have hfresh := fresh_arranged config true
  have hfree : (({ config, initialized := true } : Kernel).thread mainThread).queue = none := by
    rw [fresh_thread]
  have hmoves := hfresh.toLinked.moves_replaceThread false hfree hqueue
  refine (hfresh.moves_untimed hmoves rfl ?_ ?_ ?_).congr rfl rfl fun _ _ ha => Or.inl ha
  · rw [hqueue, hstate]
    rfl
  · intro u
    split
    · rename_i hu
      exact iff_of_true hu hstate
    · rename_i hu
      exact iff_of_false hu id
  · rw [fresh_thread]
    exact nofun

theorem solo_counted (hqueue : main.queue = none) : (solo config main quantumLeft).Counted := by
  have hcount : ∀ s, (solo config main quantumLeft).semaphoreCount s = 0 := fun s =>
    congrArg Semaphore.count (get_replicate _ _)
  refine ⟨?_, ?_⟩
  · intro s
    rw [members_solo config quantumLeft hqueue, hcount]
    rfl
  · intro s _
    exact (hcount s).ge

theorem solo_owned (hqueue : main.queue = none) (hheld : main.held = []) :
    (solo config main quantumLeft).Owned := by
  have howner : ∀ m, (solo config main quantumLeft).owner? m = none := fun m =>
    congrArg Mutex.owner (get_replicate _ _)
  have hnone : ∀ t, ((solo config main quantumLeft).thread t).held = [] := by
    intro t
    rw [thread_solo]
    split
    · exact hheld
    · rfl
  refine ⟨?_, ?_, ?_, fun t _ => hnone t, fun m _ => howner m⟩
  · intro m t
    rw [howner, hnone]
    exact iff_of_false nofun List.not_mem_nil
  · intro t
    rw [hnone]
    exact List.nodup_nil
  · intro m t _ hq
    rw [thread_solo] at hq
    split at hq
    · rw [hqueue] at hq
      cases hq
    · cases hq

theorem solo_boxed : (solo config main quantumLeft).Boxed := by
  have hnone : ∀ b, (solo config main quantumLeft).mailboxes.contains b ≠ true := fun b hb =>
    Nat.not_lt_zero _ (of_decide_eq_true hb)
  exact ⟨fun b hb => absurd hb (hnone b), fun b _ hb => absurd hb (hnone b),
    fun b hb => absurd hb (hnone b)⟩

end Solo

/-- The boot thread at the start. -/
def bootThread (config : Config) : Thread :=
  { Thread.create "main" config.mainPriority none with state := .running, dispatches := 1 }

theorem boot_eq {config : Config} {k : Kernel} (h : ({ config } : Kernel).boot = .ok k) :
    k = solo config (bootThread config) config.quantum := by
  unfold Kernel.boot at h
  cases hv : config.validate with
  | error e =>
      simp only [hv] at h
      cases h
  | ok u =>
      simp only [hv] at h
      exact (Except.ok.inj h).symm

/-- The slot of the boot thread is not free. -/
theorem ne_current_of_boot {config : Config} {k : Kernel} (h : ({ config } : Kernel).boot = .ok k)
    (hs : (k.thread t).state = .inactive) : t ≠ k.current := by
  rw [boot_eq h] at hs ⊢
  rintro rfl
  have hmain : (solo config (bootThread config) config.quantum).thread mainThread =
      bootThread config := (thread_solo config _ mainThread).trans (if_pos rfl)
  change ((solo config (bootThread config) config.quantum).thread mainThread).state = _ at hs
  rw [hmain] at hs
  cases hs

theorem solo_sound (config : Config) (quantumLeft : Nat) :
    (solo config (bootThread config) quantumLeft).Sound :=
  ⟨solo_inPlace config _ rfl rfl, solo_counted config _ rfl, solo_owned config _ rfl rfl,
    solo_boxed config _⟩

/-- Nothing is left to do but to return and to start. -/
theorem orderly_of_plain (hk : x.kernel.Sound) (hup : x.kernel.initialized = true)
    (plain : ∀ u, ∀ f ∈ x.framesOf u, f = .start ∨ ∃ a, f = .answer a) : Orderly h x := by
  have hcollect : ∀ u t, .collect t ∉ x.framesOf u := by
    intro u t hmem
    rcases plain u _ hmem with hf | ⟨a, hf⟩ <;> cases hf
  refine ⟨hk, hup, ?_, ?_, ?_⟩
  · intro u f hf o ho
    rcases plain u f hf with rfl | ⟨a, rfl⟩ <;> cases ho
  · exact fun u t hmem => absurd hmem (hcollect u t)
  · exact fun u u' t hmem => absurd hmem (hcollect u t)

theorem sound_idle {k : Kernel} (hk : k.Sound) (idle : Option ThreadId) :
    ({ k with idle } : Kernel).Sound :=
  ⟨hk.inPlace.congr rfl rfl fun _ _ ha => Or.inl ha, hk.counted.congr rfl fun _ => rfl,
    hk.owned.congr rfl rfl, hk.boxed.same (.of_same rfl rfl rfl rfl rfl) rfl⟩

/-- How the boot thread came not to be alone: the idle thread was created and made ready. -/
structure Boots (config : Config) (x : Execution) (k : Kernel) (t : ThreadId) : Prop where
  create : Relation.ReflTransGen (Effect fun o => ∃ t, o = .thread t)
    (solo config (bootThread config) config.quantum) k
  ready : Relation.ReflTransGen (Effect fun o => ∃ t, o = .thread t) { k with idle := some t }
    x.kernel
  plain : ∀ u, ∀ f ∈ x.framesOf u, f = .start ∨ ∃ a, f = .answer a

/-- The kernel once the idle thread was created, which is not ready yet. -/
def withIdle (k : Kernel) (t : ThreadId) : Kernel :=
  { (k.replaceThread t (.create "idle" .idle (some .idle))).note
      (.threadCreated "idle" t .idle) with
    idle := some t }

/-- How a kernel is brought up: the boot thread comes first and then the idle thread. -/
structure Raised (config : Config) (x : Execution) (k₁ k₂ : Kernel) (t : ThreadId) : Prop where
  boot : ({ config } : Kernel).boot = .ok k₁
  free : (k₁.thread t).state = .inactive
  ready : (withIdle k₁ t).ready t .ok = .ok k₂
  kernel : x.kernel = k₂.note (.kernelUp k₂.config.tickRate k₂.config.quantum)
  /-- The idle thread is to start and the boot thread to return. -/
  frames : ∀ u, x.framesOf u = [] ∨ (∃ a, x.framesOf u = [.answer a]) ∨
    u = t ∧ x.framesOf u = [.start]

theorem Raised.plain {config : Config} {k₁ k₂ : Kernel} (hr : Raised config x k₁ k₂ t)
    (u : ThreadId) : ∀ f ∈ x.framesOf u, f = .start ∨ ∃ a, f = .answer a := by
  intro f hf
  rcases hr.frames u with hnil | ⟨a, ha⟩ | ⟨-, hstart⟩
  · rw [hnil] at hf
    cases hf
  · rw [ha] at hf
    exact Or.inr ⟨a, List.mem_singleton.mp hf⟩
  · rw [hstart] at hf
    exact Or.inl (List.mem_singleton.mp hf)

theorem Booted.raised (hb : Booted x) : ∃ config k₁ k₂ t, Raised config x k₁ k₂ t := by
  obtain ⟨config, platform, hboot, hframes⟩ := hb
  unfold call boot at hboot
  dsimp only at hboot
  split at hboot
  · obtain rfl := Except.ok.inj hboot
    have hself : ∀ frames, ((fresh config platform).setFrames frames).frames = frames := by
      intro frames
      exact (framesOf_setFrames (fresh config platform) frames _).trans (if_pos rfl)
    rw [hself] at hframes
    cases hframes
  · rename_i k hk
    obtain ⟨⟨made, x₁⟩, hcreate, hboot⟩ := bind_eq_ok.mp hboot
    obtain ⟨frames, hstep, hall⟩ := perform_ok hboot
    rcases create_ok hcreate with ⟨err, rfl, -⟩ | ⟨t, rfl, hs, hnew, hkernel⟩
    · obtain ⟨hkernel, rfl⟩ := Prod.mk.inj (Except.ok.inj hstep)
      change x.framesOf x.kernel.current = _ at hframes
      rw [hall, ← hkernel, if_pos rfl] at hframes
      cases hframes
    · obtain ⟨k₂, hready, hstep⟩ := bind_eq_ok.mp hstep
      obtain ⟨hx, rfl⟩ := Prod.mk.inj (Except.ok.inj hstep)
      rw [hkernel] at hready
      have hother : ∀ u, x₁.framesOf u = if t = u then [.start] else [] := by
        intro u
        have hnil : (fresh config platform).contexts.get u = [] := get_replicate _ _
        rw [framesOf, hnew, get_set_fin]
        exact congrArg (ite (t = u) [.start]) hnil
      refine ⟨config, k, k₂, t, hk, hs, hready, hx.symm, ?_⟩
      intro u
      rw [hall]
      split
      · have hne : t ≠ x₁.kernel.current := by
          have hfree : t ≠ k.current := ne_current_of_boot hk hs
          rw [hkernel]
          exact hfree
        have hmine : x₁.frames = [] := (hother _).trans (if_neg hne)
        rw [hmine]
        exact Or.inr (Or.inl ⟨_, rfl⟩)
      · rw [hother]
        split
        · rename_i hu
          exact Or.inr (Or.inr ⟨hu.symm, rfl⟩)
        · exact Or.inl rfl

/-- Up to the idle thread nothing happened but effects. -/
theorem Raised.create {config : Config} {k₁ k₂ : Kernel} (hr : Raised config x k₁ k₂ t) :
    Relation.ReflTransGen (Effect fun o => ∃ t, o = .thread t) k₁
      ((k₁.replaceThread t (.create "idle" .idle (some .idle))).note
        (.threadCreated "idle" t .idle)) :=
  (Relation.ReflTransGen.single (.create "idle" .idle .idle ⟨t, rfl⟩ hr.free)).tail
    (note_effect _ _)

theorem Raised.sound {config : Config} {k₁ k₂ : Kernel} (hr : Raised config x k₁ k₂ t) :
    (withIdle k₁ t).Sound := by
  have hsound := solo_sound config config.quantum
  rw [← boot_eq hr.boot] at hsound
  exact sound_idle ((Does.of_effects hr.create).sound hsound) (some t)

theorem Booted.boots (hb : Booted x) : ∃ config k t, Boots config x k t := by
  obtain ⟨config, k₁, k₂, t, hr⟩ := hb.raised
  have hstart := hr.create
  have hkernel := hr.kernel
  rw [boot_eq hr.boot] at hstart
  have hready : Effect (fun o => ∃ t, o = .thread t) _ k₂ :=
    ready_suspended hr.sound.inPlace ⟨t, rfl⟩ ?_ hr.ready
  · have hup : Effect (fun o => ∃ t, o = .thread t) k₂ _ :=
      note_effect k₂ (.kernelUp k₂.config.tickRate k₂.config.quantum)
    rw [← hkernel] at hup
    refine ⟨config, _, t, hstart, (Relation.ReflTransGen.single ?_).tail hup, hr.plain⟩
    rw [← boot_eq hr.boot]
    exact hready
  · change ((k₁.replaceThread t _).thread t).state = .suspended
    rw [thread_replaceThread, if_pos rfl]
    rfl

/-- What bringing up the kernel establishes: it holds of the boot thread alone, effects keep it,
and it does not depend on who is the idle thread. -/
theorem Booted.induction {P : Kernel → Prop} (hb : Booted x)
    (solo : ∀ config, P (solo config (bootThread config) config.quantum))
    (idle : ∀ k t, P k → P { k with idle := some t })
    (step : ∀ k k', k.Sound → Effect (fun o => ∃ t, o = .thread t) k k' → P k → P k') :
    x.kernel.Sound ∧ P x.kernel := by
  obtain ⟨config, k, t, hboots⟩ := hb.boots
  obtain ⟨hk, hP⟩ := effects_induction hboots.create (solo_sound config _) step (solo config)
  exact effects_induction hboots.ready (sound_idle hk (some t)) step (idle k t hP)

theorem Booted.orderly (hb : Booted x) : Orderly [] x := by
  obtain ⟨hk, hup⟩ := hb.induction (P := fun k => k.initialized = true) (fun _ => rfl)
    (fun _ _ hup => hup) fun k k' _ he hup => he.grows.initialized.trans hup
  obtain ⟨config, k, t, hboots⟩ := hb.boots
  exact orderly_of_plain hk hup hboots.plain

/-- Every execution that may come about is orderly. -/
theorem Reaches.orderly (hr : Reaches h x) (hj : JoinedOnce h) : Orderly h x := by
  induction hr with
  | boot hb => exact hb.orderly
  | @move h x y m _ hallows hmove ih =>
      have hx := ih hj.tail
      by_cases hm : m = .collectLog
      · subst hm
        obtain rfl := Except.ok.inj hmove
        exact hx.withoutLog
      · obtain ⟨frames, rest, hgoes⟩ := move_goes hx.fit hallows hm hmove
        exact hx.step hj hgoes

/-- Every move so far was made by an orderly execution. -/
theorem Reaches.orderly_of_mem (hr : Reaches h x) (hj : JoinedOnce h) (hmem : r ∈ h) :
    ∃ h', Orderly h' r.before ∧ Orderly (r :: h') r.after ∧
      r.before.allows r.move = true ∧ r.before.move r.move = .ok r.after := by
  obtain ⟨later, earlier, rfl⟩ := List.append_of_mem hmem
  obtain ⟨y, hy⟩ := hr.earlier
  have hj := hj.earlier
  obtain ⟨hbefore, hallows, hmove, rfl⟩ := hy.uncons
  exact ⟨earlier, hbefore.orderly hj.tail, hy.orderly hj, hallows, hmove⟩

/-- Plays moves from the first one on, as long as they are allowed and no fault occurs. -/
def play : List Move → History → Execution → Option (History × Execution)
  | [], h, x => some (h, x)
  | m :: ms, h, x =>
    if x.allows m = true then
      match x.move m with
      | .ok y => play ms (⟨x, m, y⟩ :: h) y
      | .error _ => none
    else none

theorem play_induction {P : History → Execution → Prop} {ms : List Move} {h' : History}
    (step : ∀ {h x y m}, P h x → x.allows m = true → x.move m = .ok y → P (⟨x, m, y⟩ :: h) y)
    (hx : P h x) (hp : play ms h x = some (h', y)) : P h' y := by
  induction ms generalizing h x with
  | nil =>
      obtain ⟨rfl, rfl⟩ := Prod.mk.inj (Option.some.inj hp)
      exact hx
  | cons m ms ih =>
      unfold play at hp
      split at hp
      · rename_i hallows
        split at hp
        · rename_i z hmove
          exact ih (step hx hallows hmove) hp
        · cases hp
      · cases hp

theorem Reaches.play {ms : List Move} {h' : History} (hr : Reaches h x)
    (hp : Execution.play ms h x = some (h', y)) : Reaches h' y :=
  play_induction (fun hx hallows hmove => hx.move hallows hmove) hr hp

/-- The standard kernel, just brought up, on a platform that has a context for every thread. -/
def standard : Execution :=
  match (fresh .standard fun _ => .ok ()).call .boot with
  | .ok x => x
  | .error _ => fresh .standard fun _ => .ok ()

/-- What comes of moves of the standard kernel. -/
def enact (ms : List Move) : History × Execution := (play ms [] standard).getD ([], standard)

theorem reaches_enact {ms : List Move} (h : (play ms [] standard).isSome = true) :
    Reaches (enact ms).1 (enact ms).2 := by
  have hbooted : Booted standard := ⟨.standard, fun _ => .ok (), rfl, rfl⟩
  have hplay : Execution.play ms [] standard = some ((enact ms).1, (enact ms).2) := by
    unfold enact
    cases hp : Execution.play ms [] standard with
    | none =>
        rw [hp] at h
        cases h
    | some r => rfl
  exact (Reaches.boot hbooted).play hplay

instance (h : History) : Decidable (JoinedOnce h) := inferInstanceAs (Decidable (joins h).Nodup)

end RealtimeKernel.Execution

import RealtimeKernel.Execution.Move
import RealtimeKernel.Proofs.Execution.Calls
import RealtimeKernel.Proofs.Kernel.Lives

/-!
The moves of an execution. Whatever the move, the running thread does what it may do to the
kernel, leaves something to do for itself, and leaves what the others have to do alone.
-/
namespace RealtimeKernel.Execution
open Kernel

variable {x y : Execution} {frames rest : List Frame} {touched : Object → Prop} {t u : ThreadId}

/-- What a thread has left to do. -/
def framesOf (x : Execution) (u : ThreadId) : List Frame := x.contexts.get u

/-- What a move may touch. -/
def Move.touches (x : Execution) : Move → Object → Prop
  | .call c, o => c.touches x.kernel o
  | .interrupt c, o => c.touches x.kernel o
  | .advance, o => ∃ f rest, x.frames = f :: rest ∧ f.touches x.kernel o
  | _, _ => False

theorem touches_advance {f : Frame} (hframes : x.frames = f :: rest) :
    Move.touches x .advance = f.touches x.kernel := by
  funext o
  apply propext
  constructor
  · rintro ⟨g, rest', hg, ht⟩
    rw [hframes] at hg
    rw [(List.cons.inj hg).1]
    exact ht
  · exact fun ht => ⟨f, rest, hframes, ht⟩

/-- The running thread does its part and leaves `frames` to do, before `rest`. -/
structure Goes (touched : Object → Prop) (frames rest : List Frame) (x y : Execution) : Prop where
  works : Works touched x.kernel (y.kernel, frames)
  mine : y.framesOf x.kernel.current = frames ++ rest
  others : ∀ u, u ≠ x.kernel.current → y.framesOf u = x.framesOf u ∨
    (x.kernel.thread u).state = .inactive ∧ y.framesOf u = [.start]

theorem framesOf_setFrames (x : Execution) (frames : List Frame) (u : ThreadId) :
    (x.setFrames frames).framesOf u = if u = x.kernel.current then frames else x.framesOf u := by
  simp only [framesOf, setFrames, get_set_fin, eq_comm]

theorem frames_setFrames (x : Execution) (frames : List Frame) :
    (x.setFrames frames).frames = frames :=
  (framesOf_setFrames x frames x.kernel.current).trans (if_pos rfl)

/-- The running thread's frames, as long as it runs on. -/
theorem frames_of_current (hcurrent : y.kernel.current = x.kernel.current) :
    y.frames = y.framesOf x.kernel.current := by
  rw [← hcurrent]
  rfl

/-! Whose turn it is. -/

/-- What the running thread is about to do when it is this turn. -/
def Turn.Shows : Turn → List Frame → Prop
  | .code, l => l = []
  | .answer a, l => ∃ rest, l = .answer a :: rest
  | .entry _, l => ∃ rest, l = .start :: rest
  | .callback r, l => ∃ rest, l = .callback r false :: rest
  | .callbackCode r, l => ∃ rest, l = .callback r true :: rest
  | .work, l => ∃ f rest, l = f :: rest ∧ (∀ a, f ≠ .answer a) ∧ ∀ r e, f ≠ .callback r e

theorem turn_shows (x : Execution) : Turn.Shows x.turn x.frames := by
  unfold turn
  cases x.frames with
  | nil => rfl
  | cons f rest =>
      cases f with
      | start =>
          cases he : x.kernel.running.entry with
          | none => exact ⟨.start, rest, rfl, nofun, nofun⟩
          | some e => exact ⟨rest, rfl⟩
      | callback r entered => cases entered <;> exact ⟨rest, rfl⟩
      | answer a => exact ⟨rest, rfl⟩
      | _ => exact ⟨_, rest, rfl, nofun, nofun⟩

theorem allows_call {c : Call} (h : x.allows (.call c) = true) :
    x.frames = [] ∧ c.handlesExist x.kernel = true := by
  have hshows := x.turn_shows
  unfold allows at h
  cases ht : x.turn <;> simp only [ht, Bool.false_eq_true] at h hshows
  exact ⟨hshows, h⟩

theorem allows_interrupt {c : InterruptCall} (h : x.allows (.interrupt c) = true) :
    (x.frames = [] ∨ ∃ r rest, x.frames = .callback r true :: rest) ∧
      c.handlesExist x.kernel = true := by
  have hshows := x.turn_shows
  unfold allows at h
  cases ht : x.turn <;> simp only [ht, Bool.false_eq_true] at h hshows
  · exact ⟨Or.inl hshows, h⟩
  · exact ⟨Or.inr ⟨_, hshows⟩, h⟩

theorem allows_takeAnswer (h : x.allows .takeAnswer = true) :
    ∃ a rest, x.frames = .answer a :: rest := by
  have hshows := x.turn_shows
  unfold allows at h
  cases ht : x.turn <;> simp only [ht, Bool.false_eq_true] at h hshows
  exact ⟨_, hshows⟩

theorem allows_leave (h : x.allows .leave = true) :
    ∃ r rest, x.frames = .callback r true :: rest := by
  have hshows := x.turn_shows
  unfold allows at h
  cases ht : x.turn <;> simp only [ht, Bool.false_eq_true] at h hshows
  exact ⟨_, hshows⟩

theorem allows_enter (h : x.allows .enter = true) :
    (∃ rest, x.frames = .start :: rest) ∨ ∃ r rest, x.frames = .callback r false :: rest := by
  have hshows := x.turn_shows
  unfold allows at h
  cases ht : x.turn <;> simp only [ht, Bool.false_eq_true] at h hshows
  · exact Or.inl hshows
  · exact Or.inr ⟨_, hshows⟩

/-- The kernel's turn comes at a frame that is neither an answer nor a callback. -/
theorem allows_advance (h : x.allows .advance = true) :
    ∃ f rest, x.frames = f :: rest ∧ (∀ a, f ≠ .answer a) ∧ ∀ r e, f ≠ .callback r e := by
  have hshows := x.turn_shows
  unfold allows at h
  cases ht : x.turn <;> simp only [ht, Bool.false_eq_true] at h hshows
  exact hshows

/-! What a move does. -/

theorem perform_ok {step : Kernel → Outcome Step} (h : x.perform rest step = .ok y) :
    ∃ frames, step x.kernel = .ok (y.kernel, frames) ∧
      ∀ u, y.framesOf u = if u = x.kernel.current then frames ++ rest else x.framesOf u := by
  obtain ⟨⟨kernel, frames⟩, hstep, h⟩ := bind_eq_ok.mp h
  obtain rfl := Except.ok.inj h
  exact ⟨frames, hstep, framesOf_setFrames x (frames ++ rest)⟩

/-- What a call does to the kernel, and what it leaves the running thread to do. -/
theorem operation_step {c : Operation} (h : x.move (.call (.operation c)) = .ok y) :
    ∃ frames, c.run x.kernel = .ok (y.kernel, frames) ∧
      y.framesOf x.kernel.current = frames ++ x.frames := by
  obtain ⟨frames, hstep, hframes⟩ := perform_ok (show x.perform x.frames c.run = .ok y from h)
  exact ⟨frames, hstep, (hframes _).trans (if_pos rfl)⟩

theorem interrupt_step {c : InterruptCall} (h : x.move (.interrupt c) = .ok y) :
    ∃ frames, c.run x.kernel = .ok (y.kernel, frames) ∧
      y.framesOf x.kernel.current = frames ++ x.frames := by
  obtain ⟨frames, hstep, hframes⟩ := perform_ok (show x.perform x.frames c.run = .ok y from h)
  exact ⟨frames, hstep, (hframes _).trans (if_pos rfl)⟩

/-- A call that is done lets another thread run, if need be. -/
theorem finish_ok {k : Kernel} {step : Step} (h : Operation.finish k = .ok step) :
    k.preempt = .ok step.1 := by
  obtain ⟨k', hpreempt, h⟩ := bind_eq_ok.mp h
  rw [hpreempt, ← Except.ok.inj h]

theorem advance_eq {f : Frame} (hframes : x.frames = f :: rest) :
    x.advance = x.perform rest (frameStep · f) := by
  unfold advance
  rw [hframes]

theorem enter_start (hframes : x.frames = .start :: rest) : x.enter = { x.setFrames rest with
    kernel := x.kernel.modifyThread x.kernel.current fun th => { th with entry := none } } := by
  unfold enter
  rw [hframes]

theorem enter_callback {r : Routine} (hframes : x.frames = .callback r false :: rest) :
    x.enter = x.setFrames (.callback r true :: rest) := by
  unfold enter
  rw [hframes]

theorem advance_step {f : Frame} (hframes : x.frames = f :: rest)
    (h : x.move .advance = .ok y) :
    ∃ frames, frameStep x.kernel f = .ok (y.kernel, frames) ∧
      y.framesOf x.kernel.current = frames ++ rest := by
  obtain ⟨frames, hstep, hleft⟩ := perform_ok ((advance_eq hframes).symm.trans h)
  exact ⟨frames, hstep, (hleft _).trans (if_pos rfl)⟩

/-- A step that the running thread does. -/
theorem goes_of_perform {step : Kernel → Outcome Step} (h : x.perform rest step = .ok y)
    (works : ∀ s, step x.kernel = .ok s → Works touched x.kernel s) :
    ∃ frames, step x.kernel = .ok (y.kernel, frames) ∧ Goes touched frames rest x y := by
  obtain ⟨frames, hstep, hframes⟩ := perform_ok h
  refine ⟨frames, hstep, works _ hstep, ?_, ?_⟩
  · rw [hframes, if_pos rfl]
  · intro u hu
    rw [hframes, if_neg hu]
    exact Or.inl rfl

/-- Nothing but the running thread's own list changes. -/
theorem goes_of_setFrames (plain : ∀ f ∈ frames, ∀ o, ¬ f.Concerns o) :
    Goes touched frames rest x (x.setFrames (frames ++ rest)) := by
  refine ⟨.of_does (.refl x.kernel) plain, ?_, ?_⟩
  · rw [framesOf_setFrames, if_pos rfl]
  · intro u hu
    rw [framesOf_setFrames, if_neg hu]
    exact Or.inl rfl

/-- A new thread gets a slot, or there is none or no context for it. -/
theorem create_ok {name : String} {p : Priority} {e : Entry}
    {made : Except KernelError ThreadId} (h : x.create name p e = .ok (made, y)) :
    (∃ err, made = .error err ∧ y.contexts = x.contexts ∧ (y.kernel = x.kernel ∨
      ∃ t, (x.kernel.thread t).state = .inactive ∧ y.kernel = x.kernel.vacate t)) ∨
    ∃ t, made = .ok t ∧ (x.kernel.thread t).state = .inactive ∧
      y.contexts = x.contexts.set t [.start] t.isLt ∧
      y.kernel = (x.kernel.replaceThread t (.create name p (some e))).note
        (.threadCreated name t p) := by
  unfold create at h
  dsimp only at h
  split at h
  · cases h
  · split at h
    · obtain ⟨rfl, rfl⟩ := Prod.mk.inj (Except.ok.inj h)
      exact Or.inl ⟨_, rfl, rfl, Or.inl rfl⟩
    · rename_i t hslot
      have hinactive : (x.kernel.thread t).state = .inactive := by
        have hfree := List.find?_some hslot
        simpa [Thread.isActive] using hfree
      split at h
      · obtain ⟨rfl, rfl⟩ := Prod.mk.inj (Except.ok.inj h)
        refine Or.inl ⟨_, rfl, rfl, Or.inr ⟨t, hinactive, ?_⟩⟩
        simp only [vacate, replaceThread, setThread, Vector.set_set]
      · obtain ⟨rfl, rfl⟩ := Prod.mk.inj (Except.ok.inj h)
        exact Or.inr ⟨t, rfl, hinactive, rfl, rfl⟩

theorem ready_suspended {k k' : Kernel} (hk : k.InPlace) (ht : touched (.thread t))
    (hs : (k.thread t).state = .suspended) (h : k.ready t .ok = .ok k') : Effect touched k k' := by
  refine resume_effect (t := t) hk (Or.inr ht) ?_
  unfold resume
  rw [if_pos hs]
  exact h

/-- Where the frames of an execution come from that has the contexts of another one. -/
theorem goes_of_contexts {x₁ : Execution} (hcontexts : x₁.contexts = x.contexts)
    (hcurrent : x₁.kernel.current = x.kernel.current)
    (works : Works touched x.kernel (y.kernel, frames))
    (hframes : ∀ u, y.framesOf u =
      if u = x₁.kernel.current then frames ++ x₁.frames else x₁.framesOf u) :
    Goes touched frames x.frames x y := by
  have hold : x₁.frames = x.frames := by
    simp only [Execution.frames, hcontexts, hcurrent]
  rw [hold, hcurrent] at hframes
  refine ⟨works, ?_, ?_⟩
  · rw [hframes, if_pos rfl]
  · intro u hu
    rw [hframes, if_neg hu]
    simp only [framesOf, hcontexts, true_or]

theorem goes_of_created {x₁ : Execution} (hs : (x.kernel.thread t).state = .inactive)
    (hne : t ≠ x.kernel.current) (hcontexts : x₁.contexts = x.contexts.set t [.start] t.isLt)
    (hcurrent : x₁.kernel.current = x.kernel.current)
    (works : Works touched x.kernel (y.kernel, frames))
    (hframes : ∀ u, y.framesOf u =
      if u = x₁.kernel.current then frames ++ x₁.frames else x₁.framesOf u) :
    Goes touched frames x.frames x y := by
  have hother : ∀ u, x₁.framesOf u = if u = t then [.start] else x.framesOf u := by
    intro u
    simp only [framesOf, hcontexts, get_set_fin, eq_comm]
  have hold : x₁.frames = x.frames := by
    change x₁.framesOf x₁.kernel.current = x.framesOf x.kernel.current
    rw [hcurrent, hother, if_neg hne.symm]
  rw [hold, hcurrent] at hframes
  refine ⟨works, ?_, ?_⟩
  · rw [hframes, if_pos rfl]
  · intro u hu
    rw [hframes, if_neg hu, hother]
    split
    · rename_i hut
      rw [hut]
      exact Or.inr ⟨hs, rfl⟩
    · exact Or.inl rfl

theorem spawn_goes {name : String} {p : Priority} {r : Routine} (hk : x.kernel.Sound)
    (h : x.spawn name p r = .ok y) :
    ∃ made, Goes (Move.touches x (.call (.spawn name p r)))
      [.answer (.thread made)] x.frames x y := by
  unfold spawn at h
  split at h
  · cases h
  · obtain ⟨⟨made, x₁⟩, hcreate, h⟩ := bind_eq_ok.mp h
    rcases create_ok hcreate with ⟨err, rfl, hcontexts, hsame⟩ | ⟨t, rfl, hs, hcontexts, hkernel⟩
    · obtain ⟨frames, hstep, hframes⟩ := perform_ok h
      obtain ⟨hkernel, rfl⟩ := Prod.mk.inj (Except.ok.inj hstep)
      rw [hkernel] at hsame
      refine ⟨_, goes_of_contexts hcontexts ?_ (.answer ?_) hframes⟩
      · rw [hkernel]
        rcases hsame with hsame | ⟨t, -, hsame⟩
        · rw [hsame]
        · rw [hsame]
          rfl
      · rcases hsame with hsame | ⟨t, hs, hsame⟩
        · rw [hsame]
          exact .refl x.kernel
        · rw [hsame]
          exact .of_effect (.blank hs)
    · obtain ⟨frames, hstep, hframes⟩ := perform_ok h
      obtain ⟨k₂, hready, hstep⟩ := bind_eq_ok.mp hstep
      obtain ⟨k₃, hpreempt, hstep⟩ := bind_eq_ok.mp hstep
      obtain ⟨rfl, rfl⟩ := Prod.mk.inj (Except.ok.inj hstep)
      have hne : t ≠ x.kernel.current := by
        rintro rfl
        have hrun := (hk.inPlace.running_iff x.kernel.current).mpr rfl
        rw [hs] at hrun
        cases hrun
      refine ⟨_, goes_of_created hs hne hcontexts (by rw [hkernel]; rfl) (.answer ?_) hframes⟩
      rw [hkernel] at hready
      have ht : Move.touches x (.call (.spawn name p r)) (.thread t) := ⟨t, rfl, hs⟩
      have hcreate := Effect.create name p (.routine r) ht hs
      have hnote : Effect (Move.touches x (.call (.spawn name p r))) _ _ :=
        note_effect (x.kernel.replaceThread t (.create name p (some (.routine r))))
          (.threadCreated name t p)
      have hk₁ := hnote.inPlace (hcreate.inPlace hk.inPlace)
      have hready : Effect (Move.touches x (.call (.spawn name p r))) _ k₂ :=
        ready_suspended hk₁ ht ?_ hready
      · have hpreempt : Does (Move.touches x (.call (.spawn name p r))) k₂ y.kernel :=
          preempt_does (hready.inPlace hk₁) hpreempt
        exact ((hpreempt.after_effect hready).after_effect hnote).after_effect hcreate
      · change ((x.kernel.replaceThread t _).thread t).state = .suspended
        rw [thread_replaceThread, if_pos rfl]
        rfl

/-- A kernel that is up cannot be brought up again. -/
theorem boot_eq_error (hup : x.kernel.initialized = true) : ∃ e, x.kernel.boot = .error e ∧
    x.boot = .ok (x.setFrames (.answer (.thread (.error e)) :: x.frames)) := by
  have herror : ∃ e, x.kernel.boot = .error e := by
    unfold Kernel.boot
    cases hv : x.kernel.config.validate with
    | error e => exact ⟨_, rfl⟩
    | ok _ => exact ⟨.alreadyInitialized, if_pos hup⟩
  obtain ⟨e, he⟩ := herror
  refine ⟨e, he, ?_⟩
  unfold boot
  rw [he]
  rfl

theorem boot_again (hup : x.kernel.initialized = true) (h : x.boot = .ok y) :
    ∃ e, x.kernel.boot = .error e ∧
      y = x.setFrames (.answer (.thread (.error e)) :: x.frames) := by
  obtain ⟨e, he, hboot⟩ := boot_eq_error hup
  rw [hboot] at h
  exact ⟨e, he, (Except.ok.inj h).symm⟩

/-- A kernel that is up stays as it is. -/
theorem boot_goes (hup : x.kernel.initialized = true) (h : x.boot = .ok y) :
    Goes touched [.answer (.thread (x.kernel.boot.map fun _ => Kernel.mainThread))]
      x.frames x y := by
  obtain ⟨e, he, rfl⟩ := boot_again hup h
  rw [he]
  have hplain : ∀ f ∈ [Frame.answer (.thread (.error e))], ∀ o, ¬ f.Concerns o := by
    intro f hf o
    rw [List.mem_singleton.mp hf]
    exact id
  exact goes_of_setFrames hplain

theorem exit_goes {msg : Msg} (hk : x.kernel.InPlace) (h : x.exit msg = .ok y) :
    Goes (Move.touches x (.call (.exit msg))) [] [] x y := by
  obtain ⟨frames, hstep, hframes⟩ := perform_ok h
  obtain ⟨k', hexit, hstep⟩ := bind_eq_ok.mp hstep
  obtain ⟨rfl, rfl⟩ := Prod.mk.inj (Except.ok.inj hstep)
  refine ⟨.leaves_nothing (exit_does hk rfl hexit), ?_, ?_⟩
  · rw [hframes, if_pos rfl]
  · intro u hu
    rw [hframes, if_neg hu]
    exact Or.inl rfl

/-- A thread or a callback starts. -/
theorem enter_goes (h : (∃ rest, x.frames = .start :: rest) ∨
      ∃ r rest, x.frames = .callback r false :: rest) :
    ∃ frames, Goes touched frames x.frames.tail x x.enter ∧ ∀ t, .collect t ∉ frames := by
  rcases h with ⟨rest, hframes⟩ | ⟨r, rest, hframes⟩
  · have henter := enter_start hframes
    have hset : ∀ u, x.enter.framesOf u = (x.setFrames rest).framesOf u := by
      intro u
      rw [henter]
      rfl
    refine ⟨[], ⟨?_, ?_, ?_⟩, fun t => List.not_mem_nil⟩
    · rw [henter]
      exact .leaves_nothing (.of_effect (.mark _ x.kernel.running.terminate none (Or.inr rfl)))
    · rw [hset, framesOf_setFrames, if_pos rfl, hframes]
      rfl
    · intro u hu
      rw [hset, framesOf_setFrames, if_neg hu]
      exact Or.inl rfl
  · rw [enter_callback hframes, hframes]
    refine ⟨[.callback r true], goes_of_setFrames ?_, ?_⟩
    · intro f hf o
      rw [List.mem_singleton.mp hf]
      exact id
    · intro t hmem
      cases List.mem_singleton.mp hmem

/-- What a move leaves to collect: only a thread that is joined and has not ended. -/
structure Claimed (m : Move) (frames rest : List Frame) (x y : Execution) (t : ThreadId) :
    Prop where
  move : m = .call (.operation (.join t))
  frames : frames ++ rest = [.collect t]
  alive : (x.kernel.thread t).state.isGone = false
  queue : (y.kernel.thread x.kernel.current).queue = some (.exit t)

/-- Every move but the collection of the log, in terms of what the kernel can do. -/
structure MoveGoes (m : Move) (frames rest : List Frame) (x y : Execution) : Prop
    extends Goes (m.touches x) frames rest x y where
  rest_subset : ∀ f ∈ rest, f ∈ x.frames
  not_rest : ∀ t, .collect t ∉ rest
  claimed : ∀ t, .collect t ∈ frames → Claimed m frames rest x y t

/-- Is the execution ready for its next move? -/
structure Fit (x : Execution) : Prop where
  sound : x.kernel.Sound
  initialized : x.kernel.initialized = true
  exist : ∀ u, ∀ f ∈ x.framesOf u, ∀ o, f.Concerns o → o.Exists x.kernel
  alone : ∀ u t, .collect t ∈ x.framesOf u → x.framesOf u = [.collect t]
  ended : ∀ t, .collect t ∈ x.frames → (x.kernel.thread t).state = .final

theorem Fit.not_tail (hx : x.Fit) (t : ThreadId) : .collect t ∉ x.frames.tail := by
  intro hmem
  have halone := hx.alone x.kernel.current t (List.mem_of_mem_tail hmem)
  change x.frames = _ at halone
  rw [halone] at hmem
  cases hmem

theorem operation_moveGoes {c : Operation} (hx : x.Fit) (hnil : x.frames = [])
    (hin : c.handlesExist x.kernel = true) (h : x.perform x.frames c.run = .ok y) :
    ∃ frames, MoveGoes (.call (.operation c)) frames x.frames x y := by
  obtain ⟨frames, hstep, hgoes⟩ :=
    goes_of_perform h fun s hs => operation_works hx.sound hin hs
  refine ⟨frames, hgoes, fun f => id, ?_, ?_⟩
  · intro t hmem
    rw [hnil] at hmem
    cases hmem
  · intro t hmem
    obtain ⟨ht, -⟩ := hgoes.works.frames _ hmem (.thread t) rfl
    obtain rfl := Operation.touches_thread ht
    rcases join_ok hx.sound.inPlace hstep with ⟨-, hcollect⟩ | ⟨hcollect, hawaits⟩
    · obtain ⟨-, rfl⟩ := Prod.mk.inj hcollect
      cases List.mem_singleton.mp hmem
    · refine ⟨rfl, ?_, hawaits.isGone, ?_⟩
      · rw [hnil, List.append_nil]
        exact hcollect
      · have hblocks : Blocks _ _ _ y.kernel := hawaits.blocks
        rw [hblocks.thread_current hx.sound.inPlace]

theorem interrupt_moveGoes {c : InterruptCall} (hx : x.Fit)
    (hturn : x.frames = [] ∨ ∃ r rest, x.frames = .callback r true :: rest)
    (hin : c.handlesExist x.kernel = true) (h : x.interrupt c = .ok y) :
    ∃ frames, MoveGoes (.interrupt c) frames x.frames x y := by
  obtain ⟨frames, hstep, hgoes⟩ :=
    goes_of_perform h fun s hs => interrupt_works hx.sound hin hs
  refine ⟨frames, hgoes, fun f => id, ?_, ?_⟩
  · intro t hmem
    rcases hturn with hnil | ⟨r, rest, hcons⟩
    · rw [hnil] at hmem
      cases hmem
    · have halone := hx.alone x.kernel.current t hmem
      change x.frames = _ at halone
      rw [halone] at hcons
      cases hcons
  · intro t hmem
    obtain ⟨ht, -⟩ := hgoes.works.frames _ hmem (.thread t) rfl
    exact absurd ht InterruptCall.not_touches_thread

theorem advance_moveGoes (hx : x.Fit) {f : Frame} {rest : List Frame}
    (hframes : x.frames = f :: rest) (h : x.advance = .ok y) :
    ∃ frames, MoveGoes .advance frames rest x y := by
  rw [advance_eq hframes] at h
  have hmem : f ∈ x.frames := by
    rw [hframes]
    exact List.mem_cons_self
  have htouch := touches_advance hframes
  have hended : ∀ t, f = .collect t → (x.kernel.thread t).state = .final := by
    rintro t rfl
    exact hx.ended t hmem
  obtain ⟨frames, hstep, hgoes⟩ := goes_of_perform h fun s hs =>
    frame_works hx.sound (hx.exist x.kernel.current f hmem) hended hs
  rw [← htouch] at hgoes
  refine ⟨frames, hgoes, ?_, ?_, ?_⟩
  · intro g hg
    rw [hframes]
    exact List.mem_cons_of_mem f hg
  · intro t hrest
    refine hx.not_tail t ?_
    rw [hframes]
    exact hrest
  · intro t hcollect
    obtain ⟨ht, -⟩ := hgoes.works.frames _ hcollect (.thread t) rfl
    rw [htouch] at ht
    cases f with
    | start =>
        obtain ⟨k', -, hstep⟩ := bind_eq_ok.mp hstep
        obtain ⟨-, rfl⟩ := Prod.mk.inj (Except.ok.inj hstep)
        cases hcollect
    | collect u =>
        obtain ⟨-, rfl⟩ := Prod.mk.inj (Except.ok.inj hstep)
        cases List.mem_singleton.mp hcollect
    | _ => simp [Frame.touches, BoxParts] at ht

/-- Any move but the collection of the log. -/
theorem move_goes {m : Move} (hx : x.Fit) (hallows : x.allows m = true) (hm : m ≠ .collectLog)
    (h : x.move m = .ok y) : ∃ frames rest, MoveGoes m frames rest x y := by
  cases m with
  | call c =>
      obtain ⟨hnil, hin⟩ := allows_call hallows
      have hnot : ∀ t, .collect t ∉ x.frames := by
        rw [hnil]
        exact fun t => List.not_mem_nil
      cases c with
      | boot =>
          refine ⟨_, x.frames, boot_goes hx.initialized h, fun f => id, hnot, ?_⟩
          intro t hmem
          cases List.mem_singleton.mp hmem
      | spawn name p r =>
          obtain ⟨made, hgoes⟩ := spawn_goes hx.sound h
          refine ⟨_, x.frames, hgoes, fun f => id, hnot, ?_⟩
          intro t hmem
          cases List.mem_singleton.mp hmem
      | exit msg =>
          exact ⟨[], [], exit_goes hx.sound.inPlace h, nofun, nofun, nofun⟩
      | operation c =>
          obtain ⟨frames, hgoes⟩ := operation_moveGoes hx hnil hin h
          exact ⟨frames, _, hgoes⟩
  | interrupt c =>
      obtain ⟨hturn, hin⟩ := allows_interrupt hallows
      obtain ⟨frames, hgoes⟩ := interrupt_moveGoes hx hturn hin h
      exact ⟨frames, _, hgoes⟩
  | takeAnswer =>
      obtain rfl := Except.ok.inj h
      refine ⟨[], x.frames.tail, goes_of_setFrames nofun, fun f => List.mem_of_mem_tail,
        hx.not_tail, nofun⟩
  | enter =>
      obtain rfl := Except.ok.inj h
      obtain ⟨frames, hgoes, hmem⟩ := enter_goes (allows_enter hallows)
      refine ⟨frames, x.frames.tail, hgoes, fun f => List.mem_of_mem_tail, hx.not_tail, ?_⟩
      intro t hcollect
      exact absurd hcollect (hmem t)
  | leave =>
      obtain rfl := Except.ok.inj h
      refine ⟨[], x.frames.tail, goes_of_setFrames nofun, fun f => List.mem_of_mem_tail,
        hx.not_tail, nofun⟩
  | advance =>
      obtain ⟨f, rest, hframes, -⟩ := allows_advance hallows
      obtain ⟨frames, hgoes⟩ := advance_moveGoes hx hframes h
      exact ⟨frames, _, hgoes⟩
  | collectLog => exact absurd rfl hm

/-- A move does nothing to the kernel but by what it touches. -/
theorem move_does {m : Move} (hx : x.Fit) (hallows : x.allows m = true) (h : x.move m = .ok y) :
    Does (m.touches x) x.kernel y.kernel := by
  by_cases hm : m = .collectLog
  · subst hm
    obtain rfl := Except.ok.inj h
    exact .of_effect (.quiet _ [] (Nat.le_refl _))
  · obtain ⟨frames, rest, hgoes⟩ := move_goes hx hallows hm h
    exact hgoes.works.does

/-- What the other threads have left to do is theirs, but for a thread that is made. -/
theorem move_others {m : Move} (hx : x.Fit) (hallows : x.allows m = true) (h : x.move m = .ok y)
    (hu : u ≠ x.kernel.current) : y.framesOf u = x.framesOf u ∨
      (x.kernel.thread u).state = .inactive ∧ y.framesOf u = [.start] := by
  by_cases hm : m = .collectLog
  · subst hm
    obtain rfl := Except.ok.inj h
    exact Or.inl rfl
  · obtain ⟨frames, rest, hgoes⟩ := move_goes hx hallows hm h
    exact hgoes.others u hu

end RealtimeKernel.Execution

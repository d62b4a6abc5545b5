import RealtimeKernel.Proofs.Execution.History
import RealtimeKernel.Proofs.Execution.Returns

/-!
Whoever runs has the best claim to. Code that makes threads ready with operations that do not
give way owes a check for that; as long as every thread pays before it goes on, no ready thread
has a better claim to the processor than the thread whose code runs. The processor passes to
the first of all that could run, whatever the code owes.
-/
namespace RealtimeKernel.Execution
open Kernel

variable {x y : Execution} {h : History} {m : Move} {t u : ThreadId} {r : Record}
  {frames rest : List Frame}

/-- No operation is under way: the running thread's code is at work, takes an answer or starts. -/
def outside (x : Execution) : Bool :=
  match x.frames with
  | [] | [.start] | [.answer _] => true
  | _ => false

/-- Is a thread able to run that was not before? -/
def Record.readies (r : Record) : Bool :=
  decide (∃ t, (r.before.kernel.thread t).state.isRunnable = false ∧
    (r.after.kernel.thread t).state.isRunnable = true)

/-- Does the thread's code owe a check whether it has to give way? -/
def owes (u : ThreadId) : History → Bool
  | [] => false
  | r :: h =>
    if r.before.kernel.current = u && r.before.frames.isEmpty then
      match r.move with
      | .interrupt .preempt => false
      | .interrupt .tick => true
      | .interrupt _ => owes u h || r.readies
      | _ => owes u h
    else owes u h

/-- Threads pay what they owe before they call the next operation, and callbacks let no tick
pass. -/
def selfContained : History → Bool
  | [] => true
  | r :: h =>
    selfContained h &&
      match r.move with
      | .call _ => !owes r.before.kernel.current h
      | .interrupt .tick => r.before.frames.isEmpty
      | _ => true

theorem owes_of_ne (hu : r.before.kernel.current ≠ u) : owes u (r :: h) = owes u h := by
  simp [owes, hu]

theorem owes_of_frames (hframes : r.before.frames ≠ []) : owes u (r :: h) = owes u h := by
  simp [owes, hframes]

theorem owes_of_move (hm : ∀ c, r.move ≠ .interrupt c) : owes u (r :: h) = owes u h := by
  rw [owes]
  split
  · cases hr : r.move with
    | interrupt c => exact absurd hr (hm c)
    | _ => rfl
  · rfl

/-- Only giving way pays. -/
theorem owes_mono (hm : r.move ≠ .interrupt .preempt) (ho : owes u h = true) :
    owes u (r :: h) = true := by
  rw [owes]
  split
  · cases hr : r.move with
    | interrupt c =>
        cases c with
        | preempt => exact absurd hr hm
        | _ => simp [ho]
    | _ => exact ho
  · exact ho

theorem owes_of_readies {c : InterruptCall} (hu : r.before.kernel.current = u)
    (hframes : r.before.frames = []) (hm : r.move = .interrupt c) (hc : c ≠ .preempt)
    (hr : r.readies = true) : owes u (r :: h) = true := by
  simp only [owes, hu, hframes, List.isEmpty_nil, Bool.and_self, decide_true, if_true, hm]
  cases c <;> simp [hr] at hc ⊢

/-- After every timer that is handled comes the check whether to give way. -/
def Paced : List Frame → Prop
  | [] => True
  | f :: rest => (f.handlesTimers = true → .preempt ∈ rest) ∧ Paced rest

theorem Paced.append (plain : ∀ f ∈ frames, f.handlesTimers = false) (hp : Paced rest) :
    Paced (frames ++ rest) := by
  induction frames with
  | nil => exact hp
  | cons f frames ih =>
      refine ⟨?_, ih fun g hg => plain g (List.mem_cons_of_mem f hg)⟩
      intro hf
      rw [plain f List.mem_cons_self] at hf
      cases hf

/-- What holds between two moves, as long as threads pay what they owe. -/
structure Steady (h : History) (x : Execution) : Prop where
  quantum : 0 < x.kernel.config.quantum
  paced : ∀ u, owes u h = true ∨ Paced (x.framesOf u)
  settled : owes x.kernel.current h = true ∨ .preempt ∈ x.frames ∨ x.kernel.Settled

/-- What a move has to see to for its own thread. -/
structure Proceeds (h : History) (x : Execution) (m : Move) (y : Execution) : Prop where
  paced : owes x.kernel.current (⟨x, m, y⟩ :: h) = true ∨ Paced (y.framesOf x.kernel.current)
  settled : owes y.kernel.current (⟨x, m, y⟩ :: h) = true ∨ .preempt ∈ y.frames ∨ y.kernel.Settled

theorem Steady.next (hx : Steady h x) (hk : x.kernel.Sound) (hg : MoveGoes m frames rest x y)
    (hp : Proceeds h x m y) : Steady (⟨x, m, y⟩ :: h) y := by
  refine ⟨?_, ?_, hp.settled⟩
  · rw [hg.works.does.config hk]
    exact hx.quantum
  · intro u
    by_cases hu : u = x.kernel.current
    · rw [hu]
      exact hp.paced
    · rw [owes_of_ne (Ne.symm hu)]
      rcases hg.others u hu with hsame | ⟨-, hstart⟩
      · rw [hsame]
        exact hx.paced u
      · rw [hstart]
        exact Or.inr ⟨nofun, trivial⟩

/-- The check for giving way is still to come if the thread goes on that it is left to. -/
theorem mem_frames (hcurrent : y.kernel.current = x.kernel.current)
    (hframes : y.framesOf x.kernel.current = frames ++ rest) (hmem : .preempt ∈ frames ++ rest) :
    .preempt ∈ y.frames := by
  change .preempt ∈ y.framesOf y.kernel.current
  rw [hcurrent, hframes]
  exact hmem

/-- A step that leaves the kernel settled as far as it was, and no timers to handle. -/
theorem Steady.proceeds (hx : Steady h x) (hm : ∀ c, m ≠ .interrupt c)
    (hc : Concludes x.kernel (y.kernel, frames))
    (hframes : y.framesOf x.kernel.current = frames ++ rest)
    (paced : Paced x.frames → Paced rest) (mem : .preempt ∈ x.frames → .preempt ∈ rest) :
    Proceeds h x m y := by
  have howes : ∀ u, owes u (⟨x, m, y⟩ :: h) = owes u h := fun u => owes_of_move hm
  refine ⟨?_, ?_⟩
  · rw [howes, hframes]
    rcases hx.paced x.kernel.current with howe | hpaced
    · exact Or.inl howe
    · exact Or.inr (.append hc.plain (paced hpaced))
  · rw [howes]
    by_cases hcurrent : y.kernel.current = x.kernel.current
    · rw [hcurrent]
      rcases hx.settled with howe | hmem | hsettled
      · exact Or.inl howe
      · have hmem := mem hmem
        exact Or.inr (Or.inl (mem_frames hcurrent hframes (List.mem_append_right _ hmem)))
      · exact Or.inr (Or.inr (hc.settles (Or.inl hsettled)))
    · exact Or.inr (Or.inr (hc.settles (Or.inr hcurrent)))

theorem beginTick_current {k k' : Kernel} (h : k.beginTick = .ok k') : k'.current = k.current := by
  obtain ⟨clock, timers, -, -, rfl⟩ := beginTick_ok h
  rfl

/-- A new thread takes the processor at once if it comes first. -/
theorem spawn_concludes {name : String} {p : Priority} {e : Routine} (hk : x.kernel.Sound)
    (quantum : 0 < x.kernel.config.quantum) (hmove : x.spawn name p e = .ok y) (a : Answer) :
    Concludes x.kernel (y.kernel, [.answer a]) := by
  unfold spawn at hmove
  split at hmove
  · cases hmove
  · obtain ⟨⟨made, x₁⟩, hcreate, hmove⟩ := bind_eq_ok.mp hmove
    obtain ⟨frames, hstep, -⟩ := perform_ok hmove
    rcases create_ok hcreate with ⟨err, rfl, -, hsame⟩ | ⟨t, rfl, hs, -, hkernel⟩
    · obtain ⟨hkernel, rfl⟩ := Prod.mk.inj (Except.ok.inj hstep)
      rw [hkernel] at hsame
      apply Calm.concludes
      · rcases hsame with hsame | ⟨t, hs, hsame⟩
        · rw [hsame]
          exact .refl _
        · rw [hsame]
          apply hk.inPlace.calm_vacate
          rw [hs]
          rfl
      · exact plain_answer a
    · obtain ⟨k₂, hready, hstep⟩ := bind_eq_ok.mp hstep
      obtain ⟨k₃, hpreempt, hstep⟩ := bind_eq_ok.mp hstep
      obtain ⟨rfl, rfl⟩ := Prod.mk.inj (Except.ok.inj hstep)
      rw [hkernel] at hready
      have hcreate : Effect (fun _ => True) x.kernel
          (x.kernel.replaceThread t (.create name p (some (.routine e)))) :=
        .create name p (.routine e) trivial hs
      have hnote : Effect (fun _ => True) _ _ :=
        note_effect (x.kernel.replaceThread t (.create name p (some (.routine e))))
          (.threadCreated name t p)
      have hk₁ := hnote.inPlace (hcreate.inPlace hk.inPlace)
      have hready : Effect (fun _ => True) _ k₂ := ready_suspended hk₁ trivial ?_ hready
      · have heffects : Relation.ReflTransGen (Effect fun _ => True) x.kernel k₂ :=
          ((Relation.ReflTransGen.single hcreate).tail hnote).tail hready
        exact .of_settled (preempt_after hk quantum heffects hpreempt) (plain_answer a)
      · change ((x.kernel.replaceThread t _).thread t).state = .suspended
        rw [thread_replaceThread, if_pos rfl]
        rfl

theorem Steady.proceeds_call {c : Call} (hx : Steady h x) (hk : x.kernel.Sound)
    (hup : x.kernel.initialized = true) (hnil : x.frames = []) (hmove : x.call c = .ok y) :
    Proceeds h x (.call c) y := by
  have hm : ∀ c', Move.call c ≠ .interrupt c' := nofun
  have hproceeds : ∀ {frames}, Concludes x.kernel (y.kernel, frames) →
      y.framesOf x.kernel.current = frames ++ [] → Proceeds h x (.call c) y := by
    intro frames hc hframes
    refine hx.proceeds hm hc hframes (fun _ => trivial) ?_
    rw [hnil]
    exact id
  cases c with
  | boot =>
      obtain ⟨e, -, rfl⟩ := boot_again hup hmove
      refine hproceeds ((Calm.refl _).concludes (plain_answer (.thread (.error e)))) ?_
      rw [framesOf_setFrames, if_pos rfl, hnil]
      rfl
  | spawn name p e =>
      obtain ⟨made, -, hmine, -⟩ := spawn_goes hk hmove
      rw [hnil] at hmine
      exact hproceeds (spawn_concludes hk hx.quantum hmove _) hmine
  | exit msg =>
      have hmove : x.exit msg = .ok y := hmove
      obtain ⟨frames, hstep, hframes⟩ := perform_ok hmove
      obtain ⟨k', hexit, hstep⟩ := bind_eq_ok.mp hstep
      obtain ⟨rfl, rfl⟩ := Prod.mk.inj (Except.ok.inj hstep)
      have hc : Concludes x.kernel (y.kernel, []) :=
        .of_settled (exit_settled hk.inPlace hx.quantum hexit) nofun
      refine hproceeds hc ?_
      rw [hframes, if_pos rfl]
  | operation c =>
      obtain ⟨frames, hstep, hframes⟩ := operation_step hmove
      rw [hnil] at hframes
      by_cases htick : c = .tick
      · subst htick
        obtain ⟨k', hbegin, hstep⟩ := bind_eq_ok.mp hstep
        obtain ⟨rfl, rfl⟩ := Prod.mk.inj (Except.ok.inj hstep)
        refine ⟨Or.inr ?_, Or.inr (Or.inl ?_)⟩
        · rw [hframes]
          simp [Paced, Frame.handlesTimers]
        · exact mem_frames (beginTick_current hbegin) hframes (by simp)
      · exact hproceeds (operation_concludes hk hx.quantum htick hstep) hframes

/-- Nothing was made ready that could not run before. -/
theorem calm_of_mild {k k' : Kernel} (hm : Mild k k') (hk : k.InPlace) (hk' : k'.InPlace)
    (none : ∀ t, (k.thread t).state.isRunnable = false → (k'.thread t).state.isRunnable = false) :
    Calm k k' := by
  refine ⟨hm, ?_⟩
  intro t hs
  have hrun : (k.thread t).state.isRunnable = true := by
    by_contra hnot
    have hnone := none t (eq_false_of_ne_true hnot)
    rw [hs] at hnone
    cases hnone
  cases hold : (k.thread t).state with
  | ready => rfl
  | running =>
      have hcurrent := (hk.running_iff t).mp hold
      rw [hcurrent, ← hm.current, hk'.state_current] at hs
      cases hs
  | _ =>
      rw [hold] at hrun
      cases hrun

theorem Steady.proceeds_interrupt {c : InterruptCall} (hx : Steady h x) (hk : x.kernel.Sound)
    (hy : y.kernel.Sound) (hself : selfContained (⟨x, .interrupt c, y⟩ :: h) = true)
    (hturn : x.frames = [] ∨ ∃ r rest, x.frames = .callback r true :: rest)
    (hmove : x.interrupt c = .ok y) : Proceeds h x (.interrupt c) y := by
  obtain ⟨frames, hstep, hframes⟩ := interrupt_step hmove
  by_cases hpreempt : c = .preempt
  · subst hpreempt
    obtain ⟨k', hgives, hstep⟩ := bind_eq_ok.mp hstep
    obtain ⟨rfl, rfl⟩ := Prod.mk.inj (Except.ok.inj hstep)
    refine ⟨?_, Or.inr (Or.inr (preempt_settled hk.inPlace hx.quantum hgives))⟩
    rw [hframes]
    rcases hturn with hnil | ⟨r, rest, hcallback⟩
    · rw [hnil]
      exact Or.inr (.append (plain_answer _) trivial)
    · rw [owes_of_frames (by rw [hcallback]; exact nofun)]
      exact (hx.paced x.kernel.current).imp_right (.append (plain_answer _))
  · have hmono : ∀ u, owes u h = true → owes u (⟨x, .interrupt c, y⟩ :: h) = true := by
      intro u
      refine owes_mono ?_
      rintro ⟨⟩
      exact hpreempt rfl
    by_cases htick : c = .tick
    · subst htick
      obtain ⟨k', hbegin, hstep⟩ := bind_eq_ok.mp hstep
      obtain ⟨rfl, rfl⟩ := Prod.mk.inj (Except.ok.inj hstep)
      have hnil : x.frames.isEmpty = true := (Bool.and_eq_true_iff.mp hself).2
      have howes : owes x.kernel.current (⟨x, .interrupt .tick, y⟩ :: h) = true := by
        simp [owes, hnil]
      refine ⟨Or.inl howes, Or.inl ?_⟩
      rw [beginTick_current hbegin]
      exact howes
    · obtain ⟨hmild, a, rfl⟩ := interrupt_mild hk hpreempt htick hstep
      have hcurrent : y.kernel.current = x.kernel.current := hmild.current
      refine ⟨?_, ?_⟩
      · rw [hframes]
        exact (hx.paced x.kernel.current).imp (hmono _) (.append (plain_answer a))
      · rw [hcurrent]
        by_cases howe : owes x.kernel.current (⟨x, .interrupt c, y⟩ :: h) = true
        · exact Or.inl howe
        · have hnot : owes x.kernel.current h ≠ true := fun ho => howe (hmono _ ho)
          rcases hturn with hnil | ⟨r, rest, hcallback⟩
          · have hreadies : ¬ (⟨x, .interrupt c, y⟩ : Record).readies = true :=
              fun hr => howe (owes_of_readies rfl hnil rfl hpreempt hr)
            have hsettled : x.kernel.Settled := by
              rcases hx.settled with ho | hmem | hsettled
              · exact absurd ho hnot
              · rw [hnil] at hmem
                cases hmem
              · exact hsettled
            have hcalm := calm_of_mild hmild hk.inPlace hy.inPlace ?_
            · exact Or.inr (Or.inr (hcalm.settled hsettled))
            · intro t ht
              by_contra hrun
              exact hreadies (decide_eq_true ⟨t, ht, eq_true_of_ne_false hrun⟩)
          · have hpaced := (hx.paced x.kernel.current).resolve_left hnot
            have hpaced : Paced x.frames := hpaced
            rw [hcallback] at hpaced
            refine Or.inr (Or.inl (mem_frames hcurrent hframes ?_))
            rw [hcallback]
            exact List.mem_append_right _ (List.mem_cons_of_mem _ (hpaced.1 rfl))

/-- Something is left that is neither a check nor concerns the kernel. -/
theorem Steady.proceeds_tail {f : Frame} (hx : Steady h x) (hm : ∀ c, m ≠ .interrupt c)
    (hframes : x.frames = f :: rest) (hf : f ≠ .preempt) (hy : y = x.setFrames rest) :
    Proceeds h x m y := by
  subst hy
  have hmine := framesOf_setFrames x rest x.kernel.current
  rw [if_pos rfl] at hmine
  have hc : Concludes x.kernel ((x.setFrames rest).kernel, []) :=
    (Calm.refl x.kernel).concludes nofun
  refine hx.proceeds hm hc hmine ?_ ?_
  · rw [hframes]
    exact fun hp => hp.2
  · rw [hframes]
    exact fun hmem => (List.mem_cons.mp hmem).resolve_left (Ne.symm hf)

theorem Steady.proceeds_enter (hx : Steady h x) (hallows : x.allows .enter = true) :
    Proceeds h x .enter x.enter := by
  rcases allows_enter hallows with ⟨rest, hframes⟩ | ⟨r, rest, hframes⟩
  · have henter := enter_start hframes
    have hmine : x.enter.framesOf x.kernel.current = [] ++ rest := by
      rw [henter]
      exact (framesOf_setFrames x rest _).trans (if_pos rfl)
    have hcalm : Calm x.kernel x.enter.kernel := by
      rw [henter]
      exact calm_mark x.kernel x.kernel.current x.kernel.running.terminate none
    have hc : Concludes x.kernel (x.enter.kernel, []) := hcalm.concludes nofun
    refine hx.proceeds nofun hc hmine ?_ ?_
    · rw [hframes]
      exact fun hp => hp.2
    · rw [hframes]
      exact fun hmem => (List.mem_cons.mp hmem).resolve_left nofun
  · have henter := enter_callback hframes
    have hmine : x.enter.framesOf x.kernel.current = [] ++ .callback r true :: rest := by
      rw [henter]
      exact (framesOf_setFrames x _ _).trans (if_pos rfl)
    have hcalm : Calm x.kernel x.enter.kernel := by
      rw [henter]
      exact .refl x.kernel
    have hc : Concludes x.kernel (x.enter.kernel, []) := hcalm.concludes nofun
    refine hx.proceeds nofun hc hmine ?_ ?_
    · rw [hframes]
      exact id
    · rw [hframes]
      intro hmem
      exact List.mem_cons_of_mem _ ((List.mem_cons.mp hmem).resolve_left nofun)

theorem Steady.proceeds_advance (hx : Steady h x) (hfit : x.Fit)
    (hallows : x.allows .advance = true) (hmove : x.advance = .ok y) : Proceeds h x .advance y := by
  have hk := hfit.sound
  obtain ⟨f, rest, hx', hanswer, hcallback⟩ := allows_advance hallows
  obtain ⟨frames, hstep, hframes⟩ := advance_step hx' hmove
  have howes : ∀ u, owes u (⟨x, .advance, y⟩ :: h) = owes u h := fun u => owes_of_move nofun
  by_cases hfire : f.handlesTimers = true
  · have hf : f = .fire := by
      cases f with
      | fire => rfl
      | callback r entered => exact absurd rfl (hcallback r entered)
      | _ => cases hfire
    subst hf
    obtain ⟨hcurrent, hleft⟩ := fire_leaves hk.inPlace hstep
    have hpaced : owes x.kernel.current h = true ∨ Paced x.frames := hx.paced x.kernel.current
    rw [hx'] at hpaced
    refine ⟨?_, ?_⟩
    · rw [howes, hframes]
      refine hpaced.imp_right fun hp => ?_
      rcases hleft with rfl | rfl | ⟨r, rfl⟩
      · exact hp.2
      · exact hp
      · exact ⟨fun _ => List.mem_cons_of_mem _ (hp.1 rfl), hp⟩
    · rw [howes, show y.kernel.current = x.kernel.current from hcurrent]
      refine hpaced.imp_right fun hp => Or.inl ?_
      exact mem_frames hcurrent hframes (List.mem_append_right _ (hp.1 rfl))
  · have hplain := eq_false_of_ne_true hfire
    have hended : ∀ t, f = .collect t → (x.kernel.thread t).state = .final := by
      rintro t rfl
      refine hfit.ended t ?_
      rw [hx']
      exact List.mem_cons_self
    have hc := frame_concludes hk hx.quantum hended hplain hstep
    by_cases hpreempt : f = .preempt
    · subst hpreempt
      obtain ⟨k', hgives, hstep⟩ := bind_eq_ok.mp hstep
      obtain ⟨rfl, rfl⟩ := Prod.mk.inj (Except.ok.inj hstep)
      refine ⟨?_, Or.inr (Or.inr (preempt_settled hk.inPlace hx.quantum hgives))⟩
      have hpaced : owes x.kernel.current h = true ∨ Paced x.frames := hx.paced x.kernel.current
      rw [hx'] at hpaced
      rw [howes, hframes]
      exact hpaced.imp_right fun hp => hp.2
    · refine hx.proceeds nofun hc hframes ?_ ?_
      · rw [hx']
        exact fun hp => hp.2
      · rw [hx']
        exact fun hmem => (List.mem_cons.mp hmem).resolve_left (Ne.symm hpreempt)

theorem Steady.step (hx : Steady h x) (hfit : x.Fit)
    (hself : selfContained (⟨x, m, y⟩ :: h) = true) (hallows : x.allows m = true)
    (hm : m ≠ .collectLog) (hmove : x.move m = .ok y) : Steady (⟨x, m, y⟩ :: h) y := by
  obtain ⟨frames, rest, hgoes⟩ := move_goes hfit hallows hm hmove
  have hk := hfit.sound
  have hy := hgoes.works.does.sound hk
  apply hx.next hk hgoes
  cases m with
  | call c => exact hx.proceeds_call hk hfit.initialized (allows_call hallows).1 hmove
  | interrupt c => exact hx.proceeds_interrupt hk hy hself (allows_interrupt hallows).1 hmove
  | takeAnswer =>
      obtain rfl := Except.ok.inj hmove
      obtain ⟨a, rest, hframes⟩ := allows_takeAnswer hallows
      refine hx.proceeds_tail nofun hframes nofun ?_
      rw [dropFrame, hframes]
      rfl
  | enter =>
      obtain rfl := Except.ok.inj hmove
      exact hx.proceeds_enter hallows
  | leave =>
      obtain rfl := Except.ok.inj hmove
      obtain ⟨r, rest, hframes⟩ := allows_leave hallows
      refine hx.proceeds_tail nofun hframes nofun ?_
      rw [dropFrame, hframes]
      rfl
  | advance => exact hx.proceeds_advance hfit hallows hmove
  | collectLog => exact absurd rfl hm

theorem Steady.withoutLog (hx : Steady h x) :
    Steady (⟨x, .collectLog, x.withoutLog⟩ :: h) x.withoutLog := by
  have howes : ∀ u, owes u (⟨x, .collectLog, x.withoutLog⟩ :: h) = owes u h :=
    fun u => owes_of_move nofun
  refine ⟨hx.quantum, ?_, ?_⟩
  · intro u
    rw [howes]
    exact hx.paced u
  · have hcalm : Calm x.kernel x.withoutLog.kernel := .of_threads rfl rfl rfl
    rw [howes]
    exact hx.settled.imp_right fun hs => hs.imp_right hcalm.settled

theorem quantum_pos_of_boot {config : Config} {k : Kernel}
    (hboot : ({ config } : Kernel).boot = .ok k) : 0 < config.quantum := by
  by_contra hzero
  have hzero : config.quantum = 0 := by omega
  have hinvalid : ∃ e, config.validate = .error e := by
    unfold Config.validate
    split <;> exact ⟨_, rfl⟩
  obtain ⟨e, he⟩ := hinvalid
  unfold Kernel.boot at hboot
  simp only [he] at hboot
  cases hboot

/-- At first no thread but the boot thread has a priority above that of the idle thread. -/
theorem Raised.priority {config : Config} {k₁ k₂ : Kernel} (hr : Raised config x k₁ k₂ t)
    (hu : u ≠ mainThread) : x.kernel.priorityOf u = .idle := by
  obtain ⟨-, -, -, hmoves⟩ := ready_ok hr.sound.inPlace.toLinked hr.ready
  have hold : ((withIdle k₁ t).thread u).priority = .idle := by
    change ((k₁.replaceThread t _).thread u).priority = .idle
    rw [thread_replaceThread, boot_eq hr.boot, thread_solo, if_neg hu]
    split <;> rfl
  have hnew : x.kernel.thread u = k₂.thread u := by
    rw [hr.kernel]
    rfl
  rw [priorityOf, hnew, hmoves.thread]
  split
  · rename_i hut
    rw [hut] at hold
    exact hold
  · exact hold

theorem Raised.frame {config : Config} {k₁ k₂ : Kernel} (hr : Raised config x k₁ k₂ t) :
    x.kernel.current = mainThread ∧ x.kernel.config = config ∧
      x.kernel.quantumLeft = config.quantum := by
  obtain ⟨-, -, -, hmoves⟩ := ready_ok hr.sound.inPlace.toLinked hr.ready
  rw [hr.kernel, hmoves.frame, boot_eq hr.boot]
  exact ⟨rfl, rfl, rfl⟩

theorem Booted.steady (hb : Booted x) : Steady [] x := by
  have hk := hb.orderly.sound.inPlace
  obtain ⟨config, k₁, k₂, t, hr⟩ := hb.raised
  obtain ⟨hcurrent, hconfig, hleft⟩ := hr.frame
  have hquantum := quantum_pos_of_boot hr.boot
  refine ⟨hconfig ▸ hquantum, ?_, Or.inr (Or.inr ⟨?_, ?_⟩)⟩
  · intro u
    have hpaced : Paced (x.framesOf u ++ []) := by
      refine .append ?_ trivial
      intro f hf
      rcases hr.plain u f hf with rfl | ⟨a, rfl⟩ <;> rfl
    rw [List.append_nil] at hpaced
    exact Or.inr hpaced
  · intro u hu
    have hne : u ≠ mainThread := by
      rintro rfl
      rw [← hcurrent, hk.state_current] at hu
      cases hu
    rw [hr.priority hne]
    exact x.kernel.running.priority.level_le
  · intro hzero
    rw [hleft] at hzero
    omega

theorem Reaches.steady (hr : Reaches h x) (hj : JoinedOnce h) (hs : selfContained h = true) :
    Steady h x := by
  induction hr with
  | boot hb => exact hb.steady
  | @move h x y m hr hallows hmove ih =>
      have hx := ih hj.tail (Bool.and_eq_true_iff.mp hs).1
      by_cases hm : m = .collectLog
      · subst hm
        obtain rfl := Except.ok.inj hmove
        exact hx.withoutLog
      · exact hx.step (hr.orderly hj.tail).fit hs hallows hm hmove

/-- Priorities and turns decide who runs. -/
structure Disciplined (h : History) (x : Execution) : Prop where
  /-- While a thread's own code is at work that owes nothing, no other thread has to run first. -/
  settled : x.outside = true → owes x.kernel.current h = false →
    x.kernel.isPreemptionRequired = false
  /-- No ready thread has a higher priority than the running one. -/
  le : x.outside = true → owes x.kernel.current h = false →
    ∀ t, (x.kernel.thread t).state = .ready →
      x.kernel.running.priority.level ≤ (x.kernel.priorityOf t).level
  /-- Once its quantum is used up none has an equal priority either. -/
  lt : x.outside = true → owes x.kernel.current h = false → x.kernel.quantumLeft = 0 →
    ∀ t, (x.kernel.thread t).state = .ready →
      x.kernel.running.priority.level < (x.kernel.priorityOf t).level
  /-- A thread that is given the processor has the highest priority of all that could run, but
  for the one that leaves. -/
  chosen : ∀ r ∈ h, r.after.kernel.current ≠ r.before.kernel.current →
    ∀ t, t ≠ r.before.kernel.current → (r.after.kernel.thread t).state.isRunnable = true →
      r.after.kernel.running.priority.level ≤ (r.after.kernel.priorityOf t).level

theorem Steady.settled_of_outside (hx : Steady h x) (hout : x.outside = true)
    (howe : owes x.kernel.current h = false) : x.kernel.Settled := by
  rcases hx.settled with ho | hmem | hsettled
  · rw [howe] at ho
    cases ho
  · unfold outside at hout
    split at hout
    · rename_i hframes
      rw [hframes] at hmem
      cases hmem
    · rename_i hframes
      rw [hframes] at hmem
      cases List.mem_singleton.mp hmem
    · rename_i hframes
      rw [hframes] at hmem
      cases List.mem_singleton.mp hmem
    · cases hout
  · exact hsettled

/-- Whenever the processor passes, it passes to the first of all that could run. -/
theorem Reaches.chosen (hr : Reaches h x) (hj : JoinedOnce h) (hmem : r ∈ h)
    (passes : r.after.kernel.current ≠ r.before.kernel.current)
    (ht : t ≠ r.before.kernel.current) (runs : (r.after.kernel.thread t).state.isRunnable = true) :
    r.after.kernel.running.priority.level ≤ (r.after.kernel.priorityOf t).level := by
  induction hr with
  | boot => cases hmem
  | @move h x y m hr hallows hmove ih =>
      rcases List.mem_cons.mp hmem with rfl | hmem
      · have hfit := (hr.orderly hj.tail).fit
        exact (move_does hfit hallows hmove).first_le hfit.sound passes ht runs
      · exact ih hj.tail hmem

theorem reaches_disciplined (hr : Reaches h x) (hj : JoinedOnce h)
    (hs : selfContained h = true) : Disciplined h x := by
  have hsteady := hr.steady hj hs
  have hk := (hr.orderly hj).sound.inPlace
  refine ⟨?_, ?_, ?_, fun r hmem passes t => hr.chosen hj hmem passes⟩
  · exact fun hout howe => hk.settled_iff.mp (hsteady.settled_of_outside hout howe)
  · exact fun hout howe => (hsteady.settled_of_outside hout howe).le
  · exact fun hout howe => (hsteady.settled_of_outside hout howe).lt

/-- A thread of a higher priority takes the processor and sleeps; a tick wakes it again. -/
def preempting : List Move :=
  [.takeAnswer, .call (.spawn "urgent" .critical "work"), .enter,
    .call (.operation (.sleep 1)), .takeAnswer,
    .interrupt (.setTimer ⟨1, by decide, by decide⟩ "late"), .takeAnswer,
    .call (.operation .tick), .advance, .enter, .leave, .advance, .advance, .advance, .advance]

theorem disciplined_preempting : Reaches (enact preempting).1 (enact preempting).2 ∧
    JoinedOnce (enact preempting).1 ∧ selfContained (enact preempting).1 = true ∧
    Disciplined (enact preempting).1 (enact preempting).2 :=
  have hr := reaches_enact (by decide +kernel)
  have hj : JoinedOnce (enact preempting).1 := by decide +kernel
  have hs : selfContained (enact preempting).1 = true := by decide +kernel
  ⟨hr, hj, hs, reaches_disciplined hr hj hs⟩

end RealtimeKernel.Execution

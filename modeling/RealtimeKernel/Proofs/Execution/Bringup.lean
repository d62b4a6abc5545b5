import RealtimeKernel.Proofs.Kernel.Pristine
import RealtimeKernel.Proofs.Kernel.Totality
import RealtimeKernel.Proofs.Execution.Preemption

/-!
What is left when the kernel cannot be brought up. A kernel that refuses is left as it was. One
that got as far as the idle thread is not: its boot thread stays, and it counts as up for good.
-/
namespace RealtimeKernel.Execution
open Kernel

variable {x y : Execution} {k k' : Kernel} {e : KernelError} {t : ThreadId} {config : Config}
  {platform : Platform}

/-- The kernel is not to be brought up: its settings are no good, or it counts as up. -/
inductive Refuses (k : Kernel) : KernelError → Prop
  | config {c : ConfigError} : k.config.validate = .error c → Refuses k (.config c)
  | initialized : k.config.validate = .ok () → k.initialized = true →
    Refuses k .alreadyInitialized

/-- The kernel with its boot thread, before there is an idle thread. -/
def begun (k : Kernel) : Kernel :=
  { { k with initialized := true }.replaceThread mainThread (bootThread k.config) with
    current := mainThread
    quantumLeft := k.config.quantum }

/-- How bringing up a kernel ends without an idle thread, and the kernel that it leaves. -/
inductive Abandons (x : Execution) : KernelError → Kernel → Prop
  | full : (∀ t, t ≠ mainThread → (x.kernel.thread t).isActive = true) →
    Abandons x .threadTableFull (begun x.kernel)
  /-- The platform has no context for the idle thread, whose slot is freed again. -/
  | noContext {t : ThreadId} {e : KernelError} : t ≠ mainThread →
    (x.kernel.thread t).isActive = false → x.platform x.requests = .error e →
    Abandons x e ((begun x.kernel).vacate t)

theorem boot_eq_error_iff : k.boot = .error e ↔ Refuses k e := by
  unfold Kernel.boot
  constructor
  · intro h
    cases hv : k.config.validate with
    | error c =>
        simp only [hv] at h
        obtain rfl := Except.error.inj h
        exact .config hv
    | ok u =>
        simp only [hv] at h
        split at h
        · rename_i hup
          obtain rfl := Except.error.inj h
          exact .initialized hv hup
        · cases h
  · rintro (hv | ⟨hv, hup⟩)
    · simp only [hv]
      rfl
    · simp only [hv, hup, if_true]
      rfl

theorem eq_begun_of_boot (h : k.boot = .ok k') : k' = begun k := by
  unfold Kernel.boot at h
  cases hv : k.config.validate with
  | error c =>
      simp only [hv] at h
      cases h
  | ok u =>
      simp only [hv] at h
      split at h
      · cases h
      · exact (Except.ok.inj h).symm

theorem thread_begun (k : Kernel) (t : ThreadId) :
    (begun k).thread t = if t = mainThread then bootThread k.config else k.thread t :=
  thread_replaceThread { k with initialized := true } mainThread t (bootThread k.config)

theorem isActive_begun (k : Kernel) (t : ThreadId) :
    ((begun k).thread t).isActive = true ↔ t = mainThread ∨ (k.thread t).isActive = true := by
  rw [thread_begun]
  split
  · rename_i ht
    exact iff_of_true rfl (Or.inl ht)
  · rename_i ht
    exact ⟨Or.inr, fun h => h.resolve_left ht⟩

theorem freeSlot_eq_none (h : (begun k).freeSlot? = none) (ht : t ≠ mainThread) :
    (k.thread t).isActive = true := by
  exact ((isActive_begun k t).mp (freeSlot?_eq_none.mp h t)).resolve_left ht

theorem freeSlot_eq_some (h : (begun k).freeSlot? = some t) :
    t ≠ mainThread ∧ (k.thread t).isActive = false := by
  have hnot : ¬ (t = mainThread ∨ (k.thread t).isActive = true) := by
    rw [← isActive_begun, isActive_of_freeSlot h]
    exact Bool.false_ne_true
  exact ⟨fun ht => hnot (Or.inl ht), eq_false_of_ne_true fun ht => hnot (Or.inr ht)⟩

theorem turn_of_frames {a : Answer} {rest : List Frame} (h : x.frames = .answer a :: rest) :
    x.turn = .answer a := by
  unfold turn
  rw [h]

theorem current_of_ready {r : WakeupResult} (h : k.ready t r = .ok k') :
    k'.current = k.current := by
  unfold ready at h
  obtain ⟨timers, -, h⟩ := bind_eq_ok.mp h
  dsimp only at h
  split at h
  · cases h
  · unfold enqueue at h
    split at h
    · obtain ⟨k₁, hlink, h⟩ := bind_eq_ok.mp h
      obtain rfl := Except.ok.inj h
      rw [relink_frame hlink]
      rfl
    · cases h

/-- Once the boot thread is there, either the platform has a context for the idle thread, or the
attempt is abandoned. -/
theorem create_begun (x : Execution) {made : Except KernelError ThreadId}
    (h : ({ x with kernel := begun x.kernel } : Execution).create "idle" .idle .idle =
      .ok (made, y)) :
    (∃ t, made = .ok t) ∨ ∃ e, made = .error e ∧ Abandons x e y.kernel := by
  unfold create at h
  rw [if_neg (show ¬ (!(begun x.kernel).initialized) = true by exact Bool.false_ne_true)] at h
  cases hslot : (begun x.kernel).freeSlot? with
  | none =>
      simp only [hslot] at h
      obtain ⟨rfl, rfl⟩ := Prod.mk.inj (Except.ok.inj h)
      exact Or.inr ⟨_, rfl, .full fun t ht => freeSlot_eq_none hslot ht⟩
  | some t =>
      obtain ⟨ht, hfree⟩ := freeSlot_eq_some hslot
      simp only [hslot] at h
      split at h
      · rename_i e he
        obtain ⟨rfl, rfl⟩ := Prod.mk.inj (Except.ok.inj h)
        refine Or.inr ⟨e, rfl, ?_⟩
        dsimp only
        rw [vacate_replaceThread]
        exact .noContext ht hfree he
      · obtain ⟨rfl, -⟩ := Prod.mk.inj (Except.ok.inj h)
        exact Or.inl ⟨t, rfl⟩

/-- An attempt to bring the kernel up is refused, abandoned or crowned with success. -/
theorem boot_ok (h : x.boot = .ok y) :
    (∃ e, Refuses x.kernel e ∧ y = x.setFrames (.answer (.thread (.error e)) :: x.frames)) ∨
      (∀ e, ¬ Refuses x.kernel e) ∧
        (y.turn = .answer (.thread (.ok mainThread)) ∨
          ∃ e, Abandons x e y.kernel ∧ y.turn = .answer (.thread (.error e))) := by
  unfold boot at h
  cases hk : x.kernel.boot with
  | error e =>
      simp only [hk] at h
      exact Or.inl ⟨e, boot_eq_error_iff.mp hk, (Except.ok.inj h).symm⟩
  | ok k =>
      simp only [hk] at h
      refine Or.inr ⟨?_, ?_⟩
      · intro e he
        rw [boot_eq_error_iff.mpr he] at hk
        cases hk
      · obtain rfl := eq_begun_of_boot hk
        obtain ⟨⟨made, x₁⟩, hcreate, h⟩ := bind_eq_ok.mp h
        obtain ⟨frames, hstep, hframes⟩ := perform_ok h
        have hturn : ∀ a, y.kernel.current = x₁.kernel.current → frames = [.answer a] →
            y.turn = .answer a := by
          rintro a hcurrent rfl
          have hanswer : y.frames = .answer a :: x₁.frames := by
            change y.framesOf y.kernel.current = _
            rw [hframes, if_pos hcurrent]
            rfl
          exact turn_of_frames hanswer
        rcases create_begun x hcreate with ⟨t, rfl⟩ | ⟨e, rfl, habandons⟩
        · obtain ⟨k', hready, hstep⟩ := bind_eq_ok.mp hstep
          obtain ⟨hy, rfl⟩ := Prod.mk.inj (Except.ok.inj hstep)
          refine Or.inl (hturn _ ?_ rfl)
          have hcurrent := current_of_ready hready
          rw [← hy]
          exact hcurrent
        · obtain ⟨hy, rfl⟩ := Prod.mk.inj (Except.ok.inj hstep)
          rw [hy] at habandons
          exact Or.inr ⟨e, habandons, hturn _ (by rw [hy]) rfl⟩

theorem Abandons.initialized (h : Abandons x e k) : k.initialized = true := by
  cases h <;> rfl

theorem Abandons.config_eq (h : Abandons x e k) : k.config = x.kernel.config := by
  cases h <;> rfl

/-- What a failed attempt to bring the kernel up leaves: the kernel as it was if that refused, else
one that refuses from then on. -/
structure Leaves (x y : Execution) (e : KernelError) : Prop where
  kept : y.kernel = x.kernel ↔ Refuses x.kernel e
  alone : Refuses x.kernel e → y = x.setFrames (.answer (.thread (.error e)) :: x.frames)
  abandoned : ¬ Refuses x.kernel e → Abandons x e y.kernel
  barred : ¬ Refuses x.kernel e → ∀ z : Execution, z.kernel = y.kernel →
    z.call .boot = .ok (z.setFrames (.answer (.thread (.error .alreadyInitialized)) :: z.frames))

theorem leaves_of_boot (h : x.call .boot = .ok y) (hturn : y.turn = .answer (.thread (.error e))) :
    Leaves x y e := by
  rcases boot_ok h with ⟨e', hrefuses, rfl⟩ | ⟨hnot, hok | ⟨e', habandons, herror⟩⟩
  · have hframes : (x.setFrames (.answer (.thread (.error e')) :: x.frames)).frames =
        .answer (.thread (.error e')) :: x.frames :=
      (framesOf_setFrames x _ x.kernel.current).trans (if_pos rfl)
    rw [turn_of_frames hframes] at hturn
    obtain rfl : e' = e := by cases hturn; rfl
    exact ⟨iff_of_true rfl hrefuses, fun _ => rfl, absurd hrefuses, absurd hrefuses⟩
  · rw [hok] at hturn
    cases hturn
  · rw [herror] at hturn
    obtain rfl : e' = e := by cases hturn; rfl
    have hvalid : x.kernel.config.validate = .ok () := by
      cases hv : x.kernel.config.validate with
      | ok u => rfl
      | error c => exact absurd (.config hv) (hnot (.config c))
    -- What is left is initialized, so it refuses from then on, which the old kernel did not.
    have hrefuses : Refuses y.kernel .alreadyInitialized := by
      refine .initialized ?_ habandons.initialized
      rw [habandons.config_eq]
      exact hvalid
    refine ⟨iff_of_false ?_ (hnot e'), fun hr => absurd hr (hnot e'), fun _ => habandons, ?_⟩
    · intro hsame
      rw [hsame] at hrefuses
      exact hnot _ hrefuses
    · intro _ z hz
      rw [← hz, ← boot_eq_error_iff] at hrefuses
      change z.boot = _
      unfold boot
      rw [hrefuses]
      rfl

/-- A kernel that is up: its boot thread runs, and its idle thread alone is ready. -/
structure Up (x : Execution) : Prop where
  current : x.kernel.current = mainThread
  running : x.kernel.running = bootThread x.kernel.config
  idle : ∃ t, x.kernel.idle = some t ∧ (x.kernel.thread t).state = .ready ∧
    x.kernel.members .ready = [t]

theorem Booted.up (hb : Booted x) : Up x := by
  obtain ⟨config, k₁, k₂, t, hr⟩ := hb.raised
  obtain ⟨hcurrent, hconfig, -⟩ := hr.frame
  have hlinked := hr.sound.inPlace.toLinked
  obtain ⟨-, -, -, hmoves⟩ := ready_ok hlinked hr.ready
  have hthread : ∀ u, x.kernel.thread u = k₂.thread u := by
    rw [hr.kernel]
    exact fun u => rfl
  have hsolo := boot_eq hr.boot
  have hnew : ∀ u, (withIdle k₁ t).thread u =
      if u = t then .create "idle" .idle (some .idle) else k₁.thread u :=
    fun u => thread_replaceThread k₁ t u _
  have hmain : k₁.thread mainThread = bootThread config := by
    rw [hsolo, thread_solo, if_pos rfl]
  have hne : mainThread ≠ t := by
    rintro rfl
    have hfree := hr.free
    rw [hmain] at hfree
    cases hfree
  refine ⟨hcurrent, ?_, t, ?_, ?_, ?_⟩
  · rw [running, hcurrent, hthread, hmoves.thread, if_neg hne, hnew, if_neg hne, hmain, hconfig]
  · rw [hr.kernel, hmoves.frame]
    rfl
  · rw [hthread, hmoves.thread, if_pos rfl]
  · have hk₁ : k₁.InPlace := by
      rw [hsolo]
      exact solo_inPlace config _ rfl rfl
    have hfree : (k₁.thread t).queue = none := hk₁.queue_eq_none_of_state (Or.inl hr.free)
    have hempty : (withIdle k₁ t).members .ready = [] := by
      refine (replaceThread_members hk₁.toLinked hfree rfl .ready).trans ?_
      rw [hsolo]
      exact members_solo config _ rfl .ready
    have hmembers : x.kernel.members .ready = k₂.members .ready := by rw [hr.kernel]; rfl
    rw [hmembers, hmoves.members]
    change Lines.enter (Lines.leave (withIdle k₁ t).members t) false _ .ready t .ready = [t]
    rw [Lines.enter, Function.update_self, Lines.leave, hempty]
    rfl

/-- The first slot after that of the boot thread is free on a fresh kernel. -/
theorem freeSlot_fresh (config : Config) : (begun { config }).freeSlot? = some 1 := by
  have hfree : (fun t => !((begun { config }).thread t).isActive) =
      fun t => decide (t ≠ mainThread) := by
    funext t
    rw [thread_begun, fresh_thread config false t]
    by_cases ht : t = mainThread
    · rw [if_pos ht, ht]
      rfl
    · rw [if_neg ht, decide_eq_true ht]
      rfl
  unfold freeSlot?
  rw [hfree]
  decide

/-- A fresh kernel whose settings are good comes up on a platform with a context for its idle
thread. -/
theorem exists_booted (hv : config.validate = .ok ()) (hp : platform 0 = .ok ()) :
    ∃ y, (fresh config platform).call .boot = .ok y ∧ Booted y := by
  have hboot : (fresh config platform).kernel.boot = .ok (begun { config }) := by
    change ({ config } : Kernel).boot = _
    unfold Kernel.boot
    simp only [hv]
    rfl
  obtain ⟨k, hready⟩ : ∃ k, (withIdle (begun { config }) 1).ready 1 .ok = .ok k := by
    have hnew : (withIdle (begun { config }) 1).thread 1 = .create "idle" .idle (some .idle) :=
      (thread_replaceThread _ 1 1 _).trans (if_pos rfl)
    have hbegun : (begun { config }).Linked := by
      rw [boot_eq hboot]
      exact (solo_inPlace config _ rfl rfl).toLinked
    have hfree : ((begun { config }).thread 1).queue = none := by
      rw [thread_begun, fresh_thread config false 1]
      rfl
    have hmoves : Moves false 1 (.create "idle" .idle (some .idle)) (begun { config }) _ :=
      hbegun.moves_replaceThread false hfree rfl
    have hlinked := hmoves.linked hbegun
    refine ready_total (k := withIdle (begun { config }) 1) ⟨hlinked.hold, hlinked.mem_iff⟩
      (TimerQueue.sound_empty _ _) ?_ ?_ .ok
    · rw [hnew]
      rfl
    · rw [hnew]
      rfl
  obtain ⟨x₁, hcreate, hidle, hframes⟩ : ∃ x₁ : Execution,
      ({ fresh config platform with kernel := begun { config } } : Execution).create "idle" .idle
        .idle = .ok (.ok 1, x₁) ∧
      { x₁.kernel with idle := some 1 } = withIdle (begun { config }) 1 ∧ x₁.frames = [] := by
    unfold create
    simp only [freeSlot_fresh, fresh, hp]
    refine ⟨_, if_neg Bool.false_ne_true, rfl, ?_⟩
    exact (get_set_fin _ 1 mainThread [.start]).trans (get_replicate _ _)
  have hcurrent : k.current = x₁.kernel.current :=
    (current_of_ready hready).trans (congrArg Kernel.current hidle).symm
  rw [← hidle] at hready
  have hcall : (fresh config platform).boot =
      .ok { x₁.setFrames ([.answer (.thread (.ok mainThread))] ++ x₁.frames) with
        kernel := k.note (.kernelUp k.config.tickRate k.config.quantum) } := by
    unfold boot
    rw [hboot]
    exact bind_eq_ok.mpr ⟨_, hcreate, bind_eq_ok.mpr ⟨_, bind_eq_ok.mpr ⟨k, hready, rfl⟩, rfl⟩⟩
  refine ⟨_, hcall, config, platform, hcall, ?_⟩
  rw [hframes]
  exact (framesOf_setFrames x₁ _ k.current).trans (if_pos hcurrent)

/-- An attempt to bring the kernel up that is refused leaves all as it was. One that is not refused
and yet fails leaves its boot thread behind, and no later one succeeds. A fresh kernel is not
refused unless its settings are no good, and comes up unless the platform has no context. -/
theorem boot_leaves (x : Execution) :
    (∀ y e, x.call .boot = .ok y → y.turn = .answer (.thread (.error e)) → Leaves x y e) ∧
      ∀ config platform, x = fresh config platform → config.validate = .ok () →
        platform 0 = .ok () → ∃ y, x.call .boot = .ok y ∧ Booted y ∧ Up y := by
  refine ⟨fun y e => leaves_of_boot, ?_⟩
  rintro config platform rfl hv hp
  obtain ⟨y, hcall, hb⟩ := exists_booted hv hp
  exact ⟨y, hcall, hb, hb.up⟩

/-- A fresh kernel on a platform that has no context for the first request, but for later ones. -/
def grudging : Execution :=
  fresh .standard fun n => if n = 0 then .error .contextUnavailable else .ok ()

theorem leaves_grudging : ∃ y, grudging.call .boot = .ok y ∧
    y.turn = .answer (.thread (.error .contextUnavailable)) ∧
    Leaves grudging y .contextUnavailable ∧ ¬ Refuses grudging.kernel .contextUnavailable ∧
    Config.standard.validate = .ok () ∧
    ∃ z, (fresh .standard fun _ => .ok ()).call .boot = .ok z ∧ Booted z ∧ Up z := by
  refine ⟨_, rfl, rfl, (boot_leaves grudging).1 _ _ rfl rfl, ?_, rfl, ?_⟩
  · intro hrefuses
    cases hrefuses
  · exact (boot_leaves _).2 .standard (fun _ => .ok ()) rfl rfl rfl

/-- It fails, but not without a trace: when the platform is ready, the kernel refuses. -/
theorem not_kept_grudging : ∃ y, grudging.call .boot = .ok y ∧
    y.turn = .answer (.thread (.error .contextUnavailable)) ∧ y.kernel ≠ grudging.kernel ∧
    y.platform y.requests = .ok () ∧ ∃ z, y.dropFrame.call .boot = .ok z ∧
      z.turn = .answer (.thread (.error .alreadyInitialized)) := by
  refine ⟨_, rfl, rfl, ?_, rfl, _, rfl, rfl⟩
  intro hsame
  cases congrArg Kernel.initialized hsame

end RealtimeKernel.Execution

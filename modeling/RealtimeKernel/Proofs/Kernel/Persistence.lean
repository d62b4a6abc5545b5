import RealtimeKernel.Proofs.Kernel.Totality

/-!
What lasts. Whatever the running thread does, the others go on waiting for their mutexes and
owning them, a thread that was not started keeps its code, and the idle thread stays able to run.
-/
namespace RealtimeKernel.Kernel

variable {k k' : Kernel} {touched : Object → Prop} {t u : ThreadId} {m : MutexId} {th : Thread}

/-! Who waits for a mutex or owns it. -/

theorem Rouses.mutexes {r : WakeupResult} {l : List ThreadId} (h : Rouses r l k k') :
    k'.mutexes = k.mutexes := by
  induction h with
  | nil => rfl
  | cons hw _ ih => exact ih.trans hw.moves.mutexes

theorem Dispatches.mutexes (h : Dispatches t k k') : k'.mutexes = k.mutexes := h.moves.mutexes

theorem Blocks.mutexes {state : ThreadState} {o : Option QueueId} (h : Blocks state o k k') :
    k'.mutexes = k.mutexes := by
  obtain ⟨-, k₁, next, hpark, hdispatch⟩ := h
  exact hdispatch.mutexes.trans hpark.moves.mutexes

/-- No mutex changes hands with the processor. -/
theorem Switch.mutexes (h : Switch touched k k') : k'.mutexes = k.mutexes := by
  cases h with
  | giveWay h =>
      obtain ⟨k₁, next, hdispatch, -, hmoves⟩ := h
      exact hmoves.mutexes.trans hdispatch.mutexes
  | park _ h => exact h.mutexes
  | awaitUnit _ _ _ _ h => exact h.mutexes
  | awaitMutex _ _ _ hlends h => exact h.mutexes.trans hlends.mutexes
  | awaitCondition _ h => exact h.mutexes
  | awaitExit _ _ _ _ _ h => exact h.mutexes
  | exit _ _ hr hd => exact hd.mutexes.trans hr.mutexes

def Contends (k : Kernel) (u : ThreadId) (m : MutexId) : Prop :=
  (k.thread u).queue = some (.mutex m) ∨ k.owner? m = some u

theorem Keeps.contends_iff (h : Keeps k k') : k'.Contends u m ↔ k.Contends u m := by
  rw [Contends, Contends, h.queue_iff, owner?_eq h.mutexes]

theorem InPlace.contends_iff (hk : k.InPlace) :
    k.Contends k.current m ↔ k.owner? m = some k.current := by
  rw [Contends, hk.queue_eq_none rfl]
  exact or_iff_right nofun

/-- Who is gone neither waits for a mutex nor owns one. -/
theorem Sound.not_contends (hk : k.Sound) (hu : (k.thread u).state.isGone = true) :
    ¬ k.Contends u m := by
  rintro (hq | howner)
  · have hblocked := hk.inPlace.isBlocked_of_queue hq nofun
    exact not_isGone_of_isBlocked hblocked hu
  · rw [hk.owned.owner_iff, hk.owned.gone u hu] at howner
    cases howner

theorem replaceThread_contends (hk : k.Sound) {th : Thread}
    (hgone : (k.thread t).state.isGone = true) (hqueue : th.queue = none) :
    (k.replaceThread t th).Contends u m ↔ k.Contends u m := by
  have howner : (k.replaceThread t th).owner? m = k.owner? m := rfl
  rw [Contends, howner, thread_replaceThread]
  split
  · rename_i hu
    rw [hqueue, or_iff_right nofun, iff_comm, hu]
    have hnot : (k.thread t).queue ≠ some (.mutex m) := fun hq =>
      hk.not_contends hgone (Or.inl hq)
    exact or_iff_right hnot
  · exact Iff.rfl

/-- A thread that does not run neither comes to contend for a mutex nor gives up doing so. -/
theorem Effect.contends_iff (h : Effect touched k k') (hk : k.Sound) (hu : u ≠ k.current) :
    k'.Contends u m ↔ k.Contends u m := by
  have hin := hk.inPlace
  -- Only the running thread takes a mutex or frees one. Who is handed one has waited for it.
  cases h with
  | mark t terminate entry =>
      have hkeeps : Keeps k (k.modifyThread t fun th => { th with terminate, entry }) :=
        Keeps.of_thread rfl (fun u => thread_modifyThread k t u _) rfl rfl rfl fun _ => Iff.rfl
      exact hkeeps.contends_iff
  | setBase =>
      rw [Contends, thread_modifyThread, if_neg hu]
      exact Iff.rfl
  | resume _ hs hw =>
      refine (hw.keeps fun m hq => ?_).contends_iff
      rw [hin.queue_eq_none_of_state (by tauto)] at hq
      cases hq
  | timeOut _ htimed _ hw =>
      refine (hw.keeps fun m hq => ?_).contends_iff
      rw [hin.waitingMutex_iff.mpr ⟨m, hq⟩] at htimed
      cases htimed
  | @expire _ t s _ hq hw =>
      refine (hw.keeps fun m hq' => ?_).contends_iff
      exact nomatch hq.symm.trans hq'
  | @grant _ t s _ hhead hw =>
      refine (hw.keeps fun m hq' => ?_).contends_iff
      exact nomatch (hin.queue_of_head hhead).symm.trans hq'
  | @dismiss _ s count _ _ hr =>
      have hk₁ : (k.setSemaphoreCount s count).InPlace := InPlace.setSemaphoreCount hin _ _
      exact (hr.keeps (q := .semaphore s) hk₁.toLinked nofun rfl nofun).contends_iff
  | @notify _ t c r _ hhead hw =>
      refine (hw.keeps fun m hq' => ?_).contends_iff
      exact nomatch (hin.queue_of_head hhead).symm.trans hq'
  | @take m' _ _ hfree =>
      rw [Contends, Contends, thread_acquire, if_neg hu, owner?_acquire]
      split
      · rename_i hm
        rw [hm, hfree]
        simp [Ne.symm hu]
      · exact Iff.rfl
  | @free m' _ hown _ =>
      rw [Contends, Contends, thread_strike, if_neg hu, owner?_strike]
      split
      · rename_i hm
        rw [hm, hown]
        simp [Ne.symm hu]
      · exact Iff.rfl
  | @handOver _ m' next _ hown hhead hw =>
      have hwaits : (k.thread next).queue = some (.mutex m') :=
        hin.queue_of_head hhead
      have hqueue : (((k.strike m').acquire m' next).thread u).queue = (k.thread u).queue := by
        rw [thread_acquire, thread_strike, thread_strike, if_neg hu]
        split
        · rename_i hnext
          rw [← hnext, if_neg hu]
        · rfl
      rw [Contends, Contends, owner?_eq hw.moves.mutexes, owner?_acquire, owner?_strike,
        hw.moves.thread]
      by_cases hnext : u = next
      · subst hnext
        rw [if_pos rfl, hwaits]
        by_cases hm : m = m'
        · simp [hm]
        · simp [hm, Ne.symm hm]
      · rw [if_neg hnext, hqueue]
        by_cases hm : m = m'
        · simp [hm, hown, Ne.symm hnext, Ne.symm hu]
        · simp [hm]
  | create _ _ _ _ hs => exact replaceThread_contends hk (by rw [hs]; rfl) rfl
  | blank hs => exact replaceThread_contends hk (by rw [hs]; rfl) rfl
  | vacate _ hs => exact replaceThread_contends hk (by rw [hs]; rfl) rfl
  | @newMutex m' pool hpush =>
      rw [Contends, hk.owned.owner?_push hpush]
      exact Iff.rfl
  | _ => exact Iff.rfl

theorem Switch.contends_iff (h : Switch touched k k') (hk : k.InPlace) (hu : u ≠ k.current) :
    k'.Contends u m ↔ k.Contends u m := by
  rw [Contends, Contends, owner?_eq h.mutexes]
  cases h.passage hk u with
  | same hsame => rw [hsame.queue]
  | dispatched _ hq _ hq' => rw [hq, hq']; simp
  | waits hcur => exact absurd hcur hu
  | parked hcur => exact absurd hcur hu
  | ended hcur => exact absurd hcur hu
  | roused _ hq _ hrun =>
      have hnot : (k'.thread u).queue ≠ some (.mutex m) := by
        intro hq'
        have hblocked := (h.inPlace hk).isBlocked_of_queue hq' nofun
        exact not_isRunnable_of_isBlocked hblocked hrun
      rw [hq, or_iff_right hnot]
      simp

theorem Does.contends_iff (h : Does touched k k') (hk : k.Sound) (hu : u ≠ k.current) :
    k'.Contends u m ↔ k.Contends u m := by
  obtain ⟨k₁, heffects, hswitch⟩ := h
  obtain ⟨hk₁, hcurrent, hiff⟩ := effects_induction
    (P := fun k₁ => k₁.current = k.current ∧ (k₁.Contends u m ↔ k.Contends u m)) heffects hk
    (fun k₁ k₂ hk₁ he ⟨hcurrent, hiff⟩ =>
      ⟨he.current.trans hcurrent, (he.contends_iff hk₁ (by rwa [hcurrent])).trans hiff⟩)
    ⟨rfl, Iff.rfl⟩
  rcases hswitch with rfl | hswitch
  · exact hiff
  · rw [← hcurrent] at hu
    exact (hswitch.contends_iff hk₁.inPlace hu).trans hiff

/-! Code that was not started. -/

/-- A thread that the slot belongs to has code to start. -/
def Enterable (k : Kernel) (u : ThreadId) : Prop :=
  (k.thread u).state ≠ .inactive → (k.thread u).entry ≠ none

/-- A thread changes that was there before, and its code stays with it. -/
theorem Enterable.of_thread (h : k.Enterable u)
    (thread : k'.thread u = if u = t then th else k.thread u)
    (entry : th.entry = (k.thread t).entry)
    (active : (k.thread t).state = .inactive → th.state = .inactive) : k'.Enterable u := by
  rw [Enterable, thread]
  split
  · rename_i hu
    rw [hu] at h
    rw [entry]
    exact fun hs => h fun hinactive => hs (active hinactive)
  · exact h

theorem Enterable.wakes {r : WakeupResult} (h : k.Enterable u) (hw : Wakes t r k k') :
    k'.Enterable u := by
  refine h.of_thread (hw.moves.thread u) rfl fun hs => ?_
  have hblocked := hw.blocked
  rw [hs] at hblocked
  cases hblocked

theorem Enterable.rouses {r : WakeupResult} {l : List ThreadId} (h : k.Enterable u)
    (hr : Rouses r l k k') : k'.Enterable u := by
  induction hr with
  | nil => exact h
  | cons hw _ ih => exact ih (h.wakes hw)

theorem Enterable.dispatches {next : ThreadId} {runs : ThreadId → Prop} (h : k.Enterable u)
    (hk : k.Arranged runs) (hd : Dispatches next k k') : k'.Enterable u := by
  refine h.of_thread (hd.thread u) rfl fun hs => ?_
  rw [hd.ready_next hk] at hs
  cases hs

theorem Enterable.lends {o : ThreadId} (h : k.Enterable u) (hl : Lends k o k') :
    k'.Enterable u := by
  induction hl with
  | enough _ => exact h
  | last _ hb _ => exact h.of_thread (hb.2.thread u) rfl id
  | on _ hb _ _ _ ih => exact ih (h.of_thread (hb.2.thread u) rfl id)

theorem Enterable.blocks {state : ThreadState} {o : Option QueueId} (h : k.Enterable u)
    (hk : k.InPlace) (hb : Blocks state o k k') : k'.Enterable u := by
  obtain ⟨-, k₁, next, hpark, hdispatch⟩ := hb
  refine Enterable.dispatches (k := k₁) ?_ (hpark.arranged hk) hdispatch
  refine h.of_thread (hpark.moves.thread u) rfl fun hs => ?_
  rw [hk.state_current] at hs
  cases hs

/-- Nobody takes up the code of another thread. -/
theorem Effect.enterable (h : Effect touched k k') (hu : u ≠ k.current) (he : k.Enterable u) :
    k'.Enterable u := by
  cases h with
  | mark t terminate entry hentry =>
      rcases hentry with rfl | rfl
      · exact he.of_thread (thread_modifyThread k t u _) rfl id
      · rw [Enterable, thread_modifyThread, if_neg hu]
        exact he
  | setBase => exact he.of_thread (thread_modifyThread k k.current u _) rfl id
  | resume _ _ hw => exact he.wakes hw
  | timeOut _ _ _ hw => exact he.wakes hw
  | expire _ _ hw => exact Enterable.wakes (k := k.setSemaphoreCount _ _) he hw
  | grant _ _ hw => exact Enterable.wakes (k := k.setSemaphoreCount _ _) he hw
  | dismiss _ _ hr => exact Enterable.rouses (k := k.setSemaphoreCount _ _) he hr
  | notify _ _ hw => exact he.wakes hw
  | take => exact he.of_thread (thread_acquire k _ _ u) rfl id
  | free => exact he.of_thread (thread_strike k _ u) rfl id
  | @handOver _ m next _ _ _ hw =>
      have hstrike : (k.strike m).Enterable u := he.of_thread (thread_strike k m u) rfl id
      have htake : ((k.strike m).acquire m next).Enterable u :=
        hstrike.of_thread (thread_acquire (k.strike m) m next u) rfl id
      exact htake.wakes hw
  | create name p e =>
      rw [Enterable, thread_replaceThread]
      split
      · exact nofun
      · exact he
  | blank | vacate =>
      rw [Enterable, Kernel.vacate, thread_replaceThread]
      split
      · exact fun hs => absurd rfl hs
      · exact he
  | _ => exact he

theorem Switch.enterable (h : Switch touched k k') (hk : k.InPlace) (he : k.Enterable u) :
    k'.Enterable u := by
  cases h with
  | giveWay hgives =>
      obtain ⟨k₁, next, hdispatch, -, hmoves⟩ := hgives
      have hne := hdispatch.ne_current hk
      have hme : k₁.thread k.current = k.running := hdispatch.moves.thread_of_ne hne.symm
      refine (he.dispatches hk hdispatch).of_thread (hmoves.thread u) ?_ fun hs => ?_
      · rw [hme]
      · rw [hme, running, hk.state_current] at hs
        cases hs
  | park _ hb => exact he.blocks hk hb
  | awaitUnit _ _ _ _ hb =>
      exact Enterable.blocks (k := k.setSemaphoreCount _ _) he (InPlace.setSemaphoreCount hk _ _) hb
  | awaitMutex _ _ _ hlends hb =>
      have hk₁ := hlends.arranged hk
      rw [← hlends.current] at hk₁
      exact (he.lends hlends).blocks hk₁ hb
  | awaitCondition _ hb => exact he.blocks hk hb
  | awaitExit _ _ _ _ _ hb => exact he.blocks hk hb
  | @exit k₁ _ msg _ _ _ hr hd =>
      have hk₀ := hk.finishCurrent msg
      have hended : (k.finishCurrent msg).Enterable u := by
        refine he.of_thread (thread_modifyThread k k.current u _) rfl fun hs => ?_
        rw [hk.state_current] at hs
        cases hs
      exact (hended.rouses hr).dispatches (hr.arranged hk₀) hd

theorem Does.enterable (h : Does touched k k') (hk : k.Sound) (hu : u ≠ k.current)
    (he : k.Enterable u) : k'.Enterable u := by
  obtain ⟨k₁, heffects, hswitch⟩ := h
  obtain ⟨hk₁, -, he₁⟩ := effects_induction
    (P := fun k₁ => k₁.current = k.current ∧ k₁.Enterable u) heffects hk
    (fun k₁ k₂ _ hstep ⟨hcurrent, he⟩ =>
      ⟨hstep.current.trans hcurrent, hstep.enterable (by rwa [hcurrent]) he⟩) ⟨rfl, he⟩
  rcases hswitch with rfl | hswitch
  · exact he₁
  · exact hswitch.enterable hk₁.inPlace he₁

/-! The idle thread. -/

/-- The idle thread runs on when it gives way, and it does not block. -/
theorem Switch.staffed (h : Switch touched k k') (hk : k.InPlace) (hs : k.Staffed)
    (hexit : touched (.thread k.current) → k.idle ≠ some k.current) : k'.Staffed := by
  have hother : k.idle ≠ some k.current → k'.Staffed := by
    intro hne
    obtain ⟨i, hi, hrun⟩ := hs
    have hcur : i ≠ k.current := fun he => hne (he ▸ hi)
    exact ⟨i, h.idle.trans hi, (h.keepsRunnable hk hcur hrun).1⟩
  have hsame := h.idle
  have hkeeps := fun u hu => h.keepsRunnable (u := u) hk hu
  cases h with
  | giveWay hgives =>
      refine hs.mono hsame fun u hrun => ?_
      by_cases hu : u = k.current
      · obtain ⟨k₁, next, -, -, hmoves⟩ := hgives
        rw [hu, hmoves.thread_self]
        rfl
      · exact (hkeeps u hu hrun).1
  | park _ hb => exact hother hb.1
  | awaitUnit _ _ _ _ hb => exact hother hb.1
  | awaitMutex _ _ _ hlends hb =>
      refine hother ?_
      rw [← hlends.idle, ← hlends.current]
      exact hb.1
  | awaitCondition _ hb => exact hother hb.1
  | awaitExit _ _ _ _ _ hb => exact hother hb.1
  | exit ht _ _ _ => exact hother (hexit ht)

theorem Does.staffed (h : Does touched k k') (hk : k.Sound) (hs : k.Staffed)
    (hexit : touched (.thread k.current) → k.idle ≠ some k.current) : k'.Staffed := by
  obtain ⟨k₁, heffects, hswitch⟩ := h
  obtain ⟨hk₁, hcurrent, hidle, hs₁⟩ := effects_induction
    (P := fun k₁ => k₁.current = k.current ∧ k₁.idle = k.idle ∧ k₁.Staffed) heffects hk
    (fun k₁ k₂ hk₁ he ⟨hcurrent, hidle, hs₁⟩ =>
      ⟨he.current.trans hcurrent, he.idle.trans hidle, hs₁.mono he.idle fun u hrun =>
        (he.keepsRunnable hk₁.inPlace u hrun).1⟩)
    ⟨rfl, rfl, hs⟩
  rcases hswitch with rfl | hswitch
  · exact hs₁
  · rw [← hcurrent, ← hidle] at hexit
    exact hswitch.staffed hk₁.inPlace hs₁ hexit

theorem Does.idle (h : Does touched k k') (hk : k.Sound) : k'.idle = k.idle := by
  obtain ⟨k₁, heffects, hswitch⟩ := h
  obtain ⟨-, hidle⟩ := effects_induction (P := fun k₁ => k₁.idle = k.idle) heffects hk
    (fun _ _ _ he hidle => he.idle.trans hidle) rfl
  rcases hswitch with rfl | hswitch
  · exact hidle
  · exact hswitch.idle.trans hidle

end RealtimeKernel.Kernel

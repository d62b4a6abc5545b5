import RealtimeKernel.Proofs.Kernel.Lives

/-!
Free slots. The record of a slot without a thread is blank, but that someone may have asked the
thread that was there, or that will be, to end. So a slot that was claimed in vain is given back
as it was.
-/
namespace RealtimeKernel.Kernel
variable {k k' : Kernel} {touched : Object → Prop} {t o next : ThreadId} {th : Thread}
  {r : WakeupResult} {l : List ThreadId} {state : ThreadState} {p : Option QueueId}
  {ahead : Bool} {m : MutexId}

/-- The record of every free slot is blank, but for the mark of a request to end. -/
def Pristine (k : Kernel) : Prop :=
  ∀ t, (k.thread t).state = .inactive → k.thread t = { terminate := (k.thread t).terminate }

namespace Pristine

theorem congr (h : k.Pristine) (threads : k'.threads = k.threads) : k'.Pristine := by
  intro t
  rw [thread, threads]
  exact h t

/-- One thread gets a new record, which is not that of a free slot unless it is blank. -/
theorem of_thread (h : k.Pristine) (thread : ∀ u, k'.thread u = if u = t then th else k.thread u)
    (blank : th.state = .inactive → th = { terminate := th.terminate }) : k'.Pristine := by
  intro u
  rw [thread]
  split
  · exact blank
  · exact h u

/-- The thread is at work before and after. -/
theorem modifyThread (h : k.Pristine) {f : Thread → Thread}
    (alive : (f (k.thread t)).state ≠ .inactive) : (k.modifyThread t f).Pristine :=
  h.of_thread (thread_modifyThread k t · f) fun hs => absurd hs alive

theorem moves (h : k.Pristine) (hm : Moves ahead t th k k') (alive : th.state ≠ .inactive) :
    k'.Pristine := h.of_thread hm.thread fun hs => absurd hs alive

theorem recount (h : k.Pristine) (s : SemaphoreId) (count : Int) :
    (k.setSemaphoreCount s count).Pristine := h.congr rfl

theorem wakes (h : k.Pristine) (hw : Wakes t r k k') : k'.Pristine := h.moves hw.moves nofun

theorem rouses (h : k.Pristine) (hr : Rouses r l k k') : k'.Pristine := by
  induction hr with
  | nil => exact h
  | cons hw _ ih => exact ih (h.wakes hw)

theorem dispatches (h : k.Pristine) (hd : Dispatches next k k') : k'.Pristine :=
  h.of_thread hd.thread nofun

theorem blocks (h : k.Pristine) (hb : Blocks state p k k') : k'.Pristine := by
  obtain ⟨-, k₁, next, hpark, hdispatch⟩ := hb
  refine (h.moves hpark.moves ?_).dispatches hdispatch
  have hblocked := hpark.blocked
  rintro rfl
  cases hblocked

theorem givesWay (h : k.Pristine) (hg : GivesWay ahead k k') : k'.Pristine := by
  obtain ⟨k₁, next, hdispatch, -, hmoves⟩ := hg
  exact (h.dispatches hdispatch).moves hmoves nofun

/-- Only owners of mutexes are lent a priority, and a free slot owns none. -/
theorem lends (h : k.Pristine) (hl : Lends k o k') (ho : k.Owned)
    (howner : k.owner? m = some o) : k'.Pristine := by
  have alive : ∀ {k : Kernel} {o : ThreadId} {m : MutexId}, k.Owned → k.owner? m = some o →
      (k.thread o).state ≠ .inactive := by
    intro k o m ho howner hs
    have hheld := (ho.owner_iff m o).mp howner
    rw [ho.gone o (by rw [hs]; rfl)] at hheld
    cases hheld
  induction hl generalizing m with
  | enough _ => exact h
  | last _ hboost _ => exact h.moves hboost.2 (alive ho howner)
  | on _ hboost _ hnext _ ih =>
      exact ih (h.moves hboost.2 (alive ho howner)) (hboost.owned ho)
        ((owner?_eq hboost.2.mutexes _).trans hnext)

theorem acquire (h : k.Pristine) (alive : (k.thread t).state ≠ .inactive) :
    (k.acquire m t).Pristine := h.of_thread (thread_acquire k m t) fun hs => absurd hs alive

theorem strike (h : k.Pristine) (hk : k.InPlace) : (k.strike m).Pristine := by
  refine h.of_thread (thread_strike k m) fun hs => ?_
  have hs : (k.thread k.current).state = .inactive := hs
  rw [hk.state_current] at hs
  cases hs

theorem finishCurrent (h : k.Pristine) (msg : Msg) : (k.finishCurrent msg).Pristine :=
  h.of_thread (thread_modifyThread k k.current · _) nofun

end Pristine

theorem Effect.pristine (he : Effect touched k k') (hk : k.Sound) (h : k.Pristine) :
    k'.Pristine := by
  have hrun := hk.inPlace.state_current
  have alive : (k.thread k.current).state ≠ .inactive := by
    rw [hrun]
    exact nofun
  cases he with
  | mark t terminate entry hentry =>
      refine h.of_thread (thread_modifyThread k t · _) fun hs => ?_
      have hs : (k.thread t).state = .inactive := hs
      rcases hentry with rfl | rfl
      · have hblank := h t hs
        rw [hblank]
      · exact absurd hs alive
  | setBase => exact h.modifyThread alive
  | resume _ _ hw => exact h.wakes hw
  | timeOut _ _ _ hw => exact h.wakes hw
  | expire _ _ hw => exact (h.recount _ _).wakes hw
  | grant _ _ hw => exact (h.recount _ _).wakes hw
  | dismiss _ _ hr => exact (h.recount _ _).rouses hr
  | notify _ _ hw => exact h.wakes hw
  | take => exact h.acquire alive
  | free => exact h.strike hk.inPlace
  | @handOver _ m next _ _ hhead hw =>
      have hq := (hk.inPlace.strike m).queue_of_head (t := next) hhead
      refine Pristine.wakes ((h.strike hk.inPlace).acquire fun hs => ?_) hw
      rw [(hk.inPlace.strike m).queue_eq_none_of_state (Or.inl hs)] at hq
      cases hq
  | create name p e => exact h.of_thread (thread_replaceThread k _ · _) nofun
  | blank => exact h.of_thread (thread_replaceThread k _ · _) fun _ => rfl
  | vacate => exact h.of_thread (thread_replaceThread k _ · _) fun _ => rfl
  | _ => exact h.congr rfl

theorem Switch.pristine (hs : Switch touched k k') (hk : k.Sound) (h : k.Pristine) :
    k'.Pristine := by
  cases hs with
  | giveWay hg => exact h.givesWay hg
  | park _ hb => exact h.blocks hb
  | awaitUnit _ _ _ _ hb => exact (h.recount _ _).blocks hb
  | awaitMutex _ howner _ hl hb => exact (h.lends hl hk.owned howner).blocks hb
  | awaitCondition _ hb => exact h.blocks hb
  | awaitExit _ _ _ _ _ hb => exact h.blocks hb
  | exit _ _ hr hd => exact (Pristine.rouses (h.finishCurrent _) hr).dispatches hd

theorem Does.pristine (hd : Does touched k k') (hk : k.Sound) (h : k.Pristine) :
    k'.Pristine := by
  obtain ⟨k₁, heffects, hswitch⟩ := hd
  obtain ⟨hk₁, h₁⟩ := effects_induction (P := Pristine) heffects hk
    (fun k k' hk he h => he.pristine hk h) h
  rcases hswitch with rfl | hswitch
  · exact h₁
  · exact hswitch.pristine hk₁ h₁

/-! A slot that is claimed and given back. -/

theorem freeSlot?_eq_none : k.freeSlot? = none ↔ ∀ t, (k.thread t).isActive = true := by
  unfold freeSlot?
  rw [List.find?_eq_none]
  refine ⟨fun h t => ?_, fun h t _ => ?_⟩
  · simpa using h t (List.mem_finRange t)
  · simpa using h t

theorem isActive_of_freeSlot (h : k.freeSlot? = some t) : (k.thread t).isActive = false := by
  simpa using List.find?_some h

/-- The request to end that a free slot may be marked with is forgotten. -/
def unmark (k : Kernel) (t : ThreadId) : Kernel :=
  k.modifyThread t fun th => { th with terminate := false }

theorem vacate_replaceThread (k : Kernel) (t : ThreadId) (th : Thread) :
    (k.replaceThread t th).vacate t = k.vacate t := by
  simp only [vacate, replaceThread, setThread, Vector.set_set]

/-- Nothing is lost with a free slot: its record is blank, and it stands in no queue. -/
theorem Pristine.vacate_eq (h : k.Pristine) (hk : k.InPlace)
    (hs : (k.thread t).state = .inactive) : k.vacate t = k.unmark t := by
  have hlink : k.queues.links.get t = {} :=
    hk.hold.blank t (hk.free (hk.queue_eq_none_of_state (Or.inl hs)))
  have hlinks : k.queues.links.set t {} t.isLt = k.queues.links := by
    rw [← hlink]
    exact Vector.set_getElem_self t.isLt
  have hrecord : ({ k.thread t with terminate := false } : Thread) = {} := by rw [h t hs]
  change ({ k.setThread t {} with
    queues := { k.queues with links := k.queues.links.set t {} t.isLt } } : Kernel) =
      k.setThread t { k.thread t with terminate := false }
  rw [hlinks, hrecord]
  rfl

end RealtimeKernel.Kernel

import RealtimeKernel.Proofs.Kernel.Ownership

/-!
All that holds of the kernel between two operations, whatever the operations are, and that no
object is ever lost.
-/
namespace RealtimeKernel.Kernel

variable {k k' k₁ : Kernel} {touched : Object → Prop} {o next t : ThreadId}
  {l : List ThreadId} {r : WakeupResult}

/-- Every mailbox has two semaphores of its own, and room for no more messages than one may have. -/
structure Boxed (k : Kernel) : Prop where
  created : ∀ b, k.mailboxes.contains b = true →
    k.semaphores.contains (k.mailbox b).empty = true ∧
      k.semaphores.contains (k.mailbox b).full = true ∧ (k.mailbox b).empty ≠ (k.mailbox b).full
  apart : ∀ b b', k.mailboxes.contains b = true → k.mailboxes.contains b' = true → b ≠ b' →
    ((k.mailbox b).empty ≠ (k.mailbox b').empty ∧ (k.mailbox b).empty ≠ (k.mailbox b').full) ∧
      (k.mailbox b).full ≠ (k.mailbox b').empty ∧ (k.mailbox b).full ≠ (k.mailbox b').full
  size : ∀ b, k.mailboxes.contains b = true → (k.mailbox b).capacity ≤ maxMessages

/-- A mailbox and its semaphores. -/
def BoxParts (k : Kernel) (b : MailboxId) (o : Object) : Prop :=
  o = .mailbox b ∨ o = .semaphore (k.mailbox b).empty ∨ o = .semaphore (k.mailbox b).full

/-- The kernel between two operations. -/
structure Sound (k : Kernel) : Prop where
  inPlace : k.InPlace
  counted : k.Counted
  owned : k.Owned
  boxed : k.Boxed

/-- The objects of the one kernel are among those of the other one, which is up if the one is. -/
structure Grows (k k' : Kernel) : Prop where
  initialized : k'.initialized = k.initialized
  semaphores : ∀ s, k.semaphores.contains s = true → k'.semaphores.contains s = true
  mutexes : ∀ m, k.mutexes.contains m = true → k'.mutexes.contains m = true
  condVars : ∀ c, k.condVars.contains c = true → k'.condVars.contains c = true
  mailboxes : ∀ b, k.mailboxes.contains b = true → k'.mailboxes.contains b = true

theorem Grows.of_same (initialized : k'.initialized = k.initialized)
    (semaphores : k'.semaphores.used = k.semaphores.used)
    (mutexes : k'.mutexes.used = k.mutexes.used) (condVars : k'.condVars.used = k.condVars.used)
    (mailboxes : k'.mailboxes.used = k.mailboxes.used) : Grows k k' := by
  refine ⟨initialized, ?_, ?_, ?_, ?_⟩
  all_goals
    intro i hi
    rw [Pool.contains_iff] at hi ⊢
    omega

theorem Grows.trans (h : Grows k k₁) (h' : Grows k₁ k') : Grows k k' :=
  ⟨h'.initialized.trans h.initialized, fun s hs => h'.semaphores s (h.semaphores s hs),
    fun m hm => h'.mutexes m (h.mutexes m hm),
    fun c hc => h'.condVars c (h.condVars c hc), fun b hb => h'.mailboxes b (h.mailboxes b hb)⟩

theorem Grows.refl (k : Kernel) : Grows k k := .of_same rfl rfl rfl rfl rfl

/-- The tables of objects are the same. -/
structure SameObjects (k k' : Kernel) : Prop where
  initialized : k'.initialized = k.initialized
  semaphores : k'.semaphores = k.semaphores
  mutexes : k'.mutexes = k.mutexes
  condVars : k'.condVars = k.condVars
  mailboxes : k'.mailboxes = k.mailboxes

theorem SameObjects.refl (k : Kernel) : SameObjects k k := ⟨rfl, rfl, rfl, rfl, rfl⟩

theorem SameObjects.trans (h : SameObjects k k₁) (h' : SameObjects k₁ k') : SameObjects k k' :=
  ⟨h'.initialized.trans h.initialized, h'.semaphores.trans h.semaphores,
    h'.mutexes.trans h.mutexes, h'.condVars.trans h.condVars, h'.mailboxes.trans h.mailboxes⟩

theorem SameObjects.grows (h : SameObjects k k') : Grows k k' :=
  .of_same h.initialized (by rw [h.semaphores]) (by rw [h.mutexes]) (by rw [h.condVars])
    (by rw [h.mailboxes])

theorem SameObjects.grows_from (h : SameObjects k₁ k') (hk : Grows k k₁) : Grows k k' :=
  hk.trans h.grows

theorem Moves.sameObjects {ahead : Bool} {th : Thread} (h : Moves ahead t th k k') :
    SameObjects k k' := by
  rw [h.frame]
  exact ⟨rfl, rfl, rfl, rfl, rfl⟩

theorem Dispatches.sameObjects (h : Dispatches next k k') : SameObjects k k' :=
  let h := h.moves.sameObjects
  ⟨h.initialized, h.semaphores, h.mutexes, h.condVars, h.mailboxes⟩

theorem Rouses.sameObjects (h : Rouses r l k k') : SameObjects k k' := by
  induction h with
  | nil => exact .refl _
  | cons hw _ ih => exact hw.moves.sameObjects.trans ih

theorem Lends.sameObjects (h : Lends k o k') : SameObjects k k' := by
  induction h with
  | enough _ => exact .refl _
  | last _ hboost _ => exact hboost.2.sameObjects
  | on _ hboost _ _ _ ih => exact hboost.2.sameObjects.trans ih

theorem Blocks.sameObjects {state : ThreadState} {p : Option QueueId}
    (h : Blocks state p k k') : SameObjects k k' := by
  obtain ⟨-, k₁, next, hpark, hdispatch⟩ := h
  exact hpark.moves.sameObjects.trans hdispatch.sameObjects

theorem GivesWay.sameObjects {ahead : Bool} (h : GivesWay ahead k k') : SameObjects k k' := by
  obtain ⟨k₁, next, hdispatch, -, hmoves⟩ := h
  exact hdispatch.sameObjects.trans hmoves.sameObjects

theorem Switch.grows_mailboxes (h : Switch touched k k') :
    Grows k k' ∧ k'.mailboxes = k.mailboxes := by
  cases h with
  | giveWay h => exact ⟨h.sameObjects.grows, h.sameObjects.mailboxes⟩
  | park _ h => exact ⟨h.sameObjects.grows, h.sameObjects.mailboxes⟩
  | awaitUnit _ _ _ _ h =>
      exact ⟨h.sameObjects.grows_from (.of_same rfl rfl rfl rfl rfl), h.sameObjects.mailboxes⟩
  | awaitMutex _ _ _ hlends h =>
      have hsame := hlends.sameObjects.trans h.sameObjects
      exact ⟨hsame.grows, hsame.mailboxes⟩
  | awaitCondition _ h => exact ⟨h.sameObjects.grows, h.sameObjects.mailboxes⟩
  | awaitExit _ _ _ _ _ h => exact ⟨h.sameObjects.grows, h.sameObjects.mailboxes⟩
  | exit _ _ hr hd =>
      have hsame := hr.sameObjects.trans hd.sameObjects
      exact ⟨hsame.grows_from (.of_same rfl rfl rfl rfl rfl), hsame.mailboxes⟩

theorem Effect.grows (h : Effect touched k k') : Grows k k' := by
  cases h with
  | quiet => exact .of_same rfl rfl rfl rfl rfl
  | timers => exact .of_same rfl rfl rfl rfl rfl
  | mark => exact .of_same rfl rfl rfl rfl rfl
  | setBase => exact .of_same rfl rfl rfl rfl rfl
  | resume _ _ hw => exact hw.moves.sameObjects.grows
  | timeOut _ _ _ hw => exact hw.moves.sameObjects.grows
  | expire _ _ hw => exact hw.moves.sameObjects.grows_from (.of_same rfl rfl rfl rfl rfl)
  | grant _ _ hw => exact hw.moves.sameObjects.grows_from (.of_same rfl rfl rfl rfl rfl)
  | recount => exact .of_same rfl rfl rfl rfl rfl
  | dismiss _ _ hr => exact hr.sameObjects.grows_from (.of_same rfl rfl rfl rfl rfl)
  | notify _ _ hw => exact hw.moves.sameObjects.grows
  | take => exact .of_same rfl rfl rfl rfl rfl
  | free => exact .of_same rfl rfl rfl rfl rfl
  | handOver _ _ _ hw => exact hw.moves.sameObjects.grows_from (.of_same rfl rfl rfl rfl rfl)
  | create => exact .of_same rfl rfl rfl rfl rfl
  | blank => exact .of_same rfl rfl rfl rfl rfl
  | vacate => exact .of_same rfl rfl rfl rfl rfl
  | newSemaphore hpush =>
      exact ⟨rfl, fun _ hs => (Pool.contains_push hpush).mpr (Or.inr hs), fun _ => id, fun _ => id,
        fun _ => id⟩
  | newMutex hpush =>
      exact ⟨rfl, fun _ => id, fun _ hm => (Pool.contains_push hpush).mpr (Or.inr hm), fun _ => id,
        fun _ => id⟩
  | newCondVar hpush =>
      exact ⟨rfl, fun _ => id, fun _ => id, fun _ hc => (Pool.contains_push hpush).mpr (Or.inr hc),
        fun _ => id⟩
  | newMailbox hpush =>
      exact ⟨rfl, fun _ => id, fun _ => id, fun _ => id,
        fun _ hb => (Pool.contains_push hpush).mpr (Or.inr hb)⟩
  | write => exact .of_same rfl rfl rfl rfl rfl

/-- The mailboxes keep their semaphores, and there are no others. -/
theorem Boxed.congr (hb : k.Boxed) (grows : Grows k k')
    (contains : ∀ b, k'.mailboxes.contains b = k.mailboxes.contains b)
    (empty : ∀ b, (k'.mailbox b).empty = (k.mailbox b).empty)
    (full : ∀ b, (k'.mailbox b).full = (k.mailbox b).full)
    (capacity : ∀ b, (k'.mailbox b).capacity = (k.mailbox b).capacity) : k'.Boxed := by
  refine ⟨?_, ?_, ?_⟩
  · intro b hin
    rw [contains] at hin
    obtain ⟨he, hf, hne⟩ := hb.created b hin
    rw [empty, full]
    exact ⟨grows.semaphores _ he, grows.semaphores _ hf, hne⟩
  · intro b b' hin hin' hne
    rw [contains] at hin hin'
    rw [empty, empty, full, full]
    exact hb.apart b b' hin hin' hne
  · intro b hin
    rw [contains] at hin
    rw [capacity]
    exact hb.size b hin

theorem Boxed.same (hb : k.Boxed) (grows : Grows k k') (mailboxes : k'.mailboxes = k.mailboxes) :
    k'.Boxed := by
  have hbox : ∀ b, k'.mailbox b = k.mailbox b := by
    intro b
    simp only [mailbox, mailboxes]
  refine hb.congr grows ?_ ?_ ?_ ?_
  · intro b
    rw [mailboxes]
  all_goals
    intro b
    rw [hbox]

theorem mailbox_setMailbox (k : Kernel) (b b' : MailboxId) (box : Mailbox) :
    (k.setMailbox b box).mailbox b' = if b' = b then box else k.mailbox b' := by
  simp only [mailbox, setMailbox, Pool.get_set]

theorem Effect.boxed (h : Effect touched k k') (hb : k.Boxed) : k'.Boxed := by
  have hgrows := h.grows
  cases h with
  | quiet => exact hb.same hgrows rfl
  | timers => exact hb.same hgrows rfl
  | mark => exact hb.same hgrows rfl
  | setBase => exact hb.same hgrows rfl
  | resume _ _ hw => exact hb.same hgrows hw.moves.mailboxes
  | timeOut _ _ _ hw => exact hb.same hgrows hw.moves.mailboxes
  | expire _ _ hw => exact hb.same hgrows hw.moves.mailboxes
  | grant _ _ hw => exact hb.same hgrows hw.moves.mailboxes
  | recount => exact hb.same hgrows rfl
  | dismiss _ _ hr => exact hb.same hgrows hr.sameObjects.mailboxes
  | notify _ _ hw => exact hb.same hgrows hw.moves.mailboxes
  | take => exact hb.same hgrows rfl
  | free => exact hb.same hgrows rfl
  | handOver _ _ _ hw => exact hb.same hgrows hw.moves.mailboxes
  | create => exact hb.same hgrows rfl
  | blank => exact hb.same hgrows rfl
  | vacate => exact hb.same hgrows rfl
  | newSemaphore => exact hb.same hgrows rfl
  | newMutex => exact hb.same hgrows rfl
  | newCondVar => exact hb.same hgrows rfl
  | @newMailbox b pool box hpush _ hempty hfull hne apart hsize =>
      have hbox : ∀ b', ({ k with mailboxes := pool } : Kernel).mailbox b' =
          if b' = b then box else k.mailbox b' := fun b' => Pool.get_push hpush
      have hin : ∀ b', pool.contains b' = true → b' ≠ b → k.mailboxes.contains b' = true := by
        intro b' hb' hbb
        exact ((Pool.contains_push hpush).mp hb').resolve_left hbb
      refine ⟨?_, ?_, ?_⟩
      · intro b' hb'
        rw [hbox]
        split
        · exact ⟨hempty, hfull, hne⟩
        · rename_i hbb
          exact hb.created b' (hin b' hb' hbb)
      · intro b₁ b₂ h₁ h₂ hne
        rw [hbox, hbox]
        by_cases hb₁ : b₁ = b <;> by_cases hb₂ : b₂ = b
        · exact absurd (hb₁.trans hb₂.symm) hne
        · rw [if_pos hb₁, if_neg hb₂]
          obtain ⟨⟨hee, hef⟩, hfe, hff⟩ := apart b₂ (hin b₂ h₂ hb₂)
          exact ⟨⟨hee.symm, hfe.symm⟩, hef.symm, hff.symm⟩
        · rw [if_neg hb₁, if_pos hb₂]
          exact apart b₁ (hin b₁ h₁ hb₁)
        · rw [if_neg hb₁, if_neg hb₂]
          exact hb.apart b₁ b₂ (hin b₁ h₁ hb₁) (hin b₂ h₂ hb₂) hne
      · intro b' hb'
        rw [hbox]
        split
        · exact hsize
        · rename_i hbb
          exact hb.size b' (hin b' hb' hbb)
  | write ring epoch =>
      refine hb.congr hgrows (fun _ => rfl) ?_ ?_ ?_
      all_goals
        intro b'
        rw [mailbox_setMailbox]
        split
        · rename_i hbb
          rw [hbb]
        · rfl

theorem Effect.sound (h : Effect touched k k') (hk : k.Sound) : k'.Sound :=
  ⟨h.inPlace hk.inPlace, h.counted hk.inPlace hk.counted, h.owned hk.inPlace hk.owned,
    h.boxed hk.boxed⟩

theorem Switch.sound (h : Switch touched k k') (hk : k.Sound) : k'.Sound := by
  obtain ⟨hgrows, hmailboxes⟩ := h.grows_mailboxes
  exact ⟨h.inPlace hk.inPlace, h.counted hk.inPlace hk.counted, h.owned hk.inPlace hk.owned,
    hk.boxed.same hgrows hmailboxes⟩

/-- What holds after effects that a statement survives one by one. -/
theorem effects_induction {P : Kernel → Prop} (h : Relation.ReflTransGen (Effect touched) k k')
    (hk : k.Sound) (step : ∀ k k', k.Sound → Effect touched k k' → P k → P k') (base : P k) :
    k'.Sound ∧ P k' := by
  induction h with
  | refl => exact ⟨hk, base⟩
  | tail _ he ih => exact ⟨he.sound ih.1, step _ _ ih.1 he ih.2⟩

theorem Does.sound (h : Does touched k k') (hk : k.Sound) : k'.Sound := by
  obtain ⟨k₁, heffects, hswitch⟩ := h
  obtain ⟨hk₁, -⟩ := effects_induction (P := fun _ => True) heffects hk
    (fun _ _ _ _ _ => trivial) trivial
  rcases hswitch with rfl | hswitch
  · exact hk₁
  · exact hswitch.sound hk₁

theorem Does.grows (h : Does touched k k') (hk : k.Sound) : Grows k k' := by
  obtain ⟨k₁, heffects, hswitch⟩ := h
  obtain ⟨-, hgrows⟩ := effects_induction (P := fun k₁ => Grows k k₁) heffects hk
    (fun _ _ _ he hgrows => hgrows.trans he.grows) (.refl k)
  rcases hswitch with rfl | hswitch
  · exact hgrows
  · exact hgrows.trans hswitch.grows_mailboxes.1

end RealtimeKernel.Kernel

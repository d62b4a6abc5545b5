import RealtimeKernel.Kernel.Mailbox
import RealtimeKernel.Proofs.Kernel.Gates
import RealtimeKernel.Proofs.Kernel.Operations
import RealtimeKernel.Proofs.Ring

/-!
The account of a mailbox. Every cell is free, in use, or promised: a thread that was handed a
unit has its cell or its message, though it may run much later. So the counts of the two
semaphores fall short of the cells by just the threads that were handed a unit.
-/
namespace RealtimeKernel

/-- Who waits at a mailbox. -/
inductive Side where
  | producer
  | consumer
  deriving DecidableEq, Repr

def Mailbox.gate (box : Mailbox) : Side → SemaphoreId
  | .producer => box.empty
  | .consumer => box.full

/-- What a mailbox that holds these messages has for the one side or the other. -/
def Mailbox.stock (box : Mailbox) (l : List Msg) : Side → Int
  | .producer => box.capacity - l.length
  | .consumer => l.length

/-- The side and the epoch of a thread that has to go on with a mailbox, if it is this one. -/
def Frame.claim? (b : MailboxId) : Frame → Option (Side × UInt32)
  | .store b' epoch _ _ => if b' = b then some (.producer, epoch) else none
  | .fetch b' epoch => if b' = b then some (.consumer, epoch) else none
  | _ => none

/-- The claims of all threads on one mailbox. -/
abbrev Claims := ThreadId → Option (Side × UInt32)

namespace Kernel

variable {k k' : Kernel} {b : MailboxId} {C C' : Claims} {l l' : List Msg} {t u : ThreadId}
  {hand hand' : Option Side} {side : Side} {touched : Object → Prop} {msg : Msg} {ahead : Bool}
  {r : WakeupResult} {epoch : UInt32} {step : Step}

/-- A thread was handed a unit in the present epoch, and did not go on so far. -/
def Granted (k : Kernel) (b : MailboxId) (C : Claims) (side : Side) (u : ThreadId) : Prop :=
  C u = some (side, (k.mailbox b).epoch) ∧ (k.thread u).state.isRunnable = true ∧
    (k.thread u).wakeup = .ok

instance (k : Kernel) (b : MailboxId) (C : Claims) (side : Side) :
    DecidablePred (k.Granted b C side) :=
  fun u => inferInstanceAs (Decidable (C u = some (side, (k.mailbox b).epoch) ∧
    (k.thread u).state.isRunnable = true ∧ (k.thread u).wakeup = .ok))

def granted (k : Kernel) (b : MailboxId) (C : Claims) (side : Side) : Nat :=
  (Finset.univ.filter (k.Granted b C side)).card

/-- A mailbox holds these messages. `hand` is the side that the running thread has a unit of. -/
structure Balanced (k : Kernel) (b : MailboxId) (C : Claims) (l : List Msg)
    (hand : Option Side) : Prop where
  ring : (k.mailbox b).ring.Holds l
  account : ∀ side, (k.mailbox b).stock l side =
    max (k.semaphoreCount ((k.mailbox b).gate side)) 0 + k.granted b C side +
      if hand = some side then 1 else 0
  claimed : ∀ u side epoch, C u = some (side, epoch) → (k.thread u).state.isRunnable = true ∨
    (k.thread u).queue = some (.semaphore ((k.mailbox b).gate side)) ∧
      epoch = (k.mailbox b).epoch
  queued : ∀ u side, (k.thread u).queue = some (.semaphore ((k.mailbox b).gate side)) →
    C u = some (side, (k.mailbox b).epoch)

theorem granted_congr (h : ∀ u, k'.Granted b C' side u ↔ k.Granted b C side u) :
    k'.granted b C' side = k.granted b C side := by
  unfold granted
  congr 1
  ext u
  simp only [Finset.mem_filter, h]

theorem granted_eq_succ (h : ∀ u, k'.Granted b C' side u ↔ u = t ∨ k.Granted b C side u)
    (ht : ¬ k.Granted b C side t) : k'.granted b C' side = k.granted b C side + 1 := by
  unfold granted
  rw [← Finset.card_insert_of_notMem (a := t)]
  · congr 1
    ext u
    simp only [Finset.mem_filter, Finset.mem_insert, Finset.mem_univ, true_and, h]
  · simp only [Finset.mem_filter, Finset.mem_univ, true_and]
    exact ht

theorem Arranged.not_isRunnable {runs : ThreadId → Prop} {s : SemaphoreId} (hk : k.Arranged runs)
    (hq : (k.thread u).queue = some (.semaphore s)) : (k.thread u).state.isRunnable ≠ true :=
  not_isRunnable_of_isBlocked (hk.isBlocked_of_queue hq nofun)

theorem Boxed.gate_ne (hb : k.Boxed) (hin : k.mailboxes.contains b = true) {side side' : Side}
    (h : side' ≠ side) : (k.mailbox b).gate side' ≠ (k.mailbox b).gate side := by
  have hne := (hb.created b hin).2.2
  cases side <;> cases side'
  · exact absurd rfl h
  · exact hne.symm
  · exact hne
  · exact absurd rfl h

theorem Boxed.gate_contains (hb : k.Boxed) (hin : k.mailboxes.contains b = true) (side : Side) :
    k.semaphores.contains ((k.mailbox b).gate side) = true := by
  cases side
  · exact (hb.created b hin).1
  · exact (hb.created b hin).2.1

theorem semaphoreCount_gate (hb : k.Boxed) (hin : k.mailboxes.contains b = true)
    (side side' : Side) (count : Int) :
    (k.setSemaphoreCount ((k.mailbox b).gate side) count).semaphoreCount
      ((k.mailbox b).gate side') =
      if side' = side then count else k.semaphoreCount ((k.mailbox b).gate side') := by
  rw [semaphoreCount_setSemaphoreCount]
  by_cases hs : side' = side
  · rw [if_pos hs, if_pos (by rw [hs])]
  · rw [if_neg hs, if_neg (hb.gate_ne hin hs)]

/-- A cell is free as long as the running thread has one. -/
theorem Balanced.room (h : Balanced k b C l (some .producer)) :
    l.length < (k.mailbox b).capacity := by
  have haccount := h.account .producer
  rw [if_pos rfl] at haccount
  change ((k.mailbox b).capacity : Int) - l.length = _ at haccount
  omega

theorem Balanced.pending (h : Balanced k b C l (some .consumer)) : ∃ a l', l = a :: l' := by
  have haccount := h.account .consumer
  rw [if_pos rfl] at haccount
  change (l.length : Int) = _ at haccount
  cases l with
  | nil =>
      rw [List.length_nil] at haccount
      omega
  | cons a l => exact ⟨a, l, rfl⟩

/-! What keeps the account. -/

/-- Time passes: waits may end without a unit, and the running thread may begin one. -/
theorem Balanced.transport (h : Balanced k b C l hand) (hk' : k'.InPlace)
    (mailbox : k'.mailbox b = k.mailbox b)
    (count : ∀ side, max (k'.semaphoreCount ((k.mailbox b).gate side)) 0 =
      max (k.semaphoreCount ((k.mailbox b).gate side)) 0)
    (claims : ∀ u, C' u = C u ∨ C u = none ∧ ∃ side, C' u = some (side, (k.mailbox b).epoch) ∧
      (k'.thread u).queue = some (.semaphore ((k.mailbox b).gate side)))
    (runs : ∀ u, C u ≠ none → KeepsRunnable k k' u)
    (stays : ∀ side u, (k.thread u).queue = some (.semaphore ((k.mailbox b).gate side)) →
      (k'.thread u).queue = some (.semaphore ((k.mailbox b).gate side)) ∨
        (k'.thread u).state.isRunnable = true ∧ (k'.thread u).wakeup = .timeout)
    (enters : ∀ side u, (k'.thread u).queue = some (.semaphore ((k.mailbox b).gate side)) →
      (k.thread u).queue = some (.semaphore ((k.mailbox b).gate side)) ∨
        C' u = some (side, (k.mailbox b).epoch)) :
    Balanced k' b C' l hand := by
  have hold : ∀ u side epoch, C u = some (side, epoch) → C' u = C u := by
    intro u side epoch hC
    rcases claims u with hsame | ⟨hnone, -⟩
    · exact hsame
    · rw [hC] at hnone
      cases hnone
  -- Whoever newly waits does not run, and a wait that ends here ends in a timeout.
  have hgranted : ∀ side u, k'.Granted b C' side u ↔ k.Granted b C side u := by
    intro side u
    unfold Granted
    rw [mailbox]
    constructor
    · rintro ⟨hC', hrun', hw'⟩
      rcases claims u with hsame | ⟨-, side', -, hq⟩
      · rw [hsame] at hC'
        rcases h.claimed u side _ hC' with hrun | ⟨hq, -⟩
        · obtain ⟨-, hw⟩ := runs u (by rw [hC']; exact nofun) hrun
          exact ⟨hC', hrun, hw.symm.trans hw'⟩
        · rcases stays side u hq with hq' | ⟨-, hw⟩
          · exact absurd hrun' (hk'.not_isRunnable hq')
          · rw [hw] at hw'
            cases hw'
      · exact absurd hrun' (hk'.not_isRunnable hq)
    · rintro ⟨hC, hrun, hw⟩
      obtain ⟨hrun', hw'⟩ := runs u (by rw [hC]; exact nofun) hrun
      exact ⟨(hold u side _ hC).trans hC, hrun', hw'.trans hw⟩
  refine ⟨?_, ?_, ?_, ?_⟩
  · rw [mailbox]
    exact h.ring
  · intro side
    rw [mailbox, count, granted_congr (hgranted side)]
    exact h.account side
  · intro u side epoch hC'
    rw [mailbox]
    rcases claims u with hsame | ⟨-, side', hnew, hq⟩
    · rw [hsame] at hC'
      rcases h.claimed u side epoch hC' with hrun | ⟨hq, he⟩
      · exact Or.inl (runs u (by rw [hC']; exact nofun) hrun).1
      · rcases stays side u hq with hq' | ⟨hrun, -⟩
        · exact Or.inr ⟨hq', he⟩
        · exact Or.inl hrun
    · rw [hnew] at hC'
      obtain ⟨rfl, rfl⟩ := Prod.mk.inj (Option.some.inj hC')
      exact Or.inr ⟨hq, rfl⟩
  · intro u side hq
    rw [mailbox] at hq ⊢
    rcases enters side u hq with hold' | hnew
    · have hC := h.queued u side hold'
      exact (hold u side _ hC).trans hC
    · exact hnew

/-- Operations that a mailbox is not given to. -/
theorem Balanced.leaves (h : Balanced k b C l hand) (hk' : k'.InPlace) (hl : LeavesBox b k k')
    (idle : C k.current = none) : Balanced k' b C l hand := by
  have hgate : ∀ side, Leaves ((k.mailbox b).gate side) k k' := by
    intro side
    cases side
    · exact hl.empty
    · exact hl.full
  refine h.transport hk' hl.mailbox (fun side => (hgate side).count) (fun u => Or.inl rfl) ?_
    (fun side => (hgate side).stays) fun side u hq => Or.inl ((hgate side).enters u hq)
  intro u hC
  refine hl.runnable u ?_
  rintro rfl
  exact hC idle

/-- The running thread waits for a unit. -/
theorem Balanced.block (h : Balanced k b C l hand) (hk : k.Sound)
    (hin : k.mailboxes.contains b = true)
    (hcount : k.semaphoreCount ((k.mailbox b).gate side) ≤ 0) (idle : C k.current = none)
    (hb : Blocks .waitingMailbox (some (.semaphore ((k.mailbox b).gate side)))
      (k.setSemaphoreCount ((k.mailbox b).gate side)
        (k.semaphoreCount ((k.mailbox b).gate side) - 1)) k')
    (mine : C' k.current = some (side, (k.mailbox b).epoch))
    (others : ∀ u, u ≠ k.current → C' u = C u) : Balanced k' b C' l hand := by
  have hswitch : Switch (fun _ => True) k k' :=
    .awaitUnit trivial (hk.boxed.gate_contains hin side) hcount (Or.inr rfl) hb
  have hthread := hb.thread_current (InPlace.setSemaphoreCount hk.inPlace _ _)
  have hme : (k'.thread k.current).queue = some (.semaphore ((k.mailbox b).gate side)) :=
    congrArg Thread.queue hthread
  have hne : ∀ u, C u ≠ none → u ≠ k.current := by
    rintro u hC rfl
    exact hC idle
  refine h.transport (hswitch.inPlace hk.inPlace) ?_ ?_ ?_ ?_ ?_ ?_
  · simp only [mailbox, hswitch.grows_mailboxes.2]
  · intro side'
    have hsame : k'.semaphoreCount ((k.mailbox b).gate side') =
        (k.setSemaphoreCount ((k.mailbox b).gate side)
          (k.semaphoreCount ((k.mailbox b).gate side) - 1)).semaphoreCount
            ((k.mailbox b).gate side') := by
      simp only [semaphoreCount, hb.sameObjects.semaphores]
    rw [hsame, semaphoreCount_gate hk.boxed hin]
    split
    · rename_i hs
      rw [hs]
      omega
    · rfl
  · intro u
    by_cases hu : u = k.current
    · rw [hu]
      exact Or.inr ⟨idle, side, mine, hme⟩
    · exact Or.inl (others u hu)
  · exact fun u hC => hswitch.keepsRunnable hk.inPlace (hne u hC)
  · intro side' u hq
    have hu : u ≠ k.current := hk.inPlace.not_runs hq
    exact Or.inl ((hswitch.queue_semaphore_iff hk.inPlace hu).mpr hq)
  · intro side' u hq
    by_cases hu : u = k.current
    · rw [hu, hme] at hq
      have hs : side' = side := by
        by_contra hs
        exact hk.boxed.gate_ne hin hs (QueueId.semaphore.inj (Option.some.inj hq)).symm
      rw [hu, hs]
      exact Or.inr mine
    · exact Or.inl ((hswitch.queue_semaphore_iff hk.inPlace hu).mp hq)

/-- The running thread takes a unit that is there. -/
theorem Balanced.take (h : Balanced k b C l none) (hb : k.Boxed)
    (hin : k.mailboxes.contains b = true)
    (hpos : 0 < k.semaphoreCount ((k.mailbox b).gate side)) :
    Balanced (k.setSemaphoreCount ((k.mailbox b).gate side)
      (k.semaphoreCount ((k.mailbox b).gate side) - 1)) b C l (some side) := by
  refine ⟨h.ring, ?_, h.claimed, h.queued⟩
  intro side'
  have haccount := h.account side'
  have hcount := semaphoreCount_gate hb hin side side'
    (k.semaphoreCount ((k.mailbox b).gate side) - 1)
  change (k.mailbox b).stock l side' = max ((k.setSemaphoreCount _ _).semaphoreCount
    ((k.mailbox b).gate side')) 0 + k.granted b C side' + if some side = some side' then 1 else 0
  rw [hcount, haccount]
  by_cases hs : side' = side
  · rw [hs, if_pos rfl, if_pos rfl, if_neg nofun]
    omega
  · rw [if_neg hs, if_neg nofun, if_neg fun h => hs (Option.some.inj h).symm]

/-- The ring is written, and what the running thread had in hand is now the other side's. -/
theorem Balanced.write (h : Balanced k b C l hand) {ring : Ring Msg (k.mailbox b).capacity}
    (holds : ring.Holds l')
    (account : ∀ side, (k.mailbox b).stock l' side + (if hand = some side then 1 else 0) =
      (k.mailbox b).stock l side + if hand' = some side then 1 else 0) :
    Balanced (k.setMailbox b { k.mailbox b with ring }) b C l' hand' := by
  have hbox : (k.setMailbox b { k.mailbox b with ring }).mailbox b =
      { k.mailbox b with ring } := by
    rw [mailbox_setMailbox, if_pos rfl]
  have hgranted : ∀ side, (k.setMailbox b { k.mailbox b with ring }).granted b C side =
      k.granted b C side := by
    intro side
    refine granted_congr fun u => ?_
    unfold Granted
    rw [hbox]
    rfl
  refine ⟨?_, ?_, ?_, ?_⟩
  · rw [hbox]
    exact holds
  · intro side
    have hside := h.account side
    have hmoved := account side
    rw [hbox, hgranted]
    change (k.mailbox b).stock l' side = max (k.semaphoreCount ((k.mailbox b).gate side)) 0 +
      k.granted b C side + _
    omega
  · intro u side epoch hC
    rw [hbox]
    exact h.claimed u side epoch hC
  · intro u side hq
    rw [hbox] at hq ⊢
    exact h.queued u side hq

/-- What a mailbox holds after a message was put into it. -/
def insertMessage (msg : Msg) (ahead : Bool) (l : List Msg) : List Msg :=
  if ahead then msg :: l else l ++ [msg]

theorem Balanced.putMessage (h : Balanced k b C l (some .producer)) (msg : Msg) (ahead : Bool) :
    Balanced (k.putMessage b msg ahead) b C (insertMessage msg ahead l) (some .consumer) := by
  have hlength : (insertMessage msg ahead l).length = l.length + 1 := by
    cases ahead
    · exact List.length_append
    · rfl
  refine h.write ?_ ?_
  · cases ahead
    · exact h.ring.pushBack h.room msg
    · exact h.ring.pushFront h.room msg
  · intro side
    cases side
    · change ((k.mailbox b).capacity : Int) - _ + 1 = (k.mailbox b).capacity - l.length + 0
      omega
    · change ((insertMessage msg ahead l).length : Int) + 0 = l.length + 1
      omega

theorem Balanced.takeMessage (h : Balanced k b C l (some .consumer)) :
    l = (k.takeMessage b).1 :: l.tail ∧
      Balanced (k.takeMessage b).2 b C l.tail (some .producer) := by
  obtain ⟨a, l', rfl⟩ := h.pending
  obtain ⟨hfront, hrest⟩ := h.ring.popFront
  refine ⟨?_, h.write hrest ?_⟩
  · rw [← hfront]
    rfl
  · intro side
    cases side
    · change ((k.mailbox b).capacity : Int) - l'.length + 0 =
        (k.mailbox b).capacity - (l'.length + 1 : Nat) + 1
      omega
    · change (l'.length : Int) + 1 = (l'.length + 1 : Nat) + 0
      omega

/-- The running thread leaves a unit to whoever comes next. -/
theorem Balanced.leaveUnit (h : Balanced k b C l (some side)) (hb : k.Boxed)
    (hin : k.mailboxes.contains b = true)
    (hpos : 0 ≤ k.semaphoreCount ((k.mailbox b).gate side)) :
    Balanced (k.setSemaphoreCount ((k.mailbox b).gate side)
      (k.semaphoreCount ((k.mailbox b).gate side) + 1)) b C l none := by
  refine ⟨h.ring, ?_, h.claimed, h.queued⟩
  intro side'
  have haccount := h.account side'
  change (k.mailbox b).stock l side' = max ((k.setSemaphoreCount _ _).semaphoreCount
    ((k.mailbox b).gate side')) 0 + k.granted b C side' + 0
  rw [semaphoreCount_gate hb hin, haccount]
  by_cases hs : side' = side
  · rw [hs, if_pos rfl, if_pos rfl]
    omega
  · rw [if_neg hs, if_neg fun h => hs (Option.some.inj h).symm]

/-- A waiter that is woken was handed a unit, and nobody else was. -/
theorem Balanced.granted_iff (h : Balanced k b C l hand) (hk : k.InPlace)
    (hq : (k.thread t).queue = some (.semaphore ((k.mailbox b).gate side)))
    (hmailbox : k'.mailbox b = k.mailbox b)
    (hself : k'.thread t = { k.thread t with
      state := .ready, wakeup := .ok, queue := some .ready })
    (hother : ∀ u, u ≠ t → k'.thread u = k.thread u) (side' : Side) (u : ThreadId) :
    k'.Granted b C side' u ↔ side' = side ∧ u = t ∨ k.Granted b C side' u := by
  have hclaim := h.queued t side hq
  unfold Granted
  rw [hmailbox]
  by_cases hu : u = t
  · rw [hu, hself, hclaim]
    constructor
    · rintro ⟨hside, -, -⟩
      exact Or.inl ⟨(Prod.mk.inj (Option.some.inj hside)).1.symm, rfl⟩
    · rintro (⟨rfl, -⟩ | ⟨-, hrun, -⟩)
      · exact ⟨rfl, rfl, rfl⟩
      · exact absurd hrun (hk.not_isRunnable hq)
  · rw [hother u hu]
    exact ⟨Or.inr, fun hg => hg.resolve_left fun hut => hu hut.2⟩

/-- The running thread gives a unit to the first waiter, whom it wakes. -/
theorem Balanced.handUnit (h : Balanced k b C l (some side)) (hk : k.Sound)
    (hin : k.mailboxes.contains b = true)
    (hneg : k.semaphoreCount ((k.mailbox b).gate side) < 0)
    (hq : (k.thread t).queue = some (.semaphore ((k.mailbox b).gate side)))
    (hwakes : Wakes t .ok (k.setSemaphoreCount ((k.mailbox b).gate side)
      (k.semaphoreCount ((k.mailbox b).gate side) + 1)) k') : Balanced k' b C l none := by
  have hmailbox : k'.mailbox b = k.mailbox b := by
    simp only [mailbox, hwakes.moves.mailboxes]
    rfl
  have hsemaphores : ∀ s, k'.semaphoreCount s = (k.setSemaphoreCount ((k.mailbox b).gate side)
      (k.semaphoreCount ((k.mailbox b).gate side) + 1)).semaphoreCount s := by
    intro s
    simp only [semaphoreCount, hwakes.moves.semaphores]
  have hself : k'.thread t = { k.thread t with
      state := .ready, wakeup := .ok, queue := some .ready } := hwakes.moves.thread_self
  have hother : ∀ u, u ≠ t → k'.thread u = k.thread u := fun u => hwakes.moves.thread_of_ne
  have hgranted := h.granted_iff hk.inPlace hq hmailbox hself hother
  refine ⟨?_, ?_, ?_, ?_⟩
  · rw [hmailbox]
    exact h.ring
  · intro side'
    have haccount := h.account side'
    rw [hmailbox, hsemaphores, semaphoreCount_gate hk.boxed hin, haccount,
      if_neg (c := none = some side') (by simp)]
    by_cases hs : side' = side
    · have hsucc : k'.granted b C side = k.granted b C side + 1 := by
        refine granted_eq_succ (t := t) (fun u => ?_) fun hg => hk.inPlace.not_isRunnable hq hg.2.1
        rw [hgranted side u]
        simp
      rw [hs, if_pos rfl, if_pos rfl, hsucc]
      omega
    · have hsame : k'.granted b C side' = k.granted b C side' := by
        refine granted_congr fun u => ?_
        rw [hgranted side' u]
        simp [hs]
      rw [if_neg hs, if_neg fun h => hs (Option.some.inj h).symm, hsame]
  · intro u side' epoch hC
    rw [hmailbox]
    by_cases hu : u = t
    · rw [hu, hself]
      exact Or.inl rfl
    · rw [hother u hu]
      exact h.claimed u side' epoch hC
  · intro u side' hq'
    rw [hmailbox] at hq' ⊢
    by_cases hu : u = t
    · rw [hu, hself] at hq'
      cases hq'
    · rw [hother u hu] at hq'
      exact h.queued u side' hq'

/-- The running thread gives a unit to the first waiter, or else to whoever comes next. -/
theorem Balanced.signal (h : Balanced k b C l (some side)) (hk : k.Sound)
    (hin : k.mailboxes.contains b = true)
    (hs : k.signal ((k.mailbox b).gate side) = .ok k') : Balanced k' b C l none := by
  rcases signal_ok hk hs with ⟨hpos, rfl⟩ | ⟨hneg, t, hhead, hwakes⟩
  · exact h.leaveUnit hk.boxed hin hpos
  · exact h.handUnit hk hin hneg (hk.inPlace.queue_of_head hhead) hwakes

theorem admission_eq_ok : k.admission b epoch r = .ok () ↔
    r = .ok ∧ (k.mailbox b).epoch = epoch := by
  unfold admission
  cases r
  · change (if (k.mailbox b).epoch = epoch then Except.ok () else Except.error WaitError.reset) =
      Except.ok () ↔ _
    split
    · rename_i he
      exact iff_of_true rfl ⟨rfl, he⟩
    · rename_i he
      exact iff_of_false nofun fun h => he h.2
  · exact iff_of_false nofun nofun
  · exact iff_of_false nofun nofun

/-- Who is sent away: whoever a reset woke, and whoever has a unit of another epoch. -/
theorem admission_eq_reset : k.admission b epoch r = .error .reset ↔
    r = .reset ∨ r = .ok ∧ (k.mailbox b).epoch ≠ epoch := by
  unfold admission
  cases r
  · change (if (k.mailbox b).epoch = epoch then Except.ok () else Except.error WaitError.reset) =
      Except.error WaitError.reset ↔ _
    split
    · rename_i he
      exact iff_of_false nofun fun h => h.elim nofun fun h => h.2 he
    · rename_i he
      exact iff_of_true rfl (Or.inr ⟨rfl, he⟩)
  · exact iff_of_false nofun fun h => h.elim nofun fun h => nomatch h.1
  · exact iff_of_true rfl (Or.inl rfl)

/-- The running thread is admitted just if it was handed a unit. -/
theorem granted_current_iff (hk : k.InPlace) (hclaim : C k.current = some (side, epoch))
    (side' : Side) : k.Granted b C side' k.current ↔
      k.admission b epoch k.running.wakeup = .ok () ∧ side' = side := by
  have hrun : k.running.state.isRunnable = true := by
    rw [show k.running.state = .running from hk.state_current]
    rfl
  rw [admission_eq_ok]
  unfold Granted
  rw [hclaim]
  constructor
  · rintro ⟨hside, -, hw⟩
    obtain ⟨rfl, he⟩ := Prod.mk.inj (Option.some.inj hside)
    exact ⟨⟨hw, he.symm⟩, rfl⟩
  · rintro ⟨⟨hw, rfl⟩, rfl⟩
    exact ⟨rfl, hrun, hw⟩

/-- The running thread goes on with its claim: it was handed a unit, or it has none. -/
theorem Balanced.resume (h : Balanced k b C l none) (hk : k.InPlace)
    (hclaim : C k.current = some (side, epoch)) (hdrop : C' k.current = none)
    (others : ∀ u, u ≠ k.current → C' u = C u) :
    Balanced k b C' l
      (if k.admission b epoch k.running.wakeup = .ok () then some side else none) := by
  have hmine := granted_current_iff (b := b) hk hclaim
  have hdropped : ∀ side', ¬ k.Granted b C' side' k.current := by
    rintro side' ⟨hC, -⟩
    rw [hdrop] at hC
    cases hC
  have hothers : ∀ side' u, u ≠ k.current → (k.Granted b C' side' u ↔ k.Granted b C side' u) := by
    intro side' u hu
    unfold Granted
    rw [others u hu]
  refine ⟨h.ring, ?_, ?_, ?_⟩
  · intro side'
    have haccount := h.account side'
    rw [if_neg nofun] at haccount
    by_cases hg : k.Granted b C side' k.current
    · obtain ⟨hok, hs⟩ := (hmine side').mp hg
      have hsucc : k.granted b C side' = k.granted b C' side' + 1 := by
        refine granted_eq_succ (fun u => ?_) (hdropped side')
        by_cases hu : u = k.current
        · rw [hu]
          exact iff_of_true hg (Or.inl rfl)
        · rw [hothers side' u hu]
          exact ⟨Or.inr, fun hor => hor.resolve_left hu⟩
      rw [if_pos hok, if_pos (by rw [hs])]
      omega
    · have hsame : k.granted b C' side' = k.granted b C side' := by
        refine granted_congr fun u => ?_
        by_cases hu : u = k.current
        · rw [hu]
          exact iff_of_false (hdropped side') hg
        · exact hothers side' u hu
      have hnone : ¬ (if k.admission b epoch k.running.wakeup = .ok () then some side else none) =
          some side' := by
        split
        · rename_i hok
          intro hs
          exact hg ((hmine side').mpr ⟨hok, (Option.some.inj hs).symm⟩)
        · exact nofun
      rw [hsame, if_neg hnone]
      exact haccount
  · intro u side' e hC
    by_cases hu : u = k.current
    · rw [hu, hdrop] at hC
      cases hC
    · rw [others u hu] at hC
      exact h.claimed u side' e hC
  · intro u side' hq
    have hu : u ≠ k.current := hk.not_runs hq
    rw [others u hu]
    exact h.queued u side' hq

/-- What becomes of everything that a reset of a semaphore concerns. -/
structure Dismissed (s : SemaphoreId) (count : Nat) (k k' : Kernel) : Prop where
  inPlace : k'.InPlace
  thread : ∀ u, k'.thread u = if (k.thread u).queue = some (.semaphore s) then
    { k.thread u with state := .ready, wakeup := .reset, queue := some .ready } else k.thread u
  semaphoreCount : ∀ s', k'.semaphoreCount s' =
    if s' = s then (count : Int) else k.semaphoreCount s'
  mailboxes : k'.mailboxes = k.mailboxes

theorem resetSemaphore_dismissed {s : SemaphoreId} {count : Nat} (hk : k.InPlace)
    (h : k.resetSemaphore s count = .ok k') : Dismissed s count k k' := by
  have hrouses := resetSemaphore_ok hk h
  have hk₁ : (k.setSemaphoreCount s count).InPlace := InPlace.setSemaphoreCount hk _ _
  refine ⟨hrouses.inPlace hk₁, ?_, ?_, ?_⟩
  · exact hrouses.thread (q := .semaphore s) hk₁.toLinked nofun rfl
  · intro s'
    rw [← semaphoreCount_setSemaphoreCount]
    simp only [Kernel.semaphoreCount, hrouses.semaphores]
  · rw [hrouses.sameObjects.mailboxes]
    rfl

theorem Dismissed.isRunnable {s : SemaphoreId} {count : Nat} (h : Dismissed s count k k')
    (hu : (k.thread u).state.isRunnable = true ∨ (k.thread u).queue = some (.semaphore s)) :
    (k'.thread u).state.isRunnable = true := by
  rw [h.thread]
  split
  · rfl
  · rename_i hq
    exact hu.resolve_right hq

theorem Dismissed.stays {s s' : SemaphoreId} {count : Nat} (h : Dismissed s count k k')
    (hq : (k.thread u).queue = some (.semaphore s')) :
    (k'.thread u).state.isRunnable = true ∨ (k'.thread u).queue = some (.semaphore s') := by
  rw [h.thread]
  split
  · exact Or.inl rfl
  · exact Or.inr hq

theorem Dismissed.queue_ne {s : SemaphoreId} {count : Nat} (h : Dismissed s count k k')
    (s' : SemaphoreId) (hq : s' = s ∨ (k.thread u).queue ≠ some (.semaphore s')) :
    (k'.thread u).queue ≠ some (.semaphore s') := by
  rw [h.thread]
  split
  · exact nofun
  · rename_i hnot
    rcases hq with rfl | hq
    · exact hnot
    · exact hq

/-- All messages are dropped, and all who wait are sent away. -/
theorem Balanced.reset (h : Balanced k b C l none) (hk : k.Sound)
    (hin : k.mailboxes.contains b = true)
    (old : ∀ u side, C u ≠ some (side, (k.mailbox b).epoch + 1))
    (hr : k.resetMailbox b = .ok k') :
    Balanced k' b C [] none ∧ (k'.mailbox b).epoch = (k.mailbox b).epoch + 1 := by
  obtain ⟨box, k₁, hbox, hempty, hfull⟩ := resetMailbox_ok hr
  have hk₀ : (k.setMailbox b box).InPlace := hk.inPlace.congr rfl rfl fun _ _ ha => Or.inl ha
  have hempty := resetSemaphore_dismissed hk₀ hempty
  have hfull := resetSemaphore_dismissed hempty.inPlace hfull
  have hne := (hk.boxed.created b hin).2.2
  have hmailbox : k'.mailbox b = box := by
    have hset := mailbox_setMailbox k b b box
    rw [if_pos rfl] at hset
    rw [← hset]
    simp only [mailbox, hfull.mailboxes, hempty.mailboxes]
  have hcapacity : box.capacity = (k.mailbox b).capacity := by rw [hbox]
  have hgate : ∀ side, box.gate side = (k.mailbox b).gate side := by
    intro side
    rw [hbox]
    rfl
  have hepoch : box.epoch = (k.mailbox b).epoch + 1 := by rw [hbox]
  have hnone : ∀ side, k'.granted b C side = 0 := by
    intro side
    rw [granted, Finset.card_eq_zero, Finset.filter_eq_empty_iff]
    rintro u - ⟨hC, -⟩
    rw [hmailbox, hepoch] at hC
    exact old u side hC
  refine ⟨⟨?_, ?_, ?_, ?_⟩, ?_⟩
  · rw [hmailbox, hbox]
    exact Ring.holds_rewind _
  · intro side
    rw [hmailbox, hgate, hnone, hfull.semaphoreCount, hempty.semaphoreCount]
    cases side
    · change (box.capacity : Int) - 0 = max (if (k.mailbox b).empty = _ then _ else
        if (k.mailbox b).empty = _ then _ else _) 0 + _ + 0
      rw [if_neg hne, if_pos rfl, hcapacity]
      omega
    · change (0 : Int) = max (if (k.mailbox b).full = _ then _ else _) 0 + _ + 0
      rw [if_pos rfl]
      rfl
  · intro u side epoch hC
    refine Or.inl ?_
    rcases h.claimed u side epoch hC with hrun | ⟨hq, -⟩
    · exact hfull.isRunnable (Or.inl (hempty.isRunnable (Or.inl hrun)))
    · cases side
      · exact hfull.isRunnable (Or.inl (hempty.isRunnable (Or.inr hq)))
      · exact hfull.isRunnable (hempty.stays hq)
  · intro u side hq
    rw [hmailbox, hgate] at hq
    refine absurd hq ?_
    cases side
    · exact hfull.queue_ne _ (Or.inr (hempty.queue_ne _ (Or.inl rfl)))
    · exact hfull.queue_ne _ (Or.inl rfl)
  · rw [hmailbox, hepoch]

/-- A new mailbox is empty, and it has two semaphores that were not there before. -/
theorem createMailbox_made {capacity : Nat} (h : k.createMailbox capacity = .ok (.ok b, k')) :
    ∃ hpos : 0 < capacity, ∃ empty full,
      k'.mailbox b = { capacity, ring := .empty 0 hpos, empty, full } ∧ empty ≠ full ∧
      k.semaphores.contains empty = false ∧ k.semaphores.contains full = false ∧
      ∀ s, k'.semaphoreCount s =
        if s = full then 0 else if s = empty then (capacity : Int) else k.semaphoreCount s := by
  rcases @createMailbox_ok k k' (fun _ => True) capacity _ h with ⟨⟨err, he⟩, -⟩ |
    ⟨b', empty, full, pool₁, pool₂, pool, hpos, hb, -, hpush₁, hpush₂, hpush, rfl⟩
  · cases he
  · obtain rfl := Except.ok.inj hb
    have hempty : pool₁.contains empty = true := (Pool.contains_push hpush₁).mpr (Or.inl rfl)
    have hnew : pool₁.contains full = false := Pool.not_contains_of_push hpush₂
    refine ⟨hpos, empty, full, (Pool.get_push hpush).trans (if_pos rfl), ?_,
      Pool.not_contains_of_push hpush₁, ?_, ?_⟩
    · rintro rfl
      rw [hempty] at hnew
      cases hnew
    · cases hold : k.semaphores.contains full with
      | false => rfl
      | true =>
          rw [(Pool.contains_push hpush₁).mpr (Or.inr hold)] at hnew
          cases hnew
    · intro s
      change (pool₂.get s).count = _
      rw [Pool.get_push hpush₂]
      split
      · rfl
      · rw [Pool.get_push hpush₁]
        split <;> rfl

/-- A new mailbox is empty, and nobody has a claim on it. -/
theorem balanced_of_createMailbox {capacity : Nat} {e : Except KernelError MailboxId}
    (hk' : k'.Sound) (h : k.createMailbox capacity = .ok (e, k'))
    (hnew : k.mailboxes.contains b = false) (hin : k'.mailboxes.contains b = true)
    (hC : ∀ u, C u = none) : Balanced k' b C [] none := by
  have he : e = .ok b := by
    rcases @createMailbox_ok k k' (fun _ => True) capacity e h with ⟨-, hsame, -⟩ |
      ⟨b', empty, full, pool₁, pool₂, pool, hpos, he, -, -, -, hpush, rfl⟩
    · rw [hsame, hnew] at hin
      cases hin
    · rcases (Pool.contains_push hpush).mp hin with rfl | hb
      · exact he
      · rw [hnew] at hb
        cases hb
  subst he
  obtain ⟨hpos, empty, full, hmailbox, hne, -, -, hcount⟩ := createMailbox_made h
  have hnone : ∀ side, k'.granted b C side = 0 := by
    intro side
    rw [granted, Finset.card_eq_zero, Finset.filter_eq_empty_iff]
    rintro u - ⟨hclaim, -⟩
    rw [hC] at hclaim
    cases hclaim
  refine ⟨?_, ?_, ?_, ?_⟩
  · rw [hmailbox]
    exact Ring.holds_empty 0 hpos
  · intro side
    rw [hmailbox, hnone, hcount]
    cases side
    · change (capacity : Int) - 0 = max (if empty = _ then _ else if empty = _ then _ else _) 0 +
        _ + 0
      rw [if_neg hne, if_pos rfl]
      omega
    · change (0 : Int) = max (if full = _ then _ else _) 0 + _ + 0
      rw [if_pos rfl]
      rfl
  · intro u side epoch hclaim
    rw [hC] at hclaim
    cases hclaim
  · intro u side hq
    have hmem := (hk'.inPlace.mem_iff u _).mpr hq
    rw [hk'.counted.members_eq_nil] at hmem
    · cases hmem
    · rw [hmailbox, hcount]
      cases side
      · change 0 ≤ if empty = _ then _ else if empty = _ then _ else _
        rw [if_neg hne, if_pos rfl]
        omega
      · change 0 ≤ if full = _ then _ else _
        rw [if_pos rfl]

end Kernel

end RealtimeKernel

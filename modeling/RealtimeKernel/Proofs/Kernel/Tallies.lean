import RealtimeKernel.Proofs.Kernel.Delivery

/-!
The units of one semaphore. What an operation does to it is counted: the signals, the units
that go to a thread at once, and the waiters that are handed one. A unit is available after it
that was before, or was signalled, and was given to nobody.
-/
namespace RealtimeKernel

/-- The signals of a semaphore that a delivery at a mailbox comes with. -/
def signalsOf (box : Mailbox) (s : SemaphoreId) : Option Delivery → Nat
  | some (.put ..) => if box.full = s then 1 else 0
  | some (.take _) => if box.empty = s then 1 else 0
  | _ => 0

/-- The units of a semaphore that a delivery costs. -/
def takesOf (box : Mailbox) (s : SemaphoreId) : Option Delivery → Nat
  | some (.put ..) => if box.empty = s then 1 else 0
  | some (.take _) => if box.full = s then 1 else 0
  | _ => 0

/-- Does a wait for a unit return at once, with one? -/
def wonAtOnce : List Frame → Bool
  | .answer (.wakeup .ok) :: _ => true
  | _ => false

/-- The count that a reset of a mailbox gives to a semaphore, if that is one of the mailbox. -/
def Mailbox.resetsTo (box : Mailbox) (s : SemaphoreId) : Option Nat :=
  if box.empty = s then some box.capacity else if box.full = s then some 0 else none

theorem Mailbox.resetsTo_ok {box : Mailbox} {s : SemaphoreId} {n : Nat}
    (h : box.resetsTo s = some n) :
    box.empty = s ∧ box.capacity = n ∨ box.full = s ∧ 0 = n := by
  unfold resetsTo at h
  split at h
  · rename_i hs
    exact Or.inl ⟨hs, Option.some.inj h⟩
  · split at h
    · rename_i hs
      exact Or.inr ⟨hs, Option.some.inj h⟩
    · cases h

theorem Mailbox.resetsTo_gate {box : Mailbox} (hne : box.empty ≠ box.full) (side : Side) :
    box.resetsTo (box.gate side) = some (match side with
      | .producer => box.capacity
      | .consumer => 0) := by
  cases side with
  | producer => exact if_pos rfl
  | consumer => exact (if_neg hne).trans (if_pos rfl)

namespace Kernel

variable {k k' k₁ : Kernel} {touched : Object → Prop} {s s' : SemaphoreId} {b : MailboxId}
  {i i' o o' : Nat} {t u : ThreadId} {r : WakeupResult} {state : ThreadState} {step : Step}
  {msg : Msg} {ahead : Bool} {epoch : UInt32} {timeout : Timeout} {count : Nat}

/-- A thread that waited for a unit may run again, and was handed one. -/
def Handed (s : SemaphoreId) (k k' : Kernel) (t : ThreadId) : Prop :=
  (k.thread t).queue = some (.semaphore s) ∧ (k'.thread t).state.isRunnable = true ∧
    (k'.thread t).wakeup = .ok

instance (s : SemaphoreId) (k k' : Kernel) : DecidablePred (Handed s k k') :=
  fun t => inferInstanceAs (Decidable ((k.thread t).queue = some (.semaphore s) ∧
    (k'.thread t).state.isRunnable = true ∧ (k'.thread t).wakeup = .ok))

def handed (s : SemaphoreId) (k k' : Kernel) : Nat := (Finset.univ.filter (Handed s k k')).card

theorem handed_eq_zero (h : ∀ t, ¬ Handed s k k' t) : handed s k k' = 0 := by
  rw [handed, Finset.card_eq_zero, Finset.filter_eq_empty_iff]
  exact fun t _ => h t

theorem handed_eq_one (h : ∀ u, Handed s k k' u ↔ u = t) : handed s k k' = 1 := by
  rw [handed, Finset.card_eq_one]
  refine ⟨t, ?_⟩
  ext u
  simp only [Finset.mem_filter, Finset.mem_univ, true_and, Finset.mem_singleton, h]

theorem handed_add (h : ∀ t, Handed s k k' t ↔ Handed s k k₁ t ∨ Handed s k₁ k' t)
    (apart : ∀ t, Handed s k k₁ t → ¬ Handed s k₁ k' t) :
    handed s k k' = handed s k k₁ + handed s k₁ k' := by
  simp only [handed]
  rw [← Finset.card_union_of_disjoint]
  · congr 1
    ext t
    simp only [Finset.mem_filter, Finset.mem_union, Finset.mem_univ, true_and, h]
  · rw [Finset.disjoint_filter]
    exact fun t _ => apart t

/-- `i` signals of a semaphore, and `o` units taken from it at once. -/
structure Tallies (s : SemaphoreId) (i o : Nat) (k k' : Kernel) : Prop where
  count : max (k'.semaphoreCount s) 0 + handed s k k' + o = max (k.semaphoreCount s) 0 + i
  /-- Who waits goes on waiting or wakes up, though not because of a reset. -/
  leaves : ∀ t, (k.thread t).queue = some (.semaphore s) →
    (k'.thread t).queue = some (.semaphore s) ∨
      (k'.thread t).state.isRunnable = true ∧ (k'.thread t).wakeup ≠ .reset
  enters : ∀ t, t ≠ k.current → (k'.thread t).queue = some (.semaphore s) →
    (k.thread t).queue = some (.semaphore s)
  keeps : ∀ t, t ≠ k.current → KeepsRunnable k k' t

/-- Operations one after the other, of the same thread. -/
theorem Tallies.trans (h : Tallies s i o k k₁) (hk : k.InPlace) (hk₁ : k₁.InPlace)
    (hcurrent : k₁.current = k.current) (h' : Tallies s i' o' k₁ k') :
    Tallies s (i + i') (o + o') k k' := by
  have hqueued : ∀ {k : Kernel} {t}, k.InPlace → (k.thread t).queue = some (.semaphore s) →
      t ≠ k.current := fun hk hq => hk.not_runs hq
  have hkeeps : ∀ t, t ≠ k.current → KeepsRunnable k₁ k' t := by
    intro t ht
    rw [← hcurrent] at ht
    exact h'.keeps t ht
  refine ⟨?_, ?_, ?_, fun t ht => (h.keeps t ht).trans (hkeeps t ht)⟩
  · have hhanded : handed s k k' = handed s k k₁ + handed s k₁ k' := by
      apply handed_add
      · intro t
        constructor
        · rintro ⟨hq, hrun, hok⟩
          rcases h.leaves t hq with hq₁ | ⟨hrun₁, -⟩
          · exact Or.inr ⟨hq₁, hrun, hok⟩
          · obtain ⟨-, hwakeup⟩ := hkeeps t (hqueued hk hq) hrun₁
            exact Or.inl ⟨hq, hrun₁, hwakeup ▸ hok⟩
        · rintro (⟨hq, hrun₁, hok⟩ | ⟨hq₁, hrun, hok⟩)
          · obtain ⟨hrun, hwakeup⟩ := hkeeps t (hqueued hk hq) hrun₁
            exact ⟨hq, hrun, hwakeup.trans hok⟩
          · have ht := hqueued hk₁ hq₁
            rw [hcurrent] at ht
            exact ⟨h.enters t ht hq₁, hrun, hok⟩
      · rintro t ⟨-, hrun₁, -⟩ ⟨hq₁, -⟩
        exact hk₁.not_isRunnable hq₁ hrun₁
    have hfirst := h.count
    have hsecond := h'.count
    omega
  · intro t hq
    rcases h.leaves t hq with hq₁ | ⟨hrun₁, hnot⟩
    · exact h'.leaves t hq₁
    · obtain ⟨hrun, hwakeup⟩ := hkeeps t (hqueued hk hq) hrun₁
      rw [← hwakeup] at hnot
      exact Or.inr ⟨hrun, hnot⟩
  · intro t ht hq
    have ht₁ : t ≠ k₁.current := by rwa [hcurrent]
    exact h.enters t ht (h'.enters t ht₁ hq)

/-- Waits that time out are no concern of the balance. -/
theorem Leaves.tallies (h : Leaves s k k') (hk' : k'.InPlace)
    (keeps : ∀ t, t ≠ k.current → KeepsRunnable k k' t) : Tallies s 0 0 k k' := by
  refine ⟨?_, ?_, fun t _ => h.enters t, keeps⟩
  · have hnone : handed s k k' = 0 := by
      apply handed_eq_zero
      rintro t ⟨hq, hrun, hok⟩
      rcases h.stays t hq with hq' | ⟨-, htimeout⟩
      · exact hk'.not_isRunnable hq' hrun
      · rw [hok] at htimeout
        cases htimeout
    rw [hnone, h.count]
    simp
  · intro t hq
    rcases h.stays t hq with hq' | ⟨hrun, htimeout⟩
    · exact Or.inl hq'
    · refine Or.inr ⟨hrun, ?_⟩
      rw [htimeout]
      exact nofun

theorem Tallies.refl (s : SemaphoreId) (hk : k.InPlace) : Tallies s 0 0 k k :=
  (Leaves.refl s k).tallies hk fun t _ => .refl k t

/-- What an operation does to a semaphore that it was not given. -/
theorem Does.tallies (h : Does touched k k') (hk : k.Sound) (ht : ¬ touched (.semaphore s))
    (hin : k.semaphores.contains s = true) : Tallies s 0 0 k k' := by
  exact (h.leaves hk ht hin).tallies (h.inPlace hk.inPlace) fun u => h.keepsRunnable hk

/-! Semaphores. -/

theorem signal_tallies (hk : k.Sound) (hin : k.semaphores.contains s = true)
    (h : k.signal s' = .ok k') : Tallies s (if s' = s then 1 else 0) 0 k k' := by
  have heffect : Effect (· = .semaphore s') k k' := signal_effect hk rfl h
  have hkeeps := heffect.keepsRunnable hk.inPlace
  by_cases hs : s' = s
  · subst hs
    rw [if_pos rfl]
    rcases signal_ok hk h with ⟨hpos, rfl⟩ | ⟨hneg, t, hhead, hwakes⟩
    · refine ⟨?_, fun t => Or.inl, fun t _ => id, fun t _ => hkeeps t⟩
      rw [handed_eq_zero, semaphoreCount_setSemaphoreCount, if_pos rfl]
      · omega
      · intro t ht
        exact hk.inPlace.not_isRunnable ht.1 ht.2.1
    · have hthread : ∀ u, k'.thread u = if u = t then
          { k.thread t with state := .ready, wakeup := .ok, queue := some .ready }
          else k.thread u := hwakes.moves.thread
      have hq : (k.thread t).queue = some (.semaphore s') :=
        hk.inPlace.queue_of_head hhead
      have hcount : k'.semaphoreCount s' = k.semaphoreCount s' + 1 := by
        have hset := semaphoreCount_setSemaphoreCount k s' s' (k.semaphoreCount s' + 1)
        rw [if_pos rfl] at hset
        rw [← hset]
        simp only [semaphoreCount, hwakes.moves.semaphores]
      refine ⟨?_, ?_, ?_, fun t _ => hkeeps t⟩
      · rw [handed_eq_one (t := t), hcount]
        · omega
        · intro u
          constructor
          · rintro ⟨hqu, hrun, -⟩
            by_contra hu
            rw [hthread, if_neg hu] at hrun
            exact hk.inPlace.not_isRunnable hqu hrun
          · rintro rfl
            refine ⟨hq, ?_, ?_⟩
            · rw [hthread, if_pos rfl]
              rfl
            · rw [hthread, if_pos rfl]
      · intro u hqu
        rw [hthread]
        split
        · exact Or.inr ⟨rfl, by simp⟩
        · exact Or.inl hqu
      · intro u _ hqu
        rw [hthread] at hqu
        split at hqu
        · cases hqu
        · exact hqu
  · rw [if_neg hs]
    refine (Does.of_effect heffect).tallies hk ?_ hin
    intro heq
    exact hs (Object.semaphore.inj heq).symm

theorem preempt_tallies (hk : k.Sound) (hin : k.semaphores.contains s = true)
    (h : k.preempt = .ok k') : Tallies s 0 0 k k' :=
  have hdoes : Does (fun _ => False) k k' := preempt_does hk.inPlace h
  hdoes.tallies hk id hin

/-- A unit that is there goes to the running thread. -/
theorem take_tallies (hk : k.Sound) (hpos : 0 < k.semaphoreCount s') :
    Tallies s 0 (if s' = s then 1 else 0) k
      (k.setSemaphoreCount s' (k.semaphoreCount s' - 1)) := by
  refine ⟨?_, fun t => Or.inl, fun t _ => id, fun t _ hrun => ⟨hrun, rfl⟩⟩
  rw [handed_eq_zero, semaphoreCount_setSemaphoreCount]
  · by_cases hs : s' = s
    · rw [if_pos hs, if_pos hs.symm, hs]
      rw [hs] at hpos
      omega
    · rw [if_neg hs, if_neg (Ne.symm hs)]
      omega
  · intro t ht
    exact hk.inPlace.not_isRunnable ht.1 ht.2.1

/-- A thread that waits for a unit has not got it yet. -/
theorem awaitUnit_tallies (hk : k.Sound) (hin : k.semaphores.contains s = true)
    (hcontains : k.semaphores.contains s' = true) (hcount : k.semaphoreCount s' ≤ 0)
    (hstate : state = .waitingSemaphore ∨ state = .waitingMailbox)
    (h : Blocks state (some (.semaphore s'))
      (k.setSemaphoreCount s' (k.semaphoreCount s' - 1)) k') : Tallies s 0 0 k k' := by
  have hswitch : Switch (· = .semaphore s') k k' := .awaitUnit rfl hcontains hcount hstate h
  by_cases hs : s' = s
  · subst hs
    have hin' := hswitch.inPlace hk.inPlace
    have hset := semaphoreCount_setSemaphoreCount k s' s' (k.semaphoreCount s' - 1)
    rw [if_pos rfl] at hset
    have hnew : k'.semaphoreCount s' = k.semaphoreCount s' - 1 := by
      rw [← hset]
      simp only [semaphoreCount, h.semaphores]
    have hiff : ∀ t, t ≠ k.current → ((k'.thread t).queue = some (.semaphore s') ↔
        (k.thread t).queue = some (.semaphore s')) :=
      fun t ht => hswitch.queue_semaphore_iff hk.inPlace ht
    have hother : ∀ t, (k.thread t).queue = some (.semaphore s') →
        (k'.thread t).queue = some (.semaphore s') := by
      exact fun t hq => (hiff t (hk.inPlace.not_runs hq)).mpr hq
    refine ⟨?_, fun t hq => Or.inl (hother t hq), fun t ht => (hiff t ht).mp,
      fun t ht => hswitch.keepsRunnable hk.inPlace ht⟩
    rw [handed_eq_zero, hnew]
    · omega
    · rintro t ⟨hq, hrun, -⟩
      exact hin'.not_isRunnable (hother t hq) hrun
  · refine (Does.of_switch hswitch).tallies hk ?_ hin
    intro heq
    exact hs (Object.semaphore.inj heq).symm

/-- A wait for a unit gets one at once, or not yet, or not at all. -/
theorem waitUnit_tallies {w : Wait} (hk : k.Sound) (hin : k.semaphores.contains s = true)
    (hcontains : k.semaphores.contains s' = true)
    (hstate : state = .waitingSemaphore ∨ state = .waitingMailbox)
    (h : k.waitUnit s' timeout state = .ok w) :
    (∃ k₁, w = .over .ok k₁ ∧ k₁ = k.setSemaphoreCount s' (k.semaphoreCount s' - 1) ∧
      0 < k.semaphoreCount s' ∧ Tallies s 0 (if s' = s then 1 else 0) k k₁) ∨
    w = .over .timeout k ∨
    ∃ checks k', w = .blocked checks k' ∧ (checks = [] ∨ checks = [.awake]) ∧
      Tallies s 0 0 k k' := by
  rcases waitUnit_ok hk.inPlace hstate h with
    ⟨hpos, rfl⟩ | ⟨-, -, rfl⟩ | ⟨hcount, -, checks, k', rfl, hc, hblocks⟩
  · exact Or.inl ⟨_, rfl, rfl, hpos, take_tallies hk hpos⟩
  · exact Or.inr (Or.inl rfl)
  · exact Or.inr (Or.inr ⟨checks, k', rfl, hc,
      awaitUnit_tallies hk hin hcontains hcount hstate hblocks⟩)

theorem waitSemaphore_tallies {w : Wait} (hk : k.Sound) (hin : k.semaphores.contains s = true)
    (hcontains : k.semaphores.contains s' = true)
    (h : k.waitUnit s' timeout .waitingSemaphore = .ok w) :
    Tallies s 0 (if s' = s && wonAtOnce w.thenAnswer.2 then 1 else 0) k w.thenAnswer.1 := by
  rcases waitUnit_tallies hk hin hcontains (Or.inl rfl) h with
    ⟨k₁, rfl, -, -, htake⟩ | rfl | ⟨checks, k', rfl, hc, htally⟩
  · simpa [Wait.thenAnswer, wonAtOnce] using htake
  · simpa [Wait.thenAnswer, wonAtOnce] using Tallies.refl s hk.inPlace
  · rcases hc with rfl | rfl <;> simpa [Wait.thenAnswer, wonAtOnce] using htally

theorem signalAndWait_tallies {s₁ s₂ : SemaphoreId} (hk : k.Sound)
    (hin : k.semaphores.contains s = true) (hin₂ : k.semaphores.contains s₂ = true)
    (h : k.signalAndWait s₁ s₂ = .ok step) :
    Tallies s (if s₁ = s then 1 else 0) (if s₂ = s && wonAtOnce step.2 then 1 else 0) k step.1 := by
  obtain ⟨k₁, k', hsignal, hwait⟩ := signalAndWait_ok hk h
  have heffect : Effect (fun _ => True) k k₁ := signal_effect hk trivial hsignal
  have hk₁ := heffect.sound hk
  have hin₁ := heffect.grows.semaphores s hin
  have hsignal : Tallies s (if s₁ = s then 1 else 0) 0 k k₁ := signal_tallies hk hin hsignal
  rcases hwait with ⟨hpos, rfl, hpreempt⟩ | ⟨hcount, rfl, hblocks⟩
  · have hcount : 0 ≤ k₁.semaphoreCount s₂ - 1 := by omega
    have hrecount : Effect (fun _ => True) k₁
        (k₁.setSemaphoreCount s₂ (k₁.semaphoreCount s₂ - 1)) :=
      .recount trivial hpos.le hcount
    have hk₂ := hrecount.sound hk₁
    have htake : Tallies s 0 (if s₂ = s then 1 else 0) k₁ _ := take_tallies hk₁ hpos
    have hpreempt := preempt_tallies hk₂ (hrecount.grows.semaphores s hin₁) hpreempt
    have htally := (hsignal.trans hk.inPlace hk₁.inPlace heffect.current htake).trans
      hk.inPlace hk₂.inPlace (hrecount.current.trans heffect.current) hpreempt
    simpa [wonAtOnce] using htally
  · have hawait := awaitUnit_tallies hk₁ hin₁ (heffect.grows.semaphores s₂ hin₂) hcount
      (Or.inl rfl) hblocks
    have htally := hsignal.trans hk.inPlace hk₁.inPlace heffect.current hawait
    simpa [wonAtOnce] using htally

/-! Mailboxes. -/

/-- A message is stored or taken, and a unit passed on for it. -/
theorem write_tallies {ring : Ring Msg (k.mailbox b).capacity} (hk : k.Sound)
    (hin : k.semaphores.contains s = true)
    (h : (k.setMailbox b { k.mailbox b with ring }).signal s' = .ok k') :
    k'.Sound ∧ k'.semaphores.contains s = true ∧ k'.current = k.current ∧
      Tallies s (if s' = s then 1 else 0) 0 k k' := by
  have hwrite : Effect (· = .mailbox b) k (k.setMailbox b { k.mailbox b with ring }) :=
    .write ring (k.mailbox b).epoch rfl
  have hk₁ := hwrite.sound hk
  have hin₁ := hwrite.grows.semaphores s hin
  have hsignal : Effect (fun _ => True) _ k' := signal_effect hk₁ trivial h
  have hfirst := (Does.of_effect hwrite).tallies hk nofun hin
  have htally := hfirst.trans hk.inPlace hk₁.inPlace hwrite.current (signal_tallies hk₁ hin₁ h)
  refine ⟨hsignal.sound hk₁, hsignal.grows.semaphores s hin₁,
    hsignal.current.trans hwrite.current, ?_⟩
  simpa using htally

theorem storeAfter_tallies (hk : k.Sound) (hin : k.semaphores.contains s = true)
    (h : storeAfter b epoch msg ahead r k = .ok step) :
    Tallies s (signalsOf (k.mailbox b) s (postDelivery msg ahead step.2)) 0 k step.1 := by
  rcases storeAfter_ok h with ⟨e, -, rfl⟩ | ⟨k₁, k', -, hsignal, hpreempt, rfl⟩
  · exact .refl s hk.inPlace
  · obtain ⟨hk₁, hin₁, hcurrent, htally⟩ := write_tallies hk hin hsignal
    have hpreempt := preempt_tallies hk₁ hin₁ hpreempt
    exact htally.trans hk.inPlace hk₁.inPlace hcurrent hpreempt

theorem fetchAfter_tallies (hk : k.Sound) (hin : k.semaphores.contains s = true)
    (h : fetchAfter b epoch r k = .ok step) :
    Tallies s (signalsOf (k.mailbox b) s (fetchDelivery step.2)) 0 k step.1 := by
  rcases fetchAfter_ok h with ⟨e, -, rfl⟩ | ⟨k₁, k', -, hsignal, hpreempt, rfl⟩
  · exact .refl s hk.inPlace
  · obtain ⟨hk₁, hin₁, hcurrent, htally⟩ := write_tallies hk hin hsignal
    have hpreempt := preempt_tallies hk₁ hin₁ hpreempt
    exact htally.trans hk.inPlace hk₁.inPlace hcurrent hpreempt

theorem storeAfter_ne_nil (h : storeAfter b epoch msg ahead r k = .ok step) : step.2 ≠ [] := by
  rcases storeAfter_ok h with ⟨e, -, rfl⟩ | ⟨k₁, k', -, -, -, rfl⟩ <;> exact nofun

theorem fetchAfter_ne_nil (h : fetchAfter b epoch r k = .ok step) : step.2 ≠ [] := by
  rcases fetchAfter_ok h with ⟨e, -, rfl⟩ | ⟨k₁, k', -, -, -, rfl⟩ <;> exact nofun

/-- A message is stored if and only if the wait for a free cell went well. -/
theorem storeAfter_delivery (h : storeAfter b epoch msg ahead r k = .ok step) :
    postDelivery msg ahead step.2 =
      if k.admission b epoch r = .ok () then some (.put msg ahead) else none := by
  rcases storeAfter_ok h with ⟨e, he, rfl⟩ | ⟨k₁, k', hok, -, -, rfl⟩
  · rw [he, if_neg nofun]
    rfl
  · rw [hok, if_pos rfl]
    rfl

theorem fetchAfter_delivery (h : fetchAfter b epoch r k = .ok step) :
    fetchDelivery step.2 =
      if k.admission b epoch r = .ok () then some (.take (k.takeMessage b).1) else none := by
  rcases fetchAfter_ok h with ⟨e, he, rfl⟩ | ⟨k₁, k', hok, -, -, rfl⟩
  · rw [he, if_neg nofun]
    rfl
  · rw [hok, if_pos rfl]
    rfl

/-- A wait at a mailbox: the unit that was won is spent at once, or nothing is delivered yet. -/
theorem thenDo_tallies {w : Wait} {now : WakeupResult → Kernel → Outcome Step} {later : Frame}
    {d : List Frame → Option Delivery} (hk : k.Sound) (hin : k.semaphores.contains s = true)
    (hcontains : k.semaphores.contains s' = true)
    (hwait : k.waitUnit s' timeout .waitingMailbox = .ok w)
    (hnow : ∀ r k₁ step, k₁.Sound → k₁.semaphores.contains s = true →
      k₁.mailboxes = k.mailboxes → now r k₁ = .ok step →
      Tallies s (signalsOf (k.mailbox b) s (d step.2)) 0 k₁ step.1 ∧
        takesOf (k.mailbox b) s (d step.2) = if r = .ok ∧ s' = s then 1 else 0)
    (hlater : ∀ checks, checks = [] ∨ checks = [.awake] → d (checks ++ [later]) = none)
    (h : w.thenDo now later = .ok step) :
    Tallies s (signalsOf (k.mailbox b) s (d step.2)) (takesOf (k.mailbox b) s (d step.2)) k
      step.1 := by
  rcases waitUnit_tallies hk hin hcontains (Or.inr rfl) hwait with
    ⟨k₁, rfl, hset, hpos, htake⟩ | rfl | ⟨checks, k', rfl, hc, htally⟩
  · have hrecount : Effect (fun _ => True) k k₁ := by
      rw [hset]
      exact .recount trivial hpos.le (by omega)
    have hk₁ := hrecount.sound hk
    obtain ⟨htally, htakes⟩ :=
      hnow .ok k₁ step hk₁ (hrecount.grows.semaphores s hin) (by rw [hset]; rfl) h
    rw [htakes]
    have htally := htake.trans hk.inPlace hk₁.inPlace hrecount.current htally
    simpa using htally
  · obtain ⟨htally, htakes⟩ := hnow .timeout k step hk hin rfl h
    rw [htakes]
    exact htally
  · obtain rfl := Except.ok.inj h
    rw [hlater checks hc]
    exact htally

theorem post_tallies (hk : k.Sound) (hin : k.semaphores.contains s = true)
    (hbox : k.mailboxes.contains b = true) (h : k.post b msg ahead timeout = .ok step) :
    Tallies s (signalsOf (k.mailbox b) s (postDelivery msg ahead step.2))
      (takesOf (k.mailbox b) s (postDelivery msg ahead step.2)) k step.1 := by
  obtain ⟨w, hwait, h⟩ := post_ok h
  refine thenDo_tallies hk hin (hk.boxed.created b hbox).1 hwait ?_ ?_ h
  · intro r k₁ step hk₁ hin₁ hsame hnow
    have hmailbox : k₁.mailbox b = k.mailbox b := by simp only [mailbox, hsame]
    refine ⟨?_, ?_⟩
    · rw [← hmailbox]
      exact storeAfter_tallies hk₁ hin₁ hnow
    · rw [storeAfter_delivery hnow]
      simp only [admission_eq_ok, hmailbox, and_true]
      by_cases hr : r = .ok
      · rw [if_pos hr]
        simp [takesOf, hr]
      · rw [if_neg hr]
        simp [takesOf, hr]
  · rintro checks (rfl | rfl) <;> rfl

theorem fetch_tallies (hk : k.Sound) (hin : k.semaphores.contains s = true)
    (hbox : k.mailboxes.contains b = true) (h : k.fetch b timeout = .ok step) :
    Tallies s (signalsOf (k.mailbox b) s (fetchDelivery step.2))
      (takesOf (k.mailbox b) s (fetchDelivery step.2)) k step.1 := by
  obtain ⟨w, hwait, h⟩ := fetch_ok h
  refine thenDo_tallies hk hin (hk.boxed.created b hbox).2.1 hwait ?_ ?_ h
  · intro r k₁ step hk₁ hin₁ hsame hnow
    have hmailbox : k₁.mailbox b = k.mailbox b := by simp only [mailbox, hsame]
    refine ⟨?_, ?_⟩
    · rw [← hmailbox]
      exact fetchAfter_tallies hk₁ hin₁ hnow
    · rw [fetchAfter_delivery hnow]
      simp only [admission_eq_ok, hmailbox, and_true]
      by_cases hr : r = .ok
      · rw [if_pos hr]
        simp [takesOf, hr]
      · rw [if_neg hr]
        simp [takesOf, hr]
  · rintro checks (rfl | rfl) <;> rfl

/-- A unit that is there is taken and spent, without a wait. -/
theorem takeUnit_tallies {ring : Ring Msg (k.mailbox b).capacity} {p : SemaphoreId} (hk : k.Sound)
    (hin : k.semaphores.contains s = true) (htake : k.takeUnit? s' = some k₁)
    (h : (k₁.setMailbox b { k.mailbox b with ring }).signal p = .ok k') :
    Tallies s (if p = s then 1 else 0) (if s' = s then 1 else 0) k k' := by
  obtain ⟨hpos, hset⟩ := takeUnit_ok htake
  have hrecount : Effect (fun _ => True) k k₁ := takeUnit_effect trivial htake
  have hk₁ := hrecount.sound hk
  have hmailbox : k₁.mailbox b = k.mailbox b := by rw [hset]; rfl
  have hfirst : Tallies s 0 (if s' = s then 1 else 0) k k₁ := by
    rw [hset]
    exact take_tallies hk hpos
  subst hset
  obtain ⟨-, -, -, htally⟩ := write_tallies hk₁ (hrecount.grows.semaphores s hin) h
  have htally := hfirst.trans hk.inPlace hk₁.inPlace hrecount.current htally
  simpa using htally

theorem postNow_tallies {e : Except WaitError Unit} (hk : k.Sound)
    (hin : k.semaphores.contains s = true) (h : k.postNow b msg ahead = .ok (e, k'))
    {rest : List Frame} :
    Tallies s (signalsOf (k.mailbox b) s (postDelivery msg ahead (.answer (.posted e) :: rest)))
      (takesOf (k.mailbox b) s (postDelivery msg ahead (.answer (.posted e) :: rest))) k k' := by
  rcases postNow_ok h with ⟨rfl, -, rfl⟩ | ⟨k₁, rfl, htake, hsignal⟩
  · exact .refl s hk.inPlace
  · have hset := (takeUnit_ok htake).2
    subst hset
    exact takeUnit_tallies hk hin htake hsignal

theorem fetchNow_tallies {e : Except WaitError Msg} (hk : k.Sound)
    (hin : k.semaphores.contains s = true) (h : k.fetchNow b = .ok (e, k')) {rest : List Frame} :
    Tallies s (signalsOf (k.mailbox b) s (fetchDelivery (.answer (.fetched e) :: rest)))
      (takesOf (k.mailbox b) s (fetchDelivery (.answer (.fetched e) :: rest))) k k' := by
  rcases fetchNow_ok h with ⟨rfl, -, rfl⟩ | ⟨k₁, rfl, htake, hsignal⟩
  · exact .refl s hk.inPlace
  · have hset := (takeUnit_ok htake).2
    subst hset
    exact takeUnit_tallies hk hin htake hsignal

/-! Resets. -/

/-- Semaphores are set anew, and all who wait for them are sent away. -/
structure Resets (sets : SemaphoreId → Option Nat) (k k' : Kernel) : Prop where
  count : ∀ s n, sets s = some n → k'.semaphoreCount s = n
  woken : ∀ t s n, sets s = some n → (k.thread t).queue = some (.semaphore s) →
    (k'.thread t).state.isRunnable = true ∧ (k'.thread t).wakeup = .reset
  /-- Nobody else wakes. -/
  only : ∀ t, (k.thread t).state.isRunnable = false → (k'.thread t).state.isRunnable = true →
    ∃ s n, sets s = some n ∧ (k.thread t).queue = some (.semaphore s)

theorem Dismissed.resets {n : Nat} (h : Dismissed s n k k') :
    Resets (fun s' => if s = s' then some n else none) k k' := by
  have hsets : ∀ {s' n'}, (if s = s' then some n else none) = some n' → s = s' ∧ n = n' := by
    intro s' n' hn
    split at hn
    · rename_i hs
      exact ⟨hs, Option.some.inj hn⟩
    · cases hn
  refine ⟨?_, ?_, ?_⟩
  · intro s' n' hn
    obtain ⟨rfl, rfl⟩ := hsets hn
    rw [h.semaphoreCount, if_pos rfl]
  · intro t s' n' hn hq
    obtain ⟨rfl, rfl⟩ := hsets hn
    rw [h.thread, if_pos hq]
    exact ⟨rfl, rfl⟩
  · intro t hnot hrun
    rw [h.thread] at hrun
    split at hrun
    · rename_i hq
      exact ⟨s, n, if_pos rfl, hq⟩
    · rw [hnot] at hrun
      cases hrun

theorem resetMailbox_resets (hk : k.Sound) (hin : k.mailboxes.contains b = true)
    (h : k.resetMailbox b = .ok k') : Resets (k.mailbox b).resetsTo k k' := by
  obtain ⟨box, k₁, -, hempty, hfull⟩ := resetMailbox_ok h
  have hne := (hk.boxed.created b hin).2.2
  have hk₀ : (k.setMailbox b box).InPlace := hk.inPlace.congr rfl rfl fun _ _ ha => Or.inl ha
  have hempty := resetSemaphore_dismissed hk₀ hempty
  have hfull := resetSemaphore_dismissed hempty.inPlace hfull
  have hthread : ∀ t, k₁.thread t = if (k.thread t).queue = some (.semaphore (k.mailbox b).empty)
      then { k.thread t with state := .ready, wakeup := .reset, queue := some .ready }
      else k.thread t := hempty.thread
  refine ⟨?_, ?_, ?_⟩
  · intro s n hn
    rcases Mailbox.resetsTo_ok hn with ⟨rfl, rfl⟩ | ⟨rfl, rfl⟩
    · rw [hfull.semaphoreCount, if_neg hne, hempty.semaphoreCount, if_pos rfl]
    · rw [hfull.semaphoreCount, if_pos rfl]
  · intro t s n hn hq
    rcases Mailbox.resetsTo_ok hn with ⟨rfl, rfl⟩ | ⟨rfl, rfl⟩
    · rw [hfull.thread, if_neg, hthread, if_pos hq]
      · exact ⟨rfl, rfl⟩
      · rw [hthread, if_pos hq]
        exact nofun
    · have hsame : k₁.thread t = k.thread t := by
        rw [hthread, if_neg]
        rw [hq]
        intro heq
        exact hne (QueueId.semaphore.inj (Option.some.inj heq)).symm
      rw [hfull.thread, if_pos (by rw [hsame, hq])]
      exact ⟨rfl, rfl⟩
  · intro t hnot hrun
    by_cases hq : (k.thread t).queue = some (.semaphore (k.mailbox b).empty)
    · exact ⟨_, _, if_pos rfl, hq⟩
    · have hsame : k₁.thread t = k.thread t := by rw [hthread, if_neg hq]
      rw [hfull.thread, hsame] at hrun
      split at hrun
      · rename_i hq'
        exact ⟨_, _, (if_neg hne).trans (if_pos rfl), hq'⟩
      · rw [hnot] at hrun
        cases hrun

theorem preempt_semaphores (hk : k.InPlace) (h : k.preempt = .ok k') :
    k'.semaphores = k.semaphores := by
  rcases preempt_ok hk h with ⟨-, hgives⟩ | ⟨-, rfl⟩
  · exact hgives.semaphores
  · rfl

/-- Giving way wakes nobody. -/
theorem preempt_isRunnable (hk : k.InPlace) (h : k.preempt = .ok k')
    (hrun : (k'.thread t).state.isRunnable = true) : (k.thread t).state.isRunnable = true := by
  rcases preempt_ok hk h with ⟨-, k₁, next, hdispatch, -, hmoves⟩ | ⟨-, rfl⟩
  · by_cases ht : t = k.current
    · rw [ht, hk.state_current]
      rfl
    · rw [hmoves.thread_of_ne ht, hdispatch.thread] at hrun
      split at hrun
      · rename_i hnext
        rw [hnext, hdispatch.ready_next hk]
        rfl
      · exact hrun
  · exact hrun

theorem preempt_keeps (hk : k.InPlace) (h : k.preempt = .ok k') (ht : t ≠ k.current) :
    KeepsRunnable k k' t := by
  have hends : Switch (fun _ => False) k k' ∨ k' = k := preempt_switch hk h
  rcases hends with hswitch | rfl
  · exact hswitch.keepsRunnable hk ht
  · exact .refl _ t

theorem Resets.preempt {sets : SemaphoreId → Option Nat} (h : Resets sets k k₁) (hk : k.InPlace)
    (hk₁ : k₁.InPlace) (hcurrent : k₁.current = k.current) (hp : k₁.preempt = .ok k') :
    Resets sets k k' := by
  refine ⟨?_, ?_, fun t hnot hrun => h.only t hnot (preempt_isRunnable hk₁ hp hrun)⟩
  · intro s n hn
    rw [← h.count s n hn]
    simp only [semaphoreCount, preempt_semaphores hk₁ hp]
  · intro t s n hn hq
    obtain ⟨hrun, hreset⟩ := h.woken t s n hn hq
    have ht : t ≠ k₁.current := by
      rw [hcurrent]
      exact hk.not_runs hq
    obtain ⟨hrun', hwakeup⟩ := preempt_keeps hk₁ hp ht hrun
    exact ⟨hrun', hwakeup.trans hreset⟩

end Kernel

end RealtimeKernel

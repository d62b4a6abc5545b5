import RealtimeKernel.Proofs.Execution.Conservation

/-!
Calls at a mailbox that a reset makes void. Whoever waits or was handed a unit goes away and
leaves everything alone, however late it runs. Nobody else is sent away.
-/
namespace RealtimeKernel

/-- The answer to a call that a reset made void. -/
def Side.aborted : Side → Answer
  | .producer => .posted (.error .reset)
  | .consumer => .fetched (.error .reset)

namespace Kernel

variable {k : Kernel} {b : MailboxId} {s : SemaphoreId} {r : WakeupResult} {msg : Msg}
  {ahead : Bool} {step : Step} {timeout : Timeout} {epoch : UInt32} {side : Side} {f : Frame}

/-- Who goes on with a claim and is turned away changes nothing. -/
theorem frameStep_aborted (hf : f.claim? b = some (side, epoch))
    (hreset : k.admission b epoch k.running.wakeup = .error .reset) :
    Execution.frameStep k f = .ok (k, [.answer side.aborted]) := by
  cases f with
  | store b' epoch' msg ahead =>
      obtain ⟨rfl, hclaim⟩ := Option.ite_none_right_eq_some.mp hf
      obtain ⟨rfl, rfl⟩ := Prod.mk.inj (Option.some.inj hclaim)
      unfold Execution.frameStep storeAfter
      dsimp only
      rw [hreset]
      rfl
  | fetch b' epoch' =>
      obtain ⟨rfl, hclaim⟩ := Option.ite_none_right_eq_some.mp hf
      obtain ⟨rfl, rfl⟩ := Prod.mk.inj (Option.some.inj hclaim)
      unfold Execution.frameStep fetchAfter
      dsimp only
      rw [hreset]
      rfl
  | _ => cases hf

/-- Nobody else has this answer. -/
theorem storeAfter_aborted (h : storeAfter b epoch msg ahead r k = .ok step) :
    ∃ a, step.2 = [.answer a] ∧
      ∀ side, a = Side.aborted side → k.admission b epoch r = .error .reset := by
  rcases storeAfter_ok h with ⟨e, he, rfl⟩ | ⟨k₁, k', -, -, -, rfl⟩
  · refine ⟨_, rfl, ?_⟩
    rintro (_ | _) haborted
    · rw [he, Except.error.inj (Answer.posted.inj haborted)]
    · cases haborted
  · exact ⟨_, rfl, by rintro (_ | _) ⟨⟩⟩

theorem fetchAfter_aborted (h : fetchAfter b epoch r k = .ok step) :
    ∃ a, step.2 = [.answer a] ∧
      ∀ side, a = Side.aborted side → k.admission b epoch r = .error .reset := by
  rcases fetchAfter_ok h with ⟨e, he, rfl⟩ | ⟨k₁, k', -, -, -, rfl⟩
  · refine ⟨_, rfl, ?_⟩
    rintro (_ | _) haborted
    · cases haborted
    · rw [he, Except.error.inj (Answer.fetched.inj haborted)]
  · exact ⟨_, rfl, by rintro (_ | _) ⟨⟩⟩

/-- A call at a mailbox blocks, or it has an answer at once which is not that of a reset. -/
def Starts (k : Kernel) (step : Step) : Prop :=
  (∃ a, step.2 = [.answer a] ∧ ∀ side, a ≠ Side.aborted side) ∨
    (step.1.thread k.current).state.isRunnable = false ∧ ∀ a, .answer a ∉ step.2

theorem Starts.not_aborted (h : Starts k step) (side : Side) :
    step.2.head? ≠ some (.answer side.aborted) := by
  intro hhead
  rcases h with ⟨a, hleft, hnot⟩ | ⟨-, hnot⟩
  · rw [hleft] at hhead
    exact hnot side (Frame.answer.inj (Option.some.inj hhead))
  · exact hnot _ (List.mem_of_head? hhead)

theorem thenDo_starts {w : Wait} {now : WakeupResult → Kernel → Outcome Step} {later : Frame}
    (hk : k.InPlace) (hlater : ∀ a, later ≠ .answer a)
    (hwait : k.waitUnit s timeout .waitingMailbox = .ok w)
    (hnow : ∀ r k₁ step, now r k₁ = .ok step → ∃ a, step.2 = [.answer a] ∧
      ∀ side, a = Side.aborted side → k₁.admission b (k.mailbox b).epoch r = .error .reset)
    (h : w.thenDo now later = .ok step) : Starts k step := by
  have hover : ∀ r k₁, r ≠ .reset → k₁.mailbox b = k.mailbox b → now r k₁ = .ok step →
      Starts k step := by
    intro r k₁ hr hmailbox h
    obtain ⟨a, hleft, haborted⟩ := hnow r k₁ step h
    refine Or.inl ⟨a, hleft, fun side ha => ?_⟩
    rcases admission_eq_reset.mp (haborted side ha) with hreset | ⟨-, hne⟩
    · exact hr hreset
    · exact hne (congrArg Mailbox.epoch hmailbox)
  rcases waitUnit_ok hk (Or.inr rfl) hwait with
    ⟨-, rfl⟩ | ⟨-, -, rfl⟩ | ⟨-, -, checks, k', rfl, hchecks, hblocks⟩
  · exact hover .ok (k.setSemaphoreCount s (k.semaphoreCount s - 1)) nofun rfl h
  · exact hover .timeout k nofun rfl h
  · obtain rfl := Except.ok.inj h
    have hme := hblocks.thread_current (InPlace.setSemaphoreCount hk _ _)
    refine Or.inr ⟨congrArg (fun th : Thread => th.state.isRunnable) hme, ?_⟩
    intro a ha
    rcases List.mem_append.mp ha with ha | ha
    · rcases hchecks with rfl | rfl
      · cases ha
      · cases List.mem_singleton.mp ha
    · exact hlater a (List.mem_singleton.mp ha).symm

theorem post_starts (hk : k.InPlace) (h : k.post b msg ahead timeout = .ok step) :
    Starts k step := by
  obtain ⟨w, hwait, h⟩ := post_ok h
  refine thenDo_starts (b := b) hk ?_ hwait ?_ h
  · exact fun _ => nofun
  · exact fun r k₁ step hnow => storeAfter_aborted hnow

theorem fetch_starts (hk : k.InPlace) (h : k.fetch b timeout = .ok step) : Starts k step := by
  obtain ⟨w, hwait, h⟩ := fetch_ok h
  refine thenDo_starts (b := b) hk ?_ hwait ?_ h
  · exact fun _ => nofun
  · exact fun r k₁ step hnow => fetchAfter_aborted hnow

end Kernel

namespace Execution
open Kernel

/-- A call at a mailbox waits, or was handed a unit and did not go on so far. -/
def Outstanding (b : MailboxId) (side : Side) (x : Execution) (u : ThreadId) : Prop :=
  (∃ epoch, x.claims b u = some (side, epoch)) ∧
    ((x.kernel.thread u).queue = some (.semaphore ((x.kernel.mailbox b).gate side)) ∨
      (x.kernel.thread u).state.isRunnable = true ∧ (x.kernel.thread u).wakeup = .ok)

/-- A call at a mailbox did not return so far. Its thread may run, and when it does the call goes
on and returns with an error. Nothing else in the execution changes by that. -/
structure Void (b : MailboxId) (side : Side) (u : ThreadId) (x : Execution) : Prop where
  claim : ∃ epoch, x.claims b u = some (side, epoch)
  runnable : (x.kernel.thread u).state.isRunnable = true
  resumes : x.kernel.current = u → x.turn = .work ∧ ∃ f,
    x.frames = [.awake, f] ∧ x.move .advance = .ok (x.setFrames [f]) ∨
      x.frames = [f] ∧ x.move .advance = .ok (x.setFrames [.answer side.aborted])

/-- A thread goes on with its call at a mailbox, which returns because of a reset. Nothing else
in the execution changes. -/
structure Record.Aborts (b : MailboxId) (side : Side) (u : ThreadId) (r : Record) : Prop where
  caller : r.before.kernel.current = u
  claim : ∃ epoch, r.before.claims b u = some (side, epoch)
  move : r.move = .advance
  after : r.after = r.before.setFrames [.answer side.aborted]

/-- A call at a mailbox returns because of a reset. -/
def Record.Refuses (b : MailboxId) (r : Record) : Prop :=
  ∃ a, ∃ side : Side, r.move.attempt? r.before = some (b, a) ∧
    r.left.head? = some (.answer side.aborted)

/-- What is asked of a history, for a mailbox. -/
structure Regular (b : MailboxId) (h : History) : Prop where
  joined : JoinedOnce h
  own : OwnGates b h
  short : ShortWaits b h

variable {x y : Execution} {h later earlier : History} {m : Move} {b : MailboxId}
  {u : ThreadId} {r : Record} {side : Side} {frames rest : List Frame} {f : Frame}

theorem Regular.tail (hg : Regular b (r :: h)) : Regular b h :=
  ⟨hg.joined.tail, fun r hr => hg.own r (List.mem_cons_of_mem _ hr), hg.short.2⟩

theorem Regular.of_append (hg : Regular b (later ++ h)) : Regular b h := by
  induction later with
  | nil => exact hg
  | cons r later ih => exact ih hg.tail

theorem Reaches.served (hr : Reaches h x) (hg : Regular b h)
    (hin : x.kernel.mailboxes.contains b = true) : Served b h x :=
  (hr.known hg.joined hg.own hg.short).served hin

/-! Calls that are pending when a mailbox is reset. -/

/-- The running thread goes on and leaves the kernel as it is. -/
theorem advance_of_quiet (frames : List Frame) (hframes : x.frames = f :: rest)
    (h : frameStep x.kernel f = .ok (x.kernel, frames)) :
    x.move .advance = .ok (x.setFrames (frames ++ rest)) := by
  change x.advance = _
  rw [advance_eq hframes]
  change (frameStep x.kernel f >>= _) = _
  rw [h]
  rfl

theorem ne_add_ofNat {e : UInt32} {n : Nat} (hpos : 0 < n) (hn : n < 2 ^ 32) :
    e + UInt32.ofNat n ≠ e := by
  intro h
  rw [UInt32.add_eq_left] at h
  have hmod : n % 2 ^ 32 = 0 := congrArg UInt32.toNat h
  rw [Nat.mod_eq_of_lt hn] at hmod
  omega

/-- The thread of a pending call after a reset. -/
structure Doomed (b : MailboxId) (side : Side) (u : ThreadId) (h : History) (x : Execution) :
    Prop where
  claim : ∃ epoch, x.claims b u = some (side, epoch)
  runnable : (x.kernel.thread u).state.isRunnable = true
  wakeup : (x.kernel.thread u).wakeup = .ok ∨ (x.kernel.thread u).wakeup = .reset
  dated : 0 < resetsSince b u h

theorem Doomed.admission (hd : Doomed b side u h x) (hs : Served b h x)
    (hshort : resetsSince b u h < 2 ^ 32) {epoch : UInt32}
    (hclaim : x.claims b u = some (side, epoch)) :
    x.kernel.admission b epoch (x.kernel.thread u).wakeup = .error .reset := by
  rw [admission_eq_reset]
  rcases hd.wakeup with hok | hreset
  · refine Or.inr ⟨hok, ?_⟩
    rw [hs.dated u side epoch hclaim]
    exact ne_add_ofNat hd.dated hshort
  · exact Or.inl hreset

theorem Doomed.isVoid (hd : Doomed b side u h x) (hx : Orderly h x) (hs : Served b h x)
    (hshort : resetsSince b u h < 2 ^ 32) : Void b side u x := by
  obtain ⟨epoch, hclaim⟩ := hd.claim
  refine ⟨hd.claim, hd.runnable, ?_⟩
  rintro rfl
  have hsome : x.claims b x.kernel.current ≠ none := by
    rw [hclaim]
    exact nofun
  refine ⟨hs.turn_work hsome, ?_⟩
  obtain ⟨f, hf | hf⟩ := hs.shape _ hsome
  · have hf : x.frames = [f] := hf
    have hfclaim : f.claim? b = some (side, epoch) := by
      rw [claims_current, hf, claimOf?_cons] at hclaim
      simpa [claimOf?] using hclaim
    exact ⟨f, Or.inr ⟨hf, advance_of_quiet _ hf
      (frameStep_aborted hfclaim (hd.admission hs hshort hclaim))⟩⟩
  · have hf : x.frames = [.awake, f] := hf
    refine ⟨f, Or.inl ⟨hf, advance_of_quiet [] hf ?_⟩⟩
    unfold frameStep
    dsimp only
    rw [hx.sound.inPlace.isArmed_current]
    rfl

/-- A pending call is begun anew by nobody. -/
theorem not_begins_of_claim (hallows : r.before.allows r.move = true)
    (hclaim : r.before.claims b u ≠ none) : r.begins b u = false := by
  cases hb : r.begins b u with
  | false => rfl
  | true => exact absurd (begins_ok hallows hb).2.1 hclaim

theorem resetsSince_le (hb : r.begins b u = false) :
    resetsSince b u h ≤ resetsSince b u (r :: h) := by
  rw [resetsSince, hb]
  exact Nat.le_add_right _ _

theorem resetsSince_of_reset (hb : r.begins b u = false) (hreset : r.delivery b = some .reset) :
    0 < resetsSince b u (r :: h) := by
  rw [resetsSince, hb, if_neg Bool.false_ne_true, if_pos hreset]
  exact Nat.succ_pos _

theorem Regular.resetsSince_lt (hg : Regular b h) (hr : Reaches h x)
    (hclaim : x.claims b u ≠ none) : resetsSince b u h < 2 ^ 32 := by
  cases h with
  | nil => exact Nat.two_pow_pos 32
  | cons r h =>
      refine hg.short.1 u ?_
      rw [hr.uncons.2.2.2]
      exact Option.isSome_iff_ne_none.mpr hclaim

theorem resets_of_reset (ha : r.move.attempt? r.before = some (b, .reset)) (s : SemaphoreId) :
    r.resets? s = (r.before.kernel.mailbox b).resetsTo s := by
  unfold Record.resets?
  rcases move_of_reset ha with hm | hm <;> rw [hm]

/-- A reset wakes whoever waits, and leaves those alone that were handed a unit. -/
theorem Outstanding.doomed (hout : Outstanding b side r.before u) (hx : Orderly h r.before)
    (hs : Served b h r.before) (hallows : r.before.allows r.move = true)
    (hmove : r.before.move r.move = .ok r.after) (hreset : r.delivery b = some .reset) :
    Doomed b side u (r :: h) r.after := by
  obtain ⟨⟨epoch, hclaim⟩, hpending⟩ := hout
  have ha := attempt_of_reset hreset
  have hin := contains_of_attempt hx.fit hallows ha
  have hu : u ≠ r.before.kernel.current := by
    rintro rfl
    rw [hs.idle_of_reset hallows ha] at hclaim
    cases hclaim
  have hbegins : r.begins b u = false := not_begins_of_claim hallows (by rw [hclaim]; exact nofun)
  have hkept : r.after.claims b u = some (side, epoch) :=
    (hs.frames_of_ne hx hallows hmove hu).1.trans hclaim
  rcases hpending with hq | ⟨hrun, hok⟩
  · have hsets := (resets_of_reset ha _).trans
      (Mailbox.resetsTo_gate (hx.sound.boxed.created b hin).2.2 side)
    obtain ⟨hrun, hwoken⟩ := (move_resets hx.fit hallows hmove hsets).woken u _ _ hsets hq
    exact ⟨⟨epoch, hkept⟩, hrun, Or.inr hwoken, resetsSince_of_reset hbegins hreset⟩
  · obtain ⟨hrun', hwakeup⟩ := move_keepsRunnable hx.fit hallows hmove hu hrun
    exact ⟨⟨epoch, hkept⟩, hrun', Or.inl (hwakeup.trans hok), resetsSince_of_reset hbegins hreset⟩

/-- A move of another thread changes nothing for a pending call. -/
theorem Doomed.other (hd : Doomed b side u h r.before) (hx : Orderly h r.before)
    (hs : Served b h r.before) (hallows : r.before.allows r.move = true)
    (hmove : r.before.move r.move = .ok r.after) (hu : u ≠ r.before.kernel.current) :
    Doomed b side u (r :: h) r.after := by
  obtain ⟨epoch, hclaim⟩ := hd.claim
  obtain ⟨hrun, hwakeup⟩ := move_keepsRunnable hx.fit hallows hmove hu hd.runnable
  refine ⟨⟨epoch, (hs.frames_of_ne hx hallows hmove hu).1.trans hclaim⟩, hrun, ?_, ?_⟩
  · rw [hwakeup]
    exact hd.wakeup
  · refine Nat.lt_of_lt_of_le hd.dated (resetsSince_le (not_begins_of_claim hallows ?_))
    rw [hclaim]
    exact nofun

/-- Its own thread goes on with the call, or it returns. -/
theorem Doomed.own (hd : Doomed b side u h r.before) (hv : Void b side u r.before)
    (hallows : r.before.allows r.move = true) (hmove : r.before.move r.move = .ok r.after)
    (hu : r.before.kernel.current = u) :
    Doomed b side u (r :: h) r.after ∨ r.Aborts b side u := by
  obtain ⟨hturn, f, hresumes⟩ := hv.resumes hu
  obtain ⟨epoch, hclaim⟩ := hd.claim
  have hbegins : r.begins b u = false := not_begins_of_claim hallows (by rw [hclaim]; exact nofun)
  have hdated := Nat.lt_of_lt_of_le hd.dated (resetsSince_le hbegins)
  rcases allows_work hturn hallows with hm | hm <;> rw [hm] at hmove
  · rcases hresumes with ⟨hf, hadvance⟩ | ⟨-, hadvance⟩
    · have hafter : r.after = r.before.setFrames [f] := Except.ok.inj (hmove.symm.trans hadvance)
      refine Or.inl ⟨⟨epoch, ?_⟩, ?_, ?_, hdated⟩
      · subst hu
        rw [claims_current, hf, claimOf?_cons] at hclaim
        rw [hafter]
        change claimOf? b ((r.before.setFrames [f]).framesOf r.before.kernel.current) = _
        rw [framesOf_setFrames, if_pos rfl]
        exact hclaim
      · rw [hafter]
        exact hd.runnable
      · rw [hafter]
        exact hd.wakeup
    · exact Or.inr ⟨hu, hd.claim, hm, Except.ok.inj (hmove.symm.trans hadvance)⟩
  · have hafter : r.after = r.before.withoutLog := (Except.ok.inj hmove).symm
    rw [hafter]
    exact Or.inl ⟨⟨epoch, hclaim⟩, hd.runnable, hd.wakeup, hdated⟩

/-- A pending call never comes to anything after a reset. -/
theorem Reaches.doomed (hr : Reaches (later ++ r :: earlier) x)
    (hg : Regular b (later ++ r :: earlier)) (hreset : r.delivery b = some .reset)
    (hout : Outstanding b side r.before u) :
    ((∀ r' ∈ later, r'.begins b u = false) ∧ Doomed b side u (later ++ r :: earlier) x) ∨
      ∃ after f before, later = after ++ f :: before ∧
        (∀ r' ∈ before, r'.begins b u = false) ∧ f.Aborts b side u := by
  induction later generalizing x with
  | nil =>
      obtain ⟨hbefore, hallows, hmove, rfl⟩ := hr.uncons
      have hx := hbefore.orderly hg.tail.joined
      have hin := contains_of_attempt hx.fit hallows (attempt_of_reset hreset)
      exact Or.inl ⟨fun _ hmem => absurd hmem List.not_mem_nil,
        hout.doomed hx (hbefore.served hg.tail hin) hallows hmove hreset⟩
  | cons r' later ih =>
      obtain ⟨hbefore, hallows, hmove, rfl⟩ := hr.uncons
      have hx := hbefore.orderly hg.tail.joined
      rcases ih hbefore hg.tail with ⟨hquiet, hd⟩ | ⟨after, f, before, rfl, hquiet, haborts⟩
      · obtain ⟨epoch, hclaim⟩ := hd.claim
        have hsome : r'.before.claims b u ≠ none := by
          rw [hclaim]
          exact nofun
        have hin : r'.before.kernel.mailboxes.contains b = true := by
          by_contra hnew
          exact hsome (claims_of_new hx (Bool.eq_false_of_not_eq_true hnew) u)
        have hs := hbefore.served hg.tail hin
        have hquiet' : ∀ r ∈ r' :: later, r.begins b u = false := by
          rintro _ (_ | ⟨_, hr⟩)
          · exact not_begins_of_claim hallows hsome
          · exact hquiet _ hr
        by_cases hu : r'.before.kernel.current = u
        · have hv := hd.isVoid hx hs (hg.tail.resetsSince_lt hbefore hsome)
          rcases hd.own hv hallows hmove hu with hd | haborts
          · exact Or.inl ⟨hquiet', hd⟩
          · exact Or.inr ⟨[], r', later, rfl, hquiet, haborts⟩
        · exact Or.inl ⟨hquiet', hd.other hx hs hallows hmove (Ne.symm hu)⟩
      · exact Or.inr ⟨r' :: after, f, before, rfl, hquiet, haborts⟩

/-! Calls that no reset made void. -/

/-- Who is woken by a reset of a mailbox called for it before. -/
def Excused (b : MailboxId) (h : History) (x : Execution) : Prop :=
  ∀ u, x.claims b u ≠ none → (x.kernel.thread u).state.isRunnable = true →
    (x.kernel.thread u).wakeup = .reset → 0 < resetsSince b u h

theorem begins_starts (hallows : r.before.allows r.move = true)
    (hmove : r.before.move r.move = .ok r.after) (hk : r.before.kernel.InPlace)
    (hb : r.begins b u = true) : Starts r.before.kernel (r.after.kernel, r.left) := by
  obtain ⟨-, ⟨msg, ahead, timeout, hm⟩ | ⟨timeout, hm⟩⟩ := begins_move hb
  · exact post_starts hk (operation_left hm hallows hmove)
  · exact fetch_starts hk (operation_left hm hallows hmove)

/-- The semaphores of a mailbox are reset by resets of the mailbox only. -/
theorem reset_of_gate {n : Nat} (hx : Orderly h r.before) (hallows : r.before.allows r.move = true)
    (hin : r.before.kernel.mailboxes.contains b = true)
    (own : (r.before.kernel.mailbox b).empty ∉ r.move.names ∧
      (r.before.kernel.mailbox b).full ∉ r.move.names)
    (hsets : r.resets? ((r.before.kernel.mailbox b).gate side) = some n) :
    r.delivery b = some .reset := by
  have hnamed : (r.before.kernel.mailbox b).gate side ∉ r.move.names := by
    cases side with
    | producer => exact own.1
    | consumer => exact own.2
  have hpart : r.before.kernel.BoxParts b (.semaphore ((r.before.kernel.mailbox b).gate side)) := by
    cases side with
    | producer => exact Or.inr (Or.inl rfl)
    | consumer => exact Or.inr (Or.inr rfl)
  have hbox : ∀ b', r.move.attempt? r.before = some (b', .reset) →
      (r.before.kernel.mailbox b').resetsTo ((r.before.kernel.mailbox b).gate side) = some n →
      r.delivery b = some .reset := by
    intro b' ha hn
    have hpart' : r.before.kernel.BoxParts b'
        (.semaphore ((r.before.kernel.mailbox b).gate side)) := by
      rcases Mailbox.resetsTo_ok hn with ⟨hs, -⟩ | ⟨hs, -⟩
      · exact Or.inr (Or.inl (congrArg Object.semaphore hs.symm))
      · exact Or.inr (Or.inr (congrArg Object.semaphore hs.symm))
    have hin' := contains_of_attempt hx.fit hallows ha
    rw [hx.sound.boxed.parts_unique hin hin' hpart hpart'] at ha
    exact delivery_of_attempt r.after ha
  unfold Record.resets? at hsets
  split at hsets
  · rename_i s n' hm
    split at hsets
    · rename_i hs
      rw [hm] at hnamed
      exact absurd (List.mem_singleton.mpr hs.symm) hnamed
    · cases hsets
  · rename_i s n' hm
    split at hsets
    · rename_i hs
      rw [hm] at hnamed
      exact absurd (List.mem_singleton.mpr hs.symm) hnamed
    · cases hsets
  · rename_i b' hm
    exact hbox b' (by rw [hm]; rfl) hsets
  · rename_i b' hm
    exact hbox b' (by rw [hm]; rfl) hsets
  · cases hsets

/-- The running thread keeps its claim and what woke it, or it has an answer. -/
theorem Served.running (hs : Served b h x) (hallows : x.allows m = true)
    (hmove : x.move m = .ok y) (hclaim : x.claims b x.kernel.current ≠ none) :
    y.claims b x.kernel.current = none ∨ y.kernel.thread = x.kernel.thread := by
  by_cases hm : m = .collectLog
  · subst hm
    obtain rfl := Except.ok.inj hmove
    exact Or.inr rfl
  by_cases hno : ∀ a, m.attempt? x ≠ some (b, a)
  · obtain ⟨-, hkernel, -⟩ := hs.awake hallows hm hno hmove hclaim
    rw [hkernel]
    exact Or.inr rfl
  · obtain ⟨a, ha⟩ := not_forall_not.mp hno
    obtain rfl := (allows_work (hs.turn_work hclaim) hallows).resolve_right hm
    obtain ⟨f, rest, hframes, -⟩ := allows_advance hallows
    obtain ⟨frames, hstep, hall⟩ := advance_step hframes hmove
    rw [attempt_advance hframes] at ha
    have hleft : ∀ c a, f.claim? b = some c → frames = [.answer a] →
        y.claims b x.kernel.current = none := by
      rintro c a hc rfl
      obtain ⟨-, rfl⟩ := hs.claim_head hframes hc
      change claimOf? b (y.framesOf x.kernel.current) = none
      rw [hall]
      rfl
    cases f with
    | store b' epoch msg ahead =>
        obtain ⟨rfl, -⟩ := Prod.mk.inj (Option.some.inj ha)
        obtain ⟨a, hanswer, -⟩ := storeAfter_aborted hstep
        exact Or.inl (hleft _ a (if_pos rfl) hanswer)
    | fetch b' epoch =>
        obtain ⟨rfl, -⟩ := Prod.mk.inj (Option.some.inj ha)
        obtain ⟨a, hanswer, -⟩ := fetchAfter_aborted hstep
        exact Or.inl (hleft _ a (if_pos rfl) hanswer)
    | _ => cases ha

theorem Excused.step (he : Excused b h r.before) (hx : Orderly h r.before)
    (hy : r.after.kernel.InPlace) (hs : Served b h r.before)
    (hin : r.before.kernel.mailboxes.contains b = true) (hg : Regular b (r :: h))
    (hallows : r.before.allows r.move = true) (hmove : r.before.move r.move = .ok r.after) :
    Excused b (r :: h) r.after := by
  have own := hg.own r List.mem_cons_self hin
  intro u hclaim hrun hreset
  by_cases hu : u = r.before.kernel.current
  · subst hu
    by_cases hb : r.begins b r.before.kernel.current = true
    · rcases begins_starts hallows hmove hx.sound.inPlace hb with ⟨a, hleft, -⟩ | ⟨hnot, -⟩
      · have hleft : r.left = [.answer a] := hleft
        change claimOf? b r.left ≠ none at hclaim
        rw [hleft] at hclaim
        exact absurd rfl hclaim
      · rw [hnot] at hrun
        cases hrun
    · obtain ⟨c, hc⟩ := Option.ne_none_iff_exists'.mp hclaim
      have hold : r.before.claims b r.before.kernel.current = some c :=
        ((hs.serves hx hin hallows hmove own hg.short.1).begins c hc).resolve_right hb
      have hsome : r.before.claims b r.before.kernel.current ≠ none := by
        rw [hold]
        exact nofun
      rcases hs.running hallows hmove hsome with hnone | hsame
      · exact absurd hnone hclaim
      · rw [hsame] at hrun hreset
        exact Nat.lt_of_lt_of_le (he _ hsome hrun hreset)
          (resetsSince_le (Bool.eq_false_of_not_eq_true hb))
  · rw [(hs.frames_of_ne hx hallows hmove hu).1] at hclaim
    have hb : r.begins b u = false := not_begins_of_claim hallows hclaim
    obtain ⟨⟨side, epoch⟩, hc⟩ := Option.ne_none_iff_exists'.mp hclaim
    rcases hs.balanced.claimed u side epoch hc with hrun₀ | ⟨hq, -⟩
    · obtain ⟨-, hwakeup⟩ := move_keepsRunnable hx.fit hallows hmove hu hrun₀
      rw [hwakeup] at hreset
      exact Nat.lt_of_lt_of_le (he u hclaim hrun₀ hreset) (resetsSince_le hb)
    · cases hsets : r.resets? ((r.before.kernel.mailbox b).gate side) with
      | some n =>
          exact resetsSince_of_reset hb (reset_of_gate hx hallows hin own hsets)
      | none =>
          have htally := move_tallies hx.fit (hx.sound.boxed.gate_contains hin side) hallows hmove
            hsets
          rcases htally.leaves u hq with hq' | ⟨-, hnot⟩
          · exact absurd hrun (hy.not_isRunnable hq')
          · exact absurd hreset hnot

theorem Reaches.excused (hr : Reaches h x) (hg : Regular b h) : Excused b h x := by
  induction hr with
  | @boot x hb =>
      intro u hclaim
      exact absurd (claims_of_new hb.orderly hb.mailboxes_empty u) hclaim
  | @move h x y m hr hallows hmove ih =>
      have hx := hr.orderly hg.tail.joined
      have hy := (hr.move hallows hmove).orderly hg.joined
      cases hin : x.kernel.mailboxes.contains b with
      | true =>
          exact Excused.step (r := ⟨x, m, y⟩) (ih hg.tail) hx hy.sound.inPlace
            (hr.served hg.tail hin) hin hg hallows hmove
      | false =>
          have hnone : ∀ u, y.claims b u = none := by
            cases hin' : y.kernel.mailboxes.contains b with
            | true => exact (created_of_new hx hallows hmove hin hin').2
            | false => exact claims_of_new hy hin'
          exact fun u hclaim => absurd (hnone u) hclaim

/-- A call does not return because of a reset unless it waits. -/
theorem not_refuses_of_call {c : Call} (hm : r.move = .call c) (hk : r.before.kernel.InPlace)
    (hallows : r.before.allows r.move = true) (hmove : r.before.move r.move = .ok r.after) :
    ¬ r.Refuses b := by
  rintro ⟨a, side, ha, hleft⟩
  rw [hm] at ha
  cases c with
  | operation c =>
      have hstep := operation_left hm hallows hmove
      cases c with
      | post b' msg ahead timeout => exact (post_starts hk hstep).not_aborted side hleft
      | fetch b' timeout => exact (fetch_starts hk hstep).not_aborted side hleft
      | resetMailbox b' =>
          obtain ⟨k₁, -, hstep⟩ := bind_eq_ok.mp hstep
          obtain ⟨k₂, -, hstep⟩ := bind_eq_ok.mp hstep
          rw [← (Prod.mk.inj (Except.ok.inj hstep)).2] at hleft
          cases side <;> cases hleft
      | _ => cases ha
  | _ => cases ha

theorem not_refuses_of_interrupt {c : InterruptCall} (hm : r.move = .interrupt c)
    (hmove : r.before.move r.move = .ok r.after) : ¬ r.Refuses b := by
  rintro ⟨a, side, ha, hleft⟩
  rw [hm] at ha hmove
  obtain ⟨frames, hstep, hall⟩ := interrupt_step hmove
  rw [Record.left, hall] at hleft
  cases c with
  | post b' msg ahead =>
      obtain ⟨⟨e, k'⟩, hpost, hstep⟩ := bind_eq_ok.mp hstep
      rw [← (Prod.mk.inj (Except.ok.inj hstep)).2] at hleft
      rcases postNow_ok hpost with ⟨rfl, -⟩ | ⟨-, rfl, -⟩ <;> cases side <;> cases hleft
  | fetch b' =>
      obtain ⟨⟨e, k'⟩, hfetch, hstep⟩ := bind_eq_ok.mp hstep
      rw [← (Prod.mk.inj (Except.ok.inj hstep)).2] at hleft
      rcases fetchNow_ok hfetch with ⟨rfl, -⟩ | ⟨_, rfl, _⟩ <;> cases side <;> cases hleft
  | resetMailbox b' =>
      obtain ⟨k', -, hstep⟩ := bind_eq_ok.mp hstep
      rw [← (Prod.mk.inj (Except.ok.inj hstep)).2] at hleft
      cases side <;> cases hleft
  | _ => cases ha

/-- A thread that goes on with a call and returns because of a reset was sent away. -/
theorem Served.refused (hs : Served b h r.before) (hm : r.move = .advance)
    (hallows : r.before.allows r.move = true) (hmove : r.before.move r.move = .ok r.after)
    (hf : r.Refuses b) : ∃ side epoch,
      r.before.claims b r.before.kernel.current = some (side, epoch) ∧
        r.before.kernel.admission b epoch r.before.kernel.running.wakeup = .error .reset := by
  obtain ⟨a, side, ha, hleft⟩ := hf
  rw [hm] at hallows hmove ha
  obtain ⟨f, rest, hframes, -⟩ := allows_advance hallows
  obtain ⟨frames, hstep, hall⟩ := advance_step hframes hmove
  rw [attempt_advance hframes] at ha
  rw [Record.left, hall] at hleft
  cases f with
  | store b' epoch msg ahead =>
      obtain ⟨rfl, -⟩ := Prod.mk.inj (Option.some.inj ha)
      obtain ⟨a, hanswer, haborted⟩ := storeAfter_aborted hstep
      have hanswer : frames = [.answer a] := hanswer
      rw [hanswer] at hleft
      exact ⟨.producer, epoch, (hs.claim_head hframes (if_pos rfl)).1,
        haborted side (Frame.answer.inj (Option.some.inj hleft))⟩
  | fetch b' epoch =>
      obtain ⟨rfl, -⟩ := Prod.mk.inj (Option.some.inj ha)
      obtain ⟨a, hanswer, haborted⟩ := fetchAfter_aborted hstep
      have hanswer : frames = [.answer a] := hanswer
      rw [hanswer] at hleft
      exact ⟨.consumer, epoch, (hs.claim_head hframes (if_pos rfl)).1,
        haborted side (Frame.answer.inj (Option.some.inj hleft))⟩
  | _ => cases ha

/-- A call that returns because of a reset had to wait, and the reset came while it did. -/
theorem Reaches.refuses (hr : Reaches (r :: h) x) (hg : Regular b (r :: h)) (hf : r.Refuses b) :
    r.begins b r.before.kernel.current = false ∧ 0 < resetsSince b r.before.kernel.current h := by
  obtain ⟨hbefore, hallows, hmove, -⟩ := hr.uncons
  have hx := hbefore.orderly hg.tail.joined
  have hin : r.before.kernel.mailboxes.contains b = true := by
    obtain ⟨a, side, ha, -⟩ := hf
    exact contains_of_attempt hx.fit hallows ha
  have hs := hbefore.served hg.tail hin
  cases hm : r.move with
  | advance =>
      obtain ⟨side, epoch, hclaim, hrefused⟩ := hs.refused hm hallows hmove hf
      have hsome : r.before.claims b r.before.kernel.current ≠ none := by
        rw [hclaim]
        exact nofun
      refine ⟨not_begins_of_claim hallows hsome, ?_⟩
      rcases admission_eq_reset.mp hrefused with hreset | ⟨-, hne⟩
      · refine hbefore.excused hg.tail _ hsome ?_ hreset
        rw [hx.sound.inPlace.state_current]
        rfl
      · refine Nat.pos_of_ne_zero fun hzero => hne ?_
        rw [hs.dated _ side epoch hclaim, hzero]
        exact UInt32.add_zero epoch
  | call c => exact absurd hf (not_refuses_of_call hm hx.sound.inPlace hallows hmove)
  | interrupt c => exact absurd hf (not_refuses_of_interrupt hm hmove)
  | _ =>
      obtain ⟨a, side, ha, -⟩ := hf
      rw [hm] at ha
      cases ha

theorem exists_reset {after before : History} (hb : r.begins b u = true)
    (h : 0 < resetsSince b u (after ++ r :: before)) :
    ∃ r' ∈ after, r'.delivery b = some .reset := by
  induction after with
  | nil =>
      rw [List.nil_append, resetsSince, if_pos hb] at h
      cases h
  | cons r' after ih =>
      by_cases hreset : r'.delivery b = some .reset
      · exact ⟨r', List.mem_cons_self, hreset⟩
      · rw [List.cons_append, resetsSince, if_neg hreset] at h
        split at h
        · cases h
        · obtain ⟨r₁, hr₁, hreset₁⟩ := ih h
          exact ⟨r₁, List.mem_cons_of_mem _ hr₁, hreset₁⟩
end Execution

end RealtimeKernel

import RealtimeKernel.Proofs.Execution.Aborts
import RealtimeKernel.Proofs.Execution.Renewal

/-!
A reset of a mailbox. Whatever was pending comes to nothing: the messages are gone, and so are
the calls. What follows cannot be told from the same moves at a mailbox that was just made.
-/
namespace RealtimeKernel

namespace Kernel

variable {k k' : Kernel} {b : MailboxId}

/-- A mailbox as it is when it was just made. -/
structure IsNew (k : Kernel) (b : MailboxId) (capacity : Nat) : Prop where
  mailbox : ∃ positive : 0 < capacity, ∃ empty full,
    k.mailbox b = { capacity, ring := .empty 0 positive, empty, full }
  used : k.mailboxUsed b = 0
  free : k.mailboxFree b = capacity
  alone : ∀ side, k.members (.semaphore ((k.mailbox b).gate side)) = []

theorem isNew_of_counts {capacity : Nat} {empty full : SemaphoreId} (hk : k.Counted)
    (positive : 0 < capacity)
    (hmailbox : k.mailbox b = { capacity, ring := .empty 0 positive, empty, full })
    (hempty : k.semaphoreCount empty = capacity) (hfull : k.semaphoreCount full = 0) :
    k.IsNew b capacity := by
  refine ⟨⟨positive, empty, full, hmailbox⟩, ?_, ?_, ?_⟩
  · rw [mailboxUsed, hmailbox, hfull]
    rfl
  · rw [mailboxFree, hmailbox, hempty]
    rfl
  · intro side
    rw [hmailbox]
    cases side with
    | producer => exact hk.members_eq_nil (hempty.symm ▸ Int.natCast_nonneg capacity)
    | consumer => exact hk.members_eq_nil hfull.ge

theorem createMailbox_isNew {capacity : Nat} (hk' : k'.Counted)
    (h : k.createMailbox capacity = .ok (.ok b, k')) : k'.IsNew b capacity := by
  obtain ⟨positive, empty, full, hmailbox, hne, -, -, hcount⟩ := createMailbox_made h
  refine isNew_of_counts hk' positive hmailbox ?_ ?_
  · rw [hcount, if_neg hne, if_pos rfl]
  · rw [hcount, if_pos rfl]

theorem resetMailbox_mailbox (h : k.resetMailbox b = .ok k') : k'.mailbox b = { k.mailbox b with
    ring := (k.mailbox b).ring.rewind, epoch := (k.mailbox b).epoch + 1 } := by
  have hkeeps : ∀ {k k' : Kernel} {s count}, k.resetSemaphore s count = .ok k' →
      k'.mailboxes = k.mailboxes := fun hreset =>
    mailboxes_of_carries (g := (·.resetSemaphore _ _)) (fun _ => resetSemaphore_carries) hreset
  obtain ⟨box, k₁, rfl, hempty, hfull⟩ := resetMailbox_ok h
  rw [mailbox, hkeeps hfull, hkeeps hempty]
  exact (Pool.get_set ..).trans (if_pos rfl)

end Kernel

namespace Execution
open Kernel

variable {x x' : Execution} {h later before earlier : History} {b : MailboxId} {r f : Record}

/-! Messages. -/

/-- The messages of a mailbox, each with the time at which it was stored: the length of the
history before that. -/
def stored (b : MailboxId) : History → List (Nat × Msg)
  | [] => []
  | r :: h =>
    match r.delivery b with
    | some (.put msg true) => (h.length, msg) :: stored b h
    | some (.put msg false) => stored b h ++ [(h.length, msg)]
    | some (.take _) => (stored b h).tail
    | some .reset => []
    | none => stored b h

/-- Read without the times they are the messages. -/
theorem stored_messages (b : MailboxId) (h : History) :
    (stored b h).map Prod.snd = contents b h := by
  induction h with
  | nil => rfl
  | cons r h ih =>
      rw [stored, contents, ← ih]
      cases r.delivery b with
      | none => rfl
      | some d =>
          cases d with
          | put msg ahead => cases ahead <;> simp [deliver, insertMessage]
          | take msg => exact List.map_tail
          | reset => rfl

theorem mem_stored_cons {e : Nat × Msg} (he : e ∈ stored b (r :: h)) :
    r.delivery b ≠ some .reset ∧ (e ∈ stored b h ∨
      ∃ ahead, r.delivery b = some (.put e.2 ahead) ∧ e.1 = h.length) := by
  rw [stored] at he
  split at he
  · rename_i msg hput
    rw [hput]
    refine ⟨nofun, ?_⟩
    rcases List.mem_cons.mp he with rfl | he
    · exact Or.inr ⟨true, rfl, rfl⟩
    · exact Or.inl he
  · rename_i msg hput
    rw [hput]
    refine ⟨nofun, ?_⟩
    rcases List.mem_append.mp he with he | he
    · exact Or.inl he
    · obtain rfl := List.mem_singleton.mp he
      exact Or.inr ⟨false, rfl, rfl⟩
  · rename_i htake
    rw [htake]
    exact ⟨nofun, Or.inl (List.mem_of_mem_tail he)⟩
  · cases he
  · rename_i hnone
    rw [hnone]
    exact ⟨nofun, Or.inl he⟩

/-- Whatever a mailbox holds after a reset was stored since. -/
theorem stored_since {e : Nat × Msg} (hreset : r.delivery b = some .reset)
    (he : e ∈ stored b (later ++ r :: earlier)) : ∃ after p before ahead,
      later = after ++ p :: before ∧ p.delivery b = some (.put e.2 ahead) ∧
        e.1 = (before ++ r :: earlier).length := by
  induction later with
  | nil => exact absurd hreset (mem_stored_cons he).1
  | cons r' later ih =>
      rcases (mem_stored_cons he).2 with he | ⟨ahead, hput, htime⟩
      · obtain ⟨after, p, before, ahead, rfl, hp⟩ := ih he
        exact ⟨r' :: after, p, before, ahead, rfl, hp⟩
      · exact ⟨[], r', later, ahead, rfl, hput, htime⟩

/-- Whoever fetches a message after a reset gets one that was stored since. -/
theorem Reaches.fetches_stored (hr : Reaches (f :: (before ++ r :: earlier)) x)
    (hg : Regular b (f :: (before ++ r :: earlier))) (hreset : r.delivery b = some .reset)
    {msg : Msg} (htake : f.delivery b = some (.take msg)) : ∃ mid p since ahead,
      before = mid ++ p :: since ∧ p.delivery b = some (.put msg ahead) ∧
        (stored b (before ++ r :: earlier)).head? =
          some ((since ++ r :: earlier).length, msg) := by
  have hfront : (contents b (before ++ r :: earlier)).head? = some msg := by
    rcases (hr.known hg.joined hg.own hg.short).serves f _ (List.suffix_refl _) with
      ⟨-, hserves⟩ | ⟨-, hnone⟩
    · exact hserves.delivers.front msg htake
    · rw [hnone] at htake
      cases htake
  rw [← stored_messages, List.head?_map] at hfront
  obtain ⟨⟨time, msg'⟩, hhead, rfl⟩ := Option.map_eq_some_iff.mp hfront
  obtain ⟨mid, p, since, ahead, rfl, hput, htime⟩ := stored_since hreset (List.mem_of_head? hhead)
  refine ⟨mid, p, since, ahead, rfl, hput, ?_⟩
  rw [hhead, ← htime]

/-! A mailbox in place of the one that was reset. -/

/-- The execution with a mailbox exchanged for one that was just made, of the same capacity and
with the same semaphores. -/
def renewed (b : MailboxId) (x : Execution) : Execution :=
  let box := x.kernel.mailbox b
  x.renew b box.epoch (x.kernel.mailboxes.set b { box with
    ring := .empty 0 (Nat.zero_lt_of_lt box.ring.read.isLt), epoch := 0 })

/-- Two executions that nobody can tell apart, now or by any move. The kernels differ in one
mailbox only. -/
structure Mirrors (b : MailboxId) (x x' : Execution) : Prop where
  kernel : ∃ box, x'.kernel = x.kernel.withMailboxes (x.kernel.mailboxes.set b box)
  used : x'.kernel.mailboxUsed b = x.kernel.mailboxUsed b
  free : x'.kernel.mailboxFree b = x.kernel.mailboxFree b
  turn : x'.turn = x.turn
  allows : ∀ m, x'.allows m = x.allows m
  /-- A move fails in both with the same fault, or leads to executions of the same turn. -/
  move : ∀ m, x.allows m = true → Pairs (fun y y' => y'.turn = y.turn) (x.move m) (x'.move m)

theorem Alike.mirrors {n : UInt32} (halike : Alike b n (contents b h) x x') (hx : Orderly h x)
    (hs : Served b h x) (hin : x.kernel.mailboxes.contains b = true) : Mirrors b x x' := by
  have hmove : ∀ m, x.allows m = true →
      Pairs (fun y y' => y'.turn = y.turn) (x.move m) (x'.move m) := fun m hallows =>
    (halike.move hx hs hin hallows).mono fun _ _ _ hy => hy.turn
  have hturn := halike.turn
  have hallows := halike.allows
  obtain ⟨p, ⟨box, hyounger, rfl⟩, rfl⟩ := halike
  have hbox : ((x.renew b n (x.kernel.mailboxes.set b box)).kernel).mailbox b = box :=
    (Pool.get_set ..).trans (if_pos rfl)
  refine ⟨⟨box, rfl⟩, ?_, ?_, hturn, hallows, hmove⟩
  · rw [mailboxUsed, hbox, show box.full = _ from hyounger.gate .consumer]
    rfl
  · rw [mailboxFree, hbox, show box.empty = _ from hyounger.gate .producer]
    rfl

/-- After a reset the mailbox might as well be a new one. -/
theorem renewed_alike (hs : Served b (r :: h) r.after) (hreset : r.delivery b = some .reset) :
    Alike b (r.after.kernel.mailbox b).epoch (contents b (r :: h)) r.after
      (r.after.renewed b) := by
  have hnil : contents b (r :: h) = [] := by
    rw [contents, hreset]
    rfl
  have hring := hs.balanced.ring
  rw [hnil] at hring ⊢
  have hpositive := Nat.zero_lt_of_lt (r.after.kernel.mailbox b).ring.read.isLt
  refine ⟨_, ⟨_, ⟨hring, _, Ring.holds_empty 0 hpositive, ?_⟩, rfl⟩, rfl⟩
  rw [← UInt32.sub_self]
  rfl

/-- The same moves lead on from the renewed execution, to one like the real one. -/
theorem Reaches.renewed (hr : Reaches (later ++ r :: earlier) x)
    (hg : Regular b (later ++ r :: earlier)) (hreset : r.delivery b = some .reset) :
    x.kernel.mailboxes.contains b = true ∧
      ∃ x', Run (r.after.renewed b) (later.map Record.move).reverse x' ∧
        Alike b (r.after.kernel.mailbox b).epoch (contents b (later ++ r :: earlier)) x x' := by
  induction later generalizing x with
  | nil =>
      obtain ⟨hbefore, hallows, hmove, rfl⟩ := hr.uncons
      have hx := hbefore.orderly hg.tail.joined
      have hin := contains_of_attempt hx.fit hallows (attempt_of_reset hreset)
      have hin' := (grows_of_move hx hallows hmove).mailboxes b hin
      exact ⟨hin', r.after.renewed b, .nil _, renewed_alike (hr.served hg hin') hreset⟩
  | cons r' later ih =>
      obtain ⟨hbefore, hallows, hmove, rfl⟩ := hr.uncons
      have hx := hbefore.orderly hg.tail.joined
      obtain ⟨hin, x', hrun, halike⟩ := ih hbefore hg.tail
      have hpairs := halike.move hx (hbefore.served hg.tail hin) hin hallows
      rw [hmove] at hpairs
      obtain ⟨y', hmove', halike'⟩ := hpairs.of_ok
      refine ⟨(grows_of_move hx hallows hmove).mailboxes b hin, y', ?_, halike'⟩
      rw [List.map_cons, List.reverse_cons]
      exact hrun.snoc ((halike.allows r'.move).trans hallows) hmove'

/-- What a reset does to the mailbox itself. -/
theorem mailbox_of_reset (hallows : r.before.allows r.move = true)
    (hmove : r.before.move r.move = .ok r.after)
    (ha : r.move.attempt? r.before = some (b, .reset)) :
    r.after.kernel.mailbox b = { r.before.kernel.mailbox b with
      ring := (r.before.kernel.mailbox b).ring.rewind
      epoch := (r.before.kernel.mailbox b).epoch + 1 } := by
  rcases move_of_reset ha with hm | hm
  · obtain ⟨k₁, hreset, hstep⟩ := bind_eq_ok.mp (operation_left hm hallows hmove)
    obtain ⟨k₂, hpreempt, hstep⟩ := bind_eq_ok.mp hstep
    have hsame : k₂.mailboxes = k₁.mailboxes :=
      mailboxes_of_carries (g := (·.preempt)) (fun _ => preempt_carries) hpreempt
    rw [← resetMailbox_mailbox hreset, ← (Prod.mk.inj (Except.ok.inj hstep)).1]
    simp only [mailbox, hsame]
  · rw [hm] at hmove
    obtain ⟨frames, hstep, -⟩ := interrupt_step hmove
    obtain ⟨k₁, hreset, hstep⟩ := bind_eq_ok.mp hstep
    rw [← resetMailbox_mailbox hreset, ← (Prod.mk.inj (Except.ok.inj hstep)).1]

/-- After a reset there are no messages, and as many units as there are cells. -/
theorem counts_of_reset (hx : Orderly h r.before) (hallows : r.before.allows r.move = true)
    (hmove : r.before.move r.move = .ok r.after)
    (ha : r.move.attempt? r.before = some (b, .reset)) :
    r.after.kernel.semaphoreCount (r.after.kernel.mailbox b).empty =
        (r.before.kernel.mailbox b).capacity ∧
      r.after.kernel.semaphoreCount (r.after.kernel.mailbox b).full = 0 := by
  have hin := contains_of_attempt hx.fit hallows ha
  have hsets := fun side => (resets_of_reset ha _).trans
    (Mailbox.resetsTo_gate (hx.sound.boxed.created b hin).2.2 side)
  rw [mailbox_of_reset hallows hmove ha]
  exact ⟨(move_resets hx.fit hallows hmove (hsets .producer)).count _ _ (hsets .producer),
    (move_resets hx.fit hallows hmove (hsets .consumer)).count _ _ (hsets .consumer)⟩

/-- The renewed mailbox looks like one that was just made. -/
theorem renewed_isNew (hx : Orderly h r.before) (hy : Orderly (r :: h) r.after)
    (hallows : r.before.allows r.move = true) (hmove : r.before.move r.move = .ok r.after)
    (ha : r.move.attempt? r.before = some (b, .reset)) :
    (r.after.renewed b).kernel.IsNew b (r.before.kernel.mailbox b).capacity := by
  obtain ⟨hempty, hfull⟩ := counts_of_reset hx hallows hmove ha
  have hcapacity : (r.before.kernel.mailbox b).capacity = (r.after.kernel.mailbox b).capacity := by
    rw [mailbox_of_reset hallows hmove ha]
  rw [hcapacity] at hempty ⊢
  exact isNew_of_counts (hy.sound.counted.congr rfl fun _ => rfl) _
    ((Pool.get_set ..).trans (if_pos rfl)) hempty hfull

/-! All histories. -/

/-- A mailbox was reset by the record `r`. What becomes of everything that was pending, and of
what is begun later. -/
structure Voids (b : MailboxId) (later : History) (r : Record) (earlier : History)
    (x : Execution) : Prop where
  used : r.after.kernel.mailboxUsed b = 0
  free : r.after.kernel.mailboxFree b = (r.before.kernel.mailbox b).capacity
  /-- Whatever is fetched since was stored since. -/
  fresh : ∀ after f before msg, later = after ++ f :: before → f.delivery b = some (.take msg) →
    ∃ mid p since ahead, before = mid ++ p :: since ∧ p.delivery b = some (.put msg ahead) ∧
      (stored b (before ++ r :: earlier)).head? = some ((since ++ r :: earlier).length, msg)
  /-- A call that was pending did not return so far, or it returned because of the reset. -/
  void : ∀ u side, Outstanding b side r.before u →
    ((∀ r' ∈ later, r'.begins b u = false) ∧ Void b side u x) ∨
      ∃ after f before, later = after ++ f :: before ∧
        (∀ r' ∈ before, r'.begins b u = false) ∧ f.Aborts b side u
  /-- If a call that was begun since returns because of a reset, that was another one. -/
  spared : ∀ after f before, later = after ++ f :: before → f.Refuses b →
    f.begins b f.before.kernel.current = false ∧ ∀ mid r' since,
      before = mid ++ r' :: since → r'.begins b f.before.kernel.current = true →
        ∃ r'' ∈ mid, r''.delivery b = some .reset
  made : ∀ r' ∈ later ++ r :: earlier, ∀ b' capacity,
    r'.move = .call (.operation (.createMailbox capacity)) →
      r'.left = [.answer (.mailbox (.ok b'))] → r'.after.kernel.IsNew b' capacity
  isNew : (r.after.renewed b).kernel.IsNew b (r.before.kernel.mailbox b).capacity
  /-- With a new mailbox in its place the same moves since then have the same answers. -/
  mirrors : ∃ x', Run (r.after.renewed b) (later.map Record.move).reverse x' ∧ Mirrors b x x'

theorem reaches_voids (hr : Reaches (later ++ r :: earlier) x)
    (hj : JoinedOnce (later ++ r :: earlier)) (ho : OwnGates b (later ++ r :: earlier))
    (hw : ShortWaits b (later ++ r :: earlier)) (hreset : r.delivery b = some .reset) :
    Voids b later r earlier x := by
  have hg : Regular b (later ++ r :: earlier) := ⟨hj, ho, hw⟩
  have ha := attempt_of_reset hreset
  obtain ⟨y, hy⟩ := hr.earlier
  have hg' := hg.of_append
  obtain ⟨hbefore, hallows, hmove, rfl⟩ := hy.uncons
  have hx := hbefore.orderly hg'.tail.joined
  obtain ⟨hempty, hfull⟩ := counts_of_reset hx hallows hmove ha
  -- Up to any record since the reset this is a history as well.
  have hupto : ∀ {after f before}, later = after ++ f :: before → ∃ z,
      Reaches (f :: (before ++ r :: earlier)) z ∧ Regular b (f :: (before ++ r :: earlier)) := by
    rintro after f before rfl
    rw [List.append_assoc] at hr hg
    obtain ⟨z, hz⟩ := hr.earlier
    exact ⟨z, hz, hg.of_append⟩
  refine ⟨?_, ?_, ?_, ?_, ?_, ?_, renewed_isNew hx (hy.orderly hg'.joined) hallows hmove ha, ?_⟩
  · rw [mailboxUsed, hfull]
    rfl
  · rw [mailboxFree, hempty]
    rfl
  · intro after f before msg heq htake
    obtain ⟨z, hz, hgz⟩ := hupto heq
    exact hz.fetches_stored hgz hreset htake
  · intro u side hout
    rcases hr.doomed hg hreset hout with ⟨hquiet, hd⟩ | habort
    · obtain ⟨hin, -⟩ := hr.renewed hg hreset
      have hsome : x.claims b u ≠ none := by
        obtain ⟨epoch, hclaim⟩ := hd.claim
        rw [hclaim]
        exact nofun
      exact Or.inl ⟨hquiet, hd.isVoid (hr.orderly hj) (hr.served hg hin)
        (hg.resetsSince_lt hr hsome)⟩
    · exact Or.inr habort
  · intro after f before heq hf
    obtain ⟨z, hz, hgz⟩ := hupto heq
    obtain ⟨hnot, hsince⟩ := hz.refuses hgz hf
    refine ⟨hnot, ?_⟩
    rintro mid r' since rfl hb
    rw [List.append_assoc] at hsince
    exact exists_reset hb hsince
  · intro r' hmem b' capacity hm hleft
    obtain ⟨h', -, hafter, hallows', hmove'⟩ := hr.orderly_of_mem hj hmem
    obtain ⟨⟨e, k'⟩, hcreate, hstep⟩ := bind_eq_ok.mp (operation_left hm hallows' hmove')
    obtain ⟨rfl, heq⟩ := Prod.mk.inj (Except.ok.inj hstep)
    obtain rfl : e = .ok b' := by simpa [hleft] using heq
    exact createMailbox_isNew hafter.sound.counted hcreate
  · obtain ⟨hin, x', hrun, halike⟩ := hr.renewed hg hreset
    exact ⟨x', hrun, halike.mirrors (hr.orderly hj) (hr.served hg hin) hin⟩

/-- The mailbox is reset after the reader was handed a unit. The reader runs when there is a new
message, goes away without one, and calls again. -/
def voiding : List Move :=
  handing ++ [.takeAnswer, .call (.operation (.resetMailbox 0)), .takeAnswer,
    .call (.operation (.post 0 8 false .infinite)), .takeAnswer, .call (.operation .yieldTurn),
    .advance, .takeAnswer, .call (.operation (.fetch 0 .infinite))]

theorem voids_voiding : ∃ later r earlier, (enact voiding).1 = later ++ r :: earlier ∧
    Reaches (later ++ r :: earlier) (enact voiding).2 ∧ JoinedOnce (later ++ r :: earlier) ∧
    OwnGates 0 (later ++ r :: earlier) ∧ ShortWaits 0 (later ++ r :: earlier) ∧
    r.delivery 0 = some .reset ∧ Outstanding 0 .consumer r.before 2 ∧
    Voids 0 later r earlier (enact voiding).2 := by
  have hr : Reaches (enact voiding).1 (enact voiding).2 := reaches_enact (by decide +kernel)
  have hj : JoinedOnce (enact voiding).1 := by decide +kernel
  have ho : OwnGates 0 (enact voiding).1 := by decide +kernel
  have hw : ShortWaits 0 (enact voiding).1 := by decide +kernel
  have hreset : ∃ r ∈ (enact voiding).1, r.delivery 0 = some .reset ∧
      r.before.claims 0 2 = some (.consumer, 0) ∧
      (r.before.kernel.thread 2).state.isRunnable = true ∧
      (r.before.kernel.thread 2).wakeup = .ok := by decide +kernel
  obtain ⟨r, hmem, hreset, hclaim, hrun, hok⟩ := hreset
  obtain ⟨later, earlier, hsplit⟩ := List.append_of_mem hmem
  rw [hsplit] at hr hj ho hw
  exact ⟨later, r, earlier, hsplit, hr, hj, ho, hw, hreset, ⟨⟨0, hclaim⟩, Or.inr ⟨hrun, hok⟩⟩,
    reaches_voids hr hj ho hw hreset⟩

end Execution

end RealtimeKernel

import RealtimeKernel.Proofs.Execution.Attempts
import RealtimeKernel.Proofs.Execution.History

/-!
Mailboxes as bounded deques. What a mailbox holds is read off the history alone: the messages
stored since the last reset, at one end or the other, less those that were fetched.
-/
namespace RealtimeKernel.Execution
open Kernel

def Record.delivery (b : MailboxId) (r : Record) : Option Delivery :=
  match r.move.attempt? r.before with
  | some (b', a) =>
    if b' = b then a.delivery (r.after.framesOf r.before.kernel.current) else none
  | none => none

/-- The messages of a mailbox, by what happened so far. -/
def contents (b : MailboxId) : History → List Msg
  | [] => []
  | r :: h => deliver (r.delivery b) (contents b h)

/-- A thread calls for a message to be posted or fetched. -/
def Record.begins (b : MailboxId) (u : ThreadId) (r : Record) : Bool :=
  match r.move with
  | .call (.operation (.post b' _ _ _)) | .call (.operation (.fetch b' _)) =>
    b' = b && r.before.kernel.current = u
  | _ => false

/-- The resets of a mailbox since a thread last called for it. -/
def resetsSince (b : MailboxId) (u : ThreadId) : History → Nat
  | [] => 0
  | r :: h =>
    if r.begins b u then 0
    else resetsSince b u h + if r.delivery b = some .reset then 1 else 0

def claims (b : MailboxId) (x : Execution) : Claims := fun u => claimOf? b (x.framesOf u)

/-- No wait at a mailbox lasts so long that its epochs come round. -/
def ShortWaits (b : MailboxId) : History → Prop
  | [] => True
  | r :: h => (∀ u, (r.after.claims b u).isSome = true → resetsSince b u (r :: h) < 2 ^ 32) ∧
    ShortWaits b h

/-- The semaphores of a mailbox are used through it only. -/
def OwnGates (b : MailboxId) (h : History) : Prop :=
  ∀ r ∈ h, r.before.kernel.mailboxes.contains b = true →
    (r.before.kernel.mailbox b).empty ∉ r.move.names ∧
      (r.before.kernel.mailbox b).full ∉ r.move.names

/-- What is known of a mailbox after a history. -/
structure Served (b : MailboxId) (h : History) (x : Execution) : Prop where
  balanced : Balanced x.kernel b (x.claims b) (contents b h) none
  shape : ∀ u, x.claims b u ≠ none → ∃ f, x.framesOf u = [f] ∨ x.framesOf u = [.awake, f]
  dated : ∀ u side e, x.claims b u = some (side, e) →
    (x.kernel.mailbox b).epoch = e + UInt32.ofNat (resetsSince b u h)

variable {x y : Execution} {h : History} {m : Move} {b : MailboxId} {a : Attempt} {u : ThreadId}
  {d : Option Delivery} {side : Side}

theorem claims_current (b : MailboxId) (x : Execution) :
    x.claims b x.kernel.current = claimOf? b x.frames := rfl

/-- Who waits at a mailbox does not run application code. -/
theorem Served.idle (hs : Served b h x)
    (hturn : x.frames = [] ∨ ∃ r rest, x.frames = .callback r true :: rest) :
    x.claims b x.kernel.current = none := by
  rcases hturn with hnil | ⟨r, rest, hcons⟩
  · rw [claims_current, hnil]
    rfl
  · by_contra hclaim
    obtain ⟨f, hf | hf⟩ := hs.shape _ hclaim
    · change x.frames = [f] at hf
      rw [claims_current, hf] at hclaim
      rw [hcons] at hf
      rw [← (List.cons.inj hf).1] at hclaim
      exact hclaim rfl
    · change x.frames = [.awake, f] at hf
      rw [hcons] at hf
      cases (List.cons.inj hf).1

/-- The running thread is about to go on with its claim, and has nothing to do after that. -/
theorem Served.claim_head (hs : Served b h x) {f : Frame} {rest : List Frame} {c : Side × UInt32}
    (hframes : x.frames = f :: rest) (hf : f.claim? b = some c) :
    x.claims b x.kernel.current = some c ∧ rest = [] := by
  have hclaim : x.claims b x.kernel.current = some c := by
    rw [claims_current, hframes, claimOf?_cons, hf]
    rfl
  refine ⟨hclaim, ?_⟩
  obtain ⟨g, hg | hg⟩ := hs.shape x.kernel.current (by rw [hclaim]; exact nofun)
  · change x.frames = [g] at hg
    rw [hframes] at hg
    exact (List.cons.inj hg).2
  · change x.frames = [.awake, g] at hg
    rw [hframes] at hg
    rw [(List.cons.inj hg).1] at hf
    cases hf

/-- The running thread goes on with its claim. -/
theorem Served.resume (hs : Served b h x) (hx : Orderly h x) {epoch : UInt32}
    (hclaim : x.claims b x.kernel.current = some (side, epoch)) :
    Balanced x.kernel b (Function.update (x.claims b) x.kernel.current none) (contents b h)
      (if x.kernel.admission b epoch x.kernel.running.wakeup = .ok () then some side else none) :=
  hs.balanced.resume hx.sound.inPlace hclaim (Function.update_self ..)
    fun _ hu => Function.update_of_ne hu ..

/-- What a move that is about a mailbox does to it. -/
structure Serves (b : MailboxId) (l : List Msg) (d : Option Delivery) (m : Move)
    (x y : Execution) : Prop where
  delivers : Delivers b (x.claims b) l d x.kernel y.kernel (y.framesOf x.kernel.current)
  begins : ∀ c, claimOf? b (y.framesOf x.kernel.current) = some c →
    x.claims b x.kernel.current = some c ∨ Record.begins b x.kernel.current ⟨x, m, y⟩ = true

theorem Serves.of_plain {left : List Frame} {l : List Msg}
    (hd : Delivers b (x.claims b) l d x.kernel y.kernel left)
    (hleft : y.framesOf x.kernel.current = left) (plain : claimOf? b left = none) :
    Serves b l d m x y := by
  subst hleft
  refine ⟨hd, ?_⟩
  intro c hc
  rw [plain] at hc
  cases hc

theorem Served.call (hs : Served b h x) (hx : Orderly h x) {c : Call}
    (hallows : x.allows (.call c) = true)
    (ha : Move.attempt? x (.call c) = some (b, a)) (hm : x.move (.call c) = .ok y)
    (old : a = .reset → ∀ u side, x.claims b u ≠ some (side, (x.kernel.mailbox b).epoch + 1)) :
    Serves b (contents b h) (a.delivery (y.framesOf x.kernel.current)) (.call c) x y := by
  obtain ⟨hnil, hin⟩ := allows_call hallows
  have hidle := hs.idle (Or.inl hnil)
  cases c with
  | operation c =>
      obtain ⟨frames, hstep, hleft⟩ := operation_step hm
      rw [hnil, List.append_nil] at hleft
      cases c with
      | post b' msg ahead timeout =>
          obtain ⟨rfl, rfl⟩ := Prod.mk.inj (Option.some.inj ha)
          have hd := post_delivers hx.sound hin hidle hs.balanced hstep
          rw [← hleft] at hd
          refine ⟨hd, fun _ _ => Or.inr ?_⟩
          simp [Record.begins]
      | fetch b' timeout =>
          obtain ⟨rfl, rfl⟩ := Prod.mk.inj (Option.some.inj ha)
          have hd := fetch_delivers hx.sound hin hidle hs.balanced hstep
          rw [← hleft] at hd
          refine ⟨hd, fun _ _ => Or.inr ?_⟩
          simp [Record.begins]
      | resetMailbox b' =>
          obtain ⟨rfl, rfl⟩ := Prod.mk.inj (Option.some.inj ha)
          obtain ⟨k₁, hreset, hstep⟩ := bind_eq_ok.mp hstep
          obtain ⟨k₂, hpreempt, hstep⟩ := bind_eq_ok.mp hstep
          obtain ⟨hkernel, rfl⟩ := Prod.mk.inj (Except.ok.inj hstep)
          subst hkernel
          have heffects : Relation.ReflTransGen (Effect fun _ => True) x.kernel k₁ :=
            resetMailbox_effects hx.sound (fun _ _ => trivial) hreset
          obtain ⟨hk₁, hcurrent⟩ := effects_induction (P := fun k => k.current = x.kernel.current)
            heffects hx.sound (fun _ _ _ he hk => he.current.trans hk) rfl
          have hin₁ := ((Does.of_effects heffects).grows hx.sound).mailboxes _ hin
          have hd := resetMailbox_delivers (a := .unit) hx.sound hin hidle hs.balanced (old rfl)
            hreset
          exact .of_plain (hd.preempt hk₁ hin₁ hcurrent rfl hpreempt) hleft rfl
      | _ => cases ha
  | _ => cases ha

theorem Served.interrupt (hs : Served b h x) (hx : Orderly h x) {c : InterruptCall}
    (hallows : x.allows (.interrupt c) = true)
    (ha : Move.attempt? x (.interrupt c) = some (b, a)) (hm : x.move (.interrupt c) = .ok y)
    (old : a = .reset → ∀ u side, x.claims b u ≠ some (side, (x.kernel.mailbox b).epoch + 1)) :
    Serves b (contents b h) (a.delivery (y.framesOf x.kernel.current)) (.interrupt c) x y := by
  obtain ⟨hturn, hin⟩ := allows_interrupt hallows
  have hidle := hs.idle hturn
  obtain ⟨frames, hstep, hleft⟩ := interrupt_step hm
  have hnone : claimOf? b (frames ++ x.frames) = claimOf? b frames := by
    rw [claimOf?_append, ← claims_current, hidle, Option.or_none]
  cases c with
  | post b' msg ahead =>
      obtain ⟨rfl, rfl⟩ := Prod.mk.inj (Option.some.inj ha)
      obtain ⟨⟨e, k'⟩, hpost, hstep⟩ := bind_eq_ok.mp hstep
      obtain ⟨rfl, rfl⟩ := Prod.mk.inj (Except.ok.inj hstep)
      have hd := postNow_delivers hx.sound hin hidle hs.balanced hpost
      rw [hleft]
      refine .of_plain ?_ hleft hnone
      cases e <;> exact hd.append rfl hidle
  | fetch b' =>
      obtain ⟨rfl, rfl⟩ := Prod.mk.inj (Option.some.inj ha)
      obtain ⟨⟨e, k'⟩, hfetch, hstep⟩ := bind_eq_ok.mp hstep
      obtain ⟨rfl, rfl⟩ := Prod.mk.inj (Except.ok.inj hstep)
      have hd := fetchNow_delivers hx.sound hin hidle hs.balanced hfetch
      rw [hleft]
      refine .of_plain ?_ hleft hnone
      cases e <;> exact hd.append rfl hidle
  | resetMailbox b' =>
      obtain ⟨rfl, rfl⟩ := Prod.mk.inj (Option.some.inj ha)
      obtain ⟨k', hreset, hstep⟩ := bind_eq_ok.mp hstep
      obtain ⟨rfl, rfl⟩ := Prod.mk.inj (Except.ok.inj hstep)
      have hd := resetMailbox_delivers (a := .unit) hx.sound hin hidle hs.balanced (old rfl) hreset
      exact .of_plain (hd.append rfl hidle) hleft hnone
  | _ => cases ha

theorem Served.advance (hs : Served b h x) (hx : Orderly h x)
    (hallows : x.allows .advance = true) (ha : Move.attempt? x .advance = some (b, a))
    (hin : x.kernel.mailboxes.contains b = true) (hm : x.move .advance = .ok y) :
    Serves b (contents b h) (a.delivery (y.framesOf x.kernel.current)) .advance x y := by
  obtain ⟨f, rest, hframes, -⟩ := allows_advance hallows
  obtain ⟨frames, hstep, hall⟩ := advance_step hframes hm
  have hleft : rest = [] → y.framesOf x.kernel.current = frames := by
    rintro rfl
    rw [hall, List.append_nil]
  have hdrop : (Function.update (x.claims b) x.kernel.current none) x.kernel.current = none :=
    Function.update_self ..
  rw [attempt_advance hframes] at ha
  cases f with
  | store b' epoch msg ahead =>
      obtain ⟨rfl, rfl⟩ := Prod.mk.inj (Option.some.inj ha)
      obtain ⟨hclaim, hrest⟩ := hs.claim_head hframes (if_pos rfl)
      obtain ⟨hd, hplain⟩ := storeAfter_delivers hx.sound hin hdrop (hs.resume hx hclaim) hstep
      rw [hleft hrest]
      exact .of_plain hd.of_update (hleft hrest) hplain
  | fetch b' epoch =>
      obtain ⟨rfl, rfl⟩ := Prod.mk.inj (Option.some.inj ha)
      obtain ⟨hclaim, hrest⟩ := hs.claim_head hframes (if_pos rfl)
      obtain ⟨hd, hplain⟩ := fetchAfter_delivers hx.sound hin hdrop (hs.resume hx hclaim) hstep
      rw [hleft hrest]
      exact .of_plain hd.of_update (hleft hrest) hplain
  | _ => cases ha

/-! Moves that are not about the mailbox. -/

/-- A thread with a claim is amid an operation. -/
theorem Served.turn_work (hs : Served b h x) (hclaim : x.claims b x.kernel.current ≠ none) :
    x.turn = .work := by
  have hshows := x.turn_shows
  obtain ⟨f, hf⟩ := hs.shape _ hclaim
  have hf : x.frames = [f] ∨ x.frames = [.awake, f] := hf
  rw [claims_current] at hclaim
  unfold turn
  rcases hf with hf | hf
  · rw [hf, claimOf?_cons] at hclaim
    rw [hf]
    cases f with
    | store b' epoch msg ahead => rfl
    | fetch b' epoch => rfl
    | _ => exact absurd rfl hclaim
  · rw [hf]

/-- Amid an operation nobody but the kernel has a move. -/
theorem allows_work (hwork : x.turn = .work) (hallows : x.allows m = true) :
    m = .advance ∨ m = .collectLog := by
  cases m with
  | advance => exact Or.inl rfl
  | collectLog => exact Or.inr rfl
  | _ => simp [allows, hwork] at hallows

/-- The running thread checks its timeout before it goes on with its claim. -/
theorem Served.awake (hs : Served b h x) (hallows : x.allows m = true) (hm : m ≠ .collectLog)
    (hno : ∀ a, m.attempt? x ≠ some (b, a)) (hmove : x.move m = .ok y)
    (hclaim : x.claims b x.kernel.current ≠ none) :
    m = .advance ∧ y.kernel = x.kernel ∧
      ∃ f, x.frames = [.awake, f] ∧ y.framesOf x.kernel.current = [f] := by
  obtain rfl := (allows_work (hs.turn_work hclaim) hallows).resolve_right hm
  refine ⟨rfl, ?_⟩
  obtain ⟨f, hf | hf⟩ := hs.shape _ hclaim
  · change x.frames = [f] at hf
    cases hc : f.claim? b with
    | none =>
        rw [claims_current, hf, claimOf?_cons, hc] at hclaim
        exact absurd rfl hclaim
    | some c =>
        obtain ⟨a, ha⟩ := Frame.attempt_of_claim hc
        rw [← attempt_advance hf] at ha
        exact absurd ha (hno a)
  · change x.frames = [.awake, f] at hf
    obtain ⟨frames, hstep, hleft⟩ := advance_step hf hmove
    unfold frameStep at hstep
    dsimp only at hstep
    split at hstep
    · cases hstep
    · obtain ⟨hkernel, rfl⟩ := Prod.mk.inj (Except.ok.inj hstep)
      exact ⟨hkernel.symm, f, hf, hleft⟩

/-- The running thread keeps its claim, and the mailbox stays as it is. -/
theorem Serves.of_kept {l : List Msg} (hbalanced : Balanced y.kernel b (x.claims b) l none)
    (hclaim : claimOf? b (y.framesOf x.kernel.current) = x.claims b x.kernel.current)
    (hsame : y.kernel.mailbox b = x.kernel.mailbox b)
    (hshape : ∃ f, y.framesOf x.kernel.current = [f] ∨
      y.framesOf x.kernel.current = [.awake, f]) : Serves b l none m x y := by
  refine ⟨⟨?_, nofun, fun _ => hsame, ?_, ?_, fun _ => hshape⟩, ?_⟩
  · rw [hclaim, Function.update_eq_self]
    exact hbalanced
  · rw [hsame]
    exact (UInt32.add_zero _).symm
  · intro side e he
    rw [hclaim] at he
    exact Or.inl he
  · intro c hc
    rw [hclaim] at hc
    exact Or.inl hc

theorem balanced_withoutLog {l : List Msg} (h : Balanced x.kernel b (x.claims b) l none) :
    Balanced x.withoutLog.kernel b (x.claims b) l none :=
  ⟨h.ring, h.account, h.claimed, h.queued⟩

/-- Any move that is not about a mailbox. -/
theorem Served.unattempted (hs : Served b h x) (hx : Orderly h x)
    (hin : x.kernel.mailboxes.contains b = true) (hallows : x.allows m = true)
    (own : (x.kernel.mailbox b).empty ∉ m.names ∧ (x.kernel.mailbox b).full ∉ m.names)
    (hno : ∀ a, m.attempt? x ≠ some (b, a)) (hmove : x.move m = .ok y) :
    Serves b (contents b h) none m x y := by
  cases hclaim : x.claims b x.kernel.current with
  | some c =>
      have hsome : x.claims b x.kernel.current ≠ none := by
        rw [hclaim]
        exact nofun
      by_cases hm : m = .collectLog
      · subst hm
        obtain rfl := Except.ok.inj hmove
        exact .of_kept (balanced_withoutLog hs.balanced) rfl rfl (hs.shape _ hsome)
      · obtain ⟨-, hkernel, f, hf, hleft⟩ := hs.awake hallows hm hno hmove hsome
        refine .of_kept ?_ ?_ ?_ ⟨f, Or.inl hleft⟩
        · rw [hkernel]
          exact hs.balanced
        · rw [claims_current, hleft, hf]
          rfl
        · rw [hkernel]
  | none =>
      by_cases hm : m = .collectLog
      · subst hm
        obtain rfl := Except.ok.inj hmove
        have hbalanced := balanced_withoutLog hs.balanced
        exact .of_plain (.of_same hbalanced hclaim rfl hclaim) rfl hclaim
      · obtain ⟨frames, rest, hgoes⟩ := move_goes hx.fit hallows hm hmove
        have hnot : ∀ o, x.kernel.BoxParts b o → ¬ m.touches x o := by
          intro o ho ht
          obtain ⟨a, ha⟩ := attempt_of_touches hx.fit hallows hin own ho ht
          exact hno a ha
        have hplain : claimOf? b (frames ++ rest) = none := by
          have hframes : claimOf? b frames = none := claimOf_eq_none fun f hf hc =>
            hnot _ (Or.inl rfl) (hgoes.works.frames f hf _ hc).1
          have hrest : claimOf? b rest = none :=
            claimOf_eq_none_of_subset hclaim hgoes.rest_subset
          rw [claimOf?_append, hframes, hrest]
          rfl
        have hdoes := hgoes.works.does
        have hleaves := hdoes.leavesBox hx.sound hin hnot
        have hbalanced := hs.balanced.leaves (hdoes.inPlace hx.sound.inPlace) hleaves hclaim
        exact .of_plain (.of_same hbalanced hclaim hleaves.mailbox hplain) hgoes.mine hplain

/-! A whole history. -/

theorem postDelivery_ne_reset (msg : Msg) (ahead : Bool) (left : List Frame) :
    postDelivery msg ahead left ≠ some .reset := by
  unfold postDelivery
  split <;> exact nofun

theorem fetchDelivery_ne_reset (left : List Frame) : fetchDelivery left ≠ some .reset := by
  unfold fetchDelivery
  split <;> exact nofun

theorem delivery_of_attempt (y : Execution) (ha : m.attempt? x = some (b, a)) :
    Record.delivery b ⟨x, m, y⟩ = a.delivery (y.framesOf x.kernel.current) := by
  unfold Record.delivery
  rw [ha]
  exact if_pos rfl

theorem delivery_of_left {left : List Frame} (hleft : y.framesOf x.kernel.current = left)
    (ha : m.attempt? x = some (b, a)) : Record.delivery b ⟨x, m, y⟩ = a.delivery left := by
  rw [delivery_of_attempt y ha, hleft]

theorem delivery_eq_none (y : Execution) (hno : ∀ a, m.attempt? x ≠ some (b, a)) :
    Record.delivery b ⟨x, m, y⟩ = none := by
  unfold Record.delivery
  cases ha : m.attempt? x with
  | none => rfl
  | some p =>
      refine if_neg ?_
      intro hb
      exact hno p.2 (by rw [ha, ← hb])

theorem attempt_of_reset {r : Record} (h : r.delivery b = some .reset) :
    r.move.attempt? r.before = some (b, .reset) := by
  unfold Record.delivery at h
  split at h
  · rename_i b' a ha
    split at h
    · rename_i hb
      subst hb
      cases a with
      | reset => exact ha
      | post msg ahead => exact absurd h (postDelivery_ne_reset msg ahead _)
      | fetch => exact absurd h (fetchDelivery_ne_reset _)
    · cases h
  · cases h

theorem begins_move {r : Record} (hb : r.begins b u = true) : u = r.before.kernel.current ∧
    ((∃ msg ahead timeout, r.move = .call (.operation (.post b msg ahead timeout))) ∨
      ∃ timeout, r.move = .call (.operation (.fetch b timeout))) := by
  unfold Record.begins at hb
  split at hb
  · rename_i b' msg ahead timeout hm
    obtain ⟨hb', hu⟩ := Bool.and_eq_true_iff.mp hb
    obtain rfl := of_decide_eq_true hb'
    exact ⟨(of_decide_eq_true hu).symm, Or.inl ⟨msg, ahead, timeout, hm⟩⟩
  · rename_i b' timeout hm
    obtain ⟨hb', hu⟩ := Bool.and_eq_true_iff.mp hb
    obtain rfl := of_decide_eq_true hb'
    exact ⟨(of_decide_eq_true hu).symm, Or.inr ⟨timeout, hm⟩⟩
  · cases hb

/-- Whoever calls for a mailbox has nothing else to do, and resets nothing. -/
theorem begins_ok (hallows : x.allows m = true) (hb : Record.begins b u ⟨x, m, y⟩ = true) :
    u = x.kernel.current ∧ x.claims b u = none ∧
      Record.delivery b ⟨x, m, y⟩ ≠ some .reset := by
  have hidle : ∀ c, m = .call c → x.claims b x.kernel.current = none := by
    rintro c rfl
    rw [claims_current, (allows_call hallows).1]
    rfl
  obtain ⟨rfl, ⟨msg, ahead, timeout, hm⟩ | ⟨timeout, hm⟩⟩ := begins_move hb
  · have hm : m = .call (.operation (.post b msg ahead timeout)) := hm
    refine ⟨rfl, hidle _ hm, ?_⟩
    rw [delivery_of_attempt y (by rw [hm]; rfl)]
    exact postDelivery_ne_reset msg ahead _
  · have hm : m = .call (.operation (.fetch b timeout)) := hm
    refine ⟨rfl, hidle _ hm, ?_⟩
    rw [delivery_of_attempt (a := .fetch) y (by rw [hm]; rfl)]
    exact fetchDelivery_ne_reset _

theorem resetsSince_cons (hb : Record.begins b u ⟨x, m, y⟩ = false) :
    UInt32.ofNat (resetsSince b u (⟨x, m, y⟩ :: h)) = UInt32.ofNat (resetsSince b u h) +
      if Record.delivery b ⟨x, m, y⟩ = some .reset then 1 else 0 := by
  rw [resetsSince, hb, if_neg Bool.false_ne_true, UInt32.ofNat_add]
  split <;> rfl

theorem grows_of_move (hx : Orderly h x) (hallows : x.allows m = true)
    (hmove : x.move m = .ok y) : Grows x.kernel y.kernel :=
  (move_does hx.fit hallows hmove).grows hx.sound

/-- A thread that does not run keeps what it has left to do at a mailbox. -/
theorem Served.frames_of_ne (hs : Served b h x) (hx : Orderly h x) (hallows : x.allows m = true)
    (hmove : x.move m = .ok y) (hu : u ≠ x.kernel.current) :
    y.claims b u = x.claims b u ∧ (y.claims b u ≠ none → y.framesOf u = x.framesOf u) := by
  rcases move_others hx.fit hallows hmove hu with hsame | ⟨hinactive, hstart⟩
  · exact ⟨congrArg (claimOf? b) hsame, fun _ => hsame⟩
  · have hnone : y.claims b u = none := congrArg (claimOf? b) hstart
    refine ⟨?_, fun hclaim => absurd hnone hclaim⟩
    rw [hnone]
    cases hc : x.claims b u with
    | none => rfl
    | some c =>
        rcases hs.balanced.claimed u c.1 c.2 hc with hrun | ⟨hq, -⟩
        · rw [hinactive] at hrun
          cases hrun
        · rw [hx.sound.inPlace.queue_eq_none_of_state (Or.inl hinactive)] at hq
          cases hq

theorem Served.step (hs : Served b h x) (hx : Orderly h x) (hallows : x.allows m = true)
    (hmove : x.move m = .ok y)
    (hserves : Serves b (contents b h) (Record.delivery b ⟨x, m, y⟩) m x y) :
    Served b (⟨x, m, y⟩ :: h) y := by
  have hother : ∀ u, u ≠ x.kernel.current → y.claims b u = x.claims b u := fun u hu =>
    (hs.frames_of_ne hx hallows hmove hu).1
  have hupdate : y.claims b = Function.update (x.claims b) x.kernel.current
      (claimOf? b (y.framesOf x.kernel.current)) := by
    funext u
    by_cases hu : u = x.kernel.current
    · subst hu
      rw [Function.update_self]
      rfl
    · rw [Function.update_of_ne hu, hother u hu]
  refine ⟨?_, ?_, ?_⟩
  · rw [hupdate]
    exact hserves.delivers.balanced
  · intro u hclaim
    by_cases hu : u = x.kernel.current
    · subst hu
      exact hserves.delivers.shape hclaim
    · have hframes := hs.frames_of_ne hx hallows hmove hu
      rw [hframes.2 hclaim]
      rw [hframes.1] at hclaim
      exact hs.shape u hclaim
  · intro u side e hclaim
    rw [hserves.delivers.epoch]
    -- An old claim dates back as far as before, and further if this was a reset.
    have hold : x.claims b u = some (side, e) → (x.kernel.mailbox b).epoch +
        (if Record.delivery b ⟨x, m, y⟩ = some .reset then 1 else 0) =
          e + UInt32.ofNat (resetsSince b u (⟨x, m, y⟩ :: h)) := by
      intro hc
      have hnot : Record.begins b u ⟨x, m, y⟩ = false := by
        cases hb : Record.begins b u ⟨x, m, y⟩ with
        | false => rfl
        | true =>
            rw [(begins_ok hallows hb).2.1] at hc
            cases hc
      rw [resetsSince_cons hnot, hs.dated u side e hc, UInt32.add_assoc]
    by_cases hu : u = x.kernel.current
    · subst hu
      rcases hserves.begins _ hclaim with hc | hb
      · exact hold hc
      · obtain ⟨-, hnone, hreset⟩ := begins_ok hallows hb
        rcases hserves.delivers.pending side e hclaim with hc | he
        · rw [hnone] at hc
          cases hc
        · rw [resetsSince, if_pos hb, if_neg hreset, he]
          rfl
    · rw [hother u hu] at hclaim
      exact hold hclaim

theorem ne_add_succ {e : UInt32} {n : Nat} (hn : n + 1 < 2 ^ 32) :
    e ≠ e + 1 + UInt32.ofNat n := by
  intro h
  rw [UInt32.add_assoc, UInt32.left_eq_add, ← UInt32.ofNat_one, ← UInt32.ofNat_add,
    Nat.add_comm 1] at h
  have hmod : (n + 1) % 2 ^ 32 = 0 := congrArg UInt32.toNat h
  rw [Nat.mod_eq_of_lt hn] at hmod
  cases hmod

theorem move_of_reset (ha : m.attempt? x = some (b, .reset)) :
    m = .call (.operation (.resetMailbox b)) ∨ m = .interrupt (.resetMailbox b) := by
  cases m with
  | call c =>
      cases c with
      | operation c =>
          cases c with
          | resetMailbox b' =>
              obtain ⟨rfl, -⟩ := Prod.mk.inj (Option.some.inj ha)
              exact Or.inl rfl
          | _ => cases ha
      | _ => cases ha
  | interrupt c =>
      cases c with
      | resetMailbox b' =>
          obtain ⟨rfl, -⟩ := Prod.mk.inj (Option.some.inj ha)
          exact Or.inr rfl
      | _ => cases ha
  | advance =>
      obtain ⟨f, -, hf⟩ := Option.bind_eq_some_iff.mp ha
      cases f <;> cases hf
  | _ => cases ha

/-- Whoever resets a mailbox does not wait for it. -/
theorem Served.idle_of_reset (hs : Served b h x) (hallows : x.allows m = true)
    (ha : m.attempt? x = some (b, .reset)) : x.claims b x.kernel.current = none := by
  rcases move_of_reset ha with rfl | rfl
  · exact hs.idle (Or.inl (allows_call hallows).1)
  · exact hs.idle (allows_interrupt hallows).1

/-- A claim of the next epoch is impossible, as long as no wait is too long. -/
theorem Served.not_next (hs : Served b h x) (hx : Orderly h x) (hallows : x.allows m = true)
    (hmove : x.move m = .ok y) (ha : m.attempt? x = some (b, .reset))
    (hshort : ∀ u, (y.claims b u).isSome = true →
      resetsSince b u (⟨x, m, y⟩ :: h) < 2 ^ 32) (u : ThreadId) (side : Side) :
    x.claims b u ≠ some (side, (x.kernel.mailbox b).epoch + 1) := by
  intro hclaim
  have hu : u ≠ x.kernel.current := by
    rintro rfl
    rw [hs.idle_of_reset hallows ha] at hclaim
    cases hclaim
  have hlong := hshort u (by rw [(hs.frames_of_ne hx hallows hmove hu).1, hclaim]; rfl)
  have hnot : Record.begins b u ⟨x, m, y⟩ = false := by
    cases hb : Record.begins b u ⟨x, m, y⟩ with
    | false => rfl
    | true => exact absurd (begins_ok hallows hb).1 hu
  have hreset : Record.delivery b ⟨x, m, y⟩ = some .reset := delivery_of_attempt y ha
  rw [resetsSince, hnot, if_neg Bool.false_ne_true, if_pos hreset] at hlong
  exact ne_add_succ hlong (hs.dated u side _ hclaim)

theorem Served.serves (hs : Served b h x) (hx : Orderly h x)
    (hin : x.kernel.mailboxes.contains b = true) (hallows : x.allows m = true)
    (hmove : x.move m = .ok y)
    (own : (x.kernel.mailbox b).empty ∉ m.names ∧ (x.kernel.mailbox b).full ∉ m.names)
    (hshort : ∀ u, (y.claims b u).isSome = true →
      resetsSince b u (⟨x, m, y⟩ :: h) < 2 ^ 32) :
    Serves b (contents b h) (Record.delivery b ⟨x, m, y⟩) m x y := by
  by_cases hno : ∀ a, m.attempt? x ≠ some (b, a)
  · rw [delivery_eq_none y hno]
    exact hs.unattempted hx hin hallows own hno hmove
  · obtain ⟨a, ha⟩ := not_forall_not.mp hno
    have old : a = .reset → ∀ u side,
        x.claims b u ≠ some (side, (x.kernel.mailbox b).epoch + 1) := by
      rintro rfl
      exact hs.not_next hx hallows hmove ha hshort
    rw [delivery_of_attempt y ha]
    cases m with
    | call c => exact hs.call hx hallows ha hmove old
    | interrupt c => exact hs.interrupt hx hallows ha hmove old
    | advance => exact hs.advance hx hallows ha hin hmove
    | _ => cases ha

/-! Before a mailbox is made. -/

theorem delivery_of_new (hx : Orderly h x) (hallows : x.allows m = true)
    (hnew : x.kernel.mailboxes.contains b = false) (y : Execution) :
    Record.delivery b ⟨x, m, y⟩ = none := by
  refine delivery_eq_none y ?_
  intro a ha
  rw [contains_of_attempt hx.fit hallows ha] at hnew
  cases hnew

theorem claims_of_new (hx : Orderly h x) (hnew : x.kernel.mailboxes.contains b = false)
    (u : ThreadId) : x.claims b u = none := by
  refine claimOf_eq_none ?_
  intro f hf hc
  have hin : x.kernel.mailboxes.contains b = true := hx.exist u f hf _ hc
  rw [hnew] at hin
  cases hin

/-- How a mailbox came to be there. -/
theorem created_of_new (hx : Orderly h x) (hallows : x.allows m = true)
    (hmove : x.move m = .ok y) (hnew : x.kernel.mailboxes.contains b = false)
    (hin : y.kernel.mailboxes.contains b = true) :
    (∃ capacity e, x.kernel.createMailbox capacity = .ok (e, y.kernel)) ∧
      ∀ u, y.claims b u = none := by
  have htouch : m.touches x (.mailbox b) := by
    by_contra hnot
    rw [((move_does hx.fit hallows hmove).mailbox_eq hx.sound hnot).2, hnew] at hin
    cases hin
  obtain ⟨capacity, rfl⟩ := createMailbox_of_touches hx.fit hallows hnew htouch
  have hm : x.perform x.frames (Operation.run · (.createMailbox capacity)) = .ok y := hmove
  obtain ⟨frames, hstep, hframes⟩ := perform_ok hm
  obtain ⟨⟨e, k'⟩, hcreate, hstep⟩ := bind_eq_ok.mp hstep
  obtain ⟨rfl, rfl⟩ := Prod.mk.inj (Except.ok.inj hstep)
  refine ⟨⟨capacity, e, hcreate⟩, ?_⟩
  intro u
  have hold := claims_of_new hx hnew
  change claimOf? b (y.framesOf u) = none
  rw [hframes]
  split
  · rw [claimOf?_append, ← claims_current, hold]
    rfl
  · exact hold u

/-- A mailbox that was just made. -/
theorem served_of_new (hx : Orderly h x) (hy : y.kernel.Sound) (hallows : x.allows m = true)
    (hmove : x.move m = .ok y) (hempty : contents b h = [])
    (hnew : x.kernel.mailboxes.contains b = false)
    (hin : y.kernel.mailboxes.contains b = true) : Served b (⟨x, m, y⟩ :: h) y := by
  obtain ⟨⟨capacity, e, hcreate⟩, hnone⟩ := created_of_new hx hallows hmove hnew hin
  have hbalanced := balanced_of_createMailbox hy hcreate hnew hin hnone
  refine ⟨?_, fun u hclaim => absurd (hnone u) hclaim, ?_⟩
  · rw [contents, delivery_of_new hx hallows hnew y, hempty]
    exact hbalanced
  · intro u side e hclaim
    rw [hnone] at hclaim
    cases hclaim

/-! All histories. -/

/-- What is known of any mailbox, made or not, and of every move so far. -/
structure Known (b : MailboxId) (h : History) (x : Execution) : Prop where
  served : x.kernel.mailboxes.contains b = true → Served b h x
  empty : x.kernel.mailboxes.contains b = false → contents b h = []
  serves : ∀ r h', r :: h' <:+ h →
    r.before.kernel.mailboxes.contains b = true ∧
        Serves b (contents b h') (r.delivery b) r.move r.before r.after ∨
      r.before.kernel.mailboxes.contains b = false ∧ r.delivery b = none

theorem solo_contains (config : Config) (b : MailboxId) :
    (solo config (bootThread config) config.quantum).mailboxes.contains b = false := rfl

theorem Booted.mailboxes_empty (hb : Booted x) : x.kernel.mailboxes.contains b = false := by
  obtain ⟨-, hnew⟩ := hb.induction (P := fun k => k.mailboxes.contains b = false)
    (fun config => solo_contains config b) (fun _ _ hnew => hnew)
    fun k k' _ he hnew => (he.mailbox_eq nofun).2.trans hnew
  exact hnew

theorem Booted.known (hb : Booted x) : Known b [] x := by
  have hnew := hb.mailboxes_empty (b := b)
  refine ⟨?_, fun _ => rfl, ?_⟩
  · intro hin
    rw [hnew] at hin
    cases hin
  · intro r h' hsuffix
    cases List.suffix_nil.mp hsuffix

theorem Reaches.known (hr : Reaches h x) (hj : JoinedOnce h) (ho : OwnGates b h)
    (hw : ShortWaits b h) : Known b h x := by
  induction hr with
  | boot hb => exact hb.known
  | @move h x y m hr hallows hmove ih =>
      have hx := hr.orderly hj.tail
      have hy := (hr.move hallows hmove).orderly hj
      have hknown := ih hj.tail (fun r hr => ho r (List.mem_cons_of_mem _ hr)) hw.2
      have hserves : x.kernel.mailboxes.contains b = true →
          Serves b (contents b h) (Record.delivery b ⟨x, m, y⟩) m x y := fun hin =>
        (hknown.served hin).serves hx hin hallows hmove (ho _ List.mem_cons_self hin) hw.1
      refine ⟨?_, ?_, ?_⟩
      · intro hin'
        cases hin : x.kernel.mailboxes.contains b with
        | true => exact (hknown.served hin).step hx hallows hmove (hserves hin)
        | false => exact served_of_new hx hy.sound hallows hmove (hknown.empty hin) hin hin'
      · intro hnew'
        have hnew : x.kernel.mailboxes.contains b = false := by
          cases hin : x.kernel.mailboxes.contains b with
          | false => rfl
          | true =>
              rw [(grows_of_move hx hallows hmove).mailboxes b hin] at hnew'
              cases hnew'
        rw [contents, delivery_of_new hx hallows hnew y, hknown.empty hnew]
        rfl
      · intro r h' hsuffix
        rcases List.suffix_cons_iff.mp hsuffix with heq | hsuffix
        · obtain ⟨rfl, rfl⟩ := List.cons.inj heq
          cases hin : x.kernel.mailboxes.contains b with
          | true => exact Or.inl ⟨rfl, hserves hin⟩
          | false => exact Or.inr ⟨rfl, delivery_of_new hx hallows hin y⟩
        · exact hknown.serves r h' hsuffix

structure IsDeque (b : MailboxId) (h : History) (x : Execution) : Prop where
  /-- The cells in use hold the messages, and there are never more messages than cells. -/
  ring : (x.kernel.mailbox b).ring.contents (contents b h).length = contents b h
  length_le : (contents b h).length ≤ (x.kernel.mailbox b).capacity
  /-- The semaphores count what is there, less what threads were handed and did not use yet. -/
  full : ((contents b h).length : Int) =
    max (x.kernel.semaphoreCount (x.kernel.mailbox b).full) 0 +
      x.kernel.granted b (x.claims b) .consumer
  empty : ((x.kernel.mailbox b).capacity : Int) - (contents b h).length =
    max (x.kernel.semaphoreCount (x.kernel.mailbox b).empty) 0 +
      x.kernel.granted b (x.claims b) .producer
  /-- Whoever fetched a message got the first one. -/
  front : ∀ r h' msg, r :: h' <:+ h → r.delivery b = some (.take msg) →
    (contents b h').head? = some msg
  /-- Without a delivery nothing happens to the mailbox. -/
  same : ∀ r h', r :: h' <:+ h → r.delivery b = none →
    r.before.kernel.mailboxes.contains b = true →
      r.after.kernel.mailbox b = r.before.kernel.mailbox b

theorem reaches_isDeque (hr : Reaches h x) (hj : JoinedOnce h) (ho : OwnGates b h)
    (hw : ShortWaits b h) (hb : x.kernel.mailboxes.contains b = true) : IsDeque b h x := by
  have hknown := hr.known hj ho hw
  have hbalanced := (hknown.served hb).balanced
  have haccount : ∀ side, (x.kernel.mailbox b).stock (contents b h) side =
      max (x.kernel.semaphoreCount ((x.kernel.mailbox b).gate side)) 0 +
        x.kernel.granted b (x.claims b) side := by
    intro side
    have h := hbalanced.account side
    rw [if_neg nofun, Int.add_zero] at h
    exact h
  refine ⟨hbalanced.ring.contents, hbalanced.ring.length_le, haccount .consumer,
    haccount .producer, ?_, ?_⟩
  · intro r h' msg hsuffix hd
    rcases hknown.serves r h' hsuffix with ⟨-, hserves⟩ | ⟨-, hnone⟩
    · exact hserves.delivers.front msg hd
    · rw [hnone] at hd
      cases hd
  · intro r h' hsuffix hd hin
    rcases hknown.serves r h' hsuffix with ⟨-, hserves⟩ | ⟨hnew, -⟩
    · exact hserves.delivers.same hd
    · rw [hnew] at hin
      cases hin

instance (b : MailboxId) (h : History) : Decidable (OwnGates b h) :=
  inferInstanceAs (Decidable (∀ r ∈ h, r.before.kernel.mailboxes.contains b = true →
    (r.before.kernel.mailbox b).empty ∉ r.move.names ∧
      (r.before.kernel.mailbox b).full ∉ r.move.names))

instance decidableShortWaits (b : MailboxId) : (h : History) → Decidable (ShortWaits b h)
  | [] => isTrue trivial
  | _ :: h =>
    have := decidableShortWaits b h
    inferInstanceAs (Decidable (_ ∧ ShortWaits b h))

/-- A message is stored while a thread waits for one, which is handed a unit. -/
def handing : List Move :=
  [.takeAnswer, .call (.operation (.createMailbox 2)), .takeAnswer,
    .call (.spawn "reader" .normal "work"), .takeAnswer, .call (.operation .yieldTurn), .enter,
    .call (.operation (.fetch 0 .infinite)), .takeAnswer,
    .call (.operation (.post 0 7 false .infinite))]

theorem isDeque_handing : Reaches (enact handing).1 (enact handing).2 ∧
    JoinedOnce (enact handing).1 ∧ OwnGates 0 (enact handing).1 ∧
    ShortWaits 0 (enact handing).1 ∧
    (enact handing).2.kernel.mailboxes.contains 0 = true ∧
    IsDeque 0 (enact handing).1 (enact handing).2 :=
  have hr := reaches_enact (by decide +kernel)
  have hj : JoinedOnce (enact handing).1 := by decide +kernel
  have ho : OwnGates 0 (enact handing).1 := by decide +kernel
  have hw : ShortWaits 0 (enact handing).1 := by decide +kernel
  have hb : (enact handing).2.kernel.mailboxes.contains 0 = true := by decide +kernel
  ⟨hr, hj, ho, hw, hb, reaches_isDeque hr hj ho hw hb⟩

end RealtimeKernel.Execution

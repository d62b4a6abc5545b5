import RealtimeKernel.Proofs.Kernel.Balance

/-!
The operations of a mailbox, one by one, as deliveries. Whether a message was stored or taken
shows in the answer that the operation leaves for its caller.
-/
namespace RealtimeKernel

/-- What may happen to the messages of a mailbox. -/
inductive Delivery where
  | put (msg : Msg) (ahead : Bool)
  | take (msg : Msg)
  | reset
  deriving DecidableEq, Repr

/-- The messages of a mailbox after a delivery, if there was one. -/
def deliver : Option Delivery → List Msg → List Msg
  | none, l => l
  | some (.put msg ahead), l => Kernel.insertMessage msg ahead l
  | some (.take _), l => l.tail
  | some .reset, _ => []

/-- What an attempt to post came to, from what the thread has left to do. -/
def postDelivery (msg : Msg) (ahead : Bool) : List Frame → Option Delivery
  | .answer (.posted (.ok ())) :: _ => some (.put msg ahead)
  | _ => none

def fetchDelivery : List Frame → Option Delivery
  | .answer (.fetched (.ok msg)) :: _ => some (.take msg)
  | _ => none

def claimOf? (b : MailboxId) (left : List Frame) : Option (Side × UInt32) :=
  left.findSome? (Frame.claim? b)

theorem claimOf?_cons (b : MailboxId) (f : Frame) (left : List Frame) :
    claimOf? b (f :: left) = (f.claim? b).or (claimOf? b left) := by
  rw [claimOf?, List.findSome?_cons]
  cases f.claim? b <;> rfl

theorem claimOf?_append (b : MailboxId) (left rest : List Frame) :
    claimOf? b (left ++ rest) = (claimOf? b left).or (claimOf? b rest) := List.findSome?_append

namespace Kernel

variable {k k' k₁ : Kernel} {b : MailboxId} {C : Claims} {l : List Msg} {d : Option Delivery}
  {left rest : List Frame} {msg : Msg} {ahead : Bool} {r : WakeupResult} {epoch : UInt32}
  {step : Step} {timeout : Timeout} {touched : Object → Prop} {a : Answer}

/-- The running thread does this to a mailbox, and `left` is all that it has left to do. -/
structure Delivers (b : MailboxId) (C : Claims) (l : List Msg) (d : Option Delivery) (k k' : Kernel)
    (left : List Frame) : Prop where
  balanced : Balanced k' b (Function.update C k.current (claimOf? b left)) (deliver d l) none
  front : ∀ msg, d = some (.take msg) → l.head? = some msg
  same : d = none → k'.mailbox b = k.mailbox b
  epoch : (k'.mailbox b).epoch = (k.mailbox b).epoch + if d = some .reset then 1 else 0
  /-- A wait has just begun, or goes on. -/
  pending : ∀ side e, claimOf? b left = some (side, e) →
    C k.current = some (side, e) ∨ e = (k.mailbox b).epoch
  shape : claimOf? b left ≠ none → ∃ f, left = [f] ∨ left = [.awake, f]

theorem Delivers.of_answer (h : Balanced k' b C (deliver d l) none) (idle : C k.current = none)
    (front : ∀ msg, d = some (.take msg) → l.head? = some msg)
    (same : d = none → k'.mailbox b = k.mailbox b)
    (epoch : (k'.mailbox b).epoch = (k.mailbox b).epoch + if d = some .reset then 1 else 0)
    (plain : claimOf? b left = none) : Delivers b C l d k k' left := by
  refine ⟨?_, front, same, epoch, ?_, fun hclaim => absurd plain hclaim⟩
  · rw [plain, ← idle, Function.update_eq_self]
    exact h
  · intro side e hclaim
    rw [plain] at hclaim
    cases hclaim

/-- Nothing is delivered. -/
theorem Delivers.of_same (h : Balanced k' b C l none) (idle : C k.current = none)
    (same : k'.mailbox b = k.mailbox b) (plain : claimOf? b left = none) :
    Delivers b C l none k k' left := by
  refine .of_answer h idle nofun (fun _ => same) ?_ plain
  rw [same, if_neg nofun]
  exact (UInt32.add_zero _).symm

theorem Delivers.append (h : Delivers b C l d k k' left) (plain : claimOf? b left = none)
    (hrest : claimOf? b rest = none) : Delivers b C l d k k' (left ++ rest) := by
  have hnone : claimOf? b (left ++ rest) = none := by
    rw [claimOf?_append, plain, hrest]
    rfl
  refine ⟨?_, h.front, h.same, h.epoch, ?_, fun hclaim => absurd hnone hclaim⟩
  · rw [hnone, ← plain]
    exact h.balanced
  · intro side e hclaim
    rw [hnone] at hclaim
    cases hclaim

/-- The claim with which the running thread goes on is gone afterwards. -/
theorem Delivers.of_update (h : Delivers b (Function.update C k.current none) l d k k' left) :
    Delivers b C l d k k' left := by
  refine ⟨?_, h.front, h.same, h.epoch, ?_, h.shape⟩
  · have hbalanced := h.balanced
    rw [Function.update_idem] at hbalanced
    exact hbalanced
  · intro side e hclaim
    rcases h.pending side e hclaim with hold | hnew
    · rw [Function.update_self] at hold
      cases hold
    · exact Or.inr hnew

theorem Delivers.preempt (h : Delivers b C l d k k₁ left) (hk₁ : k₁.Sound)
    (hin : k₁.mailboxes.contains b = true) (hcurrent : k₁.current = k.current)
    (plain : claimOf? b left = none) (hp : k₁.preempt = .ok k') : Delivers b C l d k k' left := by
  have hdoes : Does (fun _ => False) k₁ k' := preempt_does hk₁.inPlace hp
  have hleaves : LeavesBox b k₁ k' := hdoes.leavesBox hk₁ hin fun _ _ => id
  refine ⟨?_, h.front, ?_, ?_, h.pending, h.shape⟩
  · refine h.balanced.leaves (hdoes.inPlace hk₁.inPlace) hleaves ?_
    rw [hcurrent, Function.update_self]
    exact plain
  · intro hd
    exact hleaves.mailbox.trans (h.same hd)
  · rw [hleaves.mailbox]
    exact h.epoch

theorem signal_mailbox {s : SemaphoreId} (hk : k.Sound) (h : k.signal s = .ok k') :
    k'.mailbox b = k.mailbox b := by
  have heffect : Effect (· = .semaphore s) k k' := signal_effect hk rfl h
  exact (heffect.mailbox_eq nofun).1

/-- A producer with a unit in hand stores its message and passes a unit on. -/
theorem put_delivers (hk : k.Sound) (hin : k.mailboxes.contains b = true)
    (idle : C k.current = none) (h : Balanced k b C l (some .producer))
    (hs : (k.putMessage b msg ahead).signal (k.mailbox b).full = .ok k') :
    k'.Sound ∧ k'.mailboxes.contains b = true ∧ k'.current = k.current ∧
      Delivers b C l (some (.put msg ahead)) k k' [.answer (.posted (.ok ()))] := by
  have hput : Effect (fun _ => True) k (k.putMessage b msg ahead) :=
    .write _ (k.mailbox b).epoch trivial
  have hk₁ := hput.sound hk
  have hsignal : Effect (fun _ => True) _ k' := signal_effect hk₁ trivial hs
  have hgate : ((k.putMessage b msg ahead).mailbox b).gate .consumer = (k.mailbox b).full := by
    rw [mailbox_putMessage]
    rfl
  rw [← hgate] at hs
  have hin₁ := hput.grows.mailboxes b hin
  refine ⟨hsignal.sound hk₁, hsignal.grows.mailboxes b hin₁, hsignal.current, ?_⟩
  refine .of_answer ((h.putMessage msg ahead).signal hk₁ hin₁ hs) idle nofun nofun ?_ rfl
  rw [signal_mailbox hk₁ hs, mailbox_putMessage]
  exact (UInt32.add_zero _).symm

/-- A consumer with a unit in hand takes the first message and passes a unit on. -/
theorem take_delivers (hk : k.Sound) (hin : k.mailboxes.contains b = true)
    (idle : C k.current = none) (h : Balanced k b C l (some .consumer))
    (hs : (k.takeMessage b).2.signal (k.mailbox b).empty = .ok k') :
    k'.Sound ∧ k'.mailboxes.contains b = true ∧ k'.current = k.current ∧
      Delivers b C l (some (.take (k.takeMessage b).1)) k k'
        [.answer (.fetched (.ok (k.takeMessage b).1))] := by
  have htake : Effect (fun _ => True) k (k.takeMessage b).2 :=
    .write _ (k.mailbox b).epoch trivial
  have hk₁ := htake.sound hk
  have hsignal : Effect (fun _ => True) _ k' := signal_effect hk₁ trivial hs
  have hgate : ((k.takeMessage b).2.mailbox b).gate .producer = (k.mailbox b).empty := by
    rw [mailbox_takeMessage]
    rfl
  rw [← hgate] at hs
  have hin₁ := htake.grows.mailboxes b hin
  obtain ⟨hfront, hbalanced⟩ := h.takeMessage
  refine ⟨hsignal.sound hk₁, hsignal.grows.mailboxes b hin₁, hsignal.current, ?_⟩
  refine .of_answer (hbalanced.signal hk₁ hin₁ hs) idle ?_ nofun ?_ rfl
  · intro msg hmsg
    rw [hfront, List.head?_cons]
    cases hmsg
    rfl
  · rw [signal_mailbox hk₁ hs, mailbox_takeMessage]
    exact (UInt32.add_zero _).symm

theorem storeAfter_delivers (hk : k.Sound) (hin : k.mailboxes.contains b = true)
    (idle : C k.current = none)
    (h : Balanced k b C l (if k.admission b epoch r = .ok () then some .producer else none))
    (hs : storeAfter b epoch msg ahead r k = .ok step) :
    Delivers b C l (postDelivery msg ahead step.2) k step.1 step.2 ∧
      claimOf? b step.2 = none := by
  rcases storeAfter_ok hs with ⟨e, hadmission, rfl⟩ | ⟨k₁, k', hadmission, hsignal, hpreempt, rfl⟩
  · rw [if_neg (by rw [hadmission]; exact nofun)] at h
    exact ⟨.of_same h idle rfl rfl, rfl⟩
  · rw [if_pos hadmission] at h
    obtain ⟨hk₁, hin₁, hcurrent, hdelivers⟩ := put_delivers hk hin idle h hsignal
    exact ⟨hdelivers.preempt hk₁ hin₁ hcurrent rfl hpreempt, rfl⟩

theorem fetchAfter_delivers (hk : k.Sound) (hin : k.mailboxes.contains b = true)
    (idle : C k.current = none)
    (h : Balanced k b C l (if k.admission b epoch r = .ok () then some .consumer else none))
    (hs : fetchAfter b epoch r k = .ok step) :
    Delivers b C l (fetchDelivery step.2) k step.1 step.2 ∧ claimOf? b step.2 = none := by
  rcases fetchAfter_ok hs with ⟨e, hadmission, rfl⟩ | ⟨k₁, k', hadmission, hsignal, hpreempt, rfl⟩
  · rw [if_neg (by rw [hadmission]; exact nofun)] at h
    exact ⟨.of_same h idle rfl rfl, rfl⟩
  · rw [if_pos hadmission] at h
    obtain ⟨hk₁, hin₁, hcurrent, hdelivers⟩ := take_delivers hk hin idle h hsignal
    exact ⟨hdelivers.preempt hk₁ hin₁ hcurrent rfl hpreempt, rfl⟩

/-- The mailbox is as it was when the wait began. -/
theorem Delivers.from (h : Delivers b C l d k₁ k' left) (hcurrent : k₁.current = k.current)
    (hmailbox : k₁.mailbox b = k.mailbox b) : Delivers b C l d k k' left := by
  refine ⟨?_, h.front, ?_, ?_, ?_, h.shape⟩
  · rw [← hcurrent]
    exact h.balanced
  · rw [← hmailbox]
    exact h.same
  · rw [← hmailbox]
    exact h.epoch
  · rw [← hmailbox, ← hcurrent]
    exact h.pending

/-- A wait at a mailbox: it ends at once, with a unit in hand or without one, or it begins. -/
theorem Balanced.wait {side : Side} {w : Wait} {later : Frame} (h : Balanced k b C l none)
    (hk : k.Sound) (hin : k.mailboxes.contains b = true) (idle : C k.current = none)
    (hlater : later.claim? b = some (side, (k.mailbox b).epoch))
    (hw : k.waitUnit ((k.mailbox b).gate side) timeout .waitingMailbox = .ok w) :
    (∃ r k₁, w = .over r k₁ ∧ k₁.Sound ∧ k₁.mailboxes = k.mailboxes ∧ k₁.current = k.current ∧
      Balanced k₁ b C l
        (if k₁.admission b (k.mailbox b).epoch r = .ok () then some side else none)) ∨
    ∃ checks k₁, w = .blocked checks k₁ ∧ (checks = [] ∨ checks = [.awake]) ∧
      Delivers b C l none k k₁ (checks ++ [later]) := by
  rcases waitUnit_ok hk.inPlace (Or.inr rfl) hw with
    ⟨hpos, rfl⟩ | ⟨-, -, rfl⟩ | ⟨hcount, -, checks, k₁, rfl, hchecks, hblocks⟩
  · have hrecount : Effect (fun _ => True) k (k.setSemaphoreCount ((k.mailbox b).gate side)
        (k.semaphoreCount ((k.mailbox b).gate side) - 1)) :=
      .recount trivial (by omega) (by omega)
    have hadmission : (k.setSemaphoreCount ((k.mailbox b).gate side)
        (k.semaphoreCount ((k.mailbox b).gate side) - 1)).admission b (k.mailbox b).epoch .ok =
          .ok () := admission_eq_ok.mpr ⟨rfl, rfl⟩
    refine Or.inl ⟨_, _, rfl, hrecount.sound hk, rfl, rfl, ?_⟩
    rw [if_pos hadmission]
    exact h.take hk.boxed hin hpos
  · have hadmission : k.admission b (k.mailbox b).epoch .timeout ≠ .ok () := by
      simp [admission, WakeupResult.toExcept]
    refine Or.inl ⟨_, _, rfl, hk, rfl, rfl, ?_⟩
    rw [if_neg hadmission]
    exact h
  · have hclaim : claimOf? b (checks ++ [later]) = some (side, (k.mailbox b).epoch) := by
      rw [claimOf?_append, claimOf?_cons, hlater]
      rcases hchecks with rfl | rfl <;> rfl
    have hswitch : Switch (fun _ => True) k k₁ :=
      .awaitUnit trivial (hk.boxed.gate_contains hin side) hcount (Or.inr rfl) hblocks
    have hmailbox : k₁.mailbox b = k.mailbox b := by
      simp only [mailbox, hswitch.grows_mailboxes.2]
    refine Or.inr ⟨checks, k₁, rfl, hchecks, ?_, by simp, fun _ => hmailbox, ?_, ?_, ?_⟩
    · refine h.block hk hin hcount idle hblocks ?_ ?_
      · rw [Function.update_self, hclaim]
      · intro u hu
        rw [Function.update_of_ne hu]
    · rw [hmailbox]
      exact (UInt32.add_zero _).symm
    · intro side' e he
      rw [hclaim] at he
      exact Or.inr (Prod.mk.inj (Option.some.inj he)).2.symm
    · intro _
      refine ⟨later, ?_⟩
      rcases hchecks with rfl | rfl
      · exact Or.inl rfl
      · exact Or.inr rfl

theorem post_delivers (hk : k.Sound) (hin : k.mailboxes.contains b = true)
    (idle : C k.current = none) (h : Balanced k b C l none)
    (hs : k.post b msg ahead timeout = .ok step) :
    Delivers b C l (postDelivery msg ahead step.2) k step.1 step.2 := by
  obtain ⟨w, hwait, hs⟩ := post_ok hs
  have hlater : (Frame.store b (k.mailbox b).epoch msg ahead).claim? b =
      some (.producer, (k.mailbox b).epoch) := if_pos rfl
  rcases h.wait hk hin idle hlater hwait with
    ⟨r, k₁, rfl, hk₁, hmailboxes, hcurrent, hbalanced⟩ | ⟨checks, k₁, rfl, hchecks, hdelivers⟩
  · rw [← hcurrent] at idle
    rw [← hmailboxes] at hin
    have hmailbox : k₁.mailbox b = k.mailbox b := by simp only [mailbox, hmailboxes]
    exact (storeAfter_delivers hk₁ hin idle hbalanced hs).1.from hcurrent hmailbox
  · obtain rfl := Except.ok.inj hs
    rcases hchecks with rfl | rfl <;> exact hdelivers

theorem fetch_delivers (hk : k.Sound) (hin : k.mailboxes.contains b = true)
    (idle : C k.current = none) (h : Balanced k b C l none) (hs : k.fetch b timeout = .ok step) :
    Delivers b C l (fetchDelivery step.2) k step.1 step.2 := by
  obtain ⟨w, hwait, hs⟩ := fetch_ok hs
  have hlater : (Frame.fetch b (k.mailbox b).epoch).claim? b =
      some (.consumer, (k.mailbox b).epoch) := if_pos rfl
  rcases h.wait hk hin idle hlater hwait with
    ⟨r, k₁, rfl, hk₁, hmailboxes, hcurrent, hbalanced⟩ | ⟨checks, k₁, rfl, hchecks, hdelivers⟩
  · rw [← hcurrent] at idle
    rw [← hmailboxes] at hin
    have hmailbox : k₁.mailbox b = k.mailbox b := by simp only [mailbox, hmailboxes]
    exact (fetchAfter_delivers hk₁ hin idle hbalanced hs).1.from hcurrent hmailbox
  · obtain rfl := Except.ok.inj hs
    rcases hchecks with rfl | rfl <;> exact hdelivers

/-- Taking a unit that is there. -/
theorem Balanced.takeUnit {side : Side} (h : Balanced k b C l none) (hk : k.Sound)
    (hin : k.mailboxes.contains b = true)
    (ht : k.takeUnit? ((k.mailbox b).gate side) = some k₁) :
    k₁.Sound ∧ k₁.mailboxes = k.mailboxes ∧ k₁.current = k.current ∧
      Balanced k₁ b C l (some side) := by
  have heffect : Effect (fun _ => True) k k₁ := takeUnit_effect trivial ht
  obtain ⟨hpos, hset⟩ := takeUnit_ok ht
  rw [hset] at heffect ⊢
  exact ⟨heffect.sound hk, rfl, rfl, h.take hk.boxed hin hpos⟩

theorem postNow_delivers (hk : k.Sound) (hin : k.mailboxes.contains b = true)
    (idle : C k.current = none) (h : Balanced k b C l none) {e : Except WaitError Unit}
    (hs : k.postNow b msg ahead = .ok (e, k')) :
    Delivers b C l (postDelivery msg ahead [.answer (.posted e)]) k k' [.answer (.posted e)] := by
  rcases postNow_ok hs with ⟨rfl, -, rfl⟩ | ⟨k₁, rfl, htake, hsignal⟩
  · exact .of_same h idle rfl rfl
  · have htake : k.takeUnit? ((k.mailbox b).gate .producer) = some k₁ := htake
    obtain ⟨hk₁, hmailboxes, hcurrent, hbalanced⟩ := h.takeUnit hk hin htake
    have hmailbox : k₁.mailbox b = k.mailbox b := by simp only [mailbox, hmailboxes]
    rw [← hcurrent] at idle
    rw [← hmailboxes] at hin
    rw [← hmailbox] at hsignal
    obtain ⟨-, -, -, hdelivers⟩ := put_delivers hk₁ hin idle hbalanced hsignal
    exact hdelivers.from hcurrent hmailbox

theorem fetchNow_delivers (hk : k.Sound) (hin : k.mailboxes.contains b = true)
    (idle : C k.current = none) (h : Balanced k b C l none) {e : Except WaitError Msg}
    (hs : k.fetchNow b = .ok (e, k')) :
    Delivers b C l (fetchDelivery [.answer (.fetched e)]) k k' [.answer (.fetched e)] := by
  rcases fetchNow_ok hs with ⟨rfl, -, rfl⟩ | ⟨k₁, rfl, htake, hsignal⟩
  · exact .of_same h idle rfl rfl
  · have htake : k.takeUnit? ((k.mailbox b).gate .consumer) = some k₁ := htake
    obtain ⟨hk₁, hmailboxes, hcurrent, hbalanced⟩ := h.takeUnit hk hin htake
    have hmailbox : k₁.mailbox b = k.mailbox b := by simp only [mailbox, hmailboxes]
    rw [← hcurrent] at idle
    rw [← hmailboxes] at hin
    rw [← hmailbox] at hsignal
    obtain ⟨-, -, -, hdelivers⟩ := take_delivers hk₁ hin idle hbalanced hsignal
    exact hdelivers.from hcurrent hmailbox

theorem resetMailbox_delivers (hk : k.Sound) (hin : k.mailboxes.contains b = true)
    (idle : C k.current = none) (h : Balanced k b C l none)
    (old : ∀ u side, C u ≠ some (side, (k.mailbox b).epoch + 1))
    (hr : k.resetMailbox b = .ok k') : Delivers b C l (some .reset) k k' [.answer a] := by
  obtain ⟨hbalanced, hepoch⟩ := h.reset hk hin old hr
  exact .of_answer hbalanced idle nofun nofun hepoch rfl

end Kernel

end RealtimeKernel

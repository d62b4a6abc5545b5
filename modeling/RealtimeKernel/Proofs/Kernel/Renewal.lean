import RealtimeKernel.Proofs.Kernel.Carries
import RealtimeKernel.Proofs.Kernel.Delivery

/-!
Two kernels that differ in one mailbox, which is some resets younger in the second one. As long
as the same messages are in both rings an operation does the same to both. The rings themselves
may differ: in cells that are not in use, and in where the cursors stand.
-/
namespace RealtimeKernel

variable {α : Type} {b b' : MailboxId} {n : UInt32} {l l₁ : List Msg} {p p' : Boxes}
  {box box' box₁ box₁' : Mailbox} {msg : Msg} {ahead : Bool}

/-- The same mailbox with `n` resets less, and with these messages in a ring of its own. -/
structure Mailbox.Younger (n : UInt32) (l : List Msg) (box box' : Mailbox) : Prop where
  holds : box.ring.Holds l
  other : ∃ ring : Ring Msg box.capacity, ring.Holds l ∧
    box' = { box with ring, epoch := box.epoch - n }

/-- All mailboxes are the same, but for one that is younger. -/
def Renewed (b : MailboxId) (n : UInt32) (l : List Msg) (p p' : Boxes) : Prop :=
  ∃ box', (p.get b).Younger n l box' ∧ p' = p.set b box'

namespace Mailbox.Younger

theorem capacity (h : box.Younger n l box') : box'.capacity = box.capacity := by
  obtain ⟨ring, -, rfl⟩ := h.other
  rfl

theorem gate (h : box.Younger n l box') (side : Side) : box'.gate side = box.gate side := by
  obtain ⟨ring, -, rfl⟩ := h.other
  cases side <;> rfl

theorem epoch (h : box.Younger n l box') : box'.epoch = box.epoch - n := by
  obtain ⟨ring, -, rfl⟩ := h.other
  rfl

theorem put (h : box.Younger n l box') (room : l.length < box.capacity) (msg : Msg)
    (ahead : Bool) : Younger n (Kernel.insertMessage msg ahead l)
      { box with ring := if ahead then box.ring.pushFront msg else box.ring.pushBack msg }
      { box' with ring := if ahead then box'.ring.pushFront msg else box'.ring.pushBack msg } := by
  obtain ⟨ring, hring, rfl⟩ := h.other
  cases ahead with
  | true => exact ⟨h.holds.pushFront room msg, _, hring.pushFront room msg, rfl⟩
  | false => exact ⟨h.holds.pushBack room msg, _, hring.pushBack room msg, rfl⟩

/-- The first message is the same in both. -/
theorem take (h : box.Younger n (msg :: l) box') :
    box'.ring.popFront.1 = box.ring.popFront.1 ∧
      Younger n l { box with ring := box.ring.popFront.2 }
        { box' with ring := box'.ring.popFront.2 } := by
  obtain ⟨ring, hring, rfl⟩ := h.other
  obtain ⟨hfirst, hrest⟩ := h.holds.popFront
  obtain ⟨hfirst', hrest'⟩ := hring.popFront
  exact ⟨hfirst'.trans hfirst.symm, hrest, _, hrest', rfl⟩

theorem reset (h : box.Younger n l box') :
    Younger n [] { box with ring := box.ring.rewind, epoch := box.epoch + 1 }
      { box' with ring := box'.ring.rewind, epoch := box'.epoch + 1 } := by
  obtain ⟨ring, -, rfl⟩ := h.other
  refine ⟨Ring.holds_rewind _, _, Ring.holds_rewind ring, ?_⟩
  have hepoch : box.epoch - n + 1 = box.epoch + 1 - n := by
    rw [UInt32.sub_eq_add_neg, UInt32.sub_eq_add_neg, UInt32.add_assoc, UInt32.add_comm (-n),
      UInt32.add_assoc]
  rw [← hepoch]

end Mailbox.Younger

theorem Pool.set_set {m : Nat} (p : Pool m α) (i : Fin m) (a a' : α) :
    (p.set i a).set i a' = p.set i a' := by
  simp [Pool.set, Vector.set_set]

theorem Pool.set_comm {m : Nat} (p : Pool m α) {i j : Fin m} (h : i ≠ j) (a a' : α) :
    (p.set i a).set j a' = (p.set j a').set i a := by
  simp [Pool.set, Vector.set_comm _ _ (Fin.val_ne_of_ne h)]

namespace Renewed

theorem get (h : Renewed b n l p p') : (p.get b).Younger n l (p'.get b) := by
  obtain ⟨box', hyounger, rfl⟩ := h
  rw [Pool.get_set, if_pos rfl]
  exact hyounger

theorem get_of_ne (h : Renewed b n l p p') (hb : b' ≠ b) : p'.get b' = p.get b' := by
  obtain ⟨box', -, rfl⟩ := h
  rw [Pool.get_set, if_neg hb]

theorem capacity (h : Renewed b n l p p') (b' : MailboxId) :
    (p'.get b').capacity = (p.get b').capacity := by
  by_cases hb : b' = b
  · rw [hb, h.get.capacity]
  · rw [h.get_of_ne hb]

theorem gate (h : Renewed b n l p p') (b' : MailboxId) (side : Side) :
    (p'.get b').gate side = (p.get b').gate side := by
  by_cases hb : b' = b
  · rw [hb, h.get.gate]
  · rw [h.get_of_ne hb]

theorem epoch (h : Renewed b n l p p') (b' : MailboxId) : (p'.get b').epoch =
    if b' = b then (p.get b').epoch - n else (p.get b').epoch := by
  split
  · rename_i hb
    rw [hb, h.get.epoch]
  · rename_i hb
    rw [h.get_of_ne hb]

theorem used (h : Renewed b n l p p') : p'.used = p.used := by
  obtain ⟨box', -, rfl⟩ := h
  rfl

theorem contains (h : Renewed b n l p p') (b' : MailboxId) :
    p'.contains b' = p.contains b' := by
  unfold Pool.contains
  rw [h.used]

/-- The same is done to a mailbox in both. -/
theorem update (h : Renewed b n l p p') (b' : MailboxId) (f : Mailbox → Mailbox)
    (hf : b' = b → (f (p.get b)).Younger n l₁ (f (p'.get b))) :
    Renewed b n (if b' = b then l₁ else l) (p.set b' (f (p.get b')))
      (p'.set b' (f (p'.get b'))) := by
  by_cases hb : b' = b
  · subst hb
    refine ⟨f (p'.get b'), ?_, ?_⟩
    · rw [if_pos rfl, Pool.get_set, if_pos rfl]
      exact hf rfl
    · obtain ⟨box', -, rfl⟩ := h
      rw [Pool.set_set, Pool.set_set]
  · rw [h.get_of_ne hb, if_neg hb]
    obtain ⟨box', hyounger, rfl⟩ := h
    refine ⟨box', ?_, Pool.set_comm p (Ne.symm hb) box' _⟩
    rw [Pool.get_set, if_neg (Ne.symm hb)]
    exact hyounger

/-- A new mailbox has the same place in both. -/
theorem push (h : Renewed b n l p p') (hin : p.contains b = true) (box : Mailbox) :
    (p.push? box = none ∧ p'.push? box = none) ∨
      ∃ i q q', p.push? box = some (i, q) ∧ p'.push? box = some (i, q') ∧ Renewed b n l q q' := by
  obtain ⟨box', hyounger, rfl⟩ := h
  have hlt := Pool.contains_iff.mp hin
  by_cases hroom : p.used < maxMailboxes
  · have hne : b ≠ ⟨p.used, hroom⟩ := Fin.ne_of_val_ne (Nat.ne_of_lt hlt)
    refine Or.inr ⟨_, _, _, dif_pos hroom, dif_pos hroom, box', ?_, ?_⟩
    · rw [Pool.get_push (dif_pos hroom), if_neg hne]
      exact hyounger
    · simp [Pool.set, Vector.set_comm _ _ (Fin.val_ne_of_ne hne)]
  · exact Or.inl ⟨dif_neg hroom, dif_neg hroom⟩

end Renewed

/-- Nothing differs but for one mailbox, which is younger in the second kernel. -/
def Kernel.Alike (b : MailboxId) (n : UInt32) (l : List Msg) (k k' : Kernel) : Prop :=
  ∃ p, Renewed b n l k.mailboxes p ∧ k' = k.withMailboxes p

/-- What is left to do says which messages there are. -/
def Step.Alike (b : MailboxId) (n : UInt32) (l : List Frame → List Msg) (s s' : Step) : Prop :=
  s.1.Alike b n (l s.2) s'.1 ∧ s'.2 = s.2.map (Frame.backdate b n)

namespace Kernel

variable {k k' k₁ k₁' : Kernel} {s : SemaphoreId} {e : UInt32} {r : WakeupResult}
  {timeout : Timeout} {left : List Frame → List Msg}

/-- Whatever carries other mailboxes along leaves its own as they are. -/
theorem keeps_of_carries {f : Boxes → α → α} {g : Kernel → Outcome α}
    (hg : ∀ p, Carries (f p) (g k) (g (k.withMailboxes p))) {a : α} (ha : g k = .ok a) :
    a = f k.mailboxes a := by
  have hown : Carries (f k.mailboxes) (g k) (g k) := hg k.mailboxes
  rw [ha] at hown
  cases hown with
  | ok h => exact h

theorem mailboxes_of_carries {g : Kernel → Outcome Kernel}
    (hg : ∀ p, Carries (withMailboxes p) (g k) (g (k.withMailboxes p))) (hk₁ : g k = .ok k₁) :
    k₁.mailboxes = k.mailboxes := by
  rw [keeps_of_carries (f := withMailboxes) hg hk₁]
  rfl

namespace Alike

theorem gate (h : k.Alike b n l k') (b' : MailboxId) (side : Side) :
    (k'.mailbox b').gate side = (k.mailbox b').gate side := by
  obtain ⟨p, hp, rfl⟩ := h
  exact hp.gate b' side

theorem epoch (h : k.Alike b n l k') (b' : MailboxId) : (k'.mailbox b').epoch =
    if b' = b then (k.mailbox b').epoch - n else (k.mailbox b').epoch := by
  obtain ⟨p, hp, rfl⟩ := h
  exact hp.epoch b'

theorem capacity (h : k.Alike b n l k') (b' : MailboxId) :
    (k'.mailbox b').capacity = (k.mailbox b').capacity := by
  obtain ⟨p, hp, rfl⟩ := h
  exact hp.capacity b'

/-! Operations that never look at a mailbox. -/

theorem carry (h : k.Alike b n l k') {g : Kernel → Outcome Kernel}
    (hg : ∀ p, Carries (withMailboxes p) (g k) (g (k.withMailboxes p))) :
    Pairs (Kernel.Alike b n l) (g k) (g k') := by
  obtain ⟨p, hp, rfl⟩ := h
  refine (hg p).mono ?_
  rintro a _ ha rfl
  exact ⟨p, mailboxes_of_carries hg ha ▸ hp, rfl⟩

/-! The ring. -/

theorem put (h : k.Alike b n l k') (room : b' = b → l.length < (k.mailbox b').capacity)
    (msg : Msg) (ahead : Bool) : (k.putMessage b' msg ahead).Alike b n
      (if b' = b then insertMessage msg ahead l else l) (k'.putMessage b' msg ahead) := by
  obtain ⟨p, hp, rfl⟩ := h
  refine ⟨_, hp.update b' (fun box => { box with
    ring := if ahead then box.ring.pushFront msg else box.ring.pushBack msg }) ?_, rfl⟩
  rintro rfl
  exact hp.get.put (room rfl) msg ahead

theorem take (h : k.Alike b n l k') (pending : b' = b → l ≠ []) :
    (k'.takeMessage b').1 = (k.takeMessage b').1 ∧
      (k.takeMessage b').2.Alike b n (if b' = b then l.tail else l) (k'.takeMessage b').2 := by
  obtain ⟨p, hp, rfl⟩ := h
  have htake : b' = b → (p.get b).ring.popFront.1 = (k.mailboxes.get b).ring.popFront.1 ∧
      Mailbox.Younger n l.tail
        { k.mailboxes.get b with ring := (k.mailboxes.get b).ring.popFront.2 }
        { p.get b with ring := (p.get b).ring.popFront.2 } := by
    intro hb
    obtain ⟨msg, l', rfl⟩ := List.exists_cons_of_ne_nil (pending hb)
    exact hp.get.take
  refine ⟨?_, _, hp.update b' (fun box => { box with ring := box.ring.popFront.2 })
    fun hb => (htake hb).2, rfl⟩
  by_cases hb : b' = b
  · subst hb
    exact (htake rfl).1
  · exact congrArg (fun box : Mailbox => box.ring.popFront.1) (hp.get_of_ne hb)

theorem rewind (h : k.Alike b n l k') (b' : MailboxId) :
    (k.setMailbox b' { k.mailbox b' with
        ring := (k.mailbox b').ring.rewind, epoch := (k.mailbox b').epoch + 1 }).Alike b n
      (if b' = b then [] else l) (k'.setMailbox b' { k'.mailbox b' with
        ring := (k'.mailbox b').ring.rewind, epoch := (k'.mailbox b').epoch + 1 }) := by
  obtain ⟨p, hp, rfl⟩ := h
  exact ⟨_, hp.update b' (fun box => { box with
    ring := box.ring.rewind, epoch := box.epoch + 1 }) fun _ => hp.get.reset, rfl⟩

/-! Operations on mailboxes. -/

/-- A wait is told from the mailbox's epoch in the same way. -/
theorem admission (h : k.Alike b n l k') :
    k'.admission b' (if b' = b then e - n else e) r = k.admission b' e r := by
  unfold Kernel.admission
  rw [h.epoch]
  congr 1
  funext _
  refine if_congr ?_ rfl rfl
  split
  · exact UInt32.sub_left_inj n
  · exact Iff.rfl

theorem signal (h : k.Alike b n l k') (s : SemaphoreId) :
    Pairs (Kernel.Alike b n l) (k.signal s) (k'.signal s) :=
  h.carry (g := (·.signal s)) fun _ => signal_carries

theorem preempt (h : k.Alike b n l k') : Pairs (Kernel.Alike b n l) k.preempt k'.preempt :=
  h.carry (g := (·.preempt)) fun _ => preempt_carries

theorem storeAfter (h : k.Alike b n l k')
    (room : b' = b → k.admission b' e r = .ok () → l.length < (k.mailbox b').capacity) :
    Pairs (Step.Alike b n fun left => if b' = b then deliver (postDelivery msg ahead left) l else l)
      (storeAfter b' e msg ahead r k)
      (storeAfter b' (if b' = b then e - n else e) msg ahead r k') := by
  unfold Kernel.storeAfter
  rw [h.admission]
  cases hadmission : k.admission b' e r with
  | error err =>
      refine .ok ⟨?_, rfl⟩
      change k.Alike b n (if b' = b then l else l) k'
      rw [ite_self]
      exact h
  | ok u =>
      have hput := h.put (fun hb => room hb hadmission) msg ahead
      have hfull : (k'.mailbox b').full = (k.mailbox b').full := h.gate b' .consumer
      dsimp only
      rw [hfull]
      refine (hput.signal _).bind fun k₁ k₁' _ h₁ => h₁.preempt.bind fun k₂ k₂' _ h₂ => ?_
      exact .ok ⟨h₂, rfl⟩

theorem fetchAfter (h : k.Alike b n l k')
    (pending : b' = b → k.admission b' e r = .ok () → l ≠ []) :
    Pairs (Step.Alike b n fun left => if b' = b then deliver (fetchDelivery left) l else l)
      (fetchAfter b' e r k) (fetchAfter b' (if b' = b then e - n else e) r k') := by
  unfold Kernel.fetchAfter
  rw [h.admission]
  cases hadmission : k.admission b' e r with
  | error err =>
      refine .ok ⟨?_, rfl⟩
      change k.Alike b n (if b' = b then l else l) k'
      rw [ite_self]
      exact h
  | ok u =>
      obtain ⟨hfirst, htake⟩ := h.take fun hb => pending hb hadmission
      have hempty : ((k'.takeMessage b').2.mailbox b').empty =
        ((k.takeMessage b').2.mailbox b').empty := htake.gate b' .producer
      dsimp only
      rw [hfirst, hempty]
      refine (htake.signal _).bind fun k₁ k₁' _ h₁ => h₁.preempt.bind fun k₂ k₂' _ h₂ => ?_
      exact .ok ⟨h₂, rfl⟩

/-- What is done after a wait for a unit, at once or later. -/
theorem thenDo (h : k.Alike b n l k') (hk : k.InPlace)
    {now now' : WakeupResult → Kernel → Outcome Step} {later : Frame}
    (hnow : ∀ r k₁ k₁', k₁.Alike b n l k₁' → k₁.mailboxes = k.mailboxes →
      (r = .ok → 0 < k.semaphoreCount s) → Pairs (Step.Alike b n left) (now r k₁) (now' r k₁'))
    (hlater : ∀ checks, checks = [] ∨ checks = [.awake] → left (checks ++ [later]) = l) :
    Pairs (Step.Alike b n left)
      (k.waitUnit s timeout .waitingMailbox >>= fun w => w.thenDo now later)
      (k'.waitUnit s timeout .waitingMailbox >>= fun w => w.thenDo now' (later.backdate b n)) := by
  have hcarries : ∀ p, Carries (Wait.renew b n p) (k.waitUnit s timeout .waitingMailbox)
      ((k.withMailboxes p).waitUnit s timeout .waitingMailbox) := fun _ => waitUnit_carries
  obtain ⟨p, hp, rfl⟩ := h
  refine Pairs.bind (hcarries p) ?_
  rintro wait _ hwait rfl
  have hkeeps := keeps_of_carries (g := (·.waitUnit s timeout .waitingMailbox)) hcarries hwait
  rcases waitUnit_ok hk (Or.inr rfl) hwait with
    ⟨hpos, rfl⟩ | ⟨-, -, rfl⟩ | ⟨-, -, checks, k₁, rfl, hc, -⟩
  · exact hnow _ _ _ ⟨p, hp, rfl⟩ rfl fun _ => hpos
  · exact hnow _ _ _ ⟨p, hp, rfl⟩ rfl nofun
  · have hsame : k₁.mailboxes = k.mailboxes :=
      (congrArg Kernel.mailboxes (Wait.blocked.inj hkeeps).2).trans rfl
    have hframes : (checks ++ [later]).map (Frame.backdate b n) = _ := List.map_append
    refine .ok ⟨?_, hframes.symm⟩
    rw [hlater checks hc]
    exact ⟨p, hsame ▸ hp, rfl⟩

theorem post (h : k.Alike b n l k') (hk : k.InPlace)
    (room : b' = b → 0 < k.semaphoreCount (k.mailbox b').empty →
      l.length < (k.mailbox b').capacity) :
    Pairs (Step.Alike b n fun left => if b' = b then deliver (postDelivery msg ahead left) l else l)
      (k.post b' msg ahead timeout) (k'.post b' msg ahead timeout) := by
  have hempty : (k'.mailbox b').empty = (k.mailbox b').empty := h.gate b' .producer
  unfold Kernel.post
  dsimp only
  rw [hempty, h.epoch]
  refine h.thenDo hk (fun r k₁ k₁' h₁ hsame hr => h₁.storeAfter fun hb hadmission => ?_) ?_
  · have hroom := room hb (hr (admission_eq_ok.mp hadmission).1)
    simp only [Kernel.mailbox, hsame] at hroom ⊢
    exact hroom
  · rintro checks (rfl | rfl) <;> exact ite_self l

theorem fetch (h : k.Alike b n l k') (hk : k.InPlace)
    (pending : b' = b → 0 < k.semaphoreCount (k.mailbox b').full → l ≠ []) :
    Pairs (Step.Alike b n fun left => if b' = b then deliver (fetchDelivery left) l else l)
      (k.fetch b' timeout) (k'.fetch b' timeout) := by
  have hfull : (k'.mailbox b').full = (k.mailbox b').full := h.gate b' .consumer
  unfold Kernel.fetch
  dsimp only
  rw [hfull, h.epoch]
  refine h.thenDo hk (fun r k₁ k₁' h₁ hsame hr => h₁.fetchAfter fun hb hadmission => ?_) ?_
  · exact pending hb (hr (admission_eq_ok.mp hadmission).1)
  · rintro checks (rfl | rfl) <;> exact ite_self l

/-- A unit is there for both or for neither. -/
theorem takeUnit (h : k.Alike b n l k') (s : SemaphoreId) :
    (k.takeUnit? s = none ∧ k'.takeUnit? s = none) ∨ ∃ k₁ k₁', k.takeUnit? s = some k₁ ∧
      k'.takeUnit? s = some k₁' ∧ k₁.Alike b n l k₁' ∧ k₁.mailboxes = k.mailboxes ∧
        0 < k.semaphoreCount s := by
  obtain ⟨p, hp, rfl⟩ := h
  by_cases hpos : k.semaphoreCount s > 0
  · exact Or.inr ⟨_, _, if_pos hpos, if_pos hpos, ⟨p, hp, rfl⟩, rfl, hpos⟩
  · exact Or.inl ⟨if_neg hpos, if_neg hpos⟩

theorem postNow (h : k.Alike b n l k')
    (room : b' = b → 0 < k.semaphoreCount (k.mailbox b').empty →
      l.length < (k.mailbox b').capacity) :
    Pairs (fun a a' => a'.1 = a.1 ∧ a.2.Alike b n (if b' = b then
        deliver (postDelivery msg ahead [.answer (.posted a.1)]) l else l) a'.2)
      (k.postNow b' msg ahead) (k'.postNow b' msg ahead) := by
  have hempty : (k'.mailbox b').empty = (k.mailbox b').empty := h.gate b' .producer
  have hfull : (k'.mailbox b').full = (k.mailbox b').full := h.gate b' .consumer
  unfold Kernel.postNow
  dsimp only
  rw [hempty, hfull]
  rcases h.takeUnit (k.mailbox b').empty with ⟨hnone, hnone'⟩ |
    ⟨k₁, k₁', hsome, hsome', h₁, hsame, hpos⟩
  · rw [hnone, hnone']
    refine .ok ⟨rfl, ?_⟩
    change k.Alike b n (if b' = b then l else l) k'
    rw [ite_self]
    exact h
  · rw [hsome, hsome']
    have hroom : b' = b → l.length < (k₁.mailbox b').capacity := by
      intro hb
      have hroom := room hb hpos
      simp only [Kernel.mailbox, hsame] at hroom ⊢
      exact hroom
    exact ((h₁.put hroom msg ahead).signal _).bind fun k₂ k₂' _ h₂ => .ok ⟨rfl, h₂⟩

theorem fetchNow (h : k.Alike b n l k')
    (pending : b' = b → 0 < k.semaphoreCount (k.mailbox b').full → l ≠ []) :
    Pairs (fun a a' => a'.1 = a.1 ∧ a.2.Alike b n (if b' = b then
        deliver (fetchDelivery [.answer (.fetched a.1)]) l else l) a'.2)
      (k.fetchNow b') (k'.fetchNow b') := by
  have hempty : (k'.mailbox b').empty = (k.mailbox b').empty := h.gate b' .producer
  have hfull : (k'.mailbox b').full = (k.mailbox b').full := h.gate b' .consumer
  unfold Kernel.fetchNow
  dsimp only
  rw [hempty, hfull]
  rcases h.takeUnit (k.mailbox b').full with ⟨hnone, hnone'⟩ |
    ⟨k₁, k₁', hsome, hsome', h₁, hsame, hpos⟩
  · rw [hnone, hnone']
    refine .ok ⟨rfl, ?_⟩
    change k.Alike b n (if b' = b then l else l) k'
    rw [ite_self]
    exact h
  · rw [hsome, hsome']
    obtain ⟨hfirst, htake⟩ := h₁.take fun hb => pending hb hpos
    dsimp only
    rw [hfirst]
    exact (htake.signal _).bind fun k₂ k₂' _ h₂ => .ok ⟨rfl, h₂⟩

theorem resetSemaphore (h : k.Alike b n l k') {s s' : SemaphoreId} {count count' : Nat}
    (hs : s' = s) (hcount : count' = count) :
    Pairs (Kernel.Alike b n l) (k.resetSemaphore s count) (k'.resetSemaphore s' count') := by
  subst hs hcount
  exact h.carry (g := (·.resetSemaphore _ _)) fun _ => resetSemaphore_carries

theorem resetMailbox (h : k.Alike b n l k') :
    Pairs (Kernel.Alike b n (if b' = b then [] else l)) (k.resetMailbox b')
      (k'.resetMailbox b') :=
  ((h.rewind b').resetSemaphore (h.gate b' .producer) (h.capacity b')).bind fun _ _ _ h₁ =>
    h₁.resetSemaphore (h.gate b' .consumer) rfl

theorem createMailbox (h : k.Alike b n l k') (hin : k.mailboxes.contains b = true)
    (capacity : Nat) :
    Pairs (fun a a' => a'.1 = a.1 ∧ a.2.Alike b n l a'.2) (k.createMailbox capacity)
      (k'.createMailbox capacity) := by
  have hkept : ∀ {k : Kernel} {count : Nat} {made : Except KernelError SemaphoreId × Kernel},
      k.addSemaphore count = .ok made → made.2.mailboxes = k.mailboxes := fun hmade =>
    congrArg (fun made : _ × Kernel => made.2.mailboxes)
      (keeps_of_carries (g := (·.addSemaphore _)) (fun _ => addSemaphore_carries) hmade)
  obtain ⟨p, hp, rfl⟩ := h
  have hused : (k.withMailboxes p).mailboxes.used = k.mailboxes.used := hp.used
  have hfails : ∀ {k₁ : Kernel} (e : KernelError), k₁.mailboxes = k.mailboxes →
      Pairs (fun a a' : Except KernelError MailboxId × Kernel =>
        a'.1 = a.1 ∧ a.2.Alike b n l a'.2) (.ok (.error e, k₁))
        (.ok (.error e, k₁.withMailboxes p)) := fun e hsame => .ok ⟨rfl, p, hsame ▸ hp, rfl⟩
  unfold Kernel.createMailbox
  by_cases hcapacity : 0 < capacity ∧ capacity ≤ maxMessages
  · rw [dif_pos hcapacity, dif_pos hcapacity, hused]
    refine .ite (hfails _ rfl) (.ite (hfails _ rfl) ?_)
    refine Pairs.bind addSemaphore_carries ?_
    rintro ⟨made, k₁⟩ _ hmade rfl
    have hkept₁ : k₁.mailboxes = k.mailboxes := hkept hmade
    cases made with
    | error e => exact hfails e hkept₁
    | ok empty =>
        refine Pairs.bind addSemaphore_carries ?_
        rintro ⟨made, k₂⟩ _ hmade₂ rfl
        have hkept₂ : k₂.mailboxes = k.mailboxes := (hkept hmade₂).trans hkept₁
        cases made with
        | error e => exact hfails e hkept₂
        | ok full =>
            have hboxes : (k₂.withMailboxes p).mailboxes = p := rfl
            dsimp only [Prod.map, id]
            rw [hboxes, hkept₂]
            rcases hp.push hin { capacity, ring := .empty 0 hcapacity.1, empty, full } with
              ⟨hnone, hnone'⟩ | ⟨i, q, q', hsome, hsome', hq⟩
            · rw [hnone, hnone']
              exact hfails _ hkept₂
            · rw [hsome, hsome']
              exact .ok ⟨rfl, q', hq, rfl⟩
  · rw [dif_neg hcapacity, dif_neg hcapacity]
    exact hfails _ rfl

end Alike

end Kernel

end RealtimeKernel

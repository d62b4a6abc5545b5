import RealtimeKernel.Proofs.Execution.Moves
import RealtimeKernel.Proofs.Kernel.Delivery

/-!
Which moves are about a mailbox, and which ones name a semaphore. No other move touches a
mailbox that was made, or a semaphore of one.
-/
namespace RealtimeKernel

/-- What the running thread attempts at a mailbox. -/
inductive Attempt where
  | post (msg : Msg) (ahead : Bool)
  | fetch
  | reset
  deriving DecidableEq, Repr

/-- What came of an attempt, from what the thread has left to do. -/
def Attempt.delivery : Attempt → List Frame → Option Delivery
  | .post msg ahead => postDelivery msg ahead
  | .fetch => fetchDelivery
  | .reset => fun _ => some .reset

/-- The mailbox that an operation is about, and what it attempts there. -/
def Operation.attempt? : Operation → Option (MailboxId × Attempt)
  | .post b msg ahead _ => some (b, .post msg ahead)
  | .fetch b _ => some (b, .fetch)
  | .resetMailbox b => some (b, .reset)
  | _ => none

def InterruptCall.attempt? : InterruptCall → Option (MailboxId × Attempt)
  | .post b msg ahead => some (b, .post msg ahead)
  | .fetch b => some (b, .fetch)
  | .resetMailbox b => some (b, .reset)
  | _ => none

def Call.attempt? : Call → Option (MailboxId × Attempt)
  | .operation c => c.attempt?
  | _ => none

/-- Amid an operation the kernel goes on with the attempt that a frame stands for. -/
def Frame.attempt? : Frame → Option (MailboxId × Attempt)
  | .store b _ msg ahead => some (b, .post msg ahead)
  | .fetch b _ => some (b, .fetch)
  | _ => none

/-- The semaphores that are given by name. -/
def Operation.names : Operation → List SemaphoreId
  | .waitSemaphore s _ | .signal s | .resetSemaphore s _ => [s]
  | .signalAndWait s₁ s₂ => [s₁, s₂]
  | _ => []

def InterruptCall.names : InterruptCall → List SemaphoreId
  | .signal s | .resetSemaphore s _ => [s]
  | _ => []

def Call.names : Call → List SemaphoreId
  | .operation c => c.names
  | _ => []

/-- Mailboxes are made of such objects. -/
def Object.OfBox : Object → Prop
  | .mailbox _ | .semaphore _ => True
  | _ => False

variable {k : Kernel} {o : Object} {b : MailboxId} {a : Attempt}

theorem Kernel.BoxParts.ofBox (h : k.BoxParts b o) : o.OfBox := by
  rcases h with rfl | rfl | rfl <;> trivial

theorem Operation.touches_ofBox {c : Operation} (ht : c.touches k o) (ho : o.OfBox) :
    (∃ b a, c.attempt? = some (b, a) ∧ k.BoxParts b o) ∨ (∃ s ∈ c.names, o = .semaphore s) ∨
      ∃ capacity b, c = .createMailbox capacity ∧ o = .mailbox b ∧
        k.mailboxes.contains b = false := by
  cases c with
  | post b msg ahead timeout => exact Or.inl ⟨b, _, rfl, ht⟩
  | fetch b timeout => exact Or.inl ⟨b, _, rfl, ht⟩
  | resetMailbox b => exact Or.inl ⟨b, _, rfl, ht⟩
  | waitSemaphore s timeout => exact Or.inr (Or.inl ⟨s, List.mem_cons_self, ht⟩)
  | signal s => exact Or.inr (Or.inl ⟨s, List.mem_cons_self, ht⟩)
  | resetSemaphore s count => exact Or.inr (Or.inl ⟨s, List.mem_cons_self, ht⟩)
  | signalAndWait s₁ s₂ =>
      rcases ht with ht | ht
      · exact Or.inr (Or.inl ⟨s₁, List.mem_cons_self, ht⟩)
      · exact Or.inr (Or.inl ⟨s₂, List.mem_cons_of_mem _ List.mem_cons_self, ht⟩)
  | createMailbox capacity =>
      obtain ⟨b, hb, hnew⟩ := ht
      exact Or.inr (Or.inr ⟨capacity, b, rfl, hb, hnew⟩)
  | _ => cases o <;> simp [Operation.touches, Object.OfBox] at ht ho

theorem InterruptCall.touches_ofBox {c : InterruptCall} (ht : c.touches k o) (ho : o.OfBox) :
    (∃ b a, c.attempt? = some (b, a) ∧ k.BoxParts b o) ∨ ∃ s ∈ c.names, o = .semaphore s := by
  cases c with
  | post b msg ahead => exact Or.inl ⟨b, _, rfl, ht⟩
  | fetch b => exact Or.inl ⟨b, _, rfl, ht⟩
  | resetMailbox b => exact Or.inl ⟨b, _, rfl, ht⟩
  | signal s => exact Or.inr ⟨s, List.mem_cons_self, ht⟩
  | resetSemaphore s count => exact Or.inr ⟨s, List.mem_cons_self, ht⟩
  | _ => cases o <;> simp [InterruptCall.touches, Object.OfBox] at ht ho

theorem Frame.touches_ofBox {f : Frame} (ht : f.touches k o) (ho : o.OfBox) :
    ∃ b a, f.attempt? = some (b, a) ∧ k.BoxParts b o := by
  cases f with
  | store b epoch msg ahead => exact ⟨b, _, rfl, ht⟩
  | fetch b epoch => exact ⟨b, _, rfl, ht⟩
  | _ => cases o <;> simp [Frame.touches, Object.OfBox] at ht ho

theorem Operation.contains_of_attempt {c : Operation} (hin : c.handlesExist k = true)
    (ha : c.attempt? = some (b, a)) : k.mailboxes.contains b = true := by
  cases c with
  | post b' | fetch b' | resetMailbox b' =>
      obtain ⟨rfl, -⟩ := Prod.mk.inj (Option.some.inj ha)
      exact hin
  | _ => cases ha

theorem InterruptCall.contains_of_attempt {c : InterruptCall} (hin : c.handlesExist k = true)
    (ha : c.attempt? = some (b, a)) : k.mailboxes.contains b = true := by
  cases c with
  | post b' | fetch b' | resetMailbox b' =>
      obtain ⟨rfl, -⟩ := Prod.mk.inj (Option.some.inj ha)
      exact hin
  | _ => cases ha

theorem Frame.concerns_of_attempt {f : Frame} (ha : f.attempt? = some (b, a)) :
    f.Concerns (.mailbox b) := by
  cases f with
  | store b' => exact congrArg Object.mailbox (Prod.mk.inj (Option.some.inj ha)).1.symm
  | fetch b' => exact congrArg Object.mailbox (Prod.mk.inj (Option.some.inj ha)).1.symm
  | _ => cases ha

/-- A frame with a claim on a mailbox is an attempt there. -/
theorem Frame.attempt_of_claim {f : Frame} {c : Side × UInt32} (hf : f.claim? b = some c) :
    ∃ a, f.attempt? = some (b, a) := by
  unfold Frame.claim? at hf
  split at hf
  · split at hf
    · rename_i hb
      exact ⟨_, by rw [← hb]; rfl⟩
    · cases hf
  · split at hf
    · rename_i hb
      exact ⟨_, by rw [← hb]; rfl⟩
    · cases hf
  · cases hf

theorem claimOf_eq_none {l : List Frame} (h : ∀ f ∈ l, ¬ f.Concerns (.mailbox b)) :
    claimOf? b l = none := by
  rw [claimOf?, List.findSome?_eq_none_iff]
  intro f hf
  cases hc : f.claim? b with
  | none => rfl
  | some c =>
      obtain ⟨a, ha⟩ := Frame.attempt_of_claim hc
      exact absurd (Frame.concerns_of_attempt ha) (h f hf)

theorem claimOf_eq_none_of_subset {l l' : List Frame} (h : claimOf? b l = none)
    (hsub : ∀ f ∈ l', f ∈ l) : claimOf? b l' = none := by
  rw [claimOf?, List.findSome?_eq_none_iff] at h ⊢
  exact fun f hf => h f (hsub f hf)

theorem Kernel.Boxed.parts_unique {b' : MailboxId} (hb : k.Boxed)
    (hin : k.mailboxes.contains b = true) (hin' : k.mailboxes.contains b' = true)
    (ho : k.BoxParts b o) (ho' : k.BoxParts b' o) : b' = b := by
  by_contra hne
  obtain ⟨⟨hee, hef⟩, hfe, hff⟩ := hb.apart b' b hin' hin hne
  rcases ho with rfl | rfl | rfl <;> rcases ho' with h | h | h
  · exact hne (Object.mailbox.inj h).symm
  · cases h
  · cases h
  · cases h
  · exact hee (Object.semaphore.inj h).symm
  · exact hfe (Object.semaphore.inj h).symm
  · cases h
  · exact hef (Object.semaphore.inj h).symm
  · exact hff (Object.semaphore.inj h).symm

namespace Execution
open Kernel
variable {x : Execution} {m : Move}

def Move.attempt? (x : Execution) : Move → Option (MailboxId × Attempt)
  | .call c => c.attempt?
  | .interrupt c => c.attempt?
  | .advance => x.frames.head?.bind Frame.attempt?
  | _ => none

def Move.names : Move → List SemaphoreId
  | .call c => c.names
  | .interrupt c => c.names
  | _ => []

theorem Fit.exists_head (hx : x.Fit) {f : Frame} {rest : List Frame}
    (hframes : x.frames = f :: rest) : ∀ o, f.Concerns o → o.Exists x.kernel := by
  refine hx.exist x.kernel.current f ?_
  change f ∈ x.frames
  rw [hframes]
  exact List.mem_cons_self

theorem attempt_advance {f : Frame} {rest : List Frame} (hframes : x.frames = f :: rest) :
    Move.attempt? x .advance = f.attempt? := by
  change x.frames.head?.bind Frame.attempt? = _
  rw [hframes]
  rfl

theorem contains_of_attempt (hx : x.Fit) (hallows : x.allows m = true)
    (ha : m.attempt? x = some (b, a)) : x.kernel.mailboxes.contains b = true := by
  cases m with
  | call c =>
      obtain ⟨-, hin⟩ := allows_call hallows
      cases c with
      | operation c => exact Operation.contains_of_attempt hin ha
      | _ => cases ha
  | interrupt c => exact InterruptCall.contains_of_attempt (allows_interrupt hallows).2 ha
  | advance =>
      obtain ⟨f, rest, hframes, -⟩ := allows_advance hallows
      rw [attempt_advance hframes] at ha
      exact hx.exists_head hframes (.mailbox b) (Frame.concerns_of_attempt ha)
  | _ => cases ha

/-- Only semaphores that were made are named. -/
theorem contains_of_names {s : SemaphoreId} (hallows : x.allows m = true) (hs : s ∈ m.names) :
    x.kernel.semaphores.contains s = true := by
  cases m with
  | call c =>
      have hin := (allows_call hallows).2
      cases c with
      | operation c =>
          cases c with
          | waitSemaphore s' timeout | signal s' | resetSemaphore s' count =>
              rw [List.mem_singleton.mp hs]
              exact hin
          | signalAndWait s₁ s₂ =>
              obtain ⟨hin₁, hin₂⟩ := Bool.and_eq_true_iff.mp hin
              rcases List.mem_pair.mp hs with rfl | rfl
              · exact hin₁
              · exact hin₂
          | _ => cases hs
      | _ => cases hs
  | interrupt c =>
      have hin := (allows_interrupt hallows).2
      cases c with
      | signal s' | resetSemaphore s' count =>
          rw [List.mem_singleton.mp hs]
          exact hin
      | _ => cases hs
  | _ => cases hs

/-- How a move may come to touch a mailbox or a semaphore. -/
theorem touches_ofBox (ht : m.touches x o) (ho : o.OfBox) :
    (∃ b a, m.attempt? x = some (b, a) ∧ x.kernel.BoxParts b o) ∨
      (∃ s ∈ m.names, o = .semaphore s) ∨
      ∃ capacity b, m = .call (.operation (.createMailbox capacity)) ∧ o = .mailbox b ∧
        x.kernel.mailboxes.contains b = false := by
  cases m with
  | call c =>
      cases c with
      | boot => exact absurd ht id
      | spawn name p r =>
          obtain ⟨t, rfl, -⟩ := ht
          exact absurd ho id
      | exit msg =>
          obtain rfl : o = .thread x.kernel.current := ht
          exact absurd ho id
      | operation c =>
          rcases Operation.touches_ofBox ht ho with h | h | ⟨capacity, b, rfl, h⟩
          · exact Or.inl h
          · exact Or.inr (Or.inl h)
          · exact Or.inr (Or.inr ⟨capacity, b, rfl, h⟩)
  | interrupt c =>
      rcases InterruptCall.touches_ofBox ht ho with h | h
      · exact Or.inl h
      · exact Or.inr (Or.inl h)
  | advance =>
      obtain ⟨f, rest, hframes, ht⟩ := ht
      rw [attempt_advance hframes]
      exact Or.inl (Frame.touches_ofBox ht ho)
  | _ => exact absurd ht id

/-- A mailbox and its semaphores are touched only by moves that are about it. -/
theorem attempt_of_touches (hx : x.Fit) (hallows : x.allows m = true)
    (hin : x.kernel.mailboxes.contains b = true)
    (own : (x.kernel.mailbox b).empty ∉ m.names ∧ (x.kernel.mailbox b).full ∉ m.names)
    (ho : x.kernel.BoxParts b o) (ht : m.touches x o) : ∃ a, m.attempt? x = some (b, a) := by
  rcases touches_ofBox ht ho.ofBox with ⟨b', a, ha, ho'⟩ | ⟨s, hs, rfl⟩ |
    ⟨capacity, b', rfl, rfl, hnew⟩
  · have hin' := contains_of_attempt hx hallows ha
    rw [hx.sound.boxed.parts_unique hin hin' ho ho'] at ha
    exact ⟨a, ha⟩
  · rcases ho with ho | ho | ho
    · cases ho
    · rw [Object.semaphore.inj ho] at hs
      exact absurd hs own.1
    · rw [Object.semaphore.inj ho] at hs
      exact absurd hs own.2
  · rcases ho with ho | ho | ho
    · rw [Object.mailbox.inj ho, hin] at hnew
      cases hnew
    · cases ho
    · cases ho

/-- A semaphore that is not there yet is not touched. -/
theorem not_touches_new {s : SemaphoreId} (hx : x.Fit) (hallows : x.allows m = true)
    (hnew : x.kernel.semaphores.contains s = false) : ¬ m.touches x (.semaphore s) := by
  intro ht
  have hin : x.kernel.semaphores.contains s = true := by
    rcases touches_ofBox ht trivial with ⟨b, a, ha, ho⟩ | ⟨s', hs, ho⟩ | ⟨capacity, b, -, ho, -⟩
    · obtain ⟨hempty, hfull, -⟩ := hx.sound.boxed.created b (contains_of_attempt hx hallows ha)
      rcases ho with ho | ho | ho
      · cases ho
      · rwa [Object.semaphore.inj ho]
      · rwa [Object.semaphore.inj ho]
    · rw [Object.semaphore.inj ho]
      exact contains_of_names hallows hs
    · cases ho
  rw [hnew] at hin
  cases hin

/-- A mailbox that is not there yet is touched only to be made. -/
theorem createMailbox_of_touches (hx : x.Fit) (hallows : x.allows m = true)
    (hnew : x.kernel.mailboxes.contains b = false) (ht : m.touches x (.mailbox b)) :
    ∃ capacity, m = .call (.operation (.createMailbox capacity)) := by
  rcases touches_ofBox ht trivial with ⟨b', a, ha, hb | hb | hb⟩ | ⟨s, -, hb⟩ | ⟨capacity, -, hm, -⟩
  · have hin := contains_of_attempt hx hallows ha
    rw [← Object.mailbox.inj hb, hnew] at hin
    cases hin
  · cases hb
  · cases hb
  · cases hb
  · exact ⟨capacity, hm⟩

end Execution

end RealtimeKernel

import RealtimeKernel.Proofs.TimerQueue.Actions
import RealtimeKernel.Proofs.TimerQueue.Remaining

/-!
What one move of the kernel does to the timers, besides letting a tick pass and taking out what is
due: it cancels some of them, and then it arms one at most. So a timer that is still there has the
time left that it had, and timers that are due together stand in the order in which they were armed,
the last one first.
-/
namespace RealtimeKernel.TimerQueue
variable {n : Nat} {α : Type} {q q₁ q' : TimerQueue n α} {P P' : Fin n → Prop} {slot j : Fin n}
  {o : Option α} {rank rank' : Fin n → Nat} {next : Nat}

/-- Timers of some slots are cancelled, one after the other. -/
inductive Cuts (P : Fin n → Prop) (q : TimerQueue n α) : TimerQueue n α → Prop
  | refl : Cuts P q q
  | cancel {q₁ q' : TimerQueue n α} {slot : Fin n} : Cuts P q q₁ → P slot →
    q₁.cancel slot = .ok q' → Cuts P q q'

/-- Timers of some slots are cancelled, and then one of them may be armed. -/
inductive Adjusts (P : Fin n → Prop) (q : TimerQueue n α) : TimerQueue n α → Prop
  | cuts {q' : TimerQueue n α} : Cuts P q q' → Adjusts P q q'
  | arms {q₁ q' : TimerQueue n α} {slot : Fin n} {delay : Delay} {action : α} : Cuts P q q₁ →
    P slot → q₁.arm slot delay action = .ok q' → Adjusts P q q'

/-- A slot has the timer that it had, with as much time left. -/
structure Stays (j : Fin n) (q q' : TimerQueue n α) : Prop where
  action : (q'.cell j).action = (q.cell j).action
  remaining : q'.remaining j = q.remaining j

theorem Stays.refl (j : Fin n) (q : TimerQueue n α) : Stays j q q := ⟨rfl, rfl⟩

theorem Stays.trans (h : Stays j q q₁) (h' : Stays j q₁ q') : Stays j q q' :=
  ⟨h'.action.trans h.action, h'.remaining.trans h.remaining⟩

theorem Stays.isArmed (h : Stays j q q') : q'.isArmed j = q.isArmed j := by
  rw [isArmed_eq, h.action, isArmed_eq]

namespace Cuts

theorem single (hP : P slot) (h : q.cancel slot = .ok q') : Cuts P q q' := .cancel .refl hP h

theorem trans (h : Cuts P q q₁) (h' : Cuts P q₁ q') : Cuts P q q' := by
  induction h' with
  | refl => exact h
  | cancel _ hP hc ih => exact .cancel ih hP hc

theorem mono (h : Cuts P q q') (hPP' : ∀ s, P s → P' s) : Cuts P' q q' := by
  induction h with
  | refl => exact .refl
  | cancel _ hP hc ih => exact .cancel ih (hPP' _ hP) hc

theorem sound (h : Cuts P q q') (hq : q.Sound) : q'.Sound := by
  induction h with
  | refl => exact hq
  | cancel _ _ hc ih => exact (ih.cancel hc).1

theorem undue (h : Cuts P q q') (hq : q.Sound) (hu : q.Undue) : q'.Undue := by
  induction h with
  | refl => exact hu
  | cancel hcuts _ hc ih =>
      refine ih.of_others ?_ ((hcuts.sound hq).cancel hc).2
      rw [action_cancel hc, if_pos rfl]

/-- Other slots are left alone. -/
theorem isArmed (h : Cuts P q q') (hj : ¬ P j) : q'.isArmed j = q.isArmed j := by
  induction h with
  | refl => rfl
  | cancel _ hP hc ih =>
      rw [isArmed_cancel hc, if_neg, ih]
      rintro rfl
      exact hj hP

theorem generation (h : Cuts P q q') (j : Fin n) : q'.generation j = q.generation j := by
  induction h with
  | refl => rfl
  | cancel _ _ hc ih => rw [generation_cancel hc, ih]

theorem stays (h : Cuts P q q') (hq : q.Sound) (harmed : q'.isArmed j = true) : Stays j q q' := by
  induction h with
  | refl => exact .refl j q
  | @cancel q₁ q' slot hcuts _ hc ih =>
      rw [isArmed_cancel hc] at harmed
      split at harmed
      · cases harmed
      · rename_i hj
        refine (ih harmed).trans ⟨?_, ((hcuts.sound hq).cancel hc).2 j hj⟩
        rw [action_cancel hc, if_neg hj]

end Cuts

theorem generation_arm_self {delay : Delay} {action : α} (h : q.arm slot delay action = .ok q') :
    q'.generation slot ≠ q.generation slot := by
  rw [generation_arm h, if_pos rfl]
  intro hsame
  have htoNat := congrArg UInt16.toNat hsame
  rw [UInt16.toNat_add] at htoNat
  have hlt := (q.generation slot).toNat_lt
  simp only [UInt16.toNat_one] at htoNat
  omega

namespace Adjusts

theorem mono (h : Adjusts P q q') (hPP' : ∀ s, P s → P' s) : Adjusts P' q q' := by
  cases h with
  | cuts hcuts => exact .cuts (hcuts.mono hPP')
  | arms hcuts hP harm => exact .arms (hcuts.mono hPP') (hPP' _ hP) harm

theorem after (h : Adjusts P q₁ q') (hcuts : Cuts P q q₁) : Adjusts P q q' := by
  cases h with
  | cuts hcuts' => exact .cuts (hcuts.trans hcuts')
  | arms hcuts' hP harm => exact .arms (hcuts.trans hcuts') hP harm

theorem sound (h : Adjusts P q q') (hq : q.Sound) : q'.Sound := by
  cases h with
  | cuts hcuts => exact hcuts.sound hq
  | arms hcuts _ harm => exact ((hcuts.sound hq).arm harm).1

theorem undue (h : Adjusts P q q') (hq : q.Sound) (hu : q.Undue) : q'.Undue := by
  cases h with
  | cuts hcuts => exact hcuts.undue hq hu
  | arms hcuts _ harm => exact (hcuts.sound hq).undue_arm (hcuts.undue hq hu) harm

theorem isArmed (h : Adjusts P q q') (hj : ¬ P j) : q'.isArmed j = q.isArmed j := by
  cases h with
  | cuts hcuts => exact hcuts.isArmed hj
  | arms hcuts hP harm =>
      rw [isArmed_arm harm, if_neg, hcuts.isArmed hj]
      rintro rfl
      exact hj hP

theorem generation (h : Adjusts P q q') (hj : ¬ P j) : q'.generation j = q.generation j := by
  cases h with
  | cuts hcuts => exact hcuts.generation j
  | arms hcuts hP harm =>
      rw [generation_arm harm, if_neg, hcuts.generation]
      rintro rfl
      exact hj hP

/-- The timer in a slot is the one that was there unless the slot was armed again. -/
theorem stays (h : Adjusts P q q') (hq : q.Sound) (harmed : q'.isArmed j = true)
    (hgeneration : q'.generation j = q.generation j) : Stays j q q' := by
  cases h with
  | cuts hcuts => exact hcuts.stays hq harmed
  | @arms q₁ q' slot delay action hcuts _ harm =>
      have hj : j ≠ slot := by
        rintro rfl
        exact generation_arm_self harm (hgeneration.trans (hcuts.generation j).symm)
      rw [isArmed_arm harm, if_neg hj] at harmed
      refine (hcuts.stays hq harmed).trans ⟨?_, ((hcuts.sound hq).arm harm).2.2 j hj⟩
      rw [action_arm harm, if_neg hj]

/-- What is armed is not due at once. -/
theorem generation_of_due (h : Adjusts P q q') (hq : q.Sound) (hdue : q'.remaining j = some 0) :
    q'.generation j = q.generation j := by
  cases h with
  | cuts hcuts => exact hcuts.generation j
  | arms hcuts _ harm =>
      rw [generation_arm harm, if_neg, hcuts.generation]
      rintro rfl
      rw [((hcuts.sound hq).arm harm).2.1, Option.some.injEq] at hdue
      exact absurd hdue (Delay.pos _).ne'

end Adjusts

/-! What is due, and what is left of the others once it is taken out. -/

theorem Schedules.due_eq {now : Nat} {S : List (Arming n α)} {a : Arming n α}
    (h : q.Schedules now (a :: S)) (hdue : a.deadline = now) : q.due? = some a.slot := by
  unfold due?
  rw [h.head_eq]
  simp [h.delta_head_eq_zero_iff.mpr hdue]

theorem Schedules.due_eq_none {now : Nat} {S : List (Arming n α)} (h : q.Schedules now S)
    (hahead : ∀ a ∈ S, now < a.deadline) : q.due? = none := by
  unfold due?
  rw [h.head_eq]
  cases S with
  | nil => rfl
  | cons a S =>
      have hne : q.delta a.slot ≠ 0 := by
        rw [ne_eq, h.delta_head_eq_zero_iff]
        exact (hahead a List.mem_cons_self).ne'
      simp [Option.filter, hne]

/-- Either nothing is due, or the slot that is due is freed. What is still armed stays as it is. -/
theorem Sound.popExpired_due (h : q.Sound) (hp : q.popExpired = (o, q')) :
    (∀ j, q'.isArmed j = true → Stays j q q') ∧ ((o = none ∧ q.due? = none ∧ q' = q ∧ q.Undue) ∨
      ∃ slot a, o = some a ∧ q.due? = some slot ∧ (q.cell slot).action = some a ∧
        q.remaining slot = some 0 ∧ q'.isArmed slot = false) := by
  obtain ⟨now, S, hS⟩ := h
  rcases hS.popExpired hp with ⟨rfl, rfl, hahead⟩ | ⟨a, S', rfl, rfl, hdue, hS'⟩
  · refine ⟨fun j _ => .refl j q', Or.inl ⟨rfl, hS.due_eq_none hahead, rfl, fun j hzero => ?_⟩⟩
    obtain ⟨a, ha, -, hd⟩ := hS.remaining_eq_some.mp hzero
    exact absurd hd (hahead a ha).ne'
  · have hslot := hS.due_eq hdue
    have hfree : q'.isArmed a.slot = false := by rw [isArmed_popExpired hp, if_pos hslot]
    refine ⟨fun j harmed => ?_, Or.inr ⟨a.slot, a.action, rfl, hslot,
      hS.action_of_mem a List.mem_cons_self,
      hS.remaining_eq_some.mpr ⟨a, List.mem_cons_self, rfl, hdue⟩, hfree⟩⟩
    obtain ⟨b, hb, rfl⟩ := List.mem_map.mp ((hS'.isArmed_iff j).mp harmed)
    have hb' := List.mem_cons_of_mem a hb
    refine ⟨?_, ?_⟩
    · rw [hS'.action_of_mem b hb, hS.action_of_mem b hb']
    · rw [hS'.remaining hb, hS.remaining hb']

theorem Sound.remaining_due (h : q.Sound) (hdue : q.due? = some slot) :
    q.remaining slot = some 0 := by
  have hp : q.popExpired = (q.popExpired.1, q.popExpired.2) := rfl
  obtain ⟨-, ⟨-, hnone, -⟩ | ⟨s, -, -, hs, -, hzero, -⟩⟩ := h.popExpired_due hp
  · rw [hnone] at hdue
    cases hdue
  · rw [hs, Option.some.injEq] at hdue
    rw [← hdue, hzero]

/-! The order of what is due together. -/

/-- The timers with one deadline stand in the order of their ranks, the highest rank first. -/
def Ranked (rank : Fin n → Nat) (q : TimerQueue n α) : Prop :=
  ∃ now S, q.Schedules now S ∧ ∀ a ∈ S, a.serial = rank a.slot

theorem ranked_empty (rank : Fin n → Nat) : (empty n α).Ranked rank :=
  ⟨0, [], schedules_empty n α 0, fun _ ha => absurd ha List.not_mem_nil⟩

namespace Ranked

theorem congr (h : q.Ranked rank) (same : ∀ j, rank' j = rank j) : q.Ranked rank' := by
  obtain rfl : rank' = rank := funext same
  exact h

theorem sound (h : q.Ranked rank) : q.Sound := by
  obtain ⟨now, S, hS, -⟩ := h
  exact ⟨now, S, hS⟩

theorem cancel (h : q.Ranked rank) (hc : q.cancel slot = .ok q') : q'.Ranked rank := by
  unfold TimerQueue.cancel at hc
  split at hc
  · rename_i harmed
    obtain ⟨now, S, hS, hrank⟩ := h
    obtain ⟨q₁, S', hdisarm, hS', hmem⟩ := hS.exists_disarm harmed
    obtain rfl := Except.ok.inj (hdisarm.symm.trans hc)
    exact ⟨now, S', hS', fun a ha => hrank a ((hmem a).mp ha).1⟩
  · obtain rfl := Except.ok.inj hc
    exact h

theorem cuts (h : q.Ranked rank) (hc : Cuts P q q') : q'.Ranked rank := by
  induction hc with
  | refl => exact h
  | cancel _ _ hc ih => exact ih.cancel hc

/-- What is armed now ranks above whatever was armed before. -/
theorem arm (h : q.Ranked rank) {delay : Delay} {action : α}
    (hok : q.arm slot delay action = .ok q') (hlt : ∀ j, rank j < next) :
    q'.Ranked fun j => if j = slot then next else rank j := by
  obtain ⟨now, S, hS, hrank⟩ := h
  have hfree := isArmed_of_arm hok
  obtain ⟨q₁, S', harm, hS', hmem⟩ :=
    hS.exists_arm hfree delay action fun a ha => (hrank a ha).trans_lt (hlt a.slot)
  obtain rfl := Except.ok.inj (harm.symm.trans hok)
  refine ⟨now, S', hS', fun a ha => ?_⟩
  dsimp only
  rcases (hmem a).mp ha with rfl | ha
  · rw [if_pos rfl]
  · have hne : a.slot ≠ slot := by
      rintro rfl
      have harmed := (hS.isArmed_iff a.slot).mpr (List.mem_map_of_mem ha)
      rw [hfree] at harmed
      cases harmed
    rw [if_neg hne, hrank a ha]

theorem adjusts (h : q.Ranked rank) (ha : Adjusts P q q') (hlt : ∀ j, rank j < next) :
    q'.Ranked fun j => if q'.generation j = q.generation j then rank j else next := by
  cases ha with
  | cuts hcuts =>
      refine (h.cuts hcuts).congr fun j => ?_
      rw [if_pos (hcuts.generation j)]
  | @arms q₁ _ slot delay action hcuts _ harm =>
      refine ((h.cuts hcuts).arm harm hlt).congr fun j => ?_
      by_cases hj : j = slot
      · subst hj
        rw [if_pos rfl, if_neg]
        rw [← hcuts.generation j]
        exact generation_arm_self harm
      · rw [if_neg hj, generation_arm harm, if_neg hj, hcuts.generation, if_pos rfl]

theorem advance (h : q.Ranked rank) (ha : q.advance = .ok q') : q'.Ranked rank := by
  obtain ⟨now, S, hS, hrank⟩ := h
  exact ⟨now + 1, S, (hS.of_advance ha).2, hrank⟩

theorem popExpired (h : q.Ranked rank) (hp : q.popExpired = (o, q')) : q'.Ranked rank := by
  obtain ⟨now, S, hS, hrank⟩ := h
  rcases hS.popExpired hp with ⟨-, rfl, -⟩ | ⟨a, S', rfl, -, -, hS'⟩
  · exact ⟨now, S, hS, hrank⟩
  · exact ⟨now, S', hS', fun b hb => hrank b (List.mem_cons_of_mem a hb)⟩

/-- Of the timers that are due the one with the highest rank is taken out first. -/
theorem rank_lt (h : q.Ranked rank) (hdue : q.due? = some slot) (hzero : q.remaining j = some 0)
    (hj : j ≠ slot) : rank j < rank slot := by
  obtain ⟨now, S, hS, hrank⟩ := h
  obtain ⟨b, hb, rfl, hb0⟩ := hS.remaining_eq_some.mp hzero
  cases S with
  | nil => cases hb
  | cons a S =>
      have ha : a.deadline = now := by
        by_contra hne
        have hhead : ∀ c ∈ (a :: S).head?, now < c.deadline := by
          rintro c ⟨⟩
          exact Nat.lt_of_le_of_ne (hS.spaced.le_deadline List.mem_cons_self) (Ne.symm hne)
        rw [hS.due_eq_none (hS.ahead hhead)] at hdue
        cases hdue
      rw [hS.due_eq ha, Option.some.injEq] at hdue
      subst hdue
      rcases List.mem_cons.mp hb with rfl | hmem
      · exact absurd rfl hj
      · rw [← hrank b hb, ← hrank a List.mem_cons_self]
        rcases List.rel_of_pairwise_cons hS.sorted hmem with hlt | ⟨-, hlt⟩
        · omega
        · exact hlt

end Ranked

end RealtimeKernel.TimerQueue

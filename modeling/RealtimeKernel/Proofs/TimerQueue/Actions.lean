import RealtimeKernel.Proofs.TimerQueue.Schedule

/-!
Which timers are armed, and for what, after each operation, whether the queue is well linked
or not: arming and disarming write the action of one slot, and time leaves all of them.
-/
namespace RealtimeKernel.TimerQueue
variable {n : Nat} {α : Type} {q q' : TimerQueue n α} {slot : Fin n}

theorem action_arm {delay : Delay} {a : α} (h : q.arm slot delay a = .ok q') (j : Fin n) :
    (q'.cell j).action = if j = slot then some a else (q.cell j).action := by
  unfold arm at h
  split at h
  · cases h
  · obtain ⟨⟨time, next⟩, -, h⟩ := bind_eq_ok.mp h
    dsimp only at h
    split at h
    · obtain ⟨d, -, h⟩ := bind_eq_ok.mp h
      obtain rfl := Except.ok.inj h
      rw [action_setDelta, action_link]
      simp only [eq_comm]
    · obtain rfl := Except.ok.inj h
      rw [action_link]
      simp only [eq_comm]

theorem action_disarm (h : q.disarm slot = .ok q') (j : Fin n) :
    (q'.cell j).action = if j = slot then none else (q.cell j).action := by
  unfold disarm at h
  split at h
  · split at h
    · obtain ⟨d, -, h⟩ := bind_eq_ok.mp h
      obtain rfl := Except.ok.inj h
      rw [action_unlink, action_setDelta]
      simp only [eq_comm]
    · obtain rfl := Except.ok.inj h
      rw [action_unlink]
      simp only [eq_comm]
  · cases h

theorem action_cancel (h : q.cancel slot = .ok q') (j : Fin n) :
    (q'.cell j).action = if j = slot then none else (q.cell j).action := by
  unfold cancel at h
  split at h
  · exact action_disarm h j
  · rename_i harmed
    obtain rfl := Except.ok.inj h
    split
    · rename_i hj
      rw [hj]
      simpa [isArmed] using harmed
    · rfl

theorem action_advance (h : q.advance = .ok q') (j : Fin n) :
    (q'.cell j).action = (q.cell j).action := by
  unfold advance at h
  split at h
  · obtain rfl := Except.ok.inj h
    rfl
  · split at h
    · cases h
    · obtain rfl := Except.ok.inj h
      exact action_setDelta q _ j _

/-- What is taken out was armed, and no other timer changes. -/
theorem action_popExpired {o : Option α} (h : q.popExpired = (o, q')) :
    (o = none ∧ ∀ j, (q'.cell j).action = (q.cell j).action) ∨
      ∃ slot a, o = some a ∧ (q.cell slot).action = some a ∧
        ∀ j, (q'.cell j).action = if j = slot then none else (q.cell j).action := by
  unfold popExpired at h
  split at h
  · obtain ⟨rfl, rfl⟩ := Prod.mk.inj h
    exact Or.inl ⟨rfl, fun _ => rfl⟩
  · rename_i slot _
    split at h
    · obtain ⟨rfl, rfl⟩ := Prod.mk.inj h
      have hunlink : ∀ j, ((q.unlink slot).cell j).action =
          if j = slot then none else (q.cell j).action := by
        intro j
        rw [action_unlink]
        simp only [eq_comm]
      cases ha : (q.cell slot).action with
      | none =>
          refine Or.inl ⟨rfl, ?_⟩
          intro j
          rw [hunlink]
          split
          · rename_i hj
            rw [hj, ha]
          · rfl
      | some a => exact Or.inr ⟨slot, a, rfl, ha, hunlink⟩
    · obtain ⟨rfl, rfl⟩ := Prod.mk.inj h
      exact Or.inl ⟨rfl, fun _ => rfl⟩

/-! How often a slot was armed. Arming alone counts. -/

theorem generation_setDelta (q : TimerQueue n α) (slot j : Fin n) (d : Ticks) :
    (q.setDelta slot d).generation j = q.generation j := by
  rw [generation, setDelta, cell_setCell]
  split
  · subst slot; rfl
  · rfl

theorem generation_link (q : TimerQueue n α) (slot j : Fin n) (next : Option (Fin n)) (d : Ticks)
    (a : α) : (q.link slot next d a).generation j =
      if slot = j then q.generation slot + 1 else q.generation j := by
  unfold generation link
  rw [cell_setCell]
  split <;> rfl

theorem generation_unlink (q : TimerQueue n α) (slot j : Fin n) :
    (q.unlink slot).generation j = q.generation j := by
  unfold generation unlink
  rw [cell_setCell]
  split
  · subst slot; rfl
  · rfl

theorem generation_arm {delay : Delay} {a : α} (h : q.arm slot delay a = .ok q') (j : Fin n) :
    q'.generation j = if j = slot then q.generation slot + 1 else q.generation j := by
  unfold arm at h
  split at h
  · cases h
  · obtain ⟨⟨time, next⟩, -, h⟩ := bind_eq_ok.mp h
    dsimp only at h
    split at h
    · obtain ⟨d, -, h⟩ := bind_eq_ok.mp h
      obtain rfl := Except.ok.inj h
      rw [generation_setDelta, generation_link]
      simp only [eq_comm]
    · obtain rfl := Except.ok.inj h
      rw [generation_link]
      simp only [eq_comm]

theorem generation_disarm (h : q.disarm slot = .ok q') (j : Fin n) :
    q'.generation j = q.generation j := by
  unfold disarm at h
  split at h
  · split at h
    · obtain ⟨d, -, h⟩ := bind_eq_ok.mp h
      obtain rfl := Except.ok.inj h
      rw [generation_unlink, generation_setDelta]
    · obtain rfl := Except.ok.inj h
      exact generation_unlink q slot j
  · cases h

theorem generation_cancel (h : q.cancel slot = .ok q') (j : Fin n) :
    q'.generation j = q.generation j := by
  unfold cancel at h
  split at h
  · exact generation_disarm h j
  · rw [Except.ok.inj h]

theorem generation_advance (h : q.advance = .ok q') (j : Fin n) :
    q'.generation j = q.generation j := by
  unfold advance at h
  split at h
  · rw [Except.ok.inj h]
  · split at h
    · cases h
    · obtain rfl := Except.ok.inj h
      exact generation_setDelta q _ j _

theorem generation_popExpired {o : Option α} (h : q.popExpired = (o, q')) (j : Fin n) :
    q'.generation j = q.generation j := by
  unfold popExpired at h
  split at h
  · rw [(Prod.mk.inj h).2]
  · split at h
    · obtain ⟨-, rfl⟩ := Prod.mk.inj h
      exact generation_unlink q _ j
    · rw [(Prod.mk.inj h).2]

/-! Whether a slot is armed. -/

theorem isArmed_arm {delay : Delay} {a : α} (h : q.arm slot delay a = .ok q') (j : Fin n) :
    q'.isArmed j = if j = slot then true else q.isArmed j := by
  rw [isArmed, action_arm h]
  split <;> rfl

theorem isArmed_disarm (h : q.disarm slot = .ok q') (j : Fin n) :
    q'.isArmed j = if j = slot then false else q.isArmed j := by
  rw [isArmed, action_disarm h]
  split <;> rfl

theorem isArmed_cancel (h : q.cancel slot = .ok q') (j : Fin n) :
    q'.isArmed j = if j = slot then false else q.isArmed j := by
  rw [isArmed, action_cancel h]
  split <;> rfl

theorem isArmed_advance (h : q.advance = .ok q') (j : Fin n) : q'.isArmed j = q.isArmed j := by
  rw [isArmed, action_advance h]
  rfl

/-- The slot whose timer is taken out next, if it is due. -/
def due? (q : TimerQueue n α) : Option (Fin n) :=
  q.head.filter fun slot => q.delta slot = 0

/-- What is due is taken out, and no other timer changes. -/
theorem isArmed_popExpired {o : Option α} (h : q.popExpired = (o, q')) (j : Fin n) :
    q'.isArmed j = if q.due? = some j then false else q.isArmed j := by
  unfold popExpired at h
  unfold due?
  split at h
  · rename_i hhead
    obtain ⟨-, rfl⟩ := Prod.mk.inj h
    rw [hhead]
    rfl
  · rename_i slot hhead
    rw [hhead]
    split at h
    · rename_i hzero
      obtain ⟨-, rfl⟩ := Prod.mk.inj h
      rw [isArmed, action_unlink]
      simp only [Option.filter, hzero, decide_true, if_true, Option.some.injEq]
      split <;> rfl
    · rename_i hzero
      obtain ⟨-, rfl⟩ := Prod.mk.inj h
      simp [Option.filter, hzero]

end RealtimeKernel.TimerQueue

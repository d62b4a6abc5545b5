import RealtimeKernel.Proofs.TimerQueue.Schedule

/-!
The ticks that each timer has left, after each operation. A queue is sound if it stands for some
schedule; whatever else is to be known of a sound queue is read off the ticks left.
-/
namespace RealtimeKernel.TimerQueue
variable {n : Nat} {α : Type} {q q' : TimerQueue n α} {now : Nat} {S S' : List (Arming n α)}
  {slot j : Fin n}

def Sound (q : TimerQueue n α) : Prop := ∃ now S, q.Schedules now S

/-- No timer is due. -/
def Undue (q : TimerQueue n α) : Prop := ∀ j, q.remaining j ≠ some 0

theorem sound_empty (n : Nat) (α : Type) : (empty n α).Sound := ⟨0, [], schedules_empty n α 0⟩

theorem Schedules.remaining_eq_some (h : q.Schedules now S) {d : Nat} :
    q.remaining j = some d ↔ ∃ a ∈ S, a.slot = j ∧ a.deadline = now + d := by
  have hdeadline : ∀ a ∈ S, now ≤ a.deadline := fun a ha => h.spaced.le_deadline ha
  constructor
  · intro hrem
    have harmed : q.isArmed j = true := by
      by_contra hnot
      rw [TimerQueue.remaining, if_neg hnot] at hrem
      cases hrem
    obtain ⟨a, ha, rfl⟩ := List.mem_map.mp ((h.isArmed_iff j).mp harmed)
    rw [h.remaining ha] at hrem
    have := hdeadline a ha
    have := Option.some.inj hrem
    exact ⟨a, ha, rfl, by omega⟩
  · rintro ⟨a, ha, rfl, hd⟩
    rw [h.remaining ha, hd]
    congr 1
    omega

/-- A slot has as many ticks left as before if its timer is the same. -/
theorem Schedules.remaining_congr (h : q.Schedules now S) (h' : q'.Schedules now S')
    (same : ∀ a, a.slot = j → (a ∈ S' ↔ a ∈ S)) : q'.remaining j = q.remaining j := by
  refine Option.ext fun d => ?_
  rw [h.remaining_eq_some, h'.remaining_eq_some]
  constructor
  · rintro ⟨a, ha, hj, hd⟩
    exact ⟨a, (same a hj).mp ha, hj, hd⟩
  · rintro ⟨a, ha, hj, hd⟩
    exact ⟨a, (same a hj).mpr ha, hj, hd⟩

/-- A slot without an action has no ticks left. -/
theorem remaining_eq_none (h : (q.cell j).action = none) : q.remaining j = none := by
  rw [remaining, if_neg]
  rw [isArmed_eq, h]
  exact Bool.false_ne_true

theorem Sound.isArmed_iff (h : q.Sound) : q.isArmed j = true ↔ (q.remaining j).isSome = true := by
  obtain ⟨now, S, h⟩ := h
  rw [h.isArmed_iff, List.mem_map]
  constructor
  · rintro ⟨a, ha, rfl⟩
    rw [h.remaining ha]
    rfl
  · intro hsome
    obtain ⟨d, hd⟩ := Option.isSome_iff_exists.mp hsome
    obtain ⟨a, ha, hj, -⟩ := h.remaining_eq_some.mp hd
    exact ⟨a, ha, hj⟩

/-! Arming and disarming. -/

/-- Every arming in a list has a smaller number than this. -/
def nextSerial (S : List (Arming n α)) : Nat := (S.map Arming.serial).foldr max 0 + 1

theorem lt_nextSerial {a : Arming n α} (ha : a ∈ S) : a.serial < nextSerial S := by
  have hle : a.serial ≤ (S.map Arming.serial).foldr max 0 := by
    induction S with
    | nil => cases ha
    | cons b S ih =>
        rcases List.mem_cons.mp ha with rfl | ha
        · exact le_max_left _ _
        · exact (ih ha).trans (le_max_right _ _)
  exact Nat.lt_succ_of_le hle

/-- A slot that is not armed can be, and the schedule has one timer more. -/
theorem Schedules.exists_arm (h : q.Schedules now S) (hfree : q.isArmed slot = false)
    (delay : Delay) (action : α) {serial : Nat} (fresh : ∀ a ∈ S, a.serial < serial) :
    ∃ q' S', q.arm slot delay action = .ok q' ∧ q'.Schedules now S' ∧
      ∀ a, a ∈ S' ↔ a = ⟨slot, now, delay, action, serial⟩ ∨ a ∈ S := by
  have hnot : slot ∉ S.map Arming.slot := by
    rw [← h.isArmed_iff, hfree]
    exact nofun
  obtain ⟨q', harm, h'⟩ := h.arm (x := ⟨slot, now, delay, action, serial⟩) rfl hnot fresh
  refine ⟨q', _, harm, h', fun a => ?_⟩
  rw [List.perm_middle.mem_iff, List.mem_cons, dueBefore_append_dueFrom]

/-- A slot that is not armed can be, and this is what it comes to. -/
theorem Sound.exists_arm (h : q.Sound) (hfree : q.isArmed slot = false) (delay : Delay)
    (action : α) : ∃ q', q.arm slot delay action = .ok q' ∧ q'.Sound ∧
      q'.remaining slot = some delay.ticks ∧ ∀ j, j ≠ slot → q'.remaining j = q.remaining j := by
  obtain ⟨now, S, h⟩ := h
  obtain ⟨q', S', harm, h', hmem⟩ :=
    h.exists_arm hfree delay action fun a ha => lt_nextSerial ha
  refine ⟨q', harm, ⟨now, S', h'⟩, ?_, ?_⟩
  · exact h'.remaining_eq_some.mpr ⟨_, (hmem _).mpr (Or.inl rfl), rfl, rfl⟩
  · intro j hj
    refine h.remaining_congr h' fun a haj => ?_
    rw [hmem, or_iff_right]
    rintro rfl
    exact hj haj.symm

theorem isArmed_of_arm {delay : Delay} {action : α} (h : q.arm slot delay action = .ok q') :
    q.isArmed slot = false := by
  unfold TimerQueue.arm at h
  split at h
  · cases h
  · rename_i hfree
    exact Bool.eq_false_of_not_eq_true hfree

theorem Sound.arm (h : q.Sound) {delay : Delay} {action : α}
    (ha : q.arm slot delay action = .ok q') :
    q'.Sound ∧ q'.remaining slot = some delay.ticks ∧
      ∀ j, j ≠ slot → q'.remaining j = q.remaining j := by
  obtain ⟨q₁, harm, hq₁⟩ := h.exists_arm (isArmed_of_arm ha) delay action
  obtain rfl := Except.ok.inj (harm.symm.trans ha)
  exact hq₁

/-- A slot that is armed can be disarmed, and the schedule is without its timer. -/
theorem Schedules.exists_disarm (h : q.Schedules now S) (harmed : q.isArmed slot = true) :
    ∃ q' S', q.disarm slot = .ok q' ∧ q'.Schedules now S' ∧
      ∀ a, a ∈ S' ↔ a ∈ S ∧ a.slot ≠ slot := by
  obtain ⟨x, hx, rfl⟩ := List.mem_map.mp ((h.isArmed_iff slot).mp harmed)
  obtain ⟨S₁, S₂, rfl⟩ := List.append_of_mem hx
  obtain ⟨q', hdisarm, h'⟩ := h.disarm
  have nodup := h.chain.nodup
  rw [List.map_append, List.map_cons, List.nodup_middle, ← List.map_append] at nodup
  refine ⟨q', _, hdisarm, h', fun a => ?_⟩
  rw [List.perm_middle.mem_iff, List.mem_cons]
  constructor
  · intro ha
    refine ⟨Or.inr ha, fun hslot => ?_⟩
    exact (List.nodup_cons.mp nodup).1 (hslot ▸ List.mem_map_of_mem ha)
  · rintro ⟨rfl | ha, hslot⟩
    · exact absurd rfl hslot
    · exact ha

/-- A slot that is armed can be disarmed, and the others stay as they are. -/
theorem Sound.exists_disarm (h : q.Sound) (harmed : q.isArmed slot = true) :
    ∃ q', q.disarm slot = .ok q' ∧ q'.Sound ∧
      ∀ j, j ≠ slot → q'.remaining j = q.remaining j := by
  obtain ⟨now, S, h⟩ := h
  obtain ⟨q', S', hdisarm, h', hmem⟩ := h.exists_disarm harmed
  refine ⟨q', hdisarm, ⟨now, S', h'⟩, fun j hj => h.remaining_congr h' fun a haj => ?_⟩
  rw [hmem, haj, and_iff_left hj]

theorem isArmed_of_disarm (h : q.disarm slot = .ok q') : q.isArmed slot = true := by
  unfold TimerQueue.disarm at h
  split at h
  · assumption
  · cases h

theorem cancel_of_disarm (h : q.disarm slot = .ok q') : q.cancel slot = .ok q' := by
  rw [TimerQueue.cancel, if_pos (isArmed_of_disarm h), h]

theorem Sound.disarm (h : q.Sound) (hd : q.disarm slot = .ok q') :
    q'.Sound ∧ ∀ j, j ≠ slot → q'.remaining j = q.remaining j := by
  obtain ⟨q₁, hdisarm, hq₁⟩ := h.exists_disarm (isArmed_of_disarm hd)
  obtain rfl := Except.ok.inj (hdisarm.symm.trans hd)
  exact hq₁

theorem Sound.exists_cancel (h : q.Sound) (slot : Fin n) : ∃ q', q.cancel slot = .ok q' := by
  unfold TimerQueue.cancel
  split
  · rename_i harmed
    obtain ⟨q', hdisarm, -⟩ := h.exists_disarm harmed
    exact ⟨q', hdisarm⟩
  · exact ⟨q, rfl⟩

theorem Sound.cancel (h : q.Sound) (hc : q.cancel slot = .ok q') :
    q'.Sound ∧ ∀ j, j ≠ slot → q'.remaining j = q.remaining j := by
  unfold TimerQueue.cancel at hc
  split at hc
  · exact h.disarm hc
  · obtain rfl := Except.ok.inj hc
    exact ⟨h, fun j _ => rfl⟩

/-- Whatever is armed has some time left. -/
theorem Sound.undue_arm (h : q.Sound) (hu : q.Undue) {delay : Delay} {action : α}
    (ha : q.arm slot delay action = .ok q') : q'.Undue := by
  obtain ⟨-, hown, hothers⟩ := h.arm ha
  intro j
  by_cases hj : j = slot
  · rw [hj, hown]
    exact fun hzero => delay.pos.ne' (Option.some.inj hzero)
  · rw [hothers j hj]
    exact hu j

/-- A slot that has no action is not due, and the others are not if they were not. -/
theorem Undue.of_others (hu : q.Undue) (hnone : (q'.cell slot).action = none)
    (hothers : ∀ j, j ≠ slot → q'.remaining j = q.remaining j) : q'.Undue := by
  intro j
  by_cases hj : j = slot
  · rw [hj, remaining_eq_none hnone]
    exact nofun
  · rw [hothers j hj]
    exact hu j

/-! Passing time and taking out what is due. -/

/-- No timer is due before the first one. -/
theorem Schedules.ahead (h : q.Schedules now S) (hhead : ∀ a ∈ S.head?, now < a.deadline) :
    ∀ a ∈ S, now < a.deadline := by
  cases S with
  | nil => exact nofun
  | cons b S =>
      have hb := hhead b rfl
      intro a ha
      rcases List.mem_cons.mp ha with rfl | ha
      · exact hb
      · exact hb.trans_le (h.spaced.2.le_deadline ha)

/-- A tick passes: nothing was due, and the schedule is the same. -/
theorem Schedules.of_advance (h : q.Schedules now S) (ha : q.advance = .ok q') :
    (∀ a ∈ S, now < a.deadline) ∧ q'.Schedules (now + 1) S := by
  have hhead : ∀ a ∈ S.head?, now < a.deadline := by
    cases S with
    | nil => exact nofun
    | cons b S =>
        rintro a ⟨⟩
        refine Nat.lt_of_le_of_ne (h.spaced.le_deadline List.mem_cons_self) ?_
        intro hdue
        have hzero := h.delta_head_eq_zero_iff.mpr hdue.symm
        simp only [TimerQueue.advance, h.head_eq, List.head?_cons, Option.map_some, hzero,
          if_true] at ha
        cases ha
  obtain ⟨q₁, hadvance, h'⟩ := h.advance hhead
  obtain rfl : q₁ = q' := Except.ok.inj (hadvance.symm.trans ha)
  exact ⟨h.ahead hhead, h'⟩

/-- A tick passes: nothing was due, and all timers have one tick less. -/
theorem Sound.advance (h : q.Sound) (ha : q.advance = .ok q') : q'.Sound ∧
    (∀ j, q.remaining j ≠ some 0) ∧
      ∀ j d, q'.remaining j = some d ↔ q.remaining j = some (d + 1) := by
  obtain ⟨now, S, h⟩ := h
  obtain ⟨hahead, h'⟩ := h.of_advance ha
  refine ⟨⟨now + 1, S, h'⟩, ?_, ?_⟩
  · intro j hzero
    obtain ⟨a, ha, -, hd⟩ := h.remaining_eq_some.mp hzero
    have := hahead a ha
    omega
  · intro j d
    rw [h.remaining_eq_some, h'.remaining_eq_some, Nat.add_right_comm, Nat.add_assoc]

theorem undue_empty (n : Nat) (α : Type) : (empty n α).Undue := by
  intro j hzero
  obtain ⟨a, ha, -⟩ := (schedules_empty n α 0).remaining_eq_some.mp hzero
  cases ha

/-- A tick may pass if no timer is due. -/
theorem Sound.exists_advance (h : q.Sound) (hu : q.Undue) : ∃ q', q.advance = .ok q' := by
  obtain ⟨now, S, h⟩ := h
  have hhead : ∀ a ∈ S.head?, now < a.deadline := by
    intro a ha
    have ha := List.mem_of_mem_head? ha
    refine Nat.lt_of_le_of_ne (h.spaced.le_deadline ha) fun hdue => ?_
    exact hu a.slot (h.remaining_eq_some.mpr ⟨a, ha, rfl, hdue.symm⟩)
  obtain ⟨q', hadvance, -⟩ := h.advance hhead
  exact ⟨q', hadvance⟩

/-- The first timer of the schedule is taken out if it is due, and else no timer is. -/
theorem Schedules.popExpired (h : q.Schedules now S) {o : Option α}
    (hp : q.popExpired = (o, q')) : (o = none ∧ q' = q ∧ ∀ a ∈ S, now < a.deadline) ∨
      ∃ a S', S = a :: S' ∧ o = some a.action ∧ a.deadline = now ∧ q'.Schedules now S' := by
  by_cases hhead : ∀ a ∈ S.head?, now < a.deadline
  · rw [h.popExpired_of_not_due hhead] at hp
    obtain ⟨rfl, rfl⟩ := Prod.mk.inj hp
    exact Or.inl ⟨rfl, rfl, h.ahead hhead⟩
  · cases S with
    | nil => exact absurd nofun hhead
    | cons a S =>
        have hdue : a.deadline = now := by
          have hle := h.spaced.le_deadline List.mem_cons_self
          simp only [List.head?_cons, Option.mem_def, Option.some.injEq, forall_eq',
            not_lt] at hhead
          omega
        obtain ⟨haction, h'⟩ := h.popExpired_of_due hdue
        rw [hp] at haction h'
        exact Or.inr ⟨a, S, rfl, haction, hdue, h'⟩

/-- What is taken out was due, and if nothing is then nothing was. -/
theorem Sound.popExpired (h : q.Sound) {o : Option α} (hp : q.popExpired = (o, q')) : q'.Sound ∧
    ((o = none ∧ q' = q ∧ ∀ j, q.remaining j ≠ some 0) ∨
      ∃ slot a, o = some a ∧ (q.cell slot).action = some a ∧ q.remaining slot = some 0 ∧
        q'.remaining slot = none ∧ ∀ j, j ≠ slot → q'.remaining j = q.remaining j) := by
  obtain ⟨now, S, h⟩ := h
  rcases h.popExpired hp with ⟨rfl, rfl, hahead⟩ | ⟨a, S, rfl, rfl, hdue, h'⟩
  · refine ⟨⟨now, S, h⟩, Or.inl ⟨rfl, rfl, fun j hzero => ?_⟩⟩
    obtain ⟨a, ha, -, hd⟩ := h.remaining_eq_some.mp hzero
    have := hahead a ha
    omega
  · have hnodup := List.nodup_cons.mp h.chain.nodup
    refine ⟨⟨now, S, h'⟩, Or.inr ⟨a.slot, a.action, rfl,
      h.action_of_mem a List.mem_cons_self, ?_, ?_, ?_⟩⟩
    · exact h.remaining_eq_some.mpr ⟨a, List.mem_cons_self, rfl, hdue⟩
    · rw [Option.eq_none_iff_forall_ne_some]
      intro d hd
      obtain ⟨b, hb, hslot, -⟩ := h'.remaining_eq_some.mp hd
      exact hnodup.1 (hslot ▸ List.mem_map_of_mem hb)
    · intro j hj
      refine h.remaining_congr h' fun b hbj => ?_
      rw [List.mem_cons, or_iff_right]
      rintro rfl
      exact hj hbj.symm

theorem Sound.undue_popExpired (h : q.Sound) (hu : q.Undue) {o : Option α}
    (hp : q.popExpired = (o, q')) : q'.Undue := by
  obtain ⟨-, ⟨-, rfl, -⟩ | ⟨slot, -, -, -, hdue, -⟩⟩ := h.popExpired hp
  · exact hu
  · exact absurd hdue (hu slot)

end RealtimeKernel.TimerQueue

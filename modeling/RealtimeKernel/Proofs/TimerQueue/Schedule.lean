import Mathlib.Algebra.Ring.Nat
import Mathlib.Data.List.TakeWhile
import RealtimeKernel.Proofs.Chain
import RealtimeKernel.TimerQueue

/-!
The timer queue as a schedule of deadlines. `TimerQueue.Schedules q now S` says that `q`
stands for the armed timers `S` at tick `now`: it links their slots in the order of `S`, and
its deltas lead from `now` to one deadline after the other. Each operation acts on the
schedule alone and takes no sum or difference out of the range of `Ticks`.
-/
namespace RealtimeKernel

/-- A computation that does not fail goes through all its parts. -/
theorem bind_eq_ok {ε α β : Type} {x : Except ε α} {f : α → Except ε β} {b : β} :
    x >>= f = .ok b ↔ ∃ a, x = .ok a ∧ f a = .ok b := by
  cases x with
  | error e => simp [bind, Except.bind]
  | ok a => simp [bind, Except.bind]

theorem addTicks_eq_ok {a b : Ticks} (h : a.toNat + b.toNat < 2 ^ 32) :
    ∃ c, addTicks a b = .ok c ∧ c.toNat = a.toNat + b.toNat := by
  have hsize : a.toNat + b.toNat < UInt32.size := h
  refine ⟨a + b, by rw [addTicks, if_pos hsize], ?_⟩
  rw [UInt32.toNat_add, Nat.mod_eq_of_lt h]

theorem subTicks_eq_ok {a b : Ticks} (h : b.toNat ≤ a.toNat) :
    ∃ c, subTicks a b = .ok c ∧ c.toNat = a.toNat - b.toNat := by
  have hle : b ≤ a := UInt32.le_iff_toNat_le.mpr h
  exact ⟨a - b, by rw [subTicks, if_pos hle], UInt32.toNat_sub_of_le _ _ hle⟩

/-- A timer as whoever armed it sees it. -/
structure Arming (n : Nat) (α : Type) where
  slot : Fin n
  /-- The tick at which it was armed. -/
  start : Nat
  delay : Delay
  action : α
  /-- Distinguishes the armings of one slot: a later one has a larger number. -/
  serial : Nat

namespace Arming

def deadline (a : Arming n α) : Nat := a.start + a.delay.ticks

/-- Due earlier, or at the same tick but armed later. -/
def Before (a b : Arming n α) : Prop :=
  a.deadline < b.deadline ∨ a.deadline = b.deadline ∧ b.serial < a.serial

end Arming

namespace TimerQueue
variable {n : Nat} {α : Type} {q : TimerQueue n α} {now : Nat} {S : List (Arming n α)}

/-- The deltas lead from a tick to the deadlines of a list, one after the other. -/
def Spaced (q : TimerQueue n α) : Nat → List (Arming n α) → Prop
  | _, [] => True
  | t, a :: S => t + (q.delta a.slot).toNat = a.deadline ∧ q.Spaced a.deadline S

/-- The last deadline of a list, or else a tick before it. -/
def lastDeadline : Nat → List (Arming n α) → Nat
  | t, [] => t
  | _, a :: S => lastDeadline a.deadline S

theorem lastDeadline_concat (t : Nat) (S : List (Arming n α)) (x : Arming n α) :
    lastDeadline t (S ++ [x]) = x.deadline := by
  induction S generalizing t with
  | nil => rfl
  | cons a S ih => exact ih a.deadline

theorem spaced_append (t : Nat) (S₁ S₂ : List (Arming n α)) :
    q.Spaced t (S₁ ++ S₂) ↔ q.Spaced t S₁ ∧ q.Spaced (lastDeadline t S₁) S₂ := by
  induction S₁ generalizing t with
  | nil => simp [Spaced, lastDeadline]
  | cons a S₁ ih => simp only [List.cons_append, Spaced, lastDeadline, ih, and_assoc]

theorem Spaced.congr {q' : TimerQueue n α} {t : Nat} (h : q.Spaced t S)
    (same : ∀ a ∈ S, q'.delta a.slot = q.delta a.slot) : q'.Spaced t S := by
  induction S generalizing t with
  | nil => trivial
  | cons a S ih =>
      refine ⟨?_, ih h.2 fun b hb => same b (List.mem_cons_of_mem a hb)⟩
      rw [same a List.mem_cons_self]
      exact h.1

theorem Spaced.le_lastDeadline {t : Nat} (h : q.Spaced t S) : t ≤ lastDeadline t S := by
  induction S generalizing t with
  | nil => exact Nat.le_refl t
  | cons a S ih => exact Nat.le_trans (h.1 ▸ Nat.le_add_right _ _) (ih h.2)

theorem Spaced.le_deadline {t : Nat} (h : q.Spaced t S) {a : Arming n α} (ha : a ∈ S) :
    t ≤ a.deadline := by
  induction S generalizing t with
  | nil => cases ha
  | cons b S ih =>
      have htb : t ≤ b.deadline := h.1 ▸ Nat.le_add_right _ _
      rcases List.mem_cons.mp ha with rfl | ha
      · exact htb
      · exact Nat.le_trans htb (ih h.2 ha)

/-- The slots of a list are linked in its order, and they are the armed ones, each with the
action of its timer. -/
structure Carries (q : TimerQueue n α) (S : List (Arming n α)) : Prop where
  chain : q.toChain.Holds q.links (S.map Arming.slot)
  action_of_mem : ∀ a ∈ S, (q.cell a.slot).action = some a.action
  isArmed_iff : ∀ slot, q.isArmed slot = true ↔ slot ∈ S.map Arming.slot

/-- A queue stands for the armed timers of a list, the first one due the first. -/
structure Schedules (q : TimerQueue n α) (now : Nat) (S : List (Arming n α)) : Prop
    extends q.Carries S where
  spaced : q.Spaced now S
  sorted : S.Pairwise Arming.Before
  start_le : ∀ a ∈ S, a.start ≤ now

/-! A queue after a cell was written, and after a slot was linked or unlinked. -/

theorem isArmed_eq (q : TimerQueue n α) (slot : Fin n) :
    q.isArmed slot = (q.cell slot).action.isSome := rfl

theorem cell_setCell (q : TimerQueue n α) (slot j : Fin n) (c : TimerCell α) :
    (q.setCell slot c).cell j = if slot = j then c else q.cell j := by
  simp only [setCell, cell, get_set_fin]

theorem delta_setDelta (q : TimerQueue n α) (slot j : Fin n) (d : Ticks) :
    (q.setDelta slot d).delta j = if slot = j then d else q.delta j := by
  simp only [delta, setDelta, cell_setCell]
  split <;> rfl

theorem action_setDelta (q : TimerQueue n α) (slot j : Fin n) (d : Ticks) :
    ((q.setDelta slot d).cell j).action = (q.cell j).action := by
  rw [setDelta, cell_setCell]
  split
  · subst slot; rfl
  · rfl

theorem delta_link (q : TimerQueue n α) (slot j : Fin n) (next : Option (Fin n)) (d : Ticks)
    (action : α) : (q.link slot next d action).delta j = if slot = j then d else q.delta j := by
  unfold delta link
  rw [cell_setCell]
  split <;> rfl

theorem action_link (q : TimerQueue n α) (slot j : Fin n) (next : Option (Fin n)) (d : Ticks)
    (action : α) : ((q.link slot next d action).cell j).action =
      if slot = j then some action else (q.cell j).action := by
  unfold link
  rw [cell_setCell]
  split <;> rfl

theorem delta_unlink (q : TimerQueue n α) (slot j : Fin n) :
    (q.unlink slot).delta j = q.delta j := by
  unfold delta unlink
  rw [cell_setCell]
  split
  · subst slot; rfl
  · rfl

theorem action_unlink (q : TimerQueue n α) (slot j : Fin n) :
    ((q.unlink slot).cell j).action = if slot = j then none else (q.cell j).action := by
  unfold unlink
  rw [cell_setCell]
  split <;> rfl

namespace Carries

theorem slots_eq (h : q.Carries S) : q.slots = S.map Arming.slot := h.chain.toList

/-- Deltas may change without the timers changing. -/
theorem setDelta (h : q.Carries S) (slot : Fin n) (d : Ticks) : (q.setDelta slot d).Carries S := by
  refine ⟨h.chain, ?_, ?_⟩
  · intro a ha
    rw [action_setDelta, h.action_of_mem a ha]
  · intro j
    rw [isArmed_eq, action_setDelta, ← isArmed_eq, h.isArmed_iff]

variable {S₁ S₂ : List (Arming n α)} {x : Arming n α}

theorem link (h : q.Carries (S₁ ++ S₂)) (free : x.slot ∉ (S₁ ++ S₂).map Arming.slot) (d : Ticks) :
    (q.link x.slot (S₂.head?.map Arming.slot) d x.action).Carries (S₁ ++ x :: S₂) := by
  have hne : ∀ a ∈ S₁ ++ S₂, x.slot ≠ a.slot := by
    intro a ha he
    exact free (he ▸ List.mem_map_of_mem ha)
  refine ⟨?_, ?_, ?_⟩
  · have hc := h.chain
    rw [List.map_append] at hc free
    have hl := hc.linkBefore free
    rw [List.head?_map] at hl
    rw [List.map_append, List.map_cons]
    exact hl
  · intro a ha
    rw [action_link]
    rcases List.mem_cons.mp (List.perm_middle.mem_iff.mp ha) with rfl | ha
    · rw [if_pos rfl]
    · rw [if_neg (hne a ha), h.action_of_mem a ha]
  · intro j
    have hj := h.isArmed_iff j
    rw [isArmed_eq] at hj ⊢
    rw [action_link]
    by_cases he : x.slot = j
    · simp [he]
    · rw [if_neg he, hj]
      simp [Ne.symm he]

theorem unlink (h : q.Carries (S₁ ++ x :: S₂)) : (q.unlink x.slot).Carries (S₁ ++ S₂) := by
  have nodup := h.chain.nodup
  rw [List.map_append, List.map_cons] at nodup
  have free : x.slot ∉ (S₁ ++ S₂).map Arming.slot := by
    rw [List.map_append]
    exact (List.nodup_cons.mp (List.nodup_middle.mp nodup)).1
  refine ⟨?_, ?_, ?_⟩
  · have hc := h.chain
    rw [List.map_append, List.map_cons] at hc
    rw [List.map_append]
    exact hc.unlink
  · intro a ha
    rw [action_unlink, if_neg,
      h.action_of_mem a (List.perm_middle.mem_iff.mpr (List.mem_cons_of_mem x ha))]
    intro he
    exact free (he ▸ List.mem_map_of_mem ha)
  · intro j
    have hj := h.isArmed_iff j
    rw [isArmed_eq] at hj ⊢
    rw [action_unlink]
    by_cases he : x.slot = j
    · rw [if_pos he, ← he]
      exact iff_of_false (by simp) free
    · rw [if_neg he, hj]
      simp [Ne.symm he]

end Carries

theorem schedules_empty (n : Nat) (α : Type) (now : Nat) : (empty n α).Schedules now [] := by
  refine ⟨⟨Chain.holds_nil _, by simp, ?_⟩, trivial, List.Pairwise.nil, by simp⟩
  intro slot
  have hcell : (empty n α).cell slot = {} := get_replicate _ slot
  simp [isArmed, hcell]

theorem Schedules.deadline_lt (h : q.Schedules now S) {a : Arming n α} (ha : a ∈ S) :
    a.deadline < now + 2 ^ 32 := by
  have hs := h.start_le a ha
  have hd : a.delay.ticks < 2 ^ 32 := a.delay.lt
  unfold Arming.deadline
  omega

/-! Arming. -/

/-- The timers of a schedule that are due before a tick. -/
def dueBefore (tick : Nat) (S : List (Arming n α)) : List (Arming n α) :=
  S.takeWhile fun a => a.deadline < tick

/-- The timers of a schedule from the first one on that is not due before a tick. -/
def dueFrom (tick : Nat) (S : List (Arming n α)) : List (Arming n α) :=
  S.dropWhile fun a => a.deadline < tick

theorem dueBefore_append_dueFrom (tick : Nat) (S : List (Arming n α)) :
    dueBefore tick S ++ dueFrom tick S = S := List.takeWhile_append_dropWhile

theorem le_deadline_of_dueFrom {tick : Nat} {b : Arming n α} {rest : List (Arming n α)}
    (h : dueFrom tick S = b :: rest) : tick ≤ b.deadline := by
  have := List.head?_dropWhile_not (fun a : Arming n α => a.deadline < tick) S
  rw [show List.dropWhile _ S = b :: rest from h] at this
  simpa using this

theorem place_eq_ok {t : Nat} (h : q.Spaced t S) (time : Ticks) :
    ∃ left, q.place time (S.map Arming.slot) =
        .ok (left, (dueFrom (t + time.toNat) S).head?.map Arming.slot) ∧
      lastDeadline t (dueBefore (t + time.toNat) S) + left.toNat = t + time.toNat := by
  induction S generalizing t time with
  | nil => exact ⟨time, rfl, rfl⟩
  | cons a S ih =>
      obtain ⟨ha, hS⟩ := h
      by_cases hle : time ≤ q.delta a.slot
      · have hd : ¬ a.deadline < t + time.toNat := by
          have := UInt32.le_iff_toNat_le.mp hle
          omega
        refine ⟨time, ?_, ?_⟩
        · simp [place, hle, dueFrom, hd]
        · simp [dueBefore, hd, lastDeadline]
      · have hlt : (q.delta a.slot).toNat < time.toNat := by
          have := mt UInt32.le_iff_toNat_le.mpr hle
          omega
        obtain ⟨rest, hrest, hval⟩ := subTicks_eq_ok (Nat.le_of_lt hlt)
        have htick : a.deadline + rest.toNat = t + time.toNat := by omega
        have hd : a.deadline < t + time.toNat := by omega
        obtain ⟨left, hplace, hlast⟩ := ih hS rest
        rw [htick] at hplace hlast
        refine ⟨left, ?_, ?_⟩
        · simp only [List.map_cons, place, if_neg hle, hrest, dueFrom, List.dropWhile_cons, hd,
            decide_true, if_true]
          exact hplace
        · simp only [dueBefore, List.takeWhile_cons, hd, decide_true, if_true, lastDeadline]
          exact hlast

/-- A new timer is sorted in by its deadline and stands first among those of its own. -/
theorem sorted_insert (h : S.Pairwise Arming.Before) {x : Arming n α}
    (fresh : ∀ a ∈ S, a.serial < x.serial) :
    (dueBefore x.deadline S ++ x :: dueFrom x.deadline S).Pairwise Arming.Before := by
  have hS := h
  rw [← dueBefore_append_dueFrom x.deadline S] at hS
  obtain ⟨h₁, h₂, h₁₂⟩ := List.pairwise_append.mp hS
  refine List.pairwise_append.mpr ⟨h₁, List.pairwise_cons.mpr ⟨?_, h₂⟩, ?_⟩
  · intro b hb
    have hle : x.deadline ≤ b.deadline := by
      cases hd : dueFrom x.deadline S with
      | nil => simp [hd] at hb
      | cons c rest =>
          have hc := le_deadline_of_dueFrom hd
          rw [hd] at hb h₂
          rcases List.mem_cons.mp hb with rfl | hb
          · exact hc
          · rcases (List.pairwise_cons.mp h₂).1 b hb with hlt | ⟨heq, -⟩
            · exact Nat.le_trans hc (Nat.le_of_lt hlt)
            · exact heq ▸ hc
    rcases Nat.lt_or_eq_of_le hle with hlt | heq
    · exact .inl hlt
    · exact .inr ⟨heq, fresh b ((List.dropWhile_suffix _).subset hb)⟩
  · intro a ha b hb
    have hlt : a.deadline < x.deadline := by
      simpa using List.mem_takeWhile_imp ha
    rcases List.mem_cons.mp hb with rfl | hb
    · exact .inl hlt
    · exact h₁₂ a ha b hb

/-- A timer whose delta leads to its deadline fits behind the ones before it. -/
theorem Spaced.link {S₁ S₂ : List (Arming n α)} {x : Arming n α} {d : Ticks}
    (h : q.Spaced now (S₁ ++ S₂)) (free : x.slot ∉ (S₁ ++ S₂).map Arming.slot)
    (hd : lastDeadline now S₁ + d.toNat = x.deadline) (next : Option (Fin n)) :
    (q.link x.slot next d x.action).Spaced now (S₁ ++ [x]) := by
  rw [spaced_append]
  refine ⟨((spaced_append now S₁ S₂).mp h).1.congr fun a ha => ?_, ?_, trivial⟩
  · rw [delta_link, if_neg]
    intro he
    exact free (he ▸ List.mem_map_of_mem (List.mem_append_left S₂ ha))
  · rw [delta_link, if_pos rfl]
    exact hd

/-- The deltas of two parts of a schedule go together once that of the second part's first
timer leads from the one part to the other. -/
theorem Spaced.join {q' : TimerQueue n α} {S₁ S₂ : List (Arming n α)} {b : Arming n α} {d : Ticks}
    {t : Nat} (nodup : ((S₁ ++ b :: S₂).map Arming.slot).Nodup) (h₁ : q'.Spaced now S₁)
    (h₂ : q.Spaced t (b :: S₂)) (same : ∀ a ∈ S₂, q'.delta a.slot = q.delta a.slot)
    (hd : lastDeadline now S₁ + d.toNat = b.deadline) :
    (q'.setDelta b.slot d).Spaced now (S₁ ++ b :: S₂) := by
  rw [List.map_append, List.map_cons] at nodup
  obtain ⟨-, nodup₂, apart⟩ := List.nodup_append.mp nodup
  rw [spaced_append]
  refine ⟨h₁.congr fun a ha => ?_, ?_, h₂.2.congr fun a ha => ?_⟩
  · rw [delta_setDelta, if_neg]
    intro he
    exact apart a.slot (List.mem_map_of_mem ha) b.slot List.mem_cons_self he.symm
  · rw [delta_setDelta, if_pos rfl]
    exact hd
  · rw [delta_setDelta, if_neg, same a ha]
    intro he
    exact (List.nodup_cons.mp nodup₂).1 (he ▸ List.mem_map_of_mem ha)

theorem Schedules.arm (h : q.Schedules now S) {x : Arming n α} (hx : x.start = now)
    (free : x.slot ∉ S.map Arming.slot) (fresh : ∀ a ∈ S, a.serial < x.serial) :
    ∃ q', q.arm x.slot x.delay x.action = .ok q' ∧
      q'.Schedules now (dueBefore x.deadline S ++ x :: dueFrom x.deadline S) := by
  have hticks : (UInt32.ofNat x.delay.ticks).toNat = x.delay.ticks :=
    UInt32.toNat_ofNat_of_lt' x.delay.lt
  have hdeadline : now + x.delay.ticks = x.deadline := by rw [← hx]; rfl
  obtain ⟨left, hplace, hleft⟩ := place_eq_ok h.spaced (.ofNat x.delay.ticks)
  rw [hticks, hdeadline] at hplace hleft
  have sorted := sorted_insert h.sorted fresh
  have start_le : ∀ a ∈ dueBefore x.deadline S ++ x :: dueFrom x.deadline S, a.start ≤ now := by
    intro a ha
    rcases List.mem_cons.mp (List.perm_middle.mem_iff.mp ha) with rfl | ha
    · exact Nat.le_of_eq hx
    · exact h.start_le a (by rwa [dueBefore_append_dueFrom] at ha)
  have hnot : q.isArmed x.slot = false := by
    rw [Bool.eq_false_iff, ne_eq, h.isArmed_iff]
    exact free
  have carries := h.toCarries
  have spaced := h.spaced
  rw [← dueBefore_append_dueFrom x.deadline S] at carries spaced free
  have carries := carries.link free left
  have spaced₁ := spaced.link free hleft ((dueFrom x.deadline S).head?.map Arming.slot)
  cases hcase : dueFrom x.deadline S with
  | nil =>
      rw [hcase] at carries sorted start_le spaced₁ hplace
      refine ⟨_, ?_, carries, spaced₁, sorted, start_le⟩
      simp only [TimerQueue.arm, hnot, Bool.false_eq_true, if_false, h.slots_eq, hplace, bind,
        Except.bind]
      rfl
  | cons b rest =>
      have hdue := le_deadline_of_dueFrom hcase
      rw [hcase] at carries sorted start_le spaced₁ spaced free hplace
      have same : ∀ a ∈ b :: rest,
          (q.link x.slot (((b :: rest).head?).map Arming.slot) left x.action).delta a.slot =
            q.delta a.slot := by
        intro a ha
        rw [delta_link, if_neg]
        intro he
        exact free (he ▸ List.mem_map_of_mem (List.mem_append_right _ ha))
      have spaced₂ := ((spaced_append _ _ _).mp spaced).2
      obtain ⟨d, hsub, hd⟩ : ∃ d, subTicks
          ((q.link x.slot (((b :: rest).head?).map Arming.slot) left x.action).delta b.slot) left =
            .ok d ∧ d.toNat = (q.delta b.slot).toNat - left.toNat := by
        rw [same b List.mem_cons_self]
        apply subTicks_eq_ok
        have := spaced₂.1
        omega
      have hlast : lastDeadline now (dueBefore x.deadline S ++ [x]) + d.toNat = b.deadline := by
        have := spaced₂.1
        rw [lastDeadline_concat]
        omega
      have nodup := carries.chain.nodup
      rw [List.append_cons] at nodup
      have joined := spaced₁.join nodup spaced₂
        (fun a ha => same a (List.mem_cons_of_mem b ha)) hlast
      rw [← List.append_cons] at joined
      refine ⟨_, ?_, carries.setDelta b.slot d, joined, sorted, start_le⟩
      simp only [List.head?_cons, Option.map_some] at hsub hplace
      simp only [TimerQueue.arm, hnot, Bool.false_eq_true, if_false, h.slots_eq, hplace, hsub, bind,
        Except.bind]
      rfl

/-! Disarming. -/

theorem Schedules.disarm {S₁ S₂ : List (Arming n α)} {x : Arming n α}
    (h : q.Schedules now (S₁ ++ x :: S₂)) :
    ∃ q', q.disarm x.slot = .ok q' ∧ q'.Schedules now (S₁ ++ S₂) := by
  have harmed : q.isArmed x.slot = true := by
    rw [h.isArmed_iff]
    simp
  have hsub : (S₁ ++ S₂).Sublist (S₁ ++ x :: S₂) :=
    (List.Sublist.refl S₁).append (List.sublist_cons_self x S₂)
  have sorted := h.sorted.sublist hsub
  have start_le : ∀ a ∈ S₁ ++ S₂, a.start ≤ now := fun a ha => h.start_le a (hsub.subset ha)
  have hnext : (q.links.get x.slot).next = S₂.head?.map Arming.slot := by
    have hc := h.chain
    rw [List.map_append, List.map_cons] at hc
    rw [hc.link_of_middle, List.head?_map]
  obtain ⟨spaced₁, hx, spaced₂⟩ := (spaced_append _ _ _).mp h.spaced
  cases S₂ with
  | nil =>
      refine ⟨q.unlink x.slot, ?_, h.toCarries.unlink, ?_, sorted, start_le⟩
      · simp only [TimerQueue.disarm, harmed, if_true, hnext, List.head?_nil, Option.map_none]
        rfl
      · rw [List.append_nil]
        exact spaced₁.congr fun a _ => delta_unlink q x.slot a.slot
  | cons b S₂ =>
      obtain ⟨d, hadd, hd⟩ : ∃ d, addTicks (q.delta b.slot) (q.delta x.slot) = .ok d ∧
          d.toNat = (q.delta b.slot).toNat + (q.delta x.slot).toNat := by
        apply addTicks_eq_ok
        have hlt := h.deadline_lt (a := b) (by simp)
        have hle := spaced₁.le_lastDeadline
        have hb := spaced₂.1
        omega
      have hlast : lastDeadline now S₁ + d.toNat = b.deadline := by
        have hb := spaced₂.1
        omega
      have nodup := (h.chain.nodup).sublist (hsub.map Arming.slot)
      have joined := spaced₁.join nodup spaced₂ (fun a _ => rfl) hlast
      refine ⟨(q.setDelta b.slot d).unlink x.slot, ?_, (h.toCarries.setDelta b.slot d).unlink,
        joined.congr fun a _ => delta_unlink _ x.slot a.slot, sorted, start_le⟩
      simp only [TimerQueue.disarm, harmed, if_true, hnext, List.head?_cons, Option.map_some, hadd,
        bind, Except.bind]
      rfl

/-! Passing time and taking out what is due. -/

theorem Schedules.head_eq (h : q.Schedules now S) : q.head = S.head?.map Arming.slot := by
  rw [h.chain.head, List.head?_map]

/-- A tick may pass as long as the first timer is not due. -/
theorem Schedules.advance (h : q.Schedules now S) (ahead : ∀ a ∈ S.head?, now < a.deadline) :
    ∃ q', q.advance = .ok q' ∧ q'.Schedules (now + 1) S := by
  cases S with
  | nil =>
      refine ⟨q, ?_, h.toCarries, trivial, h.sorted, by simp⟩
      simp [TimerQueue.advance, h.head_eq]
  | cons a S =>
      have hlt := ahead a rfl
      have ha := h.spaced.1
      have hne : q.delta a.slot ≠ 0 := by
        intro h0
        rw [h0] at ha
        simp at ha
        omega
      have hd : (q.delta a.slot - 1).toNat = (q.delta a.slot).toNat - 1 := by
        refine UInt32.toNat_sub_of_le _ _ (UInt32.le_iff_toNat_le.mpr ?_)
        simp only [UInt32.toNat_one]
        omega
      have joined : (q.setDelta a.slot (q.delta a.slot - 1)).Spaced (now + 1) ([] ++ a :: S) :=
        Spaced.join h.chain.nodup trivial h.spaced (fun _ _ => rfl)
          (by simp only [lastDeadline]; omega)
      refine ⟨_, ?_, h.toCarries.setDelta a.slot (q.delta a.slot - 1), joined, h.sorted,
        fun b hb => Nat.le_succ_of_le (h.start_le b hb)⟩
      simp only [TimerQueue.advance, h.head_eq, List.head?_cons, Option.map_some, if_neg hne]

/-- A timer is due if its delta is used up. -/
theorem Schedules.delta_head_eq_zero_iff {a : Arming n α} (h : q.Schedules now (a :: S)) :
    q.delta a.slot = 0 ↔ a.deadline = now := by
  have ha := h.spaced.1
  rw [← UInt32.toNat_inj]
  simp only [UInt32.toNat_zero]
  omega

theorem Schedules.popExpired_of_due {a : Arming n α} (h : q.Schedules now (a :: S))
    (due : a.deadline = now) :
    q.popExpired.1 = some a.action ∧ q.popExpired.2.Schedules now S := by
  have h0 := h.delta_head_eq_zero_iff.mpr due
  have hpop : q.popExpired = (some a.action, q.unlink a.slot) := by
    simp only [popExpired, h.head_eq, List.head?_cons, Option.map_some, h0, if_true,
      h.action_of_mem a List.mem_cons_self]
  have hc : (q.unlink a.slot).Carries ([] ++ S) := Carries.unlink h.toCarries
  rw [hpop]
  refine ⟨rfl, hc, ?_, (List.pairwise_cons.mp h.sorted).2,
    fun b hb => h.start_le b (List.mem_cons_of_mem a hb)⟩
  have hS := h.spaced.2
  rw [due] at hS
  exact hS.congr fun b _ => delta_unlink q a.slot b.slot

theorem Schedules.popExpired_of_not_due (h : q.Schedules now S)
    (ahead : ∀ a ∈ S.head?, now < a.deadline) : q.popExpired = (none, q) := by
  cases S with
  | nil => simp [popExpired, h.head_eq]
  | cons a S =>
      have hne : q.delta a.slot ≠ 0 := by
        rw [ne_eq, h.delta_head_eq_zero_iff]
        have := ahead a rfl
        omega
      simp only [popExpired, h.head_eq, List.head?_cons, Option.map_some, if_neg hne]

/-! The time that is left. -/

theorem ticksUntil_eq {t : Nat} (h : q.Spaced t S) (nodup : (S.map Arming.slot).Nodup)
    {a : Arming n α} (ha : a ∈ S) :
    q.ticksUntil a.slot (S.map Arming.slot) = some (a.deadline - t) := by
  induction S generalizing t with
  | nil => cases ha
  | cons b S ih =>
      have hb := h.1
      rcases List.mem_cons.mp ha with rfl | ha
      · simp only [List.map_cons, ticksUntil, if_true, Option.some.injEq]
        omega
      · have hne : b.slot ≠ a.slot := by
          intro he
          exact (List.nodup_cons.mp nodup).1 (he ▸ List.mem_map_of_mem ha)
        have hle := h.2.le_deadline ha
        simp only [List.map_cons, ticksUntil, if_neg hne, ih h.2 (List.nodup_cons.mp nodup).2 ha,
          Option.map_some, Option.some.injEq]
        omega

theorem Schedules.remaining (h : q.Schedules now S) {a : Arming n α} (ha : a ∈ S) :
    q.remaining a.slot = some (a.deadline - now) := by
  have harmed : q.isArmed a.slot = true := (h.isArmed_iff _).mpr (List.mem_map_of_mem ha)
  rw [TimerQueue.remaining, if_pos harmed, h.slots_eq]
  exact ticksUntil_eq h.spaced h.chain.nodup ha

/-- The deltas up to a timer add up to the time from now to its deadline. -/
theorem Spaced.sum_delta {t : Nat} (h : q.Spaced t S) :
    t + ((S.map Arming.slot).map fun s => (q.delta s).toNat).sum = lastDeadline t S := by
  induction S generalizing t with
  | nil => rfl
  | cons a S ih =>
      have ha := h.1
      have := ih h.2
      simp only [List.map_cons, List.sum_cons, lastDeadline]
      omega

end TimerQueue

end RealtimeKernel

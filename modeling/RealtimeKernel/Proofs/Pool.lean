import RealtimeKernel.Pool
import RealtimeKernel.Proofs.Chain

/-!
Pools: an object that is written keeps its place, and a new one takes a place that no object
had before.
-/
namespace RealtimeKernel.Pool

variable {n : Nat} {α : Type} {p p' : Pool n α} {i j : Fin n} {a : α}

theorem get_set (p : Pool n α) (i j : Fin n) (a : α) :
    (p.set i a).get j = if j = i then a else p.get j := by
  simp only [get, set, get_set_fin, eq_comm]

theorem contains_iff : p.contains i = true ↔ i.val < p.used := decide_eq_true_iff

theorem get_push (h : p.push? a = some (i, p')) : p'.get j = if j = i then a else p.get j := by
  unfold push? at h
  split at h
  case isTrue hused =>
    obtain ⟨rfl, rfl⟩ := Prod.mk.inj (Option.some.inj h)
    exact (get_set_fin p.items ⟨p.used, hused⟩ j a).trans (if_congr eq_comm rfl rfl)
  case isFalse => cases h

theorem contains_push (h : p.push? a = some (i, p')) :
    p'.contains j = true ↔ j = i ∨ p.contains j = true := by
  unfold push? at h
  split at h
  · obtain ⟨rfl, rfl⟩ := Prod.mk.inj (Option.some.inj h)
    rw [contains_iff, contains_iff, Fin.ext_iff]
    change j.val < p.used + 1 ↔ j.val = p.used ∨ j.val < p.used
    omega
  · cases h

theorem not_contains_of_push (h : p.push? a = some (i, p')) : p.contains i = false := by
  unfold push? at h
  split at h
  · obtain ⟨rfl, -⟩ := Prod.mk.inj (Option.some.inj h)
    exact decide_eq_false (Nat.lt_irrefl _)
  · cases h

/-! Places that are left. -/

/-- The places not used yet. -/
def free (p : Pool n α) : List (Fin n) := (List.finRange n).filter fun i => !p.contains i

theorem length_free (p : Pool n α) : p.free.length = n - p.used := by
  have hrange : ∀ m u : Nat, ((List.range m).filter fun i => !decide (i < u)).length = m - u := by
    intro m u
    induction m with
    | zero => simp
    | succ m ih =>
        rw [List.range_succ, List.filter_append, List.length_append, ih]
        by_cases hm : m < u
        · rw [List.filter_cons_of_neg (by simpa using hm), List.filter_nil, List.length_nil]
          omega
        · rw [List.filter_cons_of_pos (by simpa using hm), List.filter_nil, List.length_singleton]
          omega
  rw [← hrange n p.used, ← List.map_coe_finRange_eq_range, List.filter_map, List.length_map]
  rfl

/-- Every place is used. -/
def IsFull (p : Pool n α) : Prop := ∀ i, p.contains i = true

theorem isFull_iff : p.IsFull ↔ p.used = n := by
  constructor
  · intro h
    refine Nat.le_antisymm p.used_le (Nat.le_of_not_lt fun hlt => ?_)
    exact Nat.lt_irrefl _ (contains_iff.mp (h ⟨p.used, hlt⟩))
  · intro h i
    rw [contains_iff, h]
    exact i.isLt

theorem push?_of_full (h : p.IsFull) (a : α) : p.push? a = none := by
  unfold push?
  exact dif_neg (by rw [isFull_iff.mp h]; exact Nat.lt_irrefl n)

theorem exists_push (h : ¬ p.IsFull) (a : α) :
    ∃ i p', p.push? a = some (i, p') ∧ p'.used = p.used + 1 := by
  have hlt : p.used < n := Nat.lt_of_le_of_ne p.used_le fun heq => h (isFull_iff.mpr heq)
  unfold push?
  rw [dif_pos hlt]
  exact ⟨_, _, rfl, rfl⟩

end RealtimeKernel.Pool

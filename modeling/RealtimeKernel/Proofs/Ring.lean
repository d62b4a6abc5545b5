import RealtimeKernel.Proofs.Chain
import RealtimeKernel.Ring

/-!
Rings as bounded lists. The cursors of a ring that holds a list are apart by its length, so
writing at either end never meets a cell in use as long as there is a free one.
-/
namespace RealtimeKernel.Ring

variable {α : Type} {c : Nat} {r : Ring α c} {l : List α} {a : α} {i p : Fin c} {k n : Nat}

theorem val_succ (i : Fin c) : (succ i).val = if i.val + 1 < c then i.val + 1 else 0 := by
  have hi := i.isLt
  change (i.val + 1) % c = _
  split
  · rename_i h
    exact Nat.mod_eq_of_lt h
  · rename_i h
    rw [show i.val + 1 = c by omega]
    exact Nat.mod_self c

theorem val_pred (i : Fin c) : (pred i).val = if i.val = 0 then c - 1 else i.val - 1 := by
  have hi := i.isLt
  change (i.val + (c - 1)) % c = _
  split
  · rename_i h
    rw [h, Nat.zero_add]
    exact Nat.mod_eq_of_lt (by omega)
  · rename_i h
    rw [show i.val + (c - 1) = i.val - 1 + c by omega, Nat.add_mod_right]
    exact Nat.mod_eq_of_lt (by omega)

/-- The cell so many places on. -/
def skip : Nat → Fin c → Fin c
  | 0, i => i
  | n + 1, i => skip n (succ i)

theorem val_skip (h : n ≤ c) :
    (skip n i).val = if i.val + n < c then i.val + n else i.val + n - c := by
  have hi := i.isLt
  induction n generalizing i with
  | zero => simp [skip, hi]
  | succ n ih =>
      have hsucc := val_succ i
      rw [skip, ih (by omega) (succ i).isLt, hsucc]
      split <;> split <;> split <;> omega

theorem skip_succ (n : Nat) (i : Fin c) : skip (n + 1) i = succ (skip n i) := by
  induction n generalizing i with
  | zero => rfl
  | succ n ih => exact ih (succ i)

theorem succ_pred (i : Fin c) : succ (pred i) = i := by
  have hi := i.isLt
  have hpred := val_pred i
  apply Fin.ext
  rw [val_succ, hpred]
  split <;> split <;> omega

theorem skip_ne (hk : k < n) (hn : n < c) : skip k i ≠ skip n i := by
  intro h
  have hi := i.isLt
  have hval := congrArg Fin.val h
  rw [val_skip (by omega), val_skip (by omega)] at hval
  split at hval <;> split at hval <;> omega

theorem contentsFrom_succ (r : Ring α c) (k : Nat) (i : Fin c) :
    r.contentsFrom (k + 1) i = r.contentsFrom k i ++ [r.cells.get (skip k i)] := by
  induction k generalizing i with
  | zero => rfl
  | succ k ih =>
      rw [contentsFrom, ih (succ i)]
      rfl

/-- A cell that is not among those read may be written. -/
theorem contentsFrom_set {r' : Ring α c} (hcells : r'.cells = r.cells.set p a p.isLt)
    (h : ∀ n, n < k → skip n i ≠ p) : r'.contentsFrom k i = r.contentsFrom k i := by
  induction k generalizing i with
  | zero => rfl
  | succ k ih =>
      rw [contentsFrom, contentsFrom, ih fun n hn => h (n + 1) (by omega)]
      have hne := h 0 (by omega)
      rw [hcells, get_set_fin, if_neg fun hp => hne hp.symm]

/-- A ring whose cells in use hold a list. -/
structure Holds (r : Ring α c) (l : List α) : Prop where
  contents : r.contents l.length = l
  write : r.write = skip l.length r.read
  length_le : l.length ≤ c

theorem holds_empty (blank : α) (h : 0 < c) : (empty blank h).Holds [] :=
  ⟨rfl, rfl, Nat.zero_le c⟩

theorem holds_rewind (r : Ring α c) : r.rewind.Holds [] := ⟨rfl, rfl, Nat.zero_le c⟩

theorem Holds.pushBack (h : r.Holds l) (room : l.length < c) (a : α) :
    (r.pushBack a).Holds (l ++ [a]) := by
  have hcells : (r.pushBack a).cells = r.cells.set r.write a r.write.isLt := rfl
  have hread : (r.pushBack a).read = r.read := rfl
  refine ⟨?_, ?_, ?_⟩
  · have hrest : (r.pushBack a).contentsFrom l.length r.read = l := by
      rw [contentsFrom_set hcells]
      · exact h.contents
      · intro n hn
        rw [h.write]
        exact skip_ne hn room
    rw [List.length_append, List.length_singleton, Ring.contents, hread, contentsFrom_succ, hrest,
      hcells, get_set_fin, if_pos h.write]
  · rw [List.length_append, List.length_singleton, skip_succ]
    exact congrArg succ h.write
  · rw [List.length_append, List.length_singleton]
    exact room

theorem Holds.pushFront (h : r.Holds l) (room : l.length < c) (a : α) :
    (r.pushFront a).Holds (a :: l) := by
  have hcells : (r.pushFront a).cells = r.cells.set (pred r.read) a (pred r.read).isLt := rfl
  refine ⟨?_, ?_, room⟩
  · have hrest : (r.pushFront a).contentsFrom l.length (succ (pred r.read)) = l := by
      rw [contentsFrom_set hcells, succ_pred]
      · exact h.contents
      · intro n hn
        exact (skip_ne (k := 0) (n := n + 1) (i := pred r.read) (by omega) (by omega)).symm
    change (r.pushFront a).contentsFrom (l.length + 1) (pred r.read) = a :: l
    rw [contentsFrom, hrest, hcells, get_set_fin, if_pos rfl]
  · change r.write = skip l.length (succ (pred r.read))
    rw [succ_pred]
    exact h.write

theorem Holds.popFront (h : r.Holds (a :: l)) : r.popFront.1 = a ∧ r.popFront.2.Holds l := by
  have hcontents := h.contents
  rw [List.length_cons, Ring.contents, contentsFrom] at hcontents
  obtain ⟨hfirst, hrest⟩ := List.cons.inj hcontents
  refine ⟨hfirst, ?_, h.write, Nat.le_of_succ_le h.length_le⟩
  have hsame : ∀ k i, r.popFront.2.contentsFrom k i = r.contentsFrom k i := by
    intro k
    induction k with
    | zero => exact fun _ => rfl
    | succ k ih =>
        intro i
        rw [contentsFrom, contentsFrom, ih]
        rfl
  exact (hsame _ _).trans hrest

end RealtimeKernel.Ring

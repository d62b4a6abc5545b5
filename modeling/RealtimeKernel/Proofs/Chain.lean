import Mathlib.Data.Fintype.Card
import Mathlib.Data.List.Induction
import RealtimeKernel.Chain

/-!
Chains as lists. `Chain.Holds` says that a chain and the links have exactly the members of a
list, in order and in both directions; putting an element in and taking one out then act on
that list, and on no link of an element outside it.
-/
namespace RealtimeKernel

/-- A table read after one place was written. -/
theorem get_set_fin {α : Type} {n : Nat} (v : Vector α n) (i j : Fin n) (a : α) :
    (v.set i a i.isLt).get j = if i = j then a else v.get j := by
  change getElem (v.set i a i.isLt) j.val j.isLt = if i = j then a else getElem v j.val j.isLt
  simp only [Vector.getElem_set, Fin.ext_iff]

theorem get_replicate {α : Type} {n : Nat} (a : α) (i : Fin n) :
    (Vector.replicate n a).get i = a := Vector.getElem_replicate _

namespace Links
variable {n : Nat} {links : Links n}

theorem get_setNext (links : Links n) (place next : Option (Fin n)) (j : Fin n) :
    (links.setNext place next).get j =
      if place = some j then { links.get j with next } else links.get j := by
  cases place with
  | none => simp [setNext]
  | some i =>
      simp only [setNext, get_set_fin, Option.some.injEq]
      split
      · subst i; rfl
      · rfl

theorem get_setPrev (links : Links n) (place prev : Option (Fin n)) (j : Fin n) :
    (links.setPrev place prev).get j =
      if place = some j then { links.get j with prev } else links.get j := by
  cases place with
  | none => simp [setPrev]
  | some i =>
      simp only [setPrev, get_set_fin, Option.some.injEq]
      split
      · subst i; rfl
      · rfl

/-- The elements of a list are linked one to the next, after `p` and before `s`. -/
def Segment (links : Links n) : Option (Fin n) → List (Fin n) → Option (Fin n) → Prop
  | _, [], _ => True
  | p, i :: l, s => links.get i = ⟨p, l.head?.or s⟩ ∧ links.Segment (some i) l s

theorem segment_append (p s : Option (Fin n)) (l₁ l₂ : List (Fin n)) :
    links.Segment p (l₁ ++ l₂) s ↔
      links.Segment p l₁ (l₂.head?.or s) ∧ links.Segment (l₁.getLast?.or p) l₂ s := by
  induction l₁ generalizing p with
  | nil => simp [Segment]
  | cons i l₁ ih =>
      have last : (i :: l₁).getLast?.or p = l₁.getLast?.or (some i) := by
        cases l₁ with
        | nil => rfl
        | cons j l => simp [List.getLast?_cons]
      simp only [List.cons_append, Segment, ih, last, and_assoc, List.head?_append, Option.or_assoc]

theorem Segment.congr {links' : Links n} {p s : Option (Fin n)} {l : List (Fin n)}
    (h : links.Segment p l s) (same : ∀ i ∈ l, links'.get i = links.get i) :
    links'.Segment p l s := by
  induction l generalizing p with
  | nil => trivial
  | cons i l ih =>
      refine ⟨(same i (by simp)).trans h.1, ih h.2 ?_⟩
      intro j hj
      exact same j (List.mem_cons_of_mem i hj)

/-- Another element goes before the first one. -/
theorem Segment.setPrev {p s : Option (Fin n)} {l : List (Fin n)} (h : links.Segment p l s)
    (nodup : l.Nodup) (p' : Option (Fin n)) : (links.setPrev l.head? p').Segment p' l s := by
  cases l with
  | nil => trivial
  | cons i l =>
      have hi := (List.nodup_cons.mp nodup).1
      refine ⟨?_, h.2.congr ?_⟩
      · simp only [List.head?_cons, get_setPrev, if_true, h.1]
      · intro j hj
        rw [List.head?_cons, get_setPrev, if_neg]
        rintro ⟨⟩
        exact hi hj

/-- Another element comes after the last one. -/
theorem Segment.setNext {p s : Option (Fin n)} {l : List (Fin n)} (h : links.Segment p l s)
    (nodup : l.Nodup) (s' : Option (Fin n)) : (links.setNext l.getLast? s').Segment p l s' := by
  rcases List.eq_nil_or_concat l with rfl | ⟨l, i, rfl⟩
  · trivial
  · rw [List.concat_eq_append] at *
    have hi : i ∉ l := by
      intro hi
      exact (List.nodup_append.mp nodup).2.2 i hi i (by simp) rfl
    rw [segment_append] at h ⊢
    refine ⟨h.1.congr ?_, ?_, trivial⟩
    · intro j hj
      rw [List.getLast?_concat, get_setNext, if_neg]
      rintro ⟨⟩
      exact hi hj
    · rw [List.getLast?_concat, get_setNext, if_pos rfl, h.2.1]
      rfl

theorem Segment.forward {p : Option (Fin n)} {l : List (Fin n)} (h : links.Segment p l none)
    {bound : Nat} (hb : l.length ≤ bound) : links.forward bound l.head? = l := by
  induction l generalizing p bound with
  | nil => cases bound <;> rfl
  | cons i l ih =>
      cases bound with
      | zero => cases hb
      | succ bound =>
          have hn : (links.get i).next = l.head? := by rw [h.1, Option.or_none]
          simp only [List.head?_cons, Links.forward, hn]
          rw [ih h.2 (Nat.le_of_succ_le_succ hb)]

theorem Segment.backward {s : Option (Fin n)} {l : List (Fin n)} (h : links.Segment none l s)
    {bound : Nat} (hb : l.length ≤ bound) : links.backward bound l.getLast? = l.reverse := by
  induction l using List.reverseRecOn generalizing s bound with
  | nil => cases bound <;> rfl
  | append_singleton l i ih =>
      rw [segment_append] at h
      cases bound with
      | zero => simp at hb
      | succ bound =>
          have hp : (links.get i).prev = l.getLast? := by rw [h.2.1, Option.or_none]
          simp only [List.getLast?_concat, Links.backward, hp, List.reverse_concat]
          rw [ih h.1 (by simpa using hb)]

end Links

namespace Chain
variable {n : Nat} {c : Chain n} {links : Links n}

/-- The chain has exactly the members of a list, in order. -/
structure Holds (c : Chain n) (links : Links n) (l : List (Fin n)) : Prop where
  head : c.head = l.head?
  tail : c.tail = l.getLast?
  nodup : l.Nodup
  segment : links.Segment none l none

theorem holds_nil (links : Links n) : ({} : Chain n).Holds links [] :=
  ⟨rfl, rfl, List.nodup_nil, trivial⟩

theorem Holds.length_le {l : List (Fin n)} (h : c.Holds links l) : l.length ≤ n := by
  simpa using h.nodup.length_le_card

theorem Holds.toList {l : List (Fin n)} (h : c.Holds links l) : c.toList links = l := by
  rw [Chain.toList, h.head]
  exact h.segment.forward h.length_le

theorem Holds.toListBack {l : List (Fin n)} (h : c.Holds links l) :
    c.toListBack links = l.reverse := by
  rw [Chain.toListBack, h.tail]
  exact h.segment.backward h.length_le

/-- Only the links of members count. -/
theorem Holds.congr {links' : Links n} {l : List (Fin n)} (h : c.Holds links l)
    (same : ∀ i ∈ l, links'.get i = links.get i) : c.Holds links' l :=
  ⟨h.head, h.tail, h.nodup, h.segment.congr same⟩

theorem unlink_self (c : Chain n) (links : Links n) (i : Fin n) :
    (c.unlink links i).2.get i = {} := by
  simp only [unlink, get_set_fin, if_true]

section Link
variable {l₁ l₂ : List (Fin n)} {i : Fin n}

theorem Holds.preceding (h : c.Holds links (l₁ ++ l₂)) :
    c.preceding links l₂.head? = l₁.getLast? := by
  cases l₂ with
  | nil => simpa [Chain.preceding] using h.tail
  | cons j l =>
      have hs := ((Links.segment_append _ _ _ _).mp h.segment).2.1
      rw [List.head?_cons, Chain.preceding, hs, Option.or_none]

theorem Holds.linkBefore (h : c.Holds links (l₁ ++ l₂)) (hi : i ∉ l₁ ++ l₂) :
    (c.linkBefore links i l₂.head?).1.Holds (c.linkBefore links i l₂.head?).2
      (l₁ ++ i :: l₂) := by
  have nodup : (l₁ ++ i :: l₂).Nodup := List.nodup_middle.mpr (List.nodup_cons.mpr ⟨hi, h.nodup⟩)
  have hi₁ : i ∉ l₁ := fun hm => hi (List.mem_append_left l₂ hm)
  have hi₂ : i ∉ l₂ := fun hm => hi (List.mem_append_right l₁ hm)
  obtain ⟨nodup₁, nodup₂, apart⟩ := List.nodup_append.mp h.nodup
  obtain ⟨seg₁, seg₂⟩ := (Links.segment_append _ _ _ _).mp h.segment
  have last : ∀ {j}, l₁.getLast? = some j → j ∈ l₁ := List.mem_of_getLast?
  have first : ∀ {j}, l₂.head? = some j → j ∈ l₂ := List.mem_of_head?
  unfold Chain.linkBefore
  simp only [h.preceding]
  refine ⟨?_, ?_, nodup, ?_⟩
  · cases l₁ with
    | nil => rfl
    | cons j l => simp [h.head, List.getLast?_cons]
  · cases l₂ with
    | nil => simp
    | cons j l => simp [h.tail, List.getLast?_append, List.getLast?_cons]
  · rw [Links.segment_append]
    refine ⟨?_, ?_, ?_⟩
    · -- The members before the new one keep their links but for the last `next`.
      have hs : (Links.setNext (links.set i ⟨l₁.getLast?, l₂.head?⟩ i.isLt) l₁.getLast?
          (some i)).Segment none l₁ (some i) := by
        refine Links.Segment.setNext (seg₁.congr fun j hj => ?_) nodup₁ (some i)
        rw [get_set_fin, if_neg]
        rintro rfl
        exact hi₁ hj
      refine hs.congr fun j hj => ?_
      rw [Links.get_setPrev, if_neg]
      exact fun hf => apart j hj j (first hf) rfl
    · rw [Links.get_setPrev, if_neg (fun hf => hi₂ (first hf)), Links.get_setNext,
        if_neg (fun hl => hi₁ (last hl)), get_set_fin, if_pos rfl]
      simp
    · refine Links.Segment.setPrev (seg₂.congr fun j hj => ?_) nodup₂ (some i)
      rw [Links.get_setNext, if_neg (fun hl => apart j (last hl) j hj rfl),
        get_set_fin, if_neg]
      rintro rfl
      exact hi₂ hj

/-- A new member changes its own link and those of its neighbours. -/
theorem Holds.linkBefore_frame (h : c.Holds links (l₁ ++ l₂)) {j : Fin n} (hji : j ≠ i)
    (hj : j ∉ l₁ ++ l₂) : (c.linkBefore links i l₂.head?).2.get j = links.get j := by
  have hl : l₁.getLast? ≠ some j := fun hl =>
    hj (List.mem_append_left l₂ (List.mem_of_getLast? hl))
  have hf : l₂.head? ≠ some j := fun hf =>
    hj (List.mem_append_right l₁ (List.mem_of_head? hf))
  unfold Chain.linkBefore
  simp only [h.preceding]
  rw [Links.get_setPrev, if_neg hf, Links.get_setNext, if_neg hl, get_set_fin,
    if_neg hji.symm]

/-- The neighbours of a member. -/
theorem Holds.link_of_middle (h : c.Holds links (l₁ ++ i :: l₂)) :
    links.get i = ⟨l₁.getLast?, l₂.head?⟩ := by
  have hs := ((Links.segment_append _ _ _ _).mp h.segment).2.1
  simpa using hs

theorem Holds.unlink (h : c.Holds links (l₁ ++ i :: l₂)) :
    (c.unlink links i).1.Holds (c.unlink links i).2 (l₁ ++ l₂) := by
  obtain ⟨hi, nodup⟩ := List.nodup_cons.mp (List.nodup_middle.mp h.nodup)
  have hi₁ : i ∉ l₁ := fun hm => hi (List.mem_append_left l₂ hm)
  have hi₂ : i ∉ l₂ := fun hm => hi (List.mem_append_right l₁ hm)
  obtain ⟨nodup₁, nodup₂, apart⟩ := List.nodup_append.mp nodup
  obtain ⟨seg₁, -, seg₂⟩ := (Links.segment_append _ _ _ _).mp h.segment
  unfold Chain.unlink
  simp only [h.link_of_middle]
  refine ⟨?_, ?_, nodup, ?_⟩
  · cases l₁ with
    | nil => rfl
    | cons j l => simp [h.head, List.getLast?_cons]
  · cases l₂ with
    | nil => simp
    | cons j l => simp [h.tail, List.getLast?_append, List.getLast?_cons]
  · rw [Links.segment_append]
    constructor
    · have hs : (Links.setNext links l₁.getLast? l₂.head?).Segment none l₁ l₂.head? :=
        Links.Segment.setNext seg₁ nodup₁ l₂.head?
      rw [Option.or_none]
      refine hs.congr fun j hj => ?_
      rw [get_set_fin, if_neg (by rintro rfl; exact hi₁ hj), Links.get_setPrev, if_neg]
      exact fun hf => apart j hj j (List.mem_of_head? hf) rfl
    · have hs : (Links.setPrev (Links.setNext links l₁.getLast? l₂.head?) l₂.head?
          l₁.getLast?).Segment l₁.getLast? l₂ none := by
        refine Links.Segment.setPrev (seg₂.congr fun j hj => ?_) nodup₂ l₁.getLast?
        rw [Links.get_setNext, if_neg]
        exact fun hl => apart j (List.mem_of_getLast? hl) j hj rfl
      rw [Option.or_none]
      refine hs.congr fun j hj => ?_
      rw [get_set_fin, if_neg]
      rintro rfl
      exact hi₂ hj

theorem Holds.unlink_frame (h : c.Holds links (l₁ ++ i :: l₂)) {j : Fin n}
    (hj : j ∉ l₁ ++ i :: l₂) : (c.unlink links i).2.get j = links.get j := by
  have hij : i ≠ j := by rintro rfl; exact hj (by simp)
  have hl : l₁.getLast? ≠ some j := fun hl =>
    hj (List.mem_append_left _ (List.mem_of_getLast? hl))
  have hf : l₂.head? ≠ some j := fun hf =>
    hj (List.mem_append_right _ (List.mem_cons_of_mem i (List.mem_of_head? hf)))
  unfold Chain.unlink
  simp only [h.link_of_middle]
  rw [get_set_fin, if_neg hij, Links.get_setPrev, if_neg hf, Links.get_setNext,
    if_neg hl]

end Link

end Chain

end RealtimeKernel

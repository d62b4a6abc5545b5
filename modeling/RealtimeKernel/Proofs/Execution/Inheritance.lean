import RealtimeKernel.Proofs.Execution.History
import RealtimeKernel.Proofs.Kernel.Inheritance

/-!
Priorities at every boundary of an operation and at every switch between threads: each thread
runs at the priority that its own one and its waiters ask for, neither below nor above it.
-/
namespace RealtimeKernel

theorem Priority.isLeast_foldl_highest (l : List Priority) (b : Priority) :
    IsLeast {n | n = b.level ∨ ∃ p ∈ l, n = p.level} (l.foldl Priority.highest b).level := by
  induction l generalizing b with
  | nil => simp [isLeast_singleton]
  | cons p l ih =>
      obtain ⟨hmem, hle⟩ := ih (b.highest p)
      rw [List.foldl_cons]
      have hstep := Priority.level_highest b p
      refine ⟨?_, ?_⟩
      · rcases hmem with hmem | ⟨q, hq, hn⟩
        · rcases Nat.le_total b.level p.level with h | h
          · exact Or.inl (by omega)
          · exact Or.inr ⟨p, List.mem_cons_self, by omega⟩
        · exact Or.inr ⟨q, List.mem_cons_of_mem p hq, hn⟩
      · have hfirst := hle (Or.inl rfl)
        rintro n (hn | ⟨q, hq, hn⟩)
        · omega
        · rcases List.mem_cons.mp hq with rfl | hq
          · omega
          · exact hle (Or.inr ⟨q, hq, hn⟩)

theorem Priority.eq_foldl_highest_iff {b p : Priority} {l : List Priority} :
    p = l.foldl Priority.highest b ↔
      IsLeast {n | n = b.level ∨ ∃ q ∈ l, n = q.level} p.level := by
  have hleast := Priority.isLeast_foldl_highest l b
  constructor
  · rintro rfl
    exact hleast
  · exact fun h => Priority.ext_level (h.unique hleast)

namespace Kernel
variable {k : Kernel} {t o : ThreadId} {p : Priority}

/-- The priorities of all that wait for a mutex of a thread. -/
def lenders (k : Kernel) (t : ThreadId) : List Priority :=
  (k.thread t).held.flatMap fun m => (k.members (.mutex m)).map k.priorityOf

/-- A thread waits for a mutex of another one. -/
def WaitsFor (k : Kernel) (t o : ThreadId) : Prop :=
  ∃ m, t ∈ k.members (.mutex m) ∧ m ∈ (k.thread o).held

structure Inherits (k : Kernel) : Prop where
  /-- The priority of a thread is the most urgent one of its own and of its lenders. -/
  priority_eq : ∀ t,
    (k.thread t).priority = (k.lenders t).foldl Priority.highest (k.thread t).base
  /-- So it is passed on along chains of owners, however long. -/
  chain : ∀ t o, Relation.ReflTransGen k.WaitsFor t o →
    (k.priorityOf o).level ≤ (k.priorityOf t).level
  /-- A thread that owns nothing is lent nothing. -/
  base : ∀ t, (k.thread t).held = [] → (k.thread t).priority = (k.thread t).base

theorem mem_lenders :
    p ∈ k.lenders t ↔ ∃ m ∈ (k.thread t).held, ∃ u ∈ k.members (.mutex m), k.priorityOf u = p := by
  simp only [lenders, List.mem_flatMap, List.mem_map]

/-- The levels that a thread is offered are its own one and those of its lenders. -/
theorem levels_eq_offers (hk : k.Linked) (t : ThreadId) :
    {n | n = (k.thread t).base.level ∨ ∃ p ∈ k.lenders t, n = p.level} = k.offers t := by
  ext n
  simp only [offers, mem_lenders, Set.mem_ofPred_eq]
  constructor
  · rintro (hn | ⟨p, ⟨m, hm, u, hu, rfl⟩, hn⟩)
    · exact Or.inl hn
    · exact Or.inr ⟨m, hm, u, (hk.mem_iff u _).mp hu, hn⟩
  · rintro (hn | ⟨m, hm, u, hu, hn⟩)
    · exact Or.inl hn
    · exact Or.inr ⟨_, ⟨m, hm, u, (hk.mem_iff u _).mpr hu, rfl⟩, hn⟩

theorem exact_iff (hk : k.Linked) : k.Exact ↔ ∀ t,
    (k.thread t).priority = (k.lenders t).foldl Priority.highest (k.thread t).base := by
  simp only [Exact, Priority.eq_foldl_highest_iff, levels_eq_offers hk]
  exact Iff.rfl

theorem Exact.inherits (he : k.Exact) (hk : k.InPlace) : k.Inherits := by
  refine ⟨(exact_iff hk.toLinked).mp he, ?_, fun t => he.priority_eq_base⟩
  intro t o hchain
  induction hchain with
  | refl => exact Nat.le_refl _
  | @tail u v _ hwaits ih =>
      obtain ⟨m, hu, hm⟩ := hwaits
      exact ((he v).2 (Or.inr ⟨m, hm, u, (hk.mem_iff u _).mp hu, rfl⟩)).trans ih

end Kernel

namespace Execution
open Kernel
variable {h : History} {x y : Execution} {m : Move}

/-- A thread that changes its base priority owns no mutex then. -/
def Record.keepsBase (r : Record) : Bool :=
  match r.move with
  | .call (.operation (.setPriority _)) => r.before.kernel.running.held.isEmpty
  | _ => true

def OwnersKeepBase (h : History) : Prop := ∀ r ∈ h, r.keepsBase = true

instance (h : History) : Decidable (OwnersKeepBase h) :=
  inferInstanceAs (Decidable (∀ r ∈ h, r.keepsBase = true))

theorem Move.touches_ownerBase (ht : m.touches x .ownerBase) :
    ∃ p, m = .call (.operation (.setPriority p)) ∧ x.kernel.running.held ≠ [] := by
  cases m with
  | call c =>
      cases c with
      | operation c =>
          have ht : c.touches x.kernel .ownerBase := ht
          cases c with
          | setPriority p => exact ⟨p, rfl, ht.2⟩
          | _ => simp [Operation.touches, BoxParts] at ht
      | boot => exact absurd ht id
      | spawn name p r =>
          obtain ⟨t, hbase, -⟩ := ht
          cases hbase
      | exit msg => cases ht
  | interrupt c =>
      have ht : c.touches x.kernel .ownerBase := ht
      cases c <;> simp [InterruptCall.touches, BoxParts] at ht
  | advance =>
      obtain ⟨f, -, -, ht⟩ := ht
      cases f <;> simp [Frame.touches, BoxParts] at ht
  | _ => exact absurd ht id

theorem solo_exact (config : Config) (quantumLeft : Nat) :
    (solo config (bootThread config) quantumLeft).Exact := by
  intro t
  have hthread : ((solo config (bootThread config) quantumLeft).thread t).held = [] ∧
      ((solo config (bootThread config) quantumLeft).thread t).priority =
        ((solo config (bootThread config) quantumLeft).thread t).base := by
    rw [thread_solo]
    split <;> exact ⟨rfl, rfl⟩
  rw [offers_of_held_nil hthread.1, priorityOf, hthread.2]
  exact isLeast_singleton

theorem Reaches.exact (hr : Reaches h x) (hj : JoinedOnce h) (ho : OwnersKeepBase h) :
    x.kernel.Exact := by
  induction hr with
  | boot hb =>
      obtain ⟨-, he⟩ := hb.induction (fun config => solo_exact config _)
        (fun k t he => he.congr rfl) fun k k' hk heffect he => heffect.exact hk he nofun
      exact he
  | @move h x y m hr hallows hmove ih =>
      have hx := hr.orderly hj.tail
      have he := ih hj.tail fun r hr => ho r (List.mem_cons_of_mem _ hr)
      refine (move_does hx.fit hallows hmove).exact hx.sound he ?_
      intro ht
      obtain ⟨p, rfl, hheld⟩ := Move.touches_ownerBase ht
      exact hheld (List.isEmpty_iff.mp (ho _ List.mem_cons_self))

theorem reaches_inherits (hr : Reaches h x) (hj : JoinedOnce h) (ho : OwnersKeepBase h) :
    x.kernel.Inherits :=
  (hr.exact hj ho).inherits (hr.orderly hj).sound.inPlace

/-- A thread of a higher priority waits for a mutex of the boot thread. -/
def contending : List Move :=
  [.takeAnswer, .call (.operation (.setPriority (.raised .normal 1))), .takeAnswer,
    .call (.operation .createMutex), .takeAnswer, .call (.operation (.lock 0)), .takeAnswer,
    .call (.spawn "urgent" .critical "work"), .enter, .call (.operation (.lock 0))]

theorem inherits_contending : Reaches (enact contending).1 (enact contending).2 ∧
    JoinedOnce (enact contending).1 ∧ OwnersKeepBase (enact contending).1 ∧
    (enact contending).2.kernel.Inherits :=
  have hr := reaches_enact (by decide +kernel)
  have hj : JoinedOnce (enact contending).1 := by decide +kernel
  have ho : OwnersKeepBase (enact contending).1 := by decide +kernel
  ⟨hr, hj, ho, reaches_inherits hr hj ho⟩

end Execution

end RealtimeKernel

import RealtimeKernel.Proofs.Execution.Preemption
import RealtimeKernel.Proofs.Execution.Simultaneous
import RealtimeKernel.Proofs.Kernel.Quantum

/-!
What a thread has of the processor while an equal waits for it. Until its quantum is used up it
may go on, and then the other one comes first. But a thread of a higher priority may take the
processor from it before that, and then it has a whole quantum again.
-/
namespace RealtimeKernel.Execution
open Kernel

/-- One of two threads of the same priority waits for the processor. -/
structure Rivals (a b : ThreadId) (k : Kernel) : Prop where
  waits : b ∈ k.members .ready
  equal : k.priorityOf a = k.priorityOf b

theorem rivals_iff {a b : ThreadId} {k : Kernel} :
    Rivals a b k ↔
      (k.members .ready).contains b = true ∧ k.priorityOf a = k.priorityOf b := by
  rw [List.contains_iff_mem]
  constructor
  · exact fun h => ⟨h.waits, h.equal⟩
  · rintro ⟨hwaits, hequal⟩
    exact ⟨hwaits, hequal⟩

instance (a b : ThreadId) (k : Kernel) : Decidable (Rivals a b k) :=
  decidable_of_iff _ rivals_iff.symm

/-- Does a tick begin while a thread runs? -/
def Record.charges (a : ThreadId) (r : Record) : Bool :=
  r.isTick && decide (r.before.kernel.current = a)

/-- Is a thread preempted that has some of its quantum left? -/
def Record.cutsShort (a : ThreadId) (r : Record) : Bool :=
  decide (CutShort a r.before.kernel r.after.kernel)

def charged (a : ThreadId) (h : History) : Nat := h.countP (Record.charges a)

def cuts (a : ThreadId) (h : History) : Nat := h.countP (Record.cutsShort a)

/-- What a thread has of a time in which an equal waits. -/
structure Shares (quantum : Nat) (a : ThreadId) (during : History) : Prop where
  /-- It has one quantum, and one more whenever it is preempted with some of its quantum left. -/
  bounded : charged a during + cuts a during ≤ quantum * (cuts a during + 1)
  /-- When it leaves the processor in another way it does not come back. -/
  once : ∀ later r earlier, during = later ++ r :: earlier → r.before.kernel.current = a →
    r.after.kernel.current ≠ a → ¬ CutShort a r.before.kernel r.after.kernel →
      ∀ r' ∈ later, r'.after.kernel.current ≠ a

variable {x y : Execution} {h later during earlier : History} {m : Move} {a b : ThreadId}
  {r : Record}

/-! One move. -/

theorem move_unlent_or (hx : x.Fit) (hallows : x.allows m = true) (hmove : x.move m = .ok y) :
    (∃ m frames, x.kernel.lock m = .ok (y.kernel, frames)) ∨ Unlent x.kernel y.kernel :=
  (move_lends_or hx hallows hmove).imp (fun ⟨m, frames, _, hlock⟩ => ⟨m, frames, hlock⟩) And.right

/-- Who has to wait for an equal goes on to. -/
theorem behind_move (hx : x.Fit) (hy : y.kernel.InPlace) (hallows : x.allows m = true)
    (hmove : x.move m = .ok y) (before : Rivals a b x.kernel) (after : Rivals a b y.kernel)
    (behind : Behind a b x.kernel) : Behind a b y.kernel := by
  rcases move_unlent_or hx hallows hmove with ⟨m, frames, hlock⟩ | hunlent
  · exact lock_behind hx.sound.inPlace hy hlock after.waits before.equal after.equal behind
  · exact hunlent.behind hx.sound hy before.waits after.waits before.equal after.equal behind

/-- Who leaves the processor has to wait for an equal, if it is not preempted too early. -/
theorem leaves_move (hx : x.Fit) (hallows : x.allows m = true) (hmove : x.move m = .ok y)
    (before : Rivals a b x.kernel) (after : Rivals a b y.kernel) (runs : x.kernel.current = a) :
    y.kernel.current = a ∨ Behind a b y.kernel ∨ CutShort a x.kernel y.kernel := by
  subst runs
  rcases move_unlent_or hx hallows hmove with ⟨m, frames, hlock⟩ | hunlent
  · exact (lock_leaves hx.sound.inPlace hlock).imp_right Or.inl
  · exact hunlent.leaves hx.sound before.waits after.waits after.equal

theorem move_quantumLeft (hx : x.Fit) (hallows : x.allows m = true) (hmove : x.move m = .ok y) :
    y.kernel.config = x.kernel.config ∧
      (y.kernel.current = x.kernel.current ∧ y.kernel.quantumLeft ≤ x.kernel.quantumLeft ∨
        y.kernel.current ≠ x.kernel.current ∧
          y.kernel.quantumLeft = x.kernel.config.quantum) :=
  have hdoes := move_does hx hallows hmove
  ⟨hdoes.config hx.sound, hdoes.quantumLeft hx.sound⟩

theorem Reaches.quantumLeft_le (hr : Reaches h x) (hj : JoinedOnce h) :
    x.kernel.quantumLeft ≤ x.kernel.config.quantum := by
  induction hr with
  | boot hb =>
      obtain ⟨config, k₁, k₂, t, hraised⟩ := hb.raised
      obtain ⟨-, hconfig, hleft⟩ := hraised.frame
      rw [hconfig, hleft]
  | move hr hallows hmove ih =>
      obtain ⟨hconfig, hleft⟩ := move_quantumLeft (hr.orderly hj.tail).fit hallows hmove
      rw [hconfig]
      rcases hleft with ⟨-, hle⟩ | ⟨-, heq⟩
      · exact hle.trans (ih hj.tail)
      · exact heq.le

/-- A tick takes one from the quantum, and there is one to take while an equal waits. -/
theorem charges_move (hr : Reaches h x) (hj : JoinedOnce h)
    (hs : selfContained (⟨x, m, y⟩ :: h) = true) (hallows : x.allows m = true)
    (hmove : x.move m = .ok y) (calls : m ≠ .interrupt .tick) (rivals : Rivals a b x.kernel)
    (hcharges : Record.charges a ⟨x, m, y⟩ = true) :
    y.kernel.current = a ∧ y.kernel.quantumLeft + 1 = x.kernel.quantumLeft := by
  obtain ⟨htick, hruns⟩ := Bool.and_eq_true_iff.mp hcharges
  obtain rfl : x.kernel.current = a := of_decide_eq_true hruns
  obtain ⟨clock, timers, -, -, hk⟩ := beginTick_ok (tick_ok hmove htick).1
  have hcall : m = .call (.operation .tick) := by
    unfold Record.isTick at htick
    dsimp only at htick
    split at htick
    · rfl
    · exact absurd rfl calls
    · cases htick
  subst hcall
  obtain ⟨hearlier, hpays⟩ := Bool.and_eq_true_iff.mp hs
  have hout : x.outside = true := by
    rw [outside, (allows_call hallows).1]
  have hsettled := (hr.steady hj hearlier).settled_of_outside hout (by simpa using hpays)
  have hready := (hr.orderly hj).sound.inPlace.ready_iff.mpr rivals.waits
  have hleft : x.kernel.quantumLeft ≠ 0 := by
    intro hzero
    have hlower := hsettled.lt hzero b hready
    rw [← rivals.equal] at hlower
    exact Nat.lt_irrefl _ hlower
  rw [hk]
  constructor
  · rfl
  · exact Nat.succ_pred_eq_of_ne_zero hleft

/-! All moves. -/

theorem charged_cons (a : ThreadId) (r : Record) (h : History) :
    charged a (r :: h) = charged a h + (r.charges a).toNat := by
  rw [charged, List.countP_cons]
  cases r.charges a <;> rfl

theorem cuts_cons (a : ThreadId) (r : Record) (h : History) :
    cuts a (r :: h) = cuts a h + (r.cutsShort a).toNat := by
  rw [cuts, List.countP_cons]
  cases r.cutsShort a <;> rfl

/-- As long as it runs, what a thread takes is no longer due to it. -/
theorem due_runs (hr : Reaches h x) (hj : JoinedOnce h)
    (hs : selfContained (⟨x, m, y⟩ :: h) = true) (hallows : x.allows m = true)
    (hmove : x.move m = .ok y) (calls : m ≠ .interrupt .tick) (before : Rivals a b x.kernel)
    (after : Rivals a b y.kernel) (runs : x.kernel.current = a)
    (hcut : ¬ CutShort a x.kernel y.kernel) :
    due a b y.kernel + (Record.charges a ⟨x, m, y⟩).toNat ≤ due a b x.kernel := by
  have hfit := (hr.orderly hj).fit
  have hquantum := (move_quantumLeft hfit hallows hmove).2
  rw [due_of_runs runs]
  cases hcharges : Record.charges a ⟨x, m, y⟩ with
  | true =>
      obtain ⟨hstays, hleft⟩ := charges_move hr hj hs hallows hmove calls before hcharges
      rw [due_of_runs hstays, ← hleft]
      exact Nat.le_refl _
  | false =>
      rw [Bool.toNat_false, Nat.add_zero]
      rcases leaves_move hfit hallows hmove before after runs with hstays | hbehind | hcut'
      · rw [due_of_runs hstays]
        exact (hquantum.resolve_right fun hpasses => hpasses.1 (hstays.trans runs.symm)).2
      · rw [due_of_behind hbehind]
        exact Nat.zero_le _
      · exact absurd hcut' hcut

/-- Nothing more is due to a thread because it waits. -/
theorem due_waits (hr : Reaches h x) (hj : JoinedOnce (⟨x, m, y⟩ :: h))
    (hallows : x.allows m = true) (hmove : x.move m = .ok y) (before : Rivals a b x.kernel)
    (after : Rivals a b y.kernel) (waits : x.kernel.current ≠ a) :
    due a b y.kernel ≤ due a b x.kernel := by
  have hfit := (hr.orderly hj.tail).fit
  have hy := hr.move hallows hmove
  by_cases hbehind : Behind a b x.kernel
  · have hbehind' := behind_move hfit (hy.orderly hj).sound.inPlace hallows hmove before after
      hbehind
    rw [due_of_behind hbehind']
    exact Nat.zero_le _
  · rw [due_of_waits waits hbehind, ← (move_quantumLeft hfit hallows hmove).1]
    exact due_le (hy.quantumLeft_le hj)

/-- What a thread takes is no longer due to it, unless it is preempted too early. -/
theorem due_move (hr : Reaches h x) (hj : JoinedOnce (⟨x, m, y⟩ :: h))
    (hs : selfContained (⟨x, m, y⟩ :: h) = true) (hallows : x.allows m = true)
    (hmove : x.move m = .ok y) (calls : m ≠ .interrupt .tick) (before : Rivals a b x.kernel)
    (after : Rivals a b y.kernel) :
    due a b y.kernel + (Record.charges a ⟨x, m, y⟩).toNat +
        (Record.cutsShort a ⟨x, m, y⟩).toNat ≤
      due a b x.kernel + x.kernel.config.quantum * (Record.cutsShort a ⟨x, m, y⟩).toNat := by
  have hy := hr.move hallows hmove
  by_cases hcut : CutShort a x.kernel y.kernel
  · -- It has a whole quantum again for the rest of this one, of which at least one tick was left.
    have hdue : due a b y.kernel ≤ x.kernel.config.quantum := by
      rw [← (move_quantumLeft (hr.orderly hj.tail).fit hallows hmove).1]
      exact due_le (hy.quantumLeft_le hj)
    have hno : Record.charges a ⟨x, m, y⟩ = false := by
      rw [Bool.eq_false_iff]
      intro hcharges
      have hstays := (charges_move hr hj.tail hs hallows hmove calls before hcharges).1
      exact (hy.orderly hj).sound.inPlace.not_runs_of_mem hcut.ready hstays.symm
    have hleft := hcut.left
    rw [due_of_runs hcut.runs, hno, Record.cutsShort, decide_eq_true hcut]
    simp only [Bool.toNat_false, Bool.toNat_true, Nat.mul_one]
    omega
  · have hno : Record.cutsShort a ⟨x, m, y⟩ = false := decide_eq_false hcut
    rw [hno, Bool.toNat_false, Nat.mul_zero, Nat.add_zero, Nat.add_zero]
    by_cases hruns : x.kernel.current = a
    · exact due_runs hr hj.tail hs hallows hmove calls before after hruns hcut
    · have hnone : Record.charges a ⟨x, m, y⟩ = false := by
        rw [Record.charges, decide_eq_false hruns, Bool.and_false]
      rw [hnone, Bool.toNat_false, Nat.add_zero]
      exact due_waits hr hj hallows hmove before after hruns

/-- All the time one thread waits for the processor and has the priority of the other one. Only
calls of threads let time pass. -/
structure Compete (a b : ThreadId) (during : History) : Prop where
  rivals : ∀ r ∈ during, Rivals a b r.before.kernel ∧ Rivals a b r.after.kernel
  calls : ∀ r ∈ during, r.move ≠ .interrupt .tick

theorem Compete.tail (h : Compete a b (r :: during)) : Compete a b during :=
  ⟨fun r hr => h.rivals r (List.mem_cons_of_mem _ hr),
    fun r hr => h.calls r (List.mem_cons_of_mem _ hr)⟩

theorem Compete.charged_le (hc : Compete a b during) (hr : Reaches (during ++ earlier) x)
    (hj : JoinedOnce (during ++ earlier)) (hs : selfContained (during ++ earlier) = true) :
    due a b x.kernel + charged a during + cuts a during ≤
      x.kernel.config.quantum * (cuts a during + 1) := by
  induction during generalizing x with
  | nil =>
      rw [charged, cuts, List.countP_nil, List.countP_nil, Nat.zero_add, Nat.mul_one]
      exact due_le (hr.quantumLeft_le hj)
  | cons r during ih =>
      obtain ⟨y, m, z⟩ := r
      obtain ⟨hbefore, hallows, hmove, rfl⟩ := hr.uncons
      have hle := ih hc.tail hbefore hj.tail (Bool.and_eq_true_iff.mp hs).1
      obtain ⟨before, after⟩ := hc.rivals _ List.mem_cons_self
      have hcalls := hc.calls _ List.mem_cons_self
      have hstep := due_move hbefore hj hs hallows hmove hcalls before after
      have hfit := (hbefore.orderly hj.tail).fit
      rw [(move_quantumLeft hfit hallows hmove).1, charged_cons, cuts_cons]
      dsimp only at hle hstep ⊢
      generalize (Record.charges a _).toNat = ticks at hstep ⊢
      generalize (Record.cutsShort a _).toNat = cut at hstep ⊢
      calc due a b z.kernel + (charged a during + ticks) + (cuts a during + cut)
          ≤ due a b y.kernel + charged a during + cuts a during +
              y.kernel.config.quantum * cut := by omega
        _ ≤ y.kernel.config.quantum * (cuts a during + 1) + y.kernel.config.quantum * cut :=
            Nat.add_le_add_right hle _
        _ = y.kernel.config.quantum * (cuts a during + cut + 1) := by
            rw [Nat.add_right_comm, Nat.mul_add _ (cuts a during + 1)]

/-- Who has to wait for an equal does not run while that one waits. -/
theorem Compete.behind (hc : Compete a b later) (hr : Reaches (later ++ r :: earlier) x)
    (hj : JoinedOnce (later ++ r :: earlier)) (behind : Behind a b r.after.kernel) :
    Behind a b x.kernel ∧ ∀ r' ∈ later, r'.after.kernel.current ≠ a := by
  induction later generalizing x with
  | nil =>
      obtain ⟨-, -, -, rfl⟩ := hr.uncons
      exact ⟨behind, List.forall_mem_nil _⟩
  | cons r' later ih =>
      have hy := (hr.orderly hj).sound.inPlace
      obtain ⟨hbefore, hallows, hmove, rfl⟩ := hr.uncons
      obtain ⟨hbehind, hnever⟩ := ih hc.tail hbefore hj.tail
      obtain ⟨before, after⟩ := hc.rivals r' List.mem_cons_self
      have hfit := (hbefore.orderly hj.tail).fit
      have hbehind' := behind_move hfit hy hallows hmove before after hbehind
      refine ⟨hbehind', fun r hmem => ?_⟩
      rcases List.mem_cons.mp hmem with rfl | hmem
      · exact hbehind'.1
      · exact hnever r hmem

theorem reaches_shares (h during : History) (x : Execution) (a b : ThreadId)
    (hr : Reaches (during ++ h) x) (hj : JoinedOnce (during ++ h))
    (hs : selfContained (during ++ h) = true) (hc : Compete a b during) :
    Shares x.kernel.config.quantum a during := by
  constructor
  · exact (Nat.le_add_left _ _).trans (by simpa only [Nat.add_assoc] using hc.charged_le hr hj hs)
  · rintro later r earlier rfl hruns hleaves hcut
    have hlater : Compete a b later :=
      ⟨fun r hr => hc.rivals r (List.mem_append_left _ hr),
        fun r hr => hc.calls r (List.mem_append_left _ hr)⟩
    obtain ⟨before, after⟩ := hc.rivals r (by simp)
    rw [List.append_assoc] at hr hj
    obtain ⟨hx, -, -, -, hallows, hmove⟩ := hr.at_record hj
    have hbehind : Behind a b r.after.kernel := by
      rcases leaves_move hx hallows hmove before after hruns with hstays | hbehind | hcut'
      · exact absurd hstays hleaves
      · exact hbehind
      · exact absurd hcut' hcut
    exact (hlater.behind hr hj hbehind).2

theorem Reaches.trace {ms : List Move} (hr : Reaches h x)
    (hp : (Execution.play ms [] x).isSome = true) : Reaches ((trace x ms).1 ++ h) (trace x ms).2 :=
  trace_induction (P := fun l y => Reaches (l ++ h) y)
    (fun hx hallows hmove => hx.move hallows hmove) hr hp

/-- A kernel whose quantum is two ticks, just brought up. -/
def brisk : Execution :=
  match (fresh { quantum := 2 } fun _ => .ok ()).call .boot with
  | .ok x => x
  | .error _ => fresh { quantum := 2 } fun _ => .ok ()

/-- The boot thread makes an equal, and then a thread of a higher priority that sleeps at once. -/
def arrived : History × Execution :=
  trace brisk [.takeAnswer, .call (.spawn "equal" .normal "work"), .takeAnswer,
    .call (.spawn "urgent" .critical "nap"), .enter, .call (.operation (.sleep 1))]

/-- The boot thread lets three ticks pass. With the first one the urgent thread wakes, and ends. -/
def rested : History × Execution :=
  trace arrived.2 [.takeAnswer, .call (.operation .tick), .advance, .advance, .advance, .advance,
    .takeAnswer, .call (.exit 0), .takeAnswer, .call (.operation .tick), .advance, .advance,
    .takeAnswer, .call (.operation .tick), .advance]

theorem reaches_rested : Reaches (rested.1 ++ (arrived.1 ++ [])) rested.2 := by
  have hb : Booted brisk := ⟨{ quantum := 2 }, fun _ => .ok (), rfl, rfl⟩
  apply Reaches.trace
  · exact (Reaches.boot hb).trace (by decide +kernel)
  · decide +kernel

theorem compete_rested : Compete mainThread 2 rested.1 := by
  constructor
  · decide +kernel
  · decide +kernel

theorem shares_rested : Reaches (rested.1 ++ (arrived.1 ++ [])) rested.2 ∧
    JoinedOnce (rested.1 ++ (arrived.1 ++ [])) ∧
    selfContained (rested.1 ++ (arrived.1 ++ [])) = true ∧ Compete mainThread 2 rested.1 ∧
    cuts mainThread rested.1 = 1 ∧ Shares rested.2.kernel.config.quantum mainThread rested.1 :=
  have hj : JoinedOnce (rested.1 ++ (arrived.1 ++ [])) := by decide +kernel
  have hs : selfContained (rested.1 ++ (arrived.1 ++ [])) = true := by decide +kernel
  ⟨reaches_rested, hj, hs, compete_rested, by decide +kernel,
    reaches_shares _ _ _ _ _ reaches_rested hj hs compete_rested⟩

/-- It has taken more than its quantum, and its equal has waited all the time. -/
theorem quantum_lt_charged_rested : Reaches (rested.1 ++ (arrived.1 ++ [])) rested.2 ∧
    JoinedOnce (rested.1 ++ (arrived.1 ++ [])) ∧
    selfContained (rested.1 ++ (arrived.1 ++ [])) = true ∧ Compete mainThread 2 rested.1 ∧
    rested.2.kernel.config.quantum < charged mainThread rested.1 :=
  ⟨reaches_rested, by decide +kernel, by decide +kernel, compete_rested, by decide +kernel⟩

end RealtimeKernel.Execution

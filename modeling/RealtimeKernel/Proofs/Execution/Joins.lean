import RealtimeKernel.Proofs.Execution.History

/-!
What joins answer. A thread that ended keeps its message until it is collected, so a join gets
the message of the very thread that it was called for. All of this rests on no thread being
joined twice. A thread that waits for another one's end is no longer in its queue once that one
has ended, and then nothing keeps a second thread from joining it too: `rejoining` shows how the
first one erases a stranger.
-/
namespace RealtimeKernel.Execution
open Kernel

/-- The message with which a move ends the thread whose move it is. -/
def Record.ends? (r : Record) : Option Msg :=
  match r.move with
  | .call (.exit msg) => some msg
  | .advance =>
    match r.before.frames with
    | .start :: _ => some 0
    | _ => none
  | _ => none

/-- The message of the newest thread of a slot, once that has ended. -/
def exitMessage? (t : ThreadId) : History → Option Msg
  | [] => none
  | r :: h =>
    if births t h < births t (r :: h) then none
    else if r.before.kernel.current = t then r.ends?.or (exitMessage? t h)
    else exitMessage? t h

/-- Whom a thread called to be joined, if that was its newest call. -/
def lastJoin? (u : ThreadId) : History → Option (ThreadId × Nat)
  | [] => none
  | r :: h =>
    if r.before.kernel.current = u then
      match r.move with
      | .call (.operation (.join t)) => some (t, births t h)
      | .call _ => none
      | _ => lastJoin? u h
    else lastJoin? u h

/-- The thread that a join collects, when it returns. -/
def Record.collected? (r : Record) : Option ThreadId :=
  match r.move with
  | .call (.operation (.join t)) =>
    match r.left with
    | .answer _ :: _ => some t
    | _ => none
  | .advance =>
    match r.before.frames with
    | .collect t :: _ => some t
    | _ => none
  | _ => none

/-- What is known of the threads that ended, and of those that are about to collect one. -/
structure Attributed (h : History) (x : Execution) : Prop where
  ended : ∀ t, (x.kernel.thread t).state = .final →
    exitMessage? t h = some (x.kernel.thread t).exitMsg
  pending : ∀ u t, .collect t ∈ x.framesOf u → lastJoin? u h = some (t, births t h)

variable {x y : Execution} {h : History} {m : Move} {t u : ThreadId} {r : Record}
  {frames rest : List Frame}

theorem births_le_cons (t : ThreadId) (r : Record) (h : History) :
    births t h ≤ births t (r :: h) := by
  rw [births, births, List.countP_cons]
  exact Nat.le_add_right ..

theorem births_le_append (t : ThreadId) (later earlier : History) :
    births t earlier ≤ births t (later ++ earlier) := by
  rw [births, births, List.countP_append]
  exact Nat.le_add_left ..

theorem lastJoin?_of_ne (hu : r.before.kernel.current ≠ u) :
    lastJoin? u (r :: h) = lastJoin? u h := if_neg hu

theorem exitMessage?_of_ne (hactive : (r.before.kernel.thread t).state ≠ .inactive)
    (ht : r.before.kernel.current ≠ t) : exitMessage? t (r :: h) = exitMessage? t h := by
  rw [exitMessage?, births_cons_of_active h hactive, if_neg (Nat.lt_irrefl _), if_neg ht]

/-! What a single move does. -/

theorem collect_ok (hx : Orderly h x) (hallows : x.allows m = true) (hmove : x.move m = .ok y)
    (hc : Record.collected? ⟨x, m, y⟩ = some t) :
    (x.kernel.thread t).state = .final ∧ y.kernel = x.kernel.vacate t ∧
      Record.left ⟨x, m, y⟩ = [.answer (.exitMessage (x.kernel.thread t).exitMsg)] ∧
      (m = .call (.operation (.join t)) ∨ .collect t ∈ x.frames) := by
  unfold Record.collected? at hc
  dsimp only at hc
  split at hc
  · rename_i t'
    have hstep := @operation_left ⟨x, _, y⟩ _ rfl hallows hmove
    rcases join_ok hx.sound.inPlace hstep with ⟨hfinal, hcollect⟩ | ⟨hcollect, -⟩
    · obtain ⟨hkernel, hleft⟩ := Prod.mk.inj hcollect
      rw [hleft] at hc
      obtain rfl := Option.some.inj hc
      exact ⟨hfinal, hkernel, hleft, Or.inl rfl⟩
    · rw [show Record.left _ = _ from hcollect] at hc
      cases hc
  · split at hc
    · rename_i t' rest hframes
      obtain rfl := Option.some.inj hc
      have hmem : .collect t' ∈ x.frames := by
        rw [hframes]
        exact List.mem_cons_self
      have halone : x.frames = [.collect t'] := (hx.collects _ t' hmem).alone
      obtain ⟨frames, hstep, hleft⟩ := advance_step halone hmove
      obtain ⟨hkernel, rfl⟩ := Prod.mk.inj (Except.ok.inj hstep)
      exact ⟨hx.fit.ended t' hmem, hkernel.symm, hleft, Or.inr hmem⟩
    · cases hc
  · cases hc

/-- A thread that ended is touched only to be collected. -/
theorem collected_of_touches (hx : Orderly h x) (hallows : x.allows m = true)
    (hmove : x.move m = .ok y) (hfinal : (x.kernel.thread t).state = .final)
    (ht : m.touches x (.thread t)) : Record.collected? ⟨x, m, y⟩ = some t := by
  have hrun := hx.sound.inPlace.state_current
  cases m with
  | call c =>
      cases c with
      | boot => exact absurd ht id
      | spawn name p e =>
          obtain ⟨t', heq, hs⟩ := ht
          rw [← Object.thread.inj heq, hfinal] at hs
          cases hs
      | exit msg =>
          rw [Object.thread.inj ht, hrun] at hfinal
          cases hfinal
      | operation c =>
          obtain rfl := Operation.touches_thread ht
          have hstep := @operation_left ⟨x, _, y⟩ _ rfl hallows hmove
          rcases join_ok hx.sound.inPlace hstep with ⟨-, hcollect⟩ | ⟨-, hawaits⟩
          · unfold Record.collected?
            dsimp only
            rw [(Prod.mk.inj hcollect).2]
          · exact absurd hfinal hawaits.alive
  | interrupt c => exact absurd ht InterruptCall.not_touches_thread
  | advance =>
      obtain ⟨f, rest, hframes, ht⟩ := ht
      cases f with
      | start =>
          rw [Object.thread.inj ht, hrun] at hfinal
          cases hfinal
      | collect t' =>
          obtain rfl := Object.thread.inj ht
          unfold Record.collected?
          dsimp only
          rw [hframes]
      | _ => simp [Frame.touches, BoxParts] at ht
  | _ => exact absurd ht id

theorem exit_message {k k' : Kernel} {msg : Msg} (hk : k.InPlace) (h : k.exit msg = .ok k') :
    (k'.thread k.current).exitMsg = msg := by
  obtain ⟨-, record, k₁, next, hrouses, hdispatch⟩ := exit_ok hk h
  have hnote : Effect (fun _ => False) k (k.note record) := note_effect k record
  have hended := hrouses.thread_ended (hnote.inPlace hk) hdispatch
  exact congrArg Thread.exitMsg hended

/-- A thread that ends is left with its message. -/
theorem ends_of_touches (hx : Orderly h x) (hallows : x.allows m = true)
    (hmove : x.move m = .ok y) (ht : m.touches x (.thread x.kernel.current)) :
    Record.ends? ⟨x, m, y⟩ = some (y.kernel.thread x.kernel.current).exitMsg := by
  have hk := hx.sound.inPlace
  have hrun := hk.state_current
  cases m with
  | call c =>
      cases c with
      | boot => exact absurd ht id
      | spawn name p e =>
          obtain ⟨t', heq, hs⟩ := ht
          rw [← Object.thread.inj heq, hrun] at hs
          cases hs
      | exit msg =>
          have hperform : x.exit msg = .ok y := hmove
          obtain ⟨frames, hstep, -⟩ := perform_ok hperform
          obtain ⟨k', hexit, hstep⟩ := bind_eq_ok.mp hstep
          obtain ⟨rfl, -⟩ := Prod.mk.inj (Except.ok.inj hstep)
          rw [exit_message hk hexit]
          rfl
      | operation c =>
          obtain rfl := Operation.touches_thread ht
          have hstep := @operation_left ⟨x, _, y⟩ _ rfl hallows hmove
          change x.kernel.join x.kernel.current = _ at hstep
          unfold Kernel.join at hstep
          rw [if_pos rfl] at hstep
          cases hstep
  | interrupt c => exact absurd ht InterruptCall.not_touches_thread
  | advance =>
      obtain ⟨f, rest, hframes, ht⟩ := ht
      cases f with
      | start =>
          obtain ⟨frames, hstep, -⟩ := advance_step hframes hmove
          obtain ⟨k', hexit, hstep⟩ := bind_eq_ok.mp hstep
          obtain ⟨rfl, -⟩ := Prod.mk.inj (Except.ok.inj hstep)
          rw [exit_message hk hexit]
          unfold Record.ends?
          dsimp only
          rw [hframes]
      | collect t' =>
          obtain rfl := Object.thread.inj ht
          have hfinal := hx.fit.ended x.kernel.current (by rw [hframes]; exact List.mem_cons_self)
          rw [hrun] at hfinal
          cases hfinal
      | _ => simp [Frame.touches, BoxParts] at ht
  | _ => exact absurd ht id

theorem inactive_of_vacate {k k' : Kernel} (h : k' = k.vacate t) :
    (k'.thread t).state = .inactive := by
  rw [h, vacate, thread_replaceThread, if_pos rfl]

theorem Attributed.step (ha : Attributed h x) (hx : Orderly h x)
    (hg : MoveGoes m frames rest x y) (hallows : x.allows m = true) (hmove : x.move m = .ok y) :
    Attributed (⟨x, m, y⟩ :: h) y := by
  have haffects := hg.works.does.affects hx.sound
  have hrun := hx.sound.inPlace.state_current
  refine ⟨?_, ?_⟩
  · intro t hfinal
    rcases haffects.ends t hfinal with hold | ⟨rfl, ht⟩
    · have hne : x.kernel.current ≠ t := by
        rintro rfl
        rw [hrun] at hold
        cases hold
      rw [exitMessage?_of_ne (by rw [hold]; exact nofun) hne, ha.ended t hold]
      by_cases ht : m.touches x (.thread t)
      · have hc := collected_of_touches hx hallows hmove hold ht
        obtain ⟨-, hkernel, -⟩ := collect_ok hx hallows hmove hc
        rw [inactive_of_vacate hkernel] at hfinal
        cases hfinal
      · rw [(haffects.final t ht hold).2]
    · have hactive : (x.kernel.thread x.kernel.current).state ≠ .inactive := by
        rw [hrun]
        exact nofun
      rw [exitMessage?, births_cons_of_active h hactive, if_neg (Nat.lt_irrefl _), if_pos rfl,
        ends_of_touches hx hallows hmove ht]
      rfl
  · intro u t hmem
    rcases collects_from hg hmem with ⟨hu, hsame⟩ | ⟨rfl, hclaimed⟩
    · rw [hsame] at hmem
      rw [lastJoin?_of_ne (Ne.symm hu), births_cons_of_active h (hx.collects u t hmem).active]
      exact ha.pending u t hmem
    · have hactive : (x.kernel.thread t).state ≠ .inactive := by
        intro hs
        have halive := hclaimed.alive
        rw [hs] at halive
        cases halive
      rw [births_cons_of_active h hactive, lastJoin?, if_pos rfl]
      dsimp only
      rw [hclaimed.move]

theorem Attributed.withoutLog (ha : Attributed h x) (hx : Orderly h x) :
    Attributed (⟨x, .collectLog, x.withoutLog⟩ :: h) x.withoutLog := by
  refine ⟨?_, ?_⟩
  · intro t hfinal
    have hfinal : (x.kernel.thread t).state = .final := hfinal
    have hactive : (x.kernel.thread t).state ≠ .inactive := by
      rw [hfinal]
      exact nofun
    rw [exitMessage?, births_cons_of_active h hactive, if_neg (Nat.lt_irrefl _), ha.ended t hfinal]
    split <;> rfl
  · intro u t hmem
    have hactive := (hx.collects u t hmem).active
    rw [lastJoin?, births_cons_of_active h hactive, ha.pending u t hmem]
    split <;> rfl

theorem Booted.attributed (hb : Booted x) : Attributed [] x := by
  obtain ⟨hk, hnone⟩ := hb.induction (P := fun k => ∀ t, (k.thread t).state ≠ .final)
    (fun config t => by rw [thread_solo]; split <;> exact nofun) (fun _ _ h => h)
    fun k k' hk he h t hfinal => h t ((he.spares hk.inPlace).ends t hfinal)
  refine ⟨fun t hfinal => absurd hfinal (hnone t), ?_⟩
  intro u t hmem
  obtain ⟨config, k, i, hboots⟩ := hb.boots
  rcases hboots.plain u _ hmem with hf | ⟨a, hf⟩ <;> cases hf

theorem Reaches.attributed (hr : Reaches h x) (hj : JoinedOnce h) : Attributed h x := by
  induction hr with
  | boot hb => exact hb.attributed
  | @move h x y m hr hallows hmove ih =>
      have hx := hr.orderly hj.tail
      have ha := ih hj.tail
      by_cases hm : m = .collectLog
      · subst hm
        obtain rfl := Except.ok.inj hmove
        exact ha.withoutLog hx
      · obtain ⟨frames, rest, hgoes⟩ := move_goes hx.fit hallows hm hmove
        exact ha.step hx hgoes hallows hmove

/-! All joins of a history. -/

/-- What a join does that returns, after this history. -/
structure Collected (h : History) (r : Record) (t : ThreadId) : Prop where
  /-- It answers with the message of the thread that is in the slot. -/
  message : ∃ msg, exitMessage? t h = some msg ∧ r.left = [.answer (.exitMessage msg)]
  /-- That is the thread which it was called for. -/
  called : r.move = .call (.operation (.join t)) ∨
    lastJoin? r.before.kernel.current h = some (t, births t h)
  ended : (r.before.kernel.thread t).state = .final
  freed : r.after.kernel.thread t = {}
  unlinked : ∀ q, t ∉ r.after.kernel.members q
  others : ∀ u, u ≠ t → r.after.kernel.thread u = r.before.kernel.thread u

structure JoinsAnswered (h : History) : Prop where
  collected : ∀ later r earlier t, h = later ++ r :: earlier → r.collected? = some t →
    Collected earlier r t
  /-- No thread is collected twice. -/
  once : ∀ later r mid r' earlier t, h = later ++ r :: (mid ++ r' :: earlier) →
    r.collected? = some t → r'.collected? = some t →
      births t earlier < births t (mid ++ r' :: earlier)
  /-- Only joins free slots. -/
  freed : ∀ r ∈ h, ∀ t, (r.before.kernel.thread t).isActive = true →
    (r.after.kernel.thread t).isActive = false → r.collected? = some t

theorem Attributed.collected (ha : Attributed h r.before) (hx : Orderly h r.before)
    (hallows : r.before.allows r.move = true) (hmove : r.before.move r.move = .ok r.after)
    (hc : r.collected? = some t) : Collected h r t := by
  obtain ⟨hfinal, hkernel, hleft, hcall⟩ := collect_ok hx hallows hmove hc
  have hthread : ∀ u, r.after.kernel.thread u = if u = t then {} else r.before.kernel.thread u := by
    intro u
    rw [hkernel]
    exact thread_replaceThread r.before.kernel t u {}
  have hk := hx.sound.inPlace
  have hqueue := hk.queue_eq_none_of_state (t := t) (by simp [hfinal])
  refine ⟨⟨_, ha.ended t hfinal, hleft⟩, ?_, hfinal, ?_, ?_, ?_⟩
  · exact hcall.imp_right (ha.pending r.before.kernel.current t)
  · rw [hthread, if_pos rfl]
  · intro q hmem
    rw [hkernel, vacate, replaceThread_members hk.toLinked hqueue rfl] at hmem
    exact hk.toLinked.free hqueue q hmem
  · intro u hu
    rw [hthread, if_neg hu]

/-- A slot that is free now and in use later got a thread in between. -/
theorem births_lt {later : History} (hr : Reaches (later ++ r :: h) x)
    (hfree : (r.after.kernel.thread t).state = .inactive)
    (hactive : (x.kernel.thread t).state ≠ .inactive) :
    births t (r :: h) < births t (later ++ r :: h) := by
  induction later generalizing x with
  | nil =>
      obtain ⟨-, -, -, rfl⟩ := hr.uncons
      exact absurd hfree hactive
  | cons r' later ih =>
      obtain ⟨hbefore, -, -, rfl⟩ := hr.uncons
      by_cases hs : (r'.before.kernel.thread t).state = .inactive
      · have hnew : births t (r' :: (later ++ r :: h)) = births t (later ++ r :: h) + 1 := by
          rw [births, List.countP_cons_of_pos]
          · rfl
          · simp [Thread.isActive, hs, hactive]
        have hle := births_le_append t later (r :: h)
        rw [List.cons_append, hnew]
        omega
      · exact (ih hbefore hs).trans_le (births_le_cons t r' _)

/-- Slots are freed by joins alone. -/
theorem collected_of_freed (hx : Orderly h x) (hallows : x.allows m = true)
    (hmove : x.move m = .ok y) (hactive : (x.kernel.thread t).isActive = true)
    (hfree : (y.kernel.thread t).isActive = false) : Record.collected? ⟨x, m, y⟩ = some t := by
  have hactive : (x.kernel.thread t).state ≠ .inactive := by simpa [Thread.isActive] using hactive
  have hfree : (y.kernel.thread t).state = .inactive := by simpa [Thread.isActive] using hfree
  have haffects := (move_does hx.fit hallows hmove).affects hx.sound
  have hfinal : (x.kernel.thread t).state = .final := by
    by_contra hnot
    have halive : (x.kernel.thread t).state.isGone = false := by
      cases hs : (x.kernel.thread t).state <;>
        first | rfl | exact absurd hs hactive | exact absurd hs hnot
    rcases haffects.alive t halive with hgone | ⟨-, -, hended⟩
    · rw [hfree] at hgone
      cases hgone
    · rw [hfree] at hended
      cases hended
  apply collected_of_touches hx hallows hmove hfinal
  by_contra ht
  have hkept := (haffects.final t ht hfinal).1
  rw [hfree] at hkept
  cases hkept

theorem reaches_joinsAnswered (hr : Reaches h x) (hj : JoinedOnce h) : JoinsAnswered h := by
  have hcollected : ∀ later r earlier t, h = later ++ r :: earlier → r.collected? = some t →
      Collected earlier r t := by
    rintro later r earlier t rfl hc
    obtain ⟨y, hy⟩ := hr.earlier
    have hj := hj.earlier.tail
    obtain ⟨hbefore, hallows, hmove, -⟩ := hy.uncons
    exact (hbefore.attributed hj).collected (hbefore.orderly hj) hallows hmove hc
  refine ⟨hcollected, ?_, ?_⟩
  · intro later r mid r' earlier t heq hc hc'
    have hfinal := (hcollected later r _ t heq hc).ended
    have hfreed := (hcollected (later ++ r :: mid) r' earlier t (by simp [heq]) hc').freed
    subst heq
    obtain ⟨y, hy⟩ := hr.earlier
    have hlt := births_lt (t := t) hy.uncons.1 (by rw [hfreed]) (by rw [hfinal]; exact nofun)
    exact (births_le_cons t r' earlier).trans_lt hlt
  · intro r hmem t hactive hfree
    obtain ⟨h', hbefore, -, hallows, hmove⟩ := hr.orderly_of_mem hj hmem
    exact collected_of_freed hbefore hallows hmove hactive hfree

/-- Two threads end, one before it is joined and one while another thread waits for that. The
slot of the first is used again before. -/
def collecting : List Move :=
  [.takeAnswer, .call (.spawn "early" .critical "work"), .enter, .call (.exit 5), .takeAnswer,
    .call (.operation (.join 2)), .takeAnswer, .call (.spawn "late" .normal "work"), .takeAnswer,
    .call (.operation (.join 2)), .enter, .call (.exit 7), .advance, .takeAnswer]

theorem joinsAnswered_collecting : Reaches (enact collecting).1 (enact collecting).2 ∧
    JoinedOnce (enact collecting).1 ∧ JoinsAnswered (enact collecting).1 :=
  have hr := reaches_enact (by decide +kernel)
  have hj : JoinedOnce (enact collecting).1 := by decide +kernel
  ⟨hr, hj, reaches_joinsAnswered hr hj⟩

/-- A second thread joins one that ended before the first one went on, and is answered. A new
thread gets the slot; then the first thread goes on, and erases it. -/
def rejoining : List Move :=
  [.takeAnswer, .call (.spawn "target" ⟨100, by decide⟩ "work"), .enter,
    .call (.operation (.suspend .infinite)), .takeAnswer,
    .call (.spawn "first" ⟨110, by decide⟩ "work"), .enter, .call (.operation (.join 2)),
    .takeAnswer, .call (.operation (.setPriority ⟨105, by decide⟩)), .takeAnswer,
    .call (.operation (.resume 2)), .advance, .takeAnswer, .call (.exit 7), .takeAnswer,
    .call (.operation (.join 2)), .takeAnswer, .call (.spawn "stranger" ⟨90, by decide⟩ "work"),
    .enter, .call (.operation (.suspend .infinite)), .takeAnswer, .call (.operation (.sleep 1)),
    .advance]

theorem not_joinsAnswered_rejoining : Reaches (enact rejoining).1 (enact rejoining).2 ∧
    ¬ JoinsAnswered (enact rejoining).1 := by
  refine ⟨reaches_enact (by decide +kernel), ?_⟩
  intro hjoins
  have hcollected : (enact rejoining).1.head?.bind Record.collected? = some 2 := by decide +kernel
  have hstate : (enact rejoining).1.head?.map (fun r => (r.before.kernel.thread 2).state) =
      some .suspended := by decide +kernel
  cases hh : (enact rejoining).1 with
  | nil =>
      rw [hh] at hcollected
      cases hcollected
  | cons r earlier =>
      rw [hh] at hcollected hstate hjoins
      have hended := (hjoins.collected [] r earlier 2 rfl hcollected).ended
      cases hended.symm.trans (Option.some.inj hstate)

end RealtimeKernel.Execution

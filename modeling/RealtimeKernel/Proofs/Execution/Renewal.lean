import RealtimeKernel.Proofs.Execution.Conservation
import RealtimeKernel.Proofs.Kernel.Renewal

/-!
Two executions that differ in one mailbox, which is some resets younger in the second one, and in
the waits for it, which were begun as many resets earlier. They allow the same moves, and each
move keeps them alike: whoever looks at the answers cannot tell the one from the other.
-/
namespace RealtimeKernel

namespace Kernel
variable {k : Kernel} {p : Boxes} {b : MailboxId} {n : UInt32}

/-! Calls that are not about mailboxes, and frames. -/

theorem finish_carries : Carries (Step.renew b n p) (Operation.finish k)
    (Operation.finish (k.withMailboxes p)) := preempt_carries.bind fun _ => .ok rfl

theorem interrupt_carries (c : InterruptCall) (hc : c.attempt? = none) :
    Carries (Step.renew b n p) (c.run k) (c.run (k.withMailboxes p)) := by
  cases c with
  | preempt => exact preempt_carries.bind fun _ => .ok rfl
  | tick => exact beginTick_carries.bind fun _ => .ok rfl
  | resume t => exact resume_carries.bind fun _ => .ok rfl
  | signal s => exact signal_carries.bind fun _ => .ok rfl
  | resetSemaphore s count => exact resetSemaphore_carries.bind fun _ => .ok rfl
  | tryLock m => exact tryLock_carries.bind fun ⟨_, _⟩ => .ok rfl
  | signalCondition c => exact wakeFirst_carries.bind fun _ => .ok rfl
  | broadcast c => exact wakeAll_carries.bind fun _ => .ok rfl
  | setTimer delay r => exact (setTimer_carries r).bind fun ⟨_, _⟩ => .ok rfl
  | resetTimer id => exact resetTimer_carries.bind fun _ => .ok rfl
  | post b' msg ahead => cases hc
  | fetch b' => cases hc
  | resetMailbox b' => cases hc

theorem operation_carries (c : Operation) (hc : c.attempt? = none)
    (hmade : ∀ capacity, c ≠ .createMailbox capacity) :
    Carries (Step.renew b n p) (c.run k) (c.run (k.withMailboxes p)) := by
  cases c with
  | join t => exact join_carries
  | yieldTurn => exact yieldTurn_carries.bind fun _ => .ok rfl
  | sleep ticks => exact sleep_carries
  | sleepUntil deadline => exact sleepUntil_carries
  | suspend timeout => exact suspend_carries
  | resume t => exact resume_carries.bind fun _ => finish_carries
  | requestTerminate t => exact .ok rfl
  | setPriority priority => exact setPriority_carries priority
  | tick => exact beginTick_carries.bind fun _ => .ok rfl
  | createSemaphore count => exact createSemaphore_carries.bind fun ⟨_, _⟩ => .ok rfl
  | waitSemaphore s timeout =>
      exact (waitUnit_carries (b := b) (n := n)).bind fun wait => .ok (thenAnswer_renew wait)
  | signal s => exact signal_carries.bind fun _ => finish_carries
  | resetSemaphore s count => exact resetSemaphore_carries.bind fun _ => finish_carries
  | signalAndWait s s' => exact signalAndWait_carries
  | createMutex =>
      exact .ok (congrArg (fun made => Prod.mk made.2 [Frame.answer (.mutex made.1)])
        (createMutex_withMailboxes k p))
  | lock m =>
      exact (lock_carries (b := b) (n := n)).bind fun ⟨k₁, left⟩ =>
        .ok (renew_append k₁ left [.answer .unit]).symm
  | tryLock m => exact interrupt_carries (.tryLock m) rfl
  | unlock m => exact release_carries.bind fun _ => finish_carries
  | unlockAll => exact releaseUpTo_carries.bind fun _ => finish_carries
  | createCondVar =>
      exact .ok (congrArg (fun made => Prod.mk made.2 [Frame.answer (.condVar made.1)])
        (createCondVar_withMailboxes k p))
  | waitCondition c m timeout => exact waitCondition_carries
  | signalCondition c => exact wakeFirst_carries.bind fun _ => finish_carries
  | broadcast c => exact wakeAll_carries.bind fun _ => finish_carries
  | setTimer delay r => exact interrupt_carries (.setTimer delay r) rfl
  | resetTimer id => exact interrupt_carries (.resetTimer id) rfl
  | createMailbox capacity => exact absurd rfl (hmade capacity)
  | post b' msg ahead timeout => cases hc
  | fetch b' timeout => cases hc
  | resetMailbox b' => cases hc

theorem frameStep_carries (f : Frame) (hf : f.attempt? = none) :
    Carries (Step.renew b n p) (Execution.frameStep k f)
      (Execution.frameStep (k.withMailboxes p) (f.backdate b n)) := by
  cases f with
  | start => exact exit_carries.bind fun _ => .ok rfl
  | awake => exact .ite (.fault ..) (.ok rfl)
  | locked m => exact .ite (.ok rfl) (.fault ..)
  | relock m => exact relock_carries
  | fire => exact fire_carries
  | preempt => exact preempt_carries.bind fun _ => .ok rfl
  | answer a | answerWakeup | collect t | callback r entered => exact .ok rfl
  | store b' epoch msg ahead => cases hf
  | fetch b' epoch => cases hf

end Kernel

namespace Execution
open Kernel

variable {x x' y : Execution} {h : History} {m : Move} {b b' : MailboxId} {n : UInt32}
  {p : Boxes} {l : List Msg} {rest : List Frame}

/-- The execution with other mailboxes, of which one is so many resets younger. -/
def renew (b : MailboxId) (n : UInt32) (p : Boxes) (x : Execution) : Execution :=
  { x with
    kernel := x.kernel.withMailboxes p
    contexts := x.contexts.map (List.map (Frame.backdate b n)) }

/-- Nothing differs but for one mailbox, which is younger in the second execution. -/
def Alike (b : MailboxId) (n : UInt32) (l : List Msg) (x x' : Execution) : Prop :=
  ∃ p, Renewed b n l x.kernel.mailboxes p ∧ x' = x.renew b n p

/-! Whose turn it is, and what is allowed. -/

theorem framesOf_renew (x : Execution) (u : ThreadId) :
    (x.renew b n p).framesOf u = (x.framesOf u).map (Frame.backdate b n) :=
  Vector.getElem_map ..

theorem frames_renew (x : Execution) :
    (x.renew b n p).frames = x.frames.map (Frame.backdate b n) :=
  framesOf_renew x x.kernel.current

theorem set_renew (x : Execution) (t : ThreadId) (frames : List Frame) :
    (x.renew b n p).contexts.set t (frames.map (Frame.backdate b n)) t.isLt =
      (x.contexts.set t frames t.isLt).map (List.map (Frame.backdate b n)) := Vector.map_set.symm

theorem setFrames_renew (x : Execution) (frames : List Frame) :
    (x.renew b n p).setFrames (frames.map (Frame.backdate b n)) =
      (x.setFrames frames).renew b n p :=
  congrArg (fun contexts => { x with kernel := x.kernel.withMailboxes p, contexts })
    (set_renew x x.kernel.current frames)

theorem turn_renew (x : Execution) : (x.renew b n p).turn = x.turn := by
  unfold turn
  rw [frames_renew]
  cases x.frames with
  | nil => rfl
  | cons f rest =>
      cases f with
      | callback r entered => cases entered <;> rfl
      | _ => rfl

theorem Alike.turn (h : Alike b n l x x') : x'.turn = x.turn := by
  obtain ⟨p, -, rfl⟩ := h
  exact turn_renew x

theorem Alike.allows (h : Alike b n l x x') (m : Move) : x'.allows m = x.allows m := by
  have hturn := h.turn
  obtain ⟨p, hp, rfl⟩ := h
  have hboxes : ∀ b', p.contains b' = x.kernel.mailboxes.contains b' := hp.contains
  have hcall : ∀ c : Call, c.handlesExist (x.kernel.withMailboxes p) = c.handlesExist x.kernel := by
    intro c
    cases c with
    | operation o => cases o <;> first | rfl | exact hboxes _
    | _ => rfl
  have hinterrupt : ∀ c : InterruptCall,
      c.handlesExist (x.kernel.withMailboxes p) = c.handlesExist x.kernel := by
    intro c
    cases c <;> first | rfl | exact hboxes _
  unfold Execution.allows
  rw [hturn]
  cases m with
  | call c =>
      cases x.turn with
      | code => exact hcall c
      | _ => rfl
  | interrupt c =>
      cases x.turn with
      | code => exact hinterrupt c
      | callbackCode r => exact hinterrupt c
      | _ => rfl
  | _ => rfl

theorem Alike.frames (h : Alike b n l x x') : x'.frames = x.frames.map (Frame.backdate b n) := by
  obtain ⟨p, -, rfl⟩ := h
  exact frames_renew x

theorem Alike.kernel (h : Alike b n l x x') : x.kernel.Alike b n l x'.kernel := by
  obtain ⟨p, hp, rfl⟩ := h
  exact ⟨p, hp, rfl⟩

/-! One move. -/

theorem perform_carries {step step' : Kernel → Outcome Step}
    (h : Carries (Step.renew b n p) (step x.kernel) (step' (x.kernel.withMailboxes p)))
    (rest : List Frame) : Carries (renew b n p) (x.perform rest step)
      ((x.renew b n p).perform (rest.map (Frame.backdate b n)) step') := by
  refine Carries.bind (s := Step.renew b n p) h ?_
  rintro ⟨k, frames⟩
  refine .ok ?_
  have hset := setFrames_renew (b := b) (n := n) (p := p) x (frames ++ rest)
  rw [List.map_append] at hset
  exact congrArg (fun x => { x with kernel := k.withMailboxes p }) hset

theorem create_carries (name : String) (priority : Priority) (e : Entry) :
    Carries (Prod.map id (renew b n p)) (x.create name priority e)
      ((x.renew b n p).create name priority e) := by
  have hslot : (x.renew b n p).kernel.freeSlot? = x.kernel.freeSlot? := rfl
  have hplatform : (x.renew b n p).platform (x.renew b n p).requests = x.platform x.requests := rfl
  refine .ite (.fault ..) ?_
  rw [hslot, hplatform]
  cases x.kernel.freeSlot? with
  | none => exact .ok rfl
  | some t =>
      cases x.platform x.requests with
      | error e => exact .ok rfl
      | ok u =>
          refine .ok (Prod.ext rfl ?_)
          exact congrArg (fun contexts => { x with
            kernel := (((x.kernel.replaceThread t (.create name priority (some e))).note
              (.threadCreated name t priority)).withMailboxes p)
            requests := x.requests + 1, contexts }) (set_renew x t [.start])

theorem spawn_carries (name : String) (priority : Priority) (r : Routine) :
    Carries (renew b n p) (x.spawn name priority r) ((x.renew b n p).spawn name priority r) := by
  refine .ite (.fault ..) ((create_carries name priority (.routine r)).bind ?_)
  rintro ⟨made, x₁⟩
  change Pairs _ _ ((x₁.renew b n p).perform (x₁.renew b n p).frames _)
  rw [frames_renew]
  refine perform_carries ?_ _
  cases made with
  | error e => exact .ok rfl
  | ok t => exact ready_carries.bind fun _ => preempt_carries.bind fun _ => .ok rfl

theorem boot_carries : Carries (renew b n p) x.boot (x.renew b n p).boot := by
  have hboot : (x.renew b n p).kernel.boot = x.kernel.boot.map (withMailboxes p) :=
    boot_withMailboxes x.kernel p
  unfold boot
  rw [hboot]
  cases x.kernel.boot with
  | error e =>
      refine .ok ?_
      rw [frames_renew]
      exact setFrames_renew x (.answer (.thread (.error e)) :: x.frames)
  | ok kernel =>
      refine (create_carries (x := { x with kernel }) "idle" .idle .idle).bind ?_
      rintro ⟨made, x₁⟩
      change Pairs _ _ ((x₁.renew b n p).perform (x₁.renew b n p).frames _)
      rw [frames_renew]
      refine perform_carries ?_ _
      cases made with
      | error e => exact .ok rfl
      | ok t => exact ready_carries.bind fun _ => .ok rfl

theorem dropFrame_renew (x : Execution) : (x.renew b n p).dropFrame = x.dropFrame.renew b n p := by
  unfold dropFrame
  rw [frames_renew, ← List.map_tail]
  exact setFrames_renew x x.frames.tail

theorem enter_renew (x : Execution) : (x.renew b n p).enter = x.enter.renew b n p := by
  unfold enter
  rw [frames_renew]
  have hset := setFrames_renew (b := b) (n := n) (p := p) x
  cases hframes : x.frames with
  | nil => rfl
  | cons f rest =>
      cases f with
      | start => exact congrArg (fun y : Execution => { y with
          kernel := ((x.kernel.modifyThread x.kernel.current fun th =>
            { th with entry := none }).withMailboxes p) }) (hset rest)
      | callback r entered =>
          cases entered with
          | false => exact hset (.callback r true :: rest)
          | true => rfl
      | _ => rfl

/-- A move that is not about a mailbox, and makes none. -/
theorem move_carries (hm : m.attempt? x = none)
    (hmade : ∀ capacity, m ≠ .call (.operation (.createMailbox capacity))) :
    Carries (renew b n p) (x.move m) ((x.renew b n p).move m) := by
  cases m with
  | call c =>
      cases c with
      | boot => exact boot_carries
      | spawn name priority r => exact spawn_carries name priority r
      | exit msg =>
          change Carries _ (x.exit msg) ((x.renew b n p).exit msg)
          unfold Execution.exit
          refine perform_carries ?_ []
          exact exit_carries.bind fun _ => .ok rfl
      | operation c =>
          change Carries _ (x.perform x.frames (Operation.run · c))
            ((x.renew b n p).perform (x.renew b n p).frames (Operation.run · c))
          rw [frames_renew]
          refine perform_carries ?_ x.frames
          refine operation_carries c hm ?_
          rintro capacity rfl
          exact hmade capacity rfl
  | interrupt c =>
      change Carries _ (x.perform x.frames (InterruptCall.run · c))
        ((x.renew b n p).perform (x.renew b n p).frames (InterruptCall.run · c))
      rw [frames_renew]
      refine perform_carries ?_ x.frames
      exact interrupt_carries c hm
  | takeAnswer | leave => exact .ok (dropFrame_renew x)
  | enter => exact .ok (enter_renew x)
  | collectLog => exact .ok rfl
  | advance =>
      change Pairs _ x.advance (x.renew b n p).advance
      cases hframes : x.frames with
      | nil =>
          unfold advance
          rw [frames_renew, hframes]
          exact .ok rfl
      | cons f rest =>
          have hframes' : (x.renew b n p).frames =
              f.backdate b n :: rest.map (Frame.backdate b n) := by
            rw [frames_renew, hframes]
            rfl
          rw [advance_eq hframes, advance_eq hframes']
          refine perform_carries (frameStep_carries f ?_) rest
          rw [attempt_advance hframes] at hm
          exact hm

theorem backdate_zero (b : MailboxId) : Frame.backdate b 0 = id := by
  funext f
  cases f with
  | store b' epoch msg ahead => simp [Frame.backdate]
  | fetch b' epoch => simp [Frame.backdate]
  | _ => rfl

theorem renew_zero (b : MailboxId) (x : Execution) : x.renew b 0 x.kernel.mailboxes = x := by
  unfold renew
  rw [backdate_zero, List.map_id_fun, Vector.map_id]
  rfl

theorem Alike.carry (h : Alike b n l x x')
    (hm : ∀ n p, Carries (renew b n p) (x.move m) ((x.renew b n p).move m)) :
    Pairs (Alike b n l) (x.move m) (x'.move m) := by
  obtain ⟨p, hp, rfl⟩ := h
  refine (hm n p).mono ?_
  rintro y _ hy rfl
  have hown := hm 0 x.kernel.mailboxes
  rw [renew_zero, hy] at hown
  have hkept : y = y.renew b 0 x.kernel.mailboxes := by
    cases hown with
    | ok hown => exact hown
  have hsame : y.kernel.mailboxes = x.kernel.mailboxes := by
    rw [hkept]
    rfl
  exact ⟨p, hsame ▸ hp, rfl⟩

/-- The running thread does its part in both. -/
theorem Alike.perform (h : Alike b n l x x') {step step' : Kernel → Outcome Step}
    {left : List Frame → List Msg}
    (hstep : Pairs (Step.Alike b n left) (step x.kernel) (step' x'.kernel)) (rest : List Frame) :
    Pairs (fun y y' => ∃ k frames, step x.kernel = .ok (k, frames) ∧
        y.framesOf x.kernel.current = frames ++ rest ∧ Alike b n (left frames) y y')
      (x.perform rest step) (x'.perform (rest.map (Frame.backdate b n)) step') := by
  obtain ⟨p, hp, rfl⟩ := h
  refine hstep.bind ?_
  rintro ⟨k, frames⟩ ⟨_, _⟩ hok ⟨⟨p₁, hp₁, rfl⟩, rfl⟩
  refine .ok ⟨k, frames, hok, ?_, p₁, hp₁, ?_⟩
  · have hframes := framesOf_setFrames x (frames ++ rest) x.kernel.current
    rw [if_pos rfl] at hframes
    exact hframes
  · have hset := setFrames_renew (b := b) (n := n) (p := p) x (frames ++ rest)
    rw [List.map_append] at hset
    exact congrArg (fun x => { x with kernel := k.withMailboxes p₁ }) hset

theorem delivery_attempt (y : Execution) {a : Attempt} (ha : m.attempt? x = some (b', a)) :
    Record.delivery b ⟨x, m, y⟩ =
      if b' = b then a.delivery (y.framesOf x.kernel.current) else none := by
  unfold Record.delivery
  rw [ha]

/-- The same attempt at a mailbox has the same outcome in both. -/
theorem Alike.attempt (h : Alike b n l x x') {a : Attempt} (ha : m.attempt? x = some (b', a))
    {step step' : Kernel → Outcome Step} (hstep : Pairs
      (Step.Alike b n fun left => if b' = b then deliver (a.delivery left) l else l)
      (step x.kernel) (step' x'.kernel))
    (hrest : ∀ k frames, step x.kernel = .ok (k, frames) →
      a.delivery (frames ++ rest) = a.delivery frames) :
    Pairs (fun y y' => Alike b n (deliver (Record.delivery b ⟨x, m, y⟩) l) y y')
      (x.perform rest step) (x'.perform (rest.map (Frame.backdate b n)) step') := by
  refine (h.perform hstep rest).mono ?_
  rintro y y' - ⟨k, frames, hok, hleft, halike⟩
  rw [delivery_attempt y ha, hleft, hrest k frames hok]
  by_cases hb : b' = b
  · rw [if_pos hb] at halike ⊢
    exact halike
  · rw [if_neg hb] at halike ⊢
    exact halike

/-- There is room for a message if a unit says so. -/
theorem Served.room (hs : Served b h x) (hb : b' = b)
    (hpos : 0 < x.kernel.semaphoreCount (x.kernel.mailbox b').empty) :
    (contents b h).length < (x.kernel.mailbox b').capacity := by
  subst hb
  have haccount := hs.balanced.account .producer
  change ((x.kernel.mailbox b').capacity : Int) - (contents b' h).length =
    max (x.kernel.semaphoreCount (x.kernel.mailbox b').empty) 0 + _ + 0 at haccount
  omega

theorem Served.pending (hs : Served b h x) (hb : b' = b)
    (hpos : 0 < x.kernel.semaphoreCount (x.kernel.mailbox b').full) : contents b h ≠ [] := by
  subst hb
  intro hnil
  have haccount := hs.balanced.account .consumer
  change ((contents b' h).length : Int) =
    max (x.kernel.semaphoreCount (x.kernel.mailbox b').full) 0 + _ + 0 at haccount
  rw [hnil, List.length_nil] at haccount
  omega

section Attempted
variable {a : Attempt} (halike : Alike b n (contents b h) x x') (hx : Orderly h x)
  (hs : Served b h x)
include halike hx hs

theorem Alike.attempted_call {c : Operation} (hallows : x.allows (.call (.operation c)) = true)
    (ha : c.attempt? = some (b', a)) :
    Pairs (fun y y' => Alike b n (contents b (⟨x, .call (.operation c), y⟩ :: h)) y y')
      (x.move (.call (.operation c))) (x'.move (.call (.operation c))) := by
  have hattempt : Move.attempt? x (.call (.operation c)) = some (b', a) := ha
  have hk := hx.sound.inPlace
  have happend : ∀ frames, a.delivery (frames ++ []) = a.delivery frames := fun frames =>
    congrArg a.delivery (List.append_nil frames)
  change Pairs _ (x.perform x.frames c.run) (x'.perform x'.frames c.run)
  rw [halike.frames, (allows_call hallows).1]
  cases c with
  | post b₁ msg ahead timeout =>
      obtain ⟨rfl, rfl⟩ := Prod.mk.inj (Option.some.inj ha)
      exact halike.attempt hattempt (halike.kernel.post hk hs.room) fun _ frames _ => happend frames
  | fetch b₁ timeout =>
      obtain ⟨rfl, rfl⟩ := Prod.mk.inj (Option.some.inj ha)
      exact halike.attempt hattempt (halike.kernel.fetch hk hs.pending)
        fun _ frames _ => happend frames
  | resetMailbox b₁ =>
      obtain ⟨rfl, rfl⟩ := Prod.mk.inj (Option.some.inj ha)
      refine halike.attempt hattempt ?_ fun _ frames _ => happend frames
      exact halike.kernel.resetMailbox.bind fun k₁ k₁' _ h₁ => h₁.preempt.bind
        fun k₂ k₂' _ h₂ => .ok ⟨h₂, rfl⟩
  | _ => cases ha

omit hx in
theorem Alike.attempted_interrupt {c : InterruptCall} (ha : c.attempt? = some (b', a)) :
    Pairs (fun y y' => Alike b n (contents b (⟨x, .interrupt c, y⟩ :: h)) y y')
      (x.move (.interrupt c)) (x'.move (.interrupt c)) := by
  have hattempt : Move.attempt? x (.interrupt c) = some (b', a) := ha
  change Pairs _ (x.perform x.frames c.run) (x'.perform x'.frames c.run)
  rw [halike.frames]
  cases c with
  | post b₁ msg ahead =>
      obtain ⟨rfl, rfl⟩ := Prod.mk.inj (Option.some.inj ha)
      refine halike.attempt hattempt ?_ ?_
      · refine (halike.kernel.postNow hs.room).bind ?_
        rintro ⟨e, k₁⟩ ⟨_, k₁'⟩ - ⟨rfl, h₁⟩
        exact .ok ⟨h₁, rfl⟩
      · intro k frames hstep
        obtain ⟨made, -, hdone⟩ := bind_eq_ok.mp hstep
        obtain ⟨-, rfl⟩ := Prod.mk.inj (Except.ok.inj hdone)
        exact postDelivery_append (List.cons_ne_nil _ _)
  | fetch b₁ =>
      obtain ⟨rfl, rfl⟩ := Prod.mk.inj (Option.some.inj ha)
      refine halike.attempt hattempt ?_ ?_
      · refine (halike.kernel.fetchNow hs.pending).bind ?_
        rintro ⟨e, k₁⟩ ⟨_, k₁'⟩ - ⟨rfl, h₁⟩
        exact .ok ⟨h₁, rfl⟩
      · intro k frames hstep
        obtain ⟨made, -, hdone⟩ := bind_eq_ok.mp hstep
        obtain ⟨-, rfl⟩ := Prod.mk.inj (Except.ok.inj hdone)
        exact fetchDelivery_append (List.cons_ne_nil _ _)
  | resetMailbox b₁ =>
      obtain ⟨rfl, rfl⟩ := Prod.mk.inj (Option.some.inj ha)
      refine halike.attempt hattempt ?_ fun _ _ _ => rfl
      exact halike.kernel.resetMailbox.bind fun k₁ k₁' _ h₁ => .ok ⟨h₁, rfl⟩
  | _ => cases ha

theorem Alike.attempted_advance (hallows : x.allows .advance = true)
    (ha : Move.attempt? x .advance = some (b', a)) :
    Pairs (fun y y' => Alike b n (contents b (⟨x, .advance, y⟩ :: h)) y y') (x.move .advance)
      (x'.move .advance) := by
  obtain ⟨f, rest, hframes, -⟩ := allows_advance hallows
  have hframes' := halike.frames
  rw [hframes] at hframes'
  change Pairs _ x.advance x'.advance
  rw [advance_eq hframes, advance_eq hframes']
  have hf := ha
  rw [attempt_advance hframes] at hf
  have hrunning : x'.kernel.running = x.kernel.running := by
    obtain ⟨p, -, rfl⟩ := halike
    rfl
  -- The running thread has a claim if it is this mailbox, so it has a unit if it is admitted.
  have hresume : ∀ {side epoch}, f.claim? b = some (side, epoch) →
      x.kernel.admission b epoch x.kernel.running.wakeup = .ok () →
      ∃ C, Balanced x.kernel b C (contents b h) (some side) := by
    intro side epoch hclaim hadmission
    have hbalanced := hs.resume hx (hs.claim_head hframes hclaim).1
    rw [if_pos hadmission] at hbalanced
    exact ⟨_, hbalanced⟩
  cases f with
  | store b₁ epoch msg ahead =>
      obtain ⟨rfl, rfl⟩ := Prod.mk.inj (Option.some.inj hf)
      refine halike.attempt ha ?_ fun _ _ hstep => postDelivery_append (storeAfter_ne_nil hstep)
      change Pairs _ _ (Kernel.storeAfter b₁ _ msg ahead x'.kernel.running.wakeup x'.kernel)
      rw [hrunning]
      refine halike.kernel.storeAfter ?_
      rintro rfl hadmission
      obtain ⟨C, hbalanced⟩ := hresume (if_pos rfl) hadmission
      exact hbalanced.room
  | fetch b₁ epoch =>
      obtain ⟨rfl, rfl⟩ := Prod.mk.inj (Option.some.inj hf)
      refine halike.attempt ha ?_ fun _ _ hstep => fetchDelivery_append (fetchAfter_ne_nil hstep)
      change Pairs _ _ (Kernel.fetchAfter b₁ _ x'.kernel.running.wakeup x'.kernel)
      rw [hrunning]
      refine halike.kernel.fetchAfter ?_
      rintro rfl hadmission
      obtain ⟨C, hbalanced⟩ := hresume (if_pos rfl) hadmission
      obtain ⟨msg, l, hl⟩ := hbalanced.pending
      rw [hl]
      exact List.cons_ne_nil msg l
  | _ => cases hf

theorem Alike.attempted (hallows : x.allows m = true) (ha : m.attempt? x = some (b', a)) :
    Pairs (fun y y' => Alike b n (contents b (⟨x, m, y⟩ :: h)) y y') (x.move m) (x'.move m) := by
  cases m with
  | call c =>
      cases c with
      | operation c => exact halike.attempted_call hx hs hallows ha
      | _ => cases ha
  | interrupt c => exact halike.attempted_interrupt hs ha
  | advance => exact halike.attempted_advance hx hs hallows ha
  | _ => cases ha

end Attempted

/-- Every move that is allowed keeps the two alike, or fails in both with the same fault. -/
theorem Alike.move (halike : Alike b n (contents b h) x x') (hx : Orderly h x) (hs : Served b h x)
    (hin : x.kernel.mailboxes.contains b = true) (hallows : x.allows m = true) :
    Pairs (fun y y' => Alike b n (contents b (⟨x, m, y⟩ :: h)) y y') (x.move m) (x'.move m) := by
  cases ha : m.attempt? x with
  | some ba => exact halike.attempted hx hs hallows ha
  | none =>
      have hnone : ∀ y, Record.delivery b ⟨x, m, y⟩ = none := by
        intro y
        refine delivery_eq_none y ?_
        rw [ha]
        exact fun _ => nofun
      have hkeep : ∀ y, contents b (⟨x, m, y⟩ :: h) = contents b h := by
        intro y
        rw [contents, hnone]
        rfl
      simp only [hkeep]
      by_cases hmade : ∃ capacity, m = .call (.operation (.createMailbox capacity))
      · obtain ⟨capacity, rfl⟩ := hmade
        change Pairs _ (x.perform x.frames (Operation.run · (.createMailbox capacity)))
          (x'.perform x'.frames (Operation.run · (.createMailbox capacity)))
        rw [halike.frames]
        have hstep : Pairs (Step.Alike b n fun _ => contents b h)
            (Operation.run x.kernel (.createMailbox capacity))
            (Operation.run x'.kernel (.createMailbox capacity)) := by
          refine (halike.kernel.createMailbox hin capacity).bind ?_
          rintro ⟨made, k₁⟩ ⟨_, k₁'⟩ - ⟨rfl, h₁⟩
          exact .ok ⟨h₁, rfl⟩
        refine (halike.perform hstep x.frames).mono ?_
        rintro y y' - ⟨-, -, -, -, hy⟩
        exact hy
      · refine halike.carry fun n p => move_carries ha ?_
        rintro capacity rfl
        exact hmade ⟨capacity, rfl⟩

end Execution

end RealtimeKernel

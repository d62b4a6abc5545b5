import RealtimeKernel.Kernel.Semaphore

/-!
Mailboxes: bounded queues of messages. One semaphore counts the free cells and one the
messages; the ring is touched only by a thread that won a unit of the right one. A reset
starts a new epoch, and a thread that won its unit before it but runs after it goes away with
`reset` and leaves the ring alone.
-/
namespace RealtimeKernel.Kernel

def createMailbox (k : Kernel) (capacity : Nat) :
    Outcome (Except KernelError MailboxId × Kernel) := do
  if h : 0 < capacity ∧ capacity ≤ maxMessages then
    if k.mailboxes.used = maxMailboxes then return (.error .mailboxTableFull, k)
    else if maxSemaphores - k.semaphores.used < 2 then return (.error .semaphoreTableFull, k)
    else
      match ← k.addSemaphore capacity with
      | (.error e, k) => return (.error e, k)
      | (.ok empty, k) =>
        match ← k.addSemaphore 0 with
        | (.error e, k) => return (.error e, k)
        | (.ok full, k) =>
          match k.mailboxes.push? { capacity, ring := .empty 0 h.1, empty, full } with
          | some (b, mailboxes) =>
            return (.ok b, { k with mailboxes }.note (.mailboxCreated b capacity))
          | none => return (.error .mailboxTableFull, k)
  else return (.error (.invalidCapacity capacity), k)

def mailbox (k : Kernel) (b : MailboxId) : Mailbox := k.mailboxes.get b

def setMailbox (k : Kernel) (b : MailboxId) (box : Mailbox) : Kernel :=
  { k with mailboxes := k.mailboxes.set b box }

/-- Puts a message into the ring, in front of the others or behind them. -/
def putMessage (k : Kernel) (b : MailboxId) (msg : Msg) (ahead : Bool) : Kernel :=
  let box := k.mailbox b
  k.setMailbox b
    { box with ring := if ahead then box.ring.pushFront msg else box.ring.pushBack msg }

/-- Takes the first message from the ring. -/
def takeMessage (k : Kernel) (b : MailboxId) : Msg × Kernel :=
  let box := k.mailbox b
  let (msg, ring) := box.ring.popFront
  (msg, k.setMailbox b { box with ring })

/-- What a wait for a mailbox comes to, given the epoch in which it began. -/
def admission (k : Kernel) (b : MailboxId) (epoch : UInt32) (result : WakeupResult) :
    Except WaitError Unit := do
  result.toExcept
  if (k.mailbox b).epoch = epoch then return () else throw .reset

/-- Stores a message if the wait for a free cell went well. -/
def storeAfter (b : MailboxId) (epoch : UInt32) (msg : Msg) (ahead : Bool)
    (result : WakeupResult) (k : Kernel) : Outcome Step := do
  match k.admission b epoch result with
  | .error e => return (k, [.answer (.posted (.error e))])
  | .ok () =>
    let k ← (k.putMessage b msg ahead).signal (k.mailbox b).full
    return (← k.preempt, [.answer (.posted (.ok ()))])

/-- Fetches a message if the wait for one went well. -/
def fetchAfter (b : MailboxId) (epoch : UInt32) (result : WakeupResult) (k : Kernel) :
    Outcome Step := do
  match k.admission b epoch result with
  | .error e => return (k, [.answer (.fetched (.error e))])
  | .ok () =>
    let (msg, k) := k.takeMessage b
    let k ← k.signal (k.mailbox b).empty
    return (← k.preempt, [.answer (.fetched (.ok msg))])

def post (k : Kernel) (b : MailboxId) (msg : Msg) (ahead : Bool) (timeout : Timeout) :
    Outcome Step := do
  let { epoch, empty, .. } := k.mailbox b
  (← k.waitUnit empty timeout .waitingMailbox).thenDo (storeAfter b epoch msg ahead)
    (.store b epoch msg ahead)

def fetch (k : Kernel) (b : MailboxId) (timeout : Timeout) : Outcome Step := do
  let { epoch, full, .. } := k.mailbox b
  (← k.waitUnit full timeout .waitingMailbox).thenDo (fetchAfter b epoch) (.fetch b epoch)

/-- Takes a unit that is there, if one is. -/
def takeUnit? (k : Kernel) (s : SemaphoreId) : Option Kernel :=
  if k.semaphoreCount s > 0 then some (k.setSemaphoreCount s (k.semaphoreCount s - 1)) else none

/-- Posts without waiting and without giving way. -/
def postNow (k : Kernel) (b : MailboxId) (msg : Msg) (ahead : Bool) :
    Outcome (Except WaitError Unit × Kernel) := do
  let { empty, full, .. } := k.mailbox b
  match k.takeUnit? empty with
  | none => return (.error .timeout, k)
  | some k => return (.ok (), ← (k.putMessage b msg ahead).signal full)

/-- Fetches without waiting and without giving way. -/
def fetchNow (k : Kernel) (b : MailboxId) : Outcome (Except WaitError Msg × Kernel) := do
  let { empty, full, .. } := k.mailbox b
  match k.takeUnit? full with
  | none => return (.error .timeout, k)
  | some k =>
    let (msg, k) := k.takeMessage b
    return (.ok msg, ← k.signal empty)

/-- Drops every message and sends every waiter away. -/
def resetMailbox (k : Kernel) (b : MailboxId) : Outcome Kernel := do
  let box := k.mailbox b
  let k := k.setMailbox b { box with ring := box.ring.rewind, epoch := box.epoch + 1 }
  let k ← k.resetSemaphore box.empty box.capacity
  k.resetSemaphore box.full 0

/-- Messages that may be fetched at once. -/
def mailboxUsed (k : Kernel) (b : MailboxId) : Nat := (k.semaphoreCount (k.mailbox b).full).toNat

/-- Messages that may be posted at once. -/
def mailboxFree (k : Kernel) (b : MailboxId) : Nat := (k.semaphoreCount (k.mailbox b).empty).toNat

end RealtimeKernel.Kernel

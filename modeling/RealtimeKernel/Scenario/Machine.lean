import RealtimeKernel.Scenario.Event

/-!
Running a scenario. For each thread slot the machine keeps the activities of its code, first
things first, beside the frames that the execution keeps for the kernel. A step makes the one
move that is due, or only changes what the running code has to do; nothing but moves changes
the execution.
-/
namespace RealtimeKernel.Scenario

open Execution (Move)

/-- Rounds of a loop, at most. -/
def maxRepeats : Nat := 1000
/-- Ticks of one request, and ticks that the idle thread makes pass, at most. -/
def maxTicks : Nat := 20000
/-- Timers set and cancelled by one request, at most. -/
def maxChurn : Nat := 70000
/-- Events of a report, at most: the first ones. -/
def maxEvents : Nat := 5000
/-- Steps of a run, at most. Only loops nested five deep get anywhere near it. -/
def maxSteps : Nat := 1_000_000_000_000_000

/-- What a piece of code has to do yet. -/
inductive Activity where
  | commands (rest : List Command)
  | loop (left : Nat) (body : List Command)
  | untilTerminated (left : Nat) (body : List Command)
  | underLock (t : ThreadId) (name : String) (rest : List InterruptLine)
  | callback (r : Routine) (rest : List InterruptLine)
  /-- A request is on its way; its value is its answer, or else one known in advance. -/
  | awaiting (source : Source) (name : String) (value : Option Value)
  | ticking (source : Source) (name : String) (left : Nat)
  /-- Timers have to be set and cancelled; one may be set already. -/
  | churning (source : Source) (name : String) (left : Nat) (timer : Option TimerId)
  /-- The kernel has to come up, with so many attempts left. -/
  | booting (left : Nat)
  /-- The boot script ends here, and the run with it. -/
  | main
  /-- The thread ends here. -/
  | thread
  /-- The idle thread makes time pass. -/
  | idle

structure Machine where
  scenario : Scenario
  execution : Execution
  activities : Vector (List Activity) maxThreads
  /-- The timers set so far, in order. -/
  timers : Array TimerId := #[]
  events : Array Event := #[]

/-- A machine that goes on, or one whose run is over. -/
inductive Progress where
  | going (m : Machine)
  | over (m : Machine) (ending : Ending)

namespace Machine

def kernel (m : Machine) : Kernel := m.execution.kernel

/-- The activities of the running thread. -/
def current (m : Machine) : List Activity := m.activities.get m.kernel.current

def setCurrent (m : Machine) (as : List Activity) : Machine :=
  { m with activities := m.activities.set m.kernel.current as m.kernel.current.isLt }

def push (m : Machine) (a : Activity) : Machine := m.setCurrent (a :: m.current)

def addEvent (m : Machine) (e : Event) : Machine :=
  if m.events.size < maxEvents then { m with events := m.events.push e } else m

def report (m : Machine) (source : Source) (name : String) (value : Value) : Machine :=
  m.addEvent (.request source name value m.kernel.clock.now
    (if m.scenario.trace then some m.kernel.snapshot else none))

/-- Reports the log records of the last move. -/
def collectLog (m : Machine) : Machine :=
  match m.kernel.journal with
  | [] => m
  | records =>
    let m := { m with execution := m.execution.withoutLog }
    if m.scenario.log then records.reverse.foldl (fun m r => m.addEvent (.log r)) m else m

/-- Makes a move. A fault ends the run. -/
def make (m : Machine) (move : Move) : Progress :=
  match m.execution.move move with
  | .ok execution => .going { m with execution }.collectLog
  | .error ⟨f, kernel⟩ =>
    .over { m with execution := { m.execution with kernel } }.collectLog (.fault f)

/-- Makes a call whose answer is to be reported, or else a value known in advance. -/
def issue (m : Machine) (source : Source) (name : String) (value : Option Value)
    (move : Move) : Progress :=
  (m.push (.awaiting source name value)).make move

/-- Reports a value at once. -/
def done (m : Machine) (source : Source) (name : String) (value : Value) : Progress :=
  .going (m.report source name value)

/-- What a reading shows, if all that it names exists. -/
def read? (m : Machine) : Query → Option Value
  | .now => some (.number m.kernel.clock.now.toNat)
  | .current => some (.number m.kernel.current)
  | .priority => some (.number m.kernel.running.priority.level)
  | .shouldTerminate => some (.flag m.kernel.running.terminate)
  | .info t =>
    let th := m.kernel.thread t
    some (.info (if th.isActive then some th else none))
  | .inWindow start stop => some (.flag (inWindow m.kernel.clock.now start stop))
  | .msToTicks ms => some (.number (m.kernel.config.msToTicks ms).toNat)
  | .quantum => some (.number m.kernel.config.quantum)
  | .stats => some (.stats m.kernel.stats)
  | .snapshot => some (.snapshot m.kernel.snapshot)
  | .preemptionRequired => some (.flag m.kernel.isPreemptionRequired)
  | .semaphoreCount s =>
    if m.kernel.semaphores.contains s then some (.number (m.kernel.semaphoreCount s)) else none
  | .mutexOwner mx =>
    if m.kernel.mutexes.contains mx then some (.optional ((m.kernel.owner? mx).map Fin.val))
    else none
  | .mailboxUsed b =>
    if m.kernel.mailboxes.contains b then some (.number (m.kernel.mailboxUsed b)) else none
  | .mailboxFree b =>
    if m.kernel.mailboxes.contains b then some (.number (m.kernel.mailboxFree b)) else none
  | .timerArmed timer => m.timers[timer]?.map fun id => .flag (m.kernel.isTimerArmed id)
  | .timerRemaining timer =>
    m.timers[timer]?.map fun id => .optional (m.kernel.timerRemaining id)

def interruptRequest (m : Machine) (source : Source) (line : InterruptLine) : Progress :=
  let name := line.name
  match line.request with
  | .unknown => m.done source name .unknown
  | .malformed => m.done source name .malformed
  | .query q => m.done source name ((m.read? q).getD .malformed)
  | .call c =>
    if c.handlesExist m.kernel then m.issue source name none (.interrupt c)
    else m.done source name .malformed
  | .setTimer delay r =>
    if (m.scenario.callbacks.lookup r).isSome then
      m.issue source name none (.interrupt (.setTimer delay r))
    else m.done source name .malformed
  | .resetTimer timer =>
    match m.timers[timer]? with
    | some id => m.issue source name none (.interrupt (.resetTimer id))
    | none => m.done source name .malformed

def request (m : Machine) (name : String) (r : Request) : Progress :=
  let source := .thread m.kernel.current
  match r with
  | .unknown => m.done source name .unknown
  | .malformed => m.done source name .malformed
  | .query q => m.done source name ((m.read? q).getD .malformed)
  | .call c =>
    if c.handlesExist m.kernel then m.issue source name none (.call c)
    else m.done source name .malformed
  | .spawn key =>
    match m.scenario.threads.lookup key with
    | some t => m.issue source name none (.call (.spawn t.name t.priority key))
    | none => m.done source name .malformed
  | .resumeIf t =>
    if (m.kernel.thread t).state = .suspended then
      m.issue source name (some (.flag true)) (.call (.operation (.resume t)))
    else m.done source name (.flag false)
  | .setTimer delay r =>
    if (m.scenario.callbacks.lookup r).isSome then
      m.issue source name none (.call (.operation (.setTimer delay r)))
    else m.done source name .malformed
  | .resetTimer timer =>
    match m.timers[timer]? with
    | some id => m.issue source name none (.call (.operation (.resetTimer id)))
    | none => m.done source name .malformed
  | .resetTimerIf timer =>
    match m.timers[timer]? with
    | none => m.done source name .malformed
    | some id =>
      if m.kernel.isTimerArmed id then
        m.issue source name (some (.flag true)) (.call (.operation (.resetTimer id)))
      else m.done source name (.flag false)
  | .ticks n => .going (m.push (.ticking source name (min n maxTicks)))
  | .churn n => .going (m.push (.churning source name (min n maxChurn) none))

/-- The running script ends with a message. Only a thread of its own ends with its script. -/
def exit (m : Machine) (msg : Msg) : Progress :=
  match m.current.getLast? with
  | some .main => .over m .done
  | some .idle => .going (m.setCurrent [.idle])
  | _ => m.make (.call (.exit msg))

def command (m : Machine) : Command → Progress
  | .exit msg => m.exit msg
  | .loop times body => .going (m.push (.loop (min times maxRepeats) body))
  | .untilTerminated body => .going (m.push (.untilTerminated maxRepeats body))
  | .underLock name body => .going (m.push (.underLock m.kernel.current name body))
  | .request name r => m.request name r

/-- One round of the idle thread: a tick, unless no tick can change anything or time is up. -/
def idleRound (m : Machine) : Progress :=
  if m.kernel.timers.armed = 0 ∧ m.kernel.queues.ready.head = none then .over m .deadlock
  else if (m.kernel.clock.elapsedSince m.scenario.startTime).toNat
      ≥ min m.scenario.tickLimit maxTicks then .over m .tickLimit
  else m.make (.call (.operation .tick))

/-- The running code makes its next move. -/
def act (m : Machine) : Progress :=
  match m.current with
  | [] => m.make (.call (.exit 0))
  | .commands [] :: rest => .going (m.setCurrent rest)
  | .commands (c :: cs) :: rest => (m.setCurrent (.commands cs :: rest)).command c
  | .loop 0 _ :: rest => .going (m.setCurrent rest)
  | .loop (left + 1) body :: rest =>
    .going (m.setCurrent (.commands body :: .loop left body :: rest))
  | .untilTerminated 0 _ :: rest => .going (m.setCurrent rest)
  | .untilTerminated (left + 1) body :: rest =>
    if m.kernel.running.terminate then .going (m.setCurrent rest)
    else .going (m.setCurrent (.commands body :: .untilTerminated left body :: rest))
  | .underLock t name [] :: rest => (m.setCurrent rest).done (.thread t) name .unit
  | .underLock t name (line :: lines) :: rest =>
    (m.setCurrent (.underLock t name lines :: rest)).interruptRequest (.thread t) line
  | .callback _ [] :: rest => (m.setCurrent rest).make .leave
  | .callback r (line :: lines) :: rest =>
    (m.setCurrent (.callback r lines :: rest)).interruptRequest (.callback r) line
  | .awaiting .. :: rest => .going (m.setCurrent rest)
  | .ticking source name 0 :: rest => (m.setCurrent rest).done source name .unit
  | .ticking source name (left + 1) :: rest =>
    (m.setCurrent (.ticking source name left :: rest)).make (.call (.operation .tick))
  | .churning source name left (some id) :: rest =>
    (m.setCurrent (.churning source name left none :: rest)).make
      (.call (.operation (.resetTimer id)))
  | .churning source name 0 none :: rest => (m.setCurrent rest).done source name .unit
  | .churning source name (left + 1) none :: rest =>
    (m.setCurrent (.churning source name left none :: rest)).make
      (.call (.operation (.setTimer ⟨UInt32.size - 1, by decide, by decide⟩ "")))
  | .booting 0 :: _ => .over m .bootFailed
  | .booting (left + 1) :: rest =>
    (m.setCurrent (.booting left :: rest)).make (.call .boot)
  | .main :: _ => .over m .done
  | .thread :: _ => m.make (.call (.exit 0))
  | .idle :: _ => m.idleRound

/-- Takes note of a timer that was set; the value of an answer otherwise. -/
def accept (m : Machine) : Answer → Machine × Value
  | .timer (.ok id) => ({ m with timers := m.timers.push id }, .number m.timers.size)
  | a => (m, .ofAnswer a)

/-- The running code gets the answer to its request. -/
def receive (m : Machine) (a : Answer) : Machine :=
  match m.current with
  | .awaiting source name value :: rest =>
    let (m, answer) := (m.setCurrent rest).accept a
    m.report source name (value.getD answer)
  | .churning source name left _ :: rest =>
    match a with
    | .timer (.ok id) => m.setCurrent (.churning source name left (some id) :: rest)
    | .timer (.error e) => (m.setCurrent rest).report source name (.refused e)
    | _ => m
  | .booting left :: rest =>
    let m := m.report (.thread m.kernel.current) "init" (.ofAnswer a)
    match a, left with
    | .thread (.ok _), 1 => m.setCurrent (.commands m.scenario.main :: .main :: rest)
    | _, _ => m
  | _ => m

/-- The code of a thread that starts. -/
def start (m : Machine) : Entry → Machine
  | .idle => m.setCurrent [.commands m.scenario.idle, .idle]
  | .routine key =>
    let body := match m.scenario.threads.lookup key with
      | some t => t.body
      | none => []
    m.setCurrent [.commands body, .thread]

/-- Makes a move that cannot fault, then lets the code that it concerns know. -/
def makeThen (m : Machine) (move : Move) (next : Machine → Machine) : Progress :=
  match m.make move with
  | .going m => .going (next m)
  | .over m ending => .over m ending

def step (m : Machine) : Progress :=
  match m.execution.turn with
  | .work => m.make .advance
  | .answer a => m.makeThen .takeAnswer (·.receive a)
  | .entry e => m.makeThen .enter (·.start e)
  | .callback r =>
    m.makeThen .enter (·.push (.callback r ((m.scenario.callbacks.lookup r).getD [])))
  | .code | .callbackCode _ => m.act

/-- Runs a machine for at most `bound` steps. -/
def run : Nat → Machine → Machine × Ending
  | 0, m => (m, .unfinished)
  | bound + 1, m =>
    match m.step with
    | .going m => run bound m
    | .over m ending => (m, ending)

end Machine

/-- The machine before its first step. -/
def machine (s : Scenario) : Machine where
  scenario := s
  execution := {
    kernel := { config := s.config, clock := { now := s.startTime } }
    platform := fun n => if n ∈ s.refusals then .error .contextUnavailable else .ok () }
  activities :=
    (Vector.replicate maxThreads []).set Kernel.mainThread
      (if s.boots then [.booting 2] else [.commands s.main, .main]) Kernel.mainThread.isLt

/-- What a run of at most `bound` steps reports. -/
def reportWithin (bound : Nat) (s : Scenario) : Report :=
  let (m, ending) := s.machine.run bound
  { ending, events := m.events, final := m.kernel.snapshot }

def report (s : Scenario) : Report := s.reportWithin maxSteps

end RealtimeKernel.Scenario

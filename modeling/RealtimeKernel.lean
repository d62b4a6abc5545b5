import RealtimeKernel.Scenario.Machine
import RealtimeKernel.ThreadQueue.Session
import RealtimeKernel.TimerQueue.Session
import RealtimeKernel.Proofs.Chain
import RealtimeKernel.Proofs.ThreadQueue.Family
import RealtimeKernel.Proofs.ThreadQueue.Refinement
import RealtimeKernel.Proofs.TimerQueue.Schedule
import RealtimeKernel.Proofs.TimerQueue.Deadlines
import RealtimeKernel.Proofs.TimerQueue.Remaining
import RealtimeKernel.Proofs.TimerQueue.Adjustments
import RealtimeKernel.Proofs.Kernel.Queues
import RealtimeKernel.Proofs.Kernel.Arranged
import RealtimeKernel.Proofs.Kernel.Switches
import RealtimeKernel.Proofs.Kernel.Effect
import RealtimeKernel.Proofs.Kernel.Units
import RealtimeKernel.Proofs.Kernel.Ownership
import RealtimeKernel.Proofs.Kernel.Sound
import RealtimeKernel.Proofs.Kernel.Operations
import RealtimeKernel.Proofs.Execution.Calls
import RealtimeKernel.Proofs.Execution.Moves
import RealtimeKernel.Proofs.Execution.History
import RealtimeKernel.Proofs.Execution.Consistency
import RealtimeKernel.Proofs.Kernel.Inheritance
import RealtimeKernel.Proofs.Execution.Inheritance
import RealtimeKernel.Proofs.Ring
import RealtimeKernel.Proofs.Kernel.Gates
import RealtimeKernel.Proofs.Kernel.Balance
import RealtimeKernel.Proofs.Kernel.Delivery
import RealtimeKernel.Proofs.Execution.Mailboxes
import RealtimeKernel.Proofs.Execution.Attempts
import RealtimeKernel.Proofs.Kernel.Settled
import RealtimeKernel.Proofs.Execution.Returns
import RealtimeKernel.Proofs.Execution.Preemption
import RealtimeKernel.Proofs.Kernel.Tallies
import RealtimeKernel.Proofs.Execution.Conservation
import RealtimeKernel.Proofs.Kernel.Carries
import RealtimeKernel.Proofs.Kernel.Renewal
import RealtimeKernel.Proofs.Execution.Renewal
import RealtimeKernel.Proofs.Execution.Aborts
import RealtimeKernel.Proofs.Execution.Resets
import RealtimeKernel.Proofs.Execution.Joins
import RealtimeKernel.Proofs.Kernel.Waits
import RealtimeKernel.Proofs.Kernel.Events
import RealtimeKernel.Proofs.Execution.Wakeups
import RealtimeKernel.Proofs.Execution.Timeouts
import RealtimeKernel.Proofs.Kernel.Timers
import RealtimeKernel.Proofs.Execution.TimerIds
import RealtimeKernel.Proofs.Execution.Exclusion
import RealtimeKernel.Proofs.Kernel.Totality
import RealtimeKernel.Proofs.Kernel.Persistence
import RealtimeKernel.Proofs.Execution.Agenda
import RealtimeKernel.Proofs.Execution.Safety
import RealtimeKernel.Proofs.Execution.Bringup
import RealtimeKernel.Proofs.Execution.Rebase
import RealtimeKernel.Proofs.Kernel.Conditions
import RealtimeKernel.Proofs.Execution.Conditions
import RealtimeKernel.Proofs.Kernel.Arrivals
import RealtimeKernel.Proofs.Kernel.Successions
import RealtimeKernel.Proofs.Execution.Arrivals
import RealtimeKernel.Proofs.Kernel.Lending
import RealtimeKernel.Proofs.Execution.Creation
import RealtimeKernel.Proofs.Execution.Handling
import RealtimeKernel.Proofs.Kernel.Releases
import RealtimeKernel.Proofs.Execution.Releases
import RealtimeKernel.Proofs.Kernel.Line
import RealtimeKernel.Proofs.Execution.Simultaneous
import RealtimeKernel.Proofs.Kernel.Rota
import RealtimeKernel.Proofs.Execution.Turns
import RealtimeKernel.Proofs.Execution.RoundRobin
import RealtimeKernel.Proofs.Kernel.Quantum
import RealtimeKernel.Proofs.Execution.Shares
import RealtimeKernel.Proofs.Kernel.Prompts
import RealtimeKernel.Proofs.Execution.Prompts

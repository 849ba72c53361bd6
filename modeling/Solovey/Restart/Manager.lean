import Solovey.Data.System

/-!
# The restart manager

`singbox/restart/manager.go`. Each section under the manager's mutex is one step, and so is what the
runtime does with a timer: it fires, and its callback loads the timer, ends the claim and sends the
signal. A goroutine that waits on the condition looks at the flag again whenever it is scheduled. An
operation may take any time, and it may panic: its claim is ended by a deferred call.
-/

namespace Solovey.Restart

open Solovey.Data

inductive Call
  | run
  | runBlocking
  | runBlockingContext
  | scheduleRestart
  | scheduleRestartBlocking
  | cancelPending
  deriving DecidableEq

/-- Where a goroutine stands. `enter` is in front of the section that claims the manager, or of the
section of `CancelPending`; `operate` is inside `operation()`; `arm` is in front of
`armRestartTimer`. -/
inductive Pc
  | idle
  | enter (call : Call)
  | operate
  | arm
  deriving DecidableEq

inductive TimerPhase
  | unused
  | armed
  | stopped
  | fired
  | loaded
  | ended
  | signalled
  deriving DecidableEq

structure State where
  inFlight : Bool
  pendingTimer : Option ℕ
  timers : ℕ → TimerPhase
  pcs : ℕ → Pc

def State.moveTo (s : State) (g : ℕ) (pc : Pc) : State :=
  { s with pcs := Function.update s.pcs g pc }

def State.setTimer (s : State) (i : ℕ) (phase : TimerPhase) : State :=
  { s with timers := Function.update s.timers i phase }

/-- `begin` succeeds. -/
def State.claim (s : State) (g : ℕ) (pc : Pc) : State :=
  { s.moveTo g pc with inFlight := true }

/-- `CancelPending`: a timer that could not be stopped keeps the claim for its callback. -/
def State.cancel (s : State) : State :=
  match s.pendingTimer with
  | none => s
  | some i =>
    if s.timers i = .armed then
      { s.setTimer i .stopped with pendingTimer := none, inFlight := false }
    else { s with pendingTimer := none }

/-- The section that a call enters first. `cancelled` is what the context of a
`RunBlockingContext` says. -/
def State.enter (s : State) (g : ℕ) (cancelled : Bool) : Call → State
  | .run => if s.inFlight then s.moveTo g .idle else s.claim g .operate
  | .runBlocking => if s.inFlight then s else s.claim g .operate
  | .runBlockingContext =>
    if cancelled then s.moveTo g .idle
    else if s.inFlight then s else s.claim g .operate
  | .scheduleRestart => if s.inFlight then s.moveTo g .idle else s.claim g .arm
  | .scheduleRestartBlocking =>
    if s.inFlight then (if s.pendingTimer.isSome then s.moveTo g .idle else s)
    else s.claim g .arm
  | .cancelPending => s.cancel.moveTo g .idle

inductive Action
  | call (g : ℕ) (call : Call)
  | enter (g : ℕ) (cancelled : Bool)
  | finish (g : ℕ)
  | arm (g i : ℕ)
  | fire (i : ℕ)
  | load (i : ℕ)
  | endPending (i : ℕ)
  | signal (i : ℕ)
  deriving DecidableEq

/-- `armRestartTimer` with a new timer. -/
def State.arm (s : State) (g i : ℕ) : State :=
  { (s.setTimer i .armed).moveTo g .idle with pendingTimer := some i }

/-- `endPending`. -/
def State.endPending (s : State) (i : ℕ) : State :=
  { s.setTimer i .ended with
    pendingTimer := if s.pendingTimer = some i then none else s.pendingTimer
    inFlight := false }

def step (s : State) : Action → Option State
  | .call g call => if s.pcs g = .idle then some (s.moveTo g (.enter call)) else none
  | .enter g cancelled =>
    match s.pcs g with
    | .enter call => some (s.enter g cancelled call)
    | _ => none
  | .finish g =>
    if s.pcs g = .operate then some { s.moveTo g .idle with inFlight := false } else none
  | .arm g i => if s.pcs g = .arm ∧ s.timers i = .unused then some (s.arm g i) else none
  | .fire i => if s.timers i = .armed then some (s.setTimer i .fired) else none
  | .load i => if s.timers i = .fired then some (s.setTimer i .loaded) else none
  | .endPending i => if s.timers i = .loaded then some (s.endPending i) else none
  | .signal i => if s.timers i = .ended then some (s.setTimer i .signalled) else none

/-- `NewManager`. -/
def State.new : State := ⟨false, none, fun _ => .unused, fun _ => .idle⟩

def system : System State Action := .ofStep .new step

end Solovey.Restart

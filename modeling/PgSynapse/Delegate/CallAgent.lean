import PgSynapse.Lib.Transition
import PgSynapse.Types.Message

/-!
# `call_agent` and its depth counter

The calls of `CallAgentTool` (`pg-synapse-tools-delegate`) in one process, as a transition system.  A
body is inside the counted section from its `fetch_add` to its `fetch_sub`; the counter is shared by
all of them, nested or not.  A body that awaits its sub-agent may also be dropped with the future it is
part of, or unwound by a panic, and then never comes to its `fetch_sub`.
-/

namespace PgSynapse

/-- `MAX_DELEGATION_DEPTH`. -/
def maxDelegationDepth : UInt32 := 4

/-- Where a body is: it was refused and is about to leave, or it awaits its sub-agent. -/
inductive BodyPhase where
  | refusing
  | awaiting
  deriving DecidableEq, Repr

/-- A body inside the counted section.  Its parent is the body whose sub-agent made the call. -/
structure Body where
  id : Nat
  parent : Option Nat
  agent : String
  phase : BodyPhase
  deriving DecidableEq, Repr

/-- The calls of a process: `DELEGATION_DEPTH`, the bodies inside the counted section in the order they
entered, how many left it without a `fetch_sub`, and what the calls returned. -/
structure Delegation where
  depth : UInt32
  next : Nat
  bodies : List Body
  abandoned : Nat
  returned : List (Nat × Except ToolError ToolOutput)
  deriving DecidableEq, Repr

/-- The process at its start. -/
def Delegation.init : Delegation := ⟨0, 0, [], 0, []⟩

/-- Why a call ends before it reaches the counter. -/
inductive CallReject where
  | badInput (reason : String)
  | noRuntime
  deriving DecidableEq, Repr

/-- The error of such a call. -/
def CallReject.error : CallReject → ToolError
  | .badInput reason => .invalidInput "call_agent" reason
  | .noRuntime => .execution "call_agent" "runtime handle not injected or runtime was dropped"

/-- What happens next, in one of the calls. -/
inductive CallAct where
  | reject (why : CallReject)
  | enter (parent : Option Nat) (agent : String)
  | refuse (id : Nat)
  | finish (id : Nat) (result : Except String String)
  | abandon (id : Nat)
  deriving DecidableEq, Repr

/-- The call goes on to its own end. -/
def CallAct.completes : CallAct → Bool
  | .abandon _ => false
  | _ => true

/-- The threads that poll the calls.  A process has far fewer of them than a counter of 32 bits has
values. -/
structure WorkerPool where
  workers : Nat
  workers_lt : workers < 2 ^ 31

namespace Delegation

/-- A body in a phase. -/
def isIn (id : Nat) (phase : BodyPhase) (b : Body) : Bool := b.id == id && b.phase == phase

/-- The result of a refused call. -/
def refusal (agent : String) : ToolError :=
  .execution "call_agent" ("delegation depth limit (" ++ toString maxDelegationDepth.toNat ++
    ") exceeded; refusing to call agent '" ++ agent ++ "'")

/-- The result of a call whose sub-agent ended. -/
def result (agent : String) : Except String String → Except ToolError ToolOutput
  | .ok output => .ok (.text output)
  | .error e => .error (.execution "call_agent" ("sub-agent '" ++ agent ++ "' failed: " ++ e))

/-- The comparison with the limit, of the depth `fetch_add` returned. -/
def entryPhase (depth : UInt32) : BodyPhase :=
  if depth ≥ maxDelegationDepth then .refusing else .awaiting

/-- `fetch_add`, and what the comparison makes of it.  A body that is refused keeps its thread until it
has left. -/
def enter (pool : WorkerPool) (s : Delegation) (parent : Option Nat) (agent : String) :
    Option Delegation :=
  if (parent.all fun p => s.bodies.any (isIn p .awaiting)) &&
      (entryPhase s.depth == .awaiting ||
        s.bodies.countP (fun b => b.phase == .refusing) < pool.workers) then
    some { s with
      depth := s.depth + 1
      next := s.next + 1
      bodies := s.bodies ++ [⟨s.next, parent, agent, entryPhase s.depth⟩] }
  else none

/-- `fetch_sub`, by a body in the given phase. -/
def leave (s : Delegation) (id : Nat) (phase : BodyPhase)
    (r : String → Except ToolError ToolOutput) : Option Delegation :=
  match s.bodies.find? (isIn id phase) with
  | none => none
  | some b =>
    some { s with
      depth := s.depth - 1
      bodies := s.bodies.eraseP (isIn id phase)
      returned := s.returned ++ [(id, r b.agent)] }

/-- A body and the ones below it, in the order they entered. -/
def below (id : Nat) (bodies : List Body) : List Nat :=
  bodies.foldl (fun ids b => if b.parent.any ids.contains then b.id :: ids else ids) [id]

/-- The future of a body is dropped or unwound, with those of the bodies below it. -/
def abandon (s : Delegation) (id : Nat) : Option Delegation :=
  let gone (b : Body) : Bool := (below id s.bodies).contains b.id
  -- a refused body leaves without awaiting anything, so it is never dropped
  if s.bodies.any (isIn id .awaiting) && s.bodies.all (fun b => !gone b || b.phase == .awaiting) then
    some { s with
      bodies := s.bodies.filter fun b => !gone b
      abandoned := s.abandoned + s.bodies.countP gone }
  else none

/-- One step of the process. -/
def step (pool : WorkerPool) (s : Delegation) : CallAct → Option Delegation
  | .reject why =>
    some { s with next := s.next + 1, returned := s.returned ++ [(s.next, .error why.error)] }
  | .enter parent agent => s.enter pool parent agent
  | .refuse id => s.leave id .refusing fun agent => .error (refusal agent)
  | .finish id r =>
    -- its sub-agent does not end before the calls it made do
    if s.bodies.any fun b => b.parent == some id then none
    else s.leave id .awaiting fun agent => result agent r
  | .abandon id => s.abandon id

/-- The number of bodies above one, with the bodies given latest first. -/
def chain : List Body → Option Nat → Nat
  | [], _ => 0
  | b :: rest, parent =>
    if parent = some b.id then 1 + chain rest b.parent else chain rest parent

end Delegation

end PgSynapse

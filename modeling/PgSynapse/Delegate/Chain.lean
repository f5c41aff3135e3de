import PgSynapse.Delegate.CallAgent
import PgSynapse.Runtime.Execute

/-!
# Runs that call other agents

`CallAgentTool::run` (`pg-synapse-tools-delegate`) as a tool of the kernel it calls back into.  This
is the tool in a backend, where a run waits for the ones it calls: `DELEGATION_DEPTH` then counts
the calls above the one that is running, and those that never came to their `fetch_sub`.

Nothing in the kernel bounds how deep agents call each other, and they may do so in a circle.  The
recursion here is on the number of calls that still get past the depth guard; that there are no more
than that is what the state of a chain of calls carries (`Chain.counted`).
-/

namespace PgSynapse

/-- The outside of a run and `DELEGATION_DEPTH`, where at most `left` nested calls are still let
in. -/
structure Chain (σ : Type) (left : Nat) where
  outside : σ
  depth : UInt32
  counted : maxDelegationDepth.toNat ≤ depth.toNat + left

namespace Chain

variable {σ : Type} {left : Nat}

/-- Something that happens on the outside, which leaves the counter alone. -/
def lift {α : Type} (f : σ → α × σ) (s : Chain σ left) : α × Chain σ left :=
  let (a, outside) := f s.outside
  (a, { s with outside := outside })

/-- With no call left the counter is at its limit. -/
theorem limit_le (s : Chain σ 0) : maxDelegationDepth ≤ s.depth :=
  UInt32.le_iff_toNat_le.mpr s.counted

/-- `fetch_add`, by a call that is let in. -/
def enter (s : Chain σ (left + 1)) (h : ¬ maxDelegationDepth ≤ s.depth) : Chain σ left where
  outside := s.outside
  depth := s.depth + 1
  counted := by
    have hlt : s.depth.toNat < maxDelegationDepth.toNat := by
      rw [UInt32.le_iff_toNat_le] at h
      omega
    have hmax : maxDelegationDepth.toNat = 4 := rfl
    have hcounted := s.counted
    have hadd : (s.depth + 1).toNat = s.depth.toNat + 1 := by
      rw [UInt32.toNat_add, UInt32.toNat_one]
      omega
    omega

/-- `fetch_sub`. -/
def leave (s : Chain σ left) : Chain σ (left + 1) where
  outside := s.outside
  depth := s.depth - 1
  counted := by
    have hcounted := s.counted
    have hsub : s.depth.toNat ≤ (s.depth - 1).toNat + 1 := by
      rw [UInt32.toNat_sub, UInt32.toNat_one]
      have := s.depth.toNat_lt
      omega
    omega

/-- A call that is unwound, or dropped while it waits, never comes to its `fetch_sub`. -/
def abandon (s : Chain σ left) : Chain σ (left + 1) where
  outside := s.outside
  depth := s.depth
  counted := s.counted.trans (by omega)

end Chain

/-! ### The kernel on a chain of calls -/

variable {σ ε : Type} {left : Nat}

instance [Platform σ] : Platform (Chain σ left) where
  utcNow := Chain.lift Platform.utcNow
  instantNow := Chain.lift Platform.instantNow
  toLowercase := Platform.toLowercase σ

/-- A provider on a chain of calls. -/
def LlmProvider.lift (provider : LlmProvider σ) : LlmProvider (Chain σ left) where
  modelName := provider.modelName
  complete req wait := Chain.lift (provider.complete req wait)

/-- A provider on a chain of calls, with its capability. -/
def LlmHandle.lift (llm : LlmHandle σ) : LlmHandle (Chain σ left) where
  provider := llm.provider.lift
  toolUse := llm.toolUse

/-- A tool that calls no agent, on a chain of calls. -/
def Tool.lift (tool : Tool σ) : Tool (Chain σ left) where
  schema := tool.schema
  run args toolCtx := Chain.lift (tool.run args toolCtx)

/-- Tools that call no agent, on a chain of calls. -/
def ToolRegistry.lift (r : ToolRegistry σ) : ToolRegistry (Chain σ left) where
  tools := r.tools.map fun t => (t.1, t.2.lift)
  nodup := by
    rw [List.map_map]
    exact r.nodup

namespace Runtime

/-- `CallAgentTool::name`. -/
def callAgentName : String := "call_agent"

/-- The kernel on a chain of calls, with `call_agent` in its registry. -/
def withCallAgent (rt : Runtime σ ε) (tool : Tool (Chain σ left)) : Runtime (Chain σ left) ε where
  registry := {
    tools := rt.registry.tools.lift.add callAgentName tool
    executors := rt.registry.executors
    llmFactories := fun name =>
      (rt.registry.llmFactories name).map fun build p => (build p).map LlmHandle.lift
    embeddingFactories := rt.registry.embeddingFactories }
  llmProviders key := (rt.llmProviders key).map LlmHandle.lift
  embeddingProviders := rt.embeddingProviders
  agents := rt.agents
  keyed := rt.keyed

variable [Platform σ]

/-- `execute_inner`, as the caller that awaits it sees it.  `held` says of the outside that the
thread is in a poll that does not come back. -/
def answer (rt : Runtime σ ε) (held : σ → Bool) (passes : Nat) (agentName : String)
    (req : RunRequest σ) (maxTimeout : Option Nat) (env : σ) :
    Answer (Except RuntimeError ExecutorOutcome) × σ :=
  match rt.prepare agentName req with
  | .error e => (.ready (.error e), env)
  | .ok run =>
    let (r, h) :=
      runExecutor run.kind passes (withBudget run.ctx run.timeoutMs.toNat maxTimeout) env
    match executeInner run.kind passes run.ctx run.timeoutMs.toNat maxTimeout env, r with
    -- the backstop looks at the clock between two polls, and there is no next one
    | some res, .suspended =>
      if held h.world.env then (.pending, h.world.env)
      else (.ready (res.mapError .executor), h.world.env)
    | some res, _ => (.ready (res.mapError .executor), h.world.env)
    -- a panic unwinds through the caller as well
    | none, .panicked payload => (.panicked payload, h.world.env)
    | none, _ => (.pending, h.world.env)

end Runtime

/-! ### `call_agent` -/

/-- `CallAgentInput`. -/
structure CallAgentInput where
  agent : String
  input : String
  deriving DecidableEq, Repr

/-- `serde_json::from_value`: an object with both fields, or a sequence of the two.  `reason` is the
text of the error for any other value. -/
def CallAgentInput.read (reason : Value → String) (v : Value) : Except ToolError CallAgentInput :=
  match v, v.get? "agent", v.get? "input" with
  | .object _, some (.string agent), some (.string input) => .ok ⟨agent, input⟩
  | .array [.string agent, .string input], _, _ => .ok ⟨agent, input⟩
  | v, _, _ => .error (CallReject.badInput (reason v)).error

/-- A backend with its kernel.  `held` says of the outside that the thread is in a poll that does
not come back, as a statement that waits for a lock keeps it; `attached` that `inject` was called and
the kernel is alive.  `schema` is what `schemars` derives from the input, `usd` how an `f64` amount
is written in an error, and `inputError` the text of an error of `serde_json`. -/
structure CallHost (σ ε : Type) where
  runtime : Runtime σ ε
  newId : σ → Uuid × σ
  interruptCheck : Option (σ → Option String × σ)
  held : σ → Bool
  attached : Bool
  schema : Value
  usd : Rat → String
  inputError : Value → String

namespace CallHost

variable (host : CallHost σ ε)

/-- `CallAgentTool::run`, up to what it does with a call that is let in. -/
def callAgentTool (delegate : (s : Chain σ left) → ¬ maxDelegationDepth ≤ s.depth →
    CallAgentInput → Answer (Except ToolError ToolOutput) × Chain σ left) :
    Tool (Chain σ left) where
  schema := host.schema
  run input _ s :=
    match CallAgentInput.read host.inputError input with
    | .error e => (.ready (.error e), s)
    | .ok args =>
      if host.attached then
        -- a call at the limit takes its `fetch_add` back
        if h : maxDelegationDepth ≤ s.depth then
          (.ready (.error (Delegation.refusal args.agent)), s)
        else delegate s h args
      else (.ready (.error CallReject.noRuntime.error), s)

/-- The end of `CallAgentTool::run`, once the sub-agent came back. -/
def settle (agent : String) :
    Answer (Except RuntimeError ExecutorOutcome) × Chain σ left →
    Answer (Except ToolError ToolOutput) × Chain σ (left + 1)
  | (.ready result, s) =>
    (.ready (Delegation.result agent
      ((result.map ExecutorOutcome.output).mapError (RuntimeError.text host.usd))), s.leave)
  | (.panicked payload, s) => (.panicked payload, s.abandon)
  | (.pending, s) => (.pending, s.abandon)

variable [Platform σ]

/-- `Runtime::execute_with_caller` and `execute_with_budget`, of the kernel with this
`call_agent`. -/
def executeWith (tool : Tool (Chain σ left)) (passes : Nat) (agentName input : String)
    (callerRole : Option String) (maxTimeout : Option Nat) (s : Chain σ left) :
    Answer (Except RuntimeError ExecutorOutcome) × Chain σ left :=
  let (executionId, s) := s.lift host.newId
  (host.runtime.withCallAgent tool).answer (fun s => host.held s.outside) passes agentName
    ⟨input, callerRole, executionId, host.interruptCheck.map Chain.lift⟩ maxTimeout s

/-- `CallAgentTool`.  A sub-agent runs without the caller's role and without the host's ceiling, and
has a `call_agent` of its own. -/
def callAgent (passes : Nat) : (left : Nat) → Tool (Chain σ left)
  | 0 => host.callAgentTool fun s h _ => absurd s.limit_le h
  | left + 1 => host.callAgentTool fun s h args =>
    host.settle args.agent
      (host.executeWith (callAgent passes left) passes args.agent args.input none none (s.enter h))

/-- A call of the kernel. -/
def execute (passes left : Nat) (agentName input : String) (callerRole : Option String)
    (maxTimeout : Option Nat) (s : Chain σ left) :
    Answer (Except RuntimeError ExecutorOutcome) × Chain σ left :=
  host.executeWith (host.callAgent passes left) passes agentName input callerRole maxTimeout s

end CallHost

end PgSynapse

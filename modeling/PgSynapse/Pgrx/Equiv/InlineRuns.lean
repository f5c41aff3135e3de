import PgSynapse.Pgrx.Execute
import PgSynapse.Runtime.Equiv.Confinement

/-!
# Inline runs and the network

A run inside a trigger holds the writer's transaction open.  `synapse.execute` looks at the agent's
tool list before such a run and refuses it for a network tool.  The list bounds what the run offers
and runs, whatever the model asks for, so the one check before the run covers all of it
(`inline_runs_stay_local`).
-/

namespace PgSynapse

variable {σ ε : Type}

/-- A call on the outside without a network tool: a request offers none, and a tool run is of none. -/
def Effect.WithoutNetworkTools : Effect → Prop
  | .llm req _ => ∀ d ∈ req.tools, isEgressTool d.name = false
  | .tool tc _ _ => isEgressTool tc.name = false

/-- An agent lists a network tool. -/
def AgentRow.ListsNetworkTool (agent : AgentRow) : Prop :=
  ∃ name ∈ agent.tools, isEgressTool name = true

namespace Runtime

variable {rt : Runtime σ ε} {agent : AgentRow}

theorem egressTool_eq_none_iff {kernel : Kernel} {name : String}
    (hagent : kernel.agents name = some agent) :
    kernel.egressTool name = none ↔ ¬ agent.ListsNetworkTool := by
  rw [Kernel.egressTool, hagent, Option.bind_some, List.find?_eq_none]
  simp [AgentRow.ListsNetworkTool]

/-- The tools of an agent that lists no network tool: the skill loader is none either. -/
theorem not_isEgressTool_of_allowed (hlist : ¬ agent.ListsNetworkTool) {name : String}
    {tool : Tool σ} (htool : rt.allowedTool agent name = some tool) : isEgressTool name = false := by
  unfold allowedTool at htool
  split_ifs at htool with hskill hname
  · rw [hskill.1]
    decide
  · by_contra h
    exact hlist ⟨name, hname, by simpa using h⟩

/-- A confined call of such an agent is without network tools. -/
theorem Confines.withoutNetworkTools {id : Uuid} (hlist : ¬ agent.ListsNetworkTool) {e : Effect}
    (h : rt.Confines agent id e) : e.WithoutNetworkTools := by
  cases e with
  | llm req answer =>
    intro d hd
    obtain ⟨tool, htool, -⟩ := h.schemas d hd
    exact not_isEgressTool_of_allowed hlist htool
  | tool tc toolCtx answer =>
    obtain ⟨-, tool, env, htool, -⟩ := h
    exact not_isEgressTool_of_allowed hlist htool

variable [Platform σ]

/-- Every call of a run by name is confined to the tools of the agent of that name. -/
theorem execute_confined {agentName : String} (hagent : rt.agents agentName = some agent)
    (passes : Nat) (req : RunRequest σ) (maxTimeout : Option Nat) (env : σ) :
    ∀ e ∈ (rt.execute passes agentName req maxTimeout env).2,
      rt.Confines agent req.executionId e := by
  intro e he
  cases hrun : rt.prepare agentName req with
  | error err =>
    unfold execute at he
    rw [hrun] at he
    cases he
  | ok run =>
    obtain ⟨agent', llm, hagent', -, hctx⟩ := prepare_eq_ok hrun
    obtain rfl := Option.some.inj (hagent.symm.trans hagent')
    have htools : ∀ name, run.ctx.tools.get name = rt.allowedTool agent name := by
      intro name
      rw [hctx]
      exact rt.agentTools_get agent name
    rw [execute_effects hrun] at he
    rcases runExecutor_acts _ _ _ _ e he with ⟨model, ms, answer, rfl⟩ |
      ⟨tc, tool, env', htool, rfl⟩
    · exact requestFor_offers htools model ms
    · have hid : run.ctx.executionId = req.executionId := by
        rw [hctx]
        rfl
      exact ⟨hid, tool, env', (htools tc.name).symm.trans htool, rfl⟩

end Runtime

namespace EntryCall

variable [Platform σ]

/-- What a call of `synapse.execute` does on the outside, where its kernel is the one of `rt`: the run,
unless the call ends before it. -/
def outside (c : EntryCall) (rt : Runtime σ ε) (passes : Nat) (env : σ) (executionId : Uuid)
    (interruptCheck : Option (σ → Option String × σ)) : List Effect :=
  match c.ensured, c.kernel with
  | .ok, .ok kernel =>
    match c.refusedFor kernel with
    | some _ => []
    | none => (rt.execute passes c.agent ⟨c.input, c.caller, executionId, interruptCheck⟩ c.ceiling
        env).2
  | _, _ => []

/-- **Inline runs stay local.**  For every runtime, agent and behaviour of models and tools, a call of
`synapse.execute` inside a trigger offers the model no network tool and runs none.  An agent that
lists one gets no run at all: the call reaches neither model nor tool, answers with the refusal and
leaves the executions as they are. -/
theorem inline_runs_stay_local (money : Money) (rt : Runtime σ ε) (passes : Nat) (env : σ)
    (executionId : Uuid) (interruptCheck : Option (σ → Option String × σ))
    (writes : Executions → Executions) (c : EntryCall) (hinline : c.isInline = true)
    (hkernel : c.kernel = .ok (rt.kernel passes env executionId interruptCheck writes)) :
    (∀ e ∈ c.outside rt passes env executionId interruptCheck, e.WithoutNetworkTools) ∧
    ∀ agent, rt.agents c.agent = some agent → agent.ListsNetworkTool → c.ensured = .ok →
      c.outside rt passes env executionId interruptCheck = [] ∧
      ∃ bad ∈ agent.tools, isEgressTool bad = true ∧ ∀ t, c.execute money t =
        some (errorEnvelope (inlineRefusal c.agent bad), t) := by
  have hrefused : ∀ kernel, c.refusedFor kernel = kernel.egressTool c.agent := fun kernel =>
    if_pos hinline
  constructor
  · intro e he
    unfold outside at he
    rw [hkernel] at he
    split at he
    · next kernel _ hok =>
      obtain rfl := Except.ok.inj hok
      rw [hrefused] at he
      split at he
      · cases he
      · next hnone =>
        -- an agent that is not there has no run
        cases hagent : rt.agents c.agent with
        | none =>
          unfold Runtime.execute Runtime.prepare at he
          rw [hagent] at he
          cases he
        | some agent =>
          have hlist := (Runtime.egressTool_eq_none_iff hagent).mp hnone
          exact (Runtime.execute_confined hagent passes _ _ env e he).withoutNetworkTools hlist
    · cases he
  · intro agent hagent hlist hensured
    obtain ⟨bad, hbad⟩ : ∃ bad, (rt.kernel passes env executionId interruptCheck
        writes).egressTool c.agent = some bad := by
      rw [← Option.ne_none_iff_exists']
      exact fun h => (Runtime.egressTool_eq_none_iff hagent).mp h hlist
    have hfind : agent.tools.find? isEgressTool = some bad := by
      rw [← hbad, Kernel.egressTool]
      exact (congrArg (fun a => a.bind fun a : AgentRow => a.tools.find? isEgressTool) hagent).symm
    refine ⟨?_, bad, List.mem_of_find?_eq_some hfind, List.find?_some hfind, fun t => ?_⟩
    · simp only [outside, hensured, hkernel, hrefused, hbad]
    · simp only [execute, hensured, hkernel, hrefused, hbad]

end EntryCall

/-! ### A run inside a trigger -/

namespace Script

/-- The librarian called from a trigger. -/
def inlineCall : EntryCall where
  agent := "librarian"
  input := "hi"
  caller := none
  triggerDepth := some 1
  inlineTimeoutMs := 5000
  ensured := .ok
  kernel := .ok ((runtime registered).kernel 2 ⟨[twoCalls]⟩ ⟨1⟩ none id)
  placeholderSpi := .ok
  auditSpi := .ok
  traceLevel := .info
  queuedId := ⟨2⟩
  freshId := ⟨3⟩

/-- Two requests and two look-ups, all of them local. -/
theorem inline_lookups_local :
    (inlineCall.outside (runtime registered) 2 ⟨[twoCalls]⟩ ⟨1⟩ none).length = 4 ∧
    ∀ e ∈ inlineCall.outside (runtime registered) 2 ⟨[twoCalls]⟩ ⟨1⟩ none,
      e.WithoutNetworkTools := by
  have hinline : inlineCall.isInline = true := rfl
  exact ⟨by decide, (EntryCall.inline_runs_stay_local ⟨fun _ => "", fun _ => .null⟩
    (runtime registered) 2 ⟨[twoCalls]⟩ ⟨1⟩ none id inlineCall hinline rfl).1⟩

end Script

end PgSynapse

import PgSynapse.Runtime.Builder

/-!
# Running an agent by name

`Runtime::execute_inner` from its start: the agent is looked up, its providers, its executor and its
tools are resolved, and the context of the run is put together (`runtime/mod.rs`), with the
`load_skill` tool of agents that have skills (`tool/builtin.rs`).  The run itself is
`Runtime.executeInner`.
-/

namespace PgSynapse

/-- `TraceLevel::from_str`. -/
def TraceLevel.parse (s : String) : Option TraceLevel :=
  let lower := Text.toAsciiLowercase s
  if lower = "off" then some .off
  else if lower = "error" then some .error
  else if lower = "info" then some .info
  else if lower = "debug" then some .debug
  else if lower = "full" then some .full
  else none

/-! ### Tools -/

namespace ToolRegistry

variable {σ : Type}

/-- `ToolRegistry::add` and `add_arc`: replaces any prior tool of the same name. -/
def add (r : ToolRegistry σ) (name : String) (tool : Tool σ) : ToolRegistry σ where
  tools := (r.tools.filter fun t => t.1 ≠ name) ++ [(name, tool)]
  nodup := by
    rw [List.map_append]
    refine List.nodup_append.mpr ⟨?_, by simp, ?_⟩
    · exact r.nodup.sublist (List.filter_sublist.map _)
    · intro a ha b hb heq
      obtain ⟨t, ht, rfl⟩ := List.mem_map.mp ha
      have hname : t.1 ≠ name := by simpa using (List.mem_filter.mp ht).2
      simp only [List.map_cons, List.map_nil, List.mem_singleton] at hb
      exact hname (heq.trans hb)

end ToolRegistry

/-- `LOAD_SKILL_TOOL`. -/
def loadSkillName : String := "load_skill"

/-- `LoadSkillTool::available`. -/
def availableSkills (skills : List Skill) : String :=
  ", ".intercalate (skills.map Skill.name)

/-- `LoadSkillTool::run`. -/
def loadSkill (skills : List Skill) (input : Value) : Except ToolError ToolOutput :=
  let name := (((input.get? "name").bind Value.asStr?).map Text.trim).filter fun s => !s.isEmpty
  match name with
  | none =>
    .error (.invalidInput loadSkillName
      ("missing field `name`; available skills: " ++ availableSkills skills))
  | some name =>
    match skills.find? fun s => s.name = name with
    | some s => .ok (.text ("# Skill: " ++ s.name ++ "\n\n" ++ Text.trim s.body))
    | none =>
      .error (.invalidInput loadSkillName
        ("no skill named '" ++ name ++ "'; available skills: " ++ availableSkills skills))

/-- `LoadSkillTool::new`. -/
def loadSkillTool {σ : Type} (skills : List Skill) : Tool σ where
  schema := .obj [("type", .string "object"),
    ("properties", .obj [("name", .obj [("type", .string "string"),
      ("description", .string "The skill to load."),
      ("enum", .array (skills.map fun s => .string s.name))])]),
    ("required", .array [.string "name"]), ("additionalProperties", .bool false)]
  run := fun input _ env => (.ready (loadSkill skills input), env)

namespace Runtime

variable {σ ε : Type}

/-- `Runtime::resolve_tools`: the tools of the allow list that are registered. -/
def resolveTools (rt : Runtime σ ε) (allowed : List String) : ToolRegistry σ :=
  allowed.foldl (fun sub name =>
    match rt.registry.tools.get name with
    | some tool => sub.add name tool
    | none => sub) .empty

/-- The tools of a run: the agent's own, and the skill loader when it has skills. -/
def agentTools (rt : Runtime σ ε) (agent : AgentRow) : ToolRegistry σ :=
  let tools := rt.resolveTools agent.tools
  if agent.components.skills.isEmpty then tools
  else tools.add loadSkillName (loadSkillTool agent.components.skills)

/-- What a host gives a run besides the agent's name. -/
structure RunRequest (σ : Type) where
  input : String
  callerRole : Option String
  executionId : Uuid
  interruptCheck : Option (σ → Option String × σ)

/-- What a cap comes to in `check_cost_cap`: a sum of costs does not reach a cap that is NaN or
infinite. -/
def reachableCap : Extended Rat → Option Rat
  | .finite q => some q
  -- every sum has reached it, as it has reached zero
  | .infinity true => some 0
  | _ => none

/-- The context of a run.  The budget and the progress sink are set by `withBudget`. -/
def contextOf (rt : Runtime σ ε) (agent : AgentRow) (llm : LlmHandle σ) (req : RunRequest σ) :
    ExecutionContext σ where
  executionId := req.executionId
  agentName := agent.name
  systemPrompt := agent.systemPrompt
  soul := agent.soul
  input := req.input
  tools := rt.agentTools agent
  llm := llm.provider
  judgeLlm := (agent.llmProfileJudge.bind rt.llmProviders).map LlmHandle.provider
  maxIterations := agent.maxIterations
  timeout := 0
  costCapUsd := agent.costCapUsd.bind reachableCap
  callerRole := req.callerRole
  traceLevel := (agent.traceLevel.bind TraceLevel.parse).getD .info
  interruptCheck := req.interruptCheck
  harness := agent.components
  progress := false

/-- A run that is ready to start. -/
structure Prepared (σ : Type) where
  kind : ExecutorKind
  ctx : ExecutionContext σ
  timeoutMs : UInt64

/-- `execute_inner` up to the executor. -/
def prepare (rt : Runtime σ ε) (agentName : String) (req : RunRequest σ) :
    Except RuntimeError (Prepared σ) :=
  match rt.agents agentName with
  | none => .error (.agentNotFound agentName)
  | some agent =>
    match rt.resolveLlm agent.llmProfileMain with
    | .error e => .error e
    | .ok llm =>
      match rt.registry.executors agent.executorName with
      | none =>
        .error (.config ("executor '" ++ agent.executorName ++ "' not registered for agent '" ++
          agentName ++ "'"))
      | some kind =>
        if (!agent.tools.isEmpty || !(rt.agentTools agent).tools.isEmpty) && !llm.toolUse then
          .error (.config ("agent '" ++ agentName ++ "' has tools but its LLM provider ('" ++
            llm.provider.modelName ++ "') does not support tool_use"))
        else .ok ⟨kind, rt.contextOf agent llm req, agent.timeoutMs⟩

/-- A run that is ready to start has the context of its agent, on the provider of the agent's main
profile. -/
theorem prepare_eq_ok {rt : Runtime σ ε} {agentName : String} {req : RunRequest σ}
    {run : Prepared σ} (h : rt.prepare agentName req = .ok run) :
    ∃ agent llm, rt.agents agentName = some agent ∧
      rt.resolveLlm agent.llmProfileMain = .ok llm ∧ run.ctx = rt.contextOf agent llm req := by
  unfold prepare at h
  split at h
  · cases h
  · next agent hagent =>
    split at h
    · cases h
    · next llm hllm =>
      -- the executor and the capability check only refuse
      split at h
      · cases h
      · split at h
        · cases h
        · exact ⟨agent, llm, hagent, hllm, by rw [← Except.ok.inj h]⟩

variable [Platform σ]

/-- `execute_with_caller` (no ceiling) and `execute_with_budget`: how the run ends, with the calls
it made on the outside.  There is no end while the executor is still running after `passes` passes,
when it waits for ever, and when it panics. -/
def execute (rt : Runtime σ ε) (passes : Nat) (agentName : String) (req : RunRequest σ)
    (maxTimeout : Option Nat) (env : σ) :
    Option (Except RuntimeError ExecutorOutcome) × List Effect :=
  match rt.prepare agentName req with
  | .error e => (some (.error e), [])
  | .ok run =>
    ((executeInner run.kind passes run.ctx run.timeoutMs.toNat maxTimeout env).map fun res =>
        res.mapError .executor,
      (runExecutor run.kind passes (withBudget run.ctx run.timeoutMs.toNat maxTimeout)
        env).2.world.effects)

end Runtime

end PgSynapse

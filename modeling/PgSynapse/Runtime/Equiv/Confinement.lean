import PgSynapse.Executor.Equiv.Turns
import PgSynapse.Executor.Equiv.Twins
import PgSynapse.OpenAi.Equiv.Payload
import PgSynapse.Runtime.Execute

/-!
# The tools of a run

An agent's run gets the registered tools of the agent's list, and the skill loader when the agent
has skills.  The list is applied once, when the context is put together; whatever names the model
then sends, the run offers and runs these tools and no other, and tools outside the list have no
part in it (`tools_confined`).

A registry is a hash map, so its tools come in no particular order: the results are for a run whose
tools are enumerated in any order.
-/

namespace PgSynapse

open LoopHarness

variable {σ ε : Type}

/-! ### Registries -/

namespace ToolRegistry

theorem get_empty (name : String) : (empty : ToolRegistry σ).get name = none := rfl

theorem get_add (r : ToolRegistry σ) (key : String) (tool : Tool σ) (name : String) :
    (r.add key tool).get name = if name = key then some tool else r.get name := by
  have hlookup : ∀ l : List (String × Tool σ),
      ((l.filter fun t => t.1 ≠ key) ++ [(key, tool)]).lookup name =
        if name = key then some tool else l.lookup name := by
    intro l
    induction l with
    | nil => by_cases h : name = key <;> simp [h]
    | cons t l ih =>
      obtain ⟨old, b⟩ := t
      by_cases hold : old = key
      · rw [List.filter_cons_of_neg (by simp [hold]), ih]
        by_cases h : name = key
        · rw [if_pos h, if_pos h]
        · have hne : (name == old) = false := by simp [hold, h]
          rw [if_neg h, if_neg h, List.lookup_cons, hne]
      · rw [List.filter_cons_of_pos (by simpa using hold), List.cons_append, List.lookup_cons, ih,
          List.lookup_cons]
        by_cases h : name = old
        · have hkey : ¬name = key := by rwa [h]
          simp only [if_neg hkey]
        · have hne : (name == old) = false := by simp [h]
          rw [hne]
  exact hlookup r.tools

end ToolRegistry

namespace Runtime

/-- The runtime with other registered tools. -/
def withTools (rt : Runtime σ ε) (registered : ToolRegistry σ) : Runtime σ ε :=
  { rt with registry := { rt.registry with tools := registered } }

/-- The tool an agent has under a name: the loader of its skills, or a registered tool of its
list. -/
def allowedTool (rt : Runtime σ ε) (agent : AgentRow) (name : String) : Option (Tool σ) :=
  if name = loadSkillName ∧ agent.components.skills ≠ [] then
    some (loadSkillTool agent.components.skills)
  else if name ∈ agent.tools then rt.registry.tools.get name
  else none

variable (rt : Runtime σ ε) (agent : AgentRow)

theorem resolveTools_get (allowed : List String) (name : String) :
    (rt.resolveTools allowed).get name =
      if name ∈ allowed then rt.registry.tools.get name else none := by
  have hrhs : (if name ∈ allowed then rt.registry.tools.get name else none) =
      if name ∈ allowed ∧ (rt.registry.tools.get name).isSome then rt.registry.tools.get name
      else (ToolRegistry.empty : ToolRegistry σ).get name := by
    rw [ToolRegistry.get_empty]
    cases rt.registry.tools.get name <;> simp
  unfold resolveTools
  rw [hrhs]
  -- the tools are added to those of the names before them
  generalize (ToolRegistry.empty : ToolRegistry σ) = sub
  clear hrhs
  induction allowed generalizing sub with
  | nil => simp
  | cons key allowed ih =>
    rw [List.foldl_cons, ih]
    cases hkey : rt.registry.tools.get key with
    | none => by_cases h : name = key <;> simp [h, hkey]
    | some tool => by_cases h : name = key <;> simp [h, hkey, ToolRegistry.get_add]

theorem agentTools_get (name : String) :
    (rt.agentTools agent).get name = rt.allowedTool agent name := by
  unfold agentTools allowedTool
  cases hskills : agent.components.skills with
  | nil => simp [resolveTools_get]
  | cons skill skills =>
    by_cases h : name = loadSkillName
    · simp [h, ToolRegistry.get_add]
    · simp [h, ToolRegistry.get_add, resolveTools_get]

/-- Which tools are registered outside the list makes no difference to those of the run. -/
theorem allowedTool_withTools {registered : ToolRegistry σ}
    (hsame : ∀ name ∈ agent.tools, registered.get name = rt.registry.tools.get name)
    (name : String) :
    (rt.withTools registered).allowedTool agent name = rt.allowedTool agent name := by
  unfold allowedTool
  split
  · rfl
  · split
    · exact hsame name ‹_›
    · rfl

end Runtime

/-! ### Runs with their tools in any order -/

/-- The run with its tools enumerated in the order of `tools`. -/
def Runtime.Prepared.runIn [Platform σ] (run : Runtime.Prepared σ) (tools : ToolRegistry σ)
    (passes : Nat) (maxTimeout : Option Nat) (env : σ) : ExecResult × LoopHarness σ :=
  Runtime.runExecutor run.kind passes
    { Runtime.withBudget run.ctx run.timeoutMs.toNat maxTimeout with tools := tools } env

/-- `execute` is one of these runs. -/
theorem Runtime.execute_effects [Platform σ] {rt : Runtime σ ε} {agentName : String}
    {req : Runtime.RunRequest σ} {run : Runtime.Prepared σ}
    (hrun : rt.prepare agentName req = .ok run) (passes : Nat) (maxTimeout : Option Nat) (env : σ) :
    (rt.execute passes agentName req maxTimeout env).2 =
      (run.runIn run.ctx.tools passes maxTimeout env).2.world.effects := by
  unfold Runtime.execute
  rw [hrun]
  rfl

/-- **The offer**: the registered tools of the agent's list and, if and only if the agent has
skills, the skill loader; each once, and with its own schema. -/
structure Runtime.Offers (rt : Runtime σ ε) (agent : AgentRow) (req : CompletionRequest) :
    Prop where
  nodup : (req.tools.map ToolDefinition.name).Nodup
  names : ∀ name, name ∈ req.tools.map ToolDefinition.name ↔
    (name ∈ agent.tools ∧ (rt.registry.tools.get name).isSome) ∨
      (name = loadSkillName ∧ agent.components.skills ≠ [])
  schemas : ∀ d ∈ req.tools, ∃ tool, rt.allowedTool agent d.name = some tool ∧
    d.schema = tool.schema

/-- **Confinement** of one call on the outside: a request offers the agent's tools, and a tool run
is one of the agent's tools answering under the execution id of the run. -/
def Runtime.Confines (rt : Runtime σ ε) (agent : AgentRow) (executionId : Uuid) : Effect → Prop
  | .llm req _ => rt.Offers agent req
  | .tool tc toolCtx answer => toolCtx.executionId = executionId ∧
      ∃ tool env, rt.allowedTool agent tc.name = some tool ∧
        answer = (tool.run tc.args toolCtx env).1

/-! ### What a run does on the outside -/

namespace Runtime

/-- A call a run under `ctx` makes on the outside. -/
def ActsUnder (ctx : ExecutionContext σ) (e : Effect) : Prop :=
  (∃ model ms answer, e = .llm (requestFor ctx model ms) answer) ∨
  ∃ tc tool env, ctx.tools.get tc.name = some tool ∧
    e = .tool tc (toolCtxOf ctx) (tool.run tc.args (toolCtxOf ctx) env).1

theorem actsUnder_runs {ctx : ExecutionContext σ} {calls : List ToolCall} {runs : List Effect}
    (h : RunsOf ctx calls runs) : ∀ e ∈ runs, ActsUnder ctx e := by
  intro e he
  obtain ⟨tc, -, tool, env, htool, rfl⟩ := exists_left_of_forall₂ h he
  exact .inr ⟨tc, tool, env, htool, rfl⟩

theorem actsUnder_turn {ctx : ExecutionContext σ} {kind : ExecutorKind} {turns : List Turn}
    {t : Turn} (ht : Settles kind ctx turns t ∨ Closes kind ctx turns t) :
    ∀ e ∈ t.runs, ActsUnder ctx e := by
  have chat : t.Settled ctx (issuedIn turns) ∨ t.Final ctx (issuedIn turns) →
      ∀ e ∈ t.runs, ActsUnder ctx e := by
    unfold Turn.Settled Turn.Final
    by_cases hc : t.resp.toolCalls = []
    · rw [if_pos hc, if_pos hc]
      rintro (⟨hnone, -⟩ | ⟨hnone, -⟩) <;> simp [hnone]
    · rw [if_neg hc, if_neg hc]
      rintro (⟨-, hruns⟩ | ⟨_, _, _, -, -, -, hruns⟩)
      · exact actsUnder_runs hruns
      · exact actsUnder_runs hruns
  cases kind with
  | conversation => exact chat ht
  | react => exact chat ht
  | reflection maxRevisions => rcases ht with ⟨hnone, -⟩ | ⟨hnone, -⟩ <;> simp [hnone]

variable [Platform σ]

/-- Every call of a run on the outside is a request with its tools, or a run of one of them. -/
theorem runExecutor_acts (kind : ExecutorKind) (passes : Nat) (ctx : ExecutionContext σ) (env : σ) :
    ∀ e ∈ (runExecutor kind passes ctx env).2.world.effects, ActsUnder ctx e := by
  obtain ⟨seed, -, he⟩ := runExecutor_ends kind passes ctx env
  obtain ⟨turns, model, calls, hlost, hall, -, hes, -⟩ := he.turns
  intro e he
  rw [hes, List.mem_append] at he
  rcases he with he | he
  · obtain ⟨t, ht, he⟩ := List.mem_flatMap.mp he
    obtain ⟨before, htold, hturn⟩ := hall.exists_of_mem ht
    rcases List.mem_cons.mp he with rfl | he
    · obtain ⟨model', hreq⟩ := htold.request
      exact .inl ⟨model', _, _, by rw [hreq]⟩
    · exact actsUnder_turn hturn e he
  · rcases hlost with rfl | ⟨answer, rfl, -⟩
    · exact absurd he (by simp)
    · obtain rfl := List.mem_singleton.mp he
      exact .inl ⟨model, _, answer, rfl⟩

omit [Platform σ] in
theorem requestFor_offers {rt : Runtime σ ε} {agent : AgentRow} {ctx : ExecutionContext σ}
    (htools : ∀ name, ctx.tools.get name = rt.allowedTool agent name) (model : String)
    (ms : List Message) : rt.Offers agent (requestFor ctx model ms) := by
  have hoffer : ∀ d, d ∈ (requestFor ctx model ms).tools ↔
      ∃ tool, rt.allowedTool agent d.name = some tool ∧ d = ⟨d.name, "", tool.schema⟩ := by
    intro d
    simp only [requestFor, List.mem_filterMap, Option.map_eq_some_iff, htools]
    constructor
    · rintro ⟨name, -, tool, htool, rfl⟩
      exact ⟨tool, htool, rfl⟩
    · rintro ⟨tool, htool, hd⟩
      have hmem : d.name ∈ ctx.tools.names := by
        rw [ToolRegistry.mem_names, htools, htool]
        rfl
      exact ⟨d.name, hmem, tool, htool, hd.symm⟩
  -- every name of the registry has its tool, so the definitions carry exactly these names
  have hdefs : (requestFor ctx model ms).tools.map ToolDefinition.name = ctx.tools.names := by
    rw [requestFor, List.map_filterMap]
    refine (List.filterMap_congr fun name hname => ?_).trans List.filterMap_some
    obtain ⟨tool, htool⟩ := Option.isSome_iff_exists.mp (ToolRegistry.mem_names.mp hname)
    rw [htool]
    rfl
  constructor
  · rw [hdefs]
    exact ctx.tools.nodup
  · intro name
    rw [hdefs, ToolRegistry.mem_names, htools]
    unfold allowedTool
    by_cases hskill : name = loadSkillName ∧ agent.components.skills ≠ []
    · simp [hskill]
    · by_cases hlisted : name ∈ agent.tools <;> simp [hskill, hlisted]
  · intro d hd
    obtain ⟨tool, htool, heq⟩ := (hoffer d).mp hd
    exact ⟨tool, htool, by rw [heq]⟩

/-- The tools of twins: those of the agent, in two orders. -/
theorem answersAlike_in {R : σ → σ → Prop} {run : Prepared σ} (ha : AnswersAlike R run.ctx)
    {tools : ToolRegistry σ} (htools : tools.Same run.ctx.tools) (maxTimeout : Option Nat) :
    AnswersAlike R { withBudget run.ctx run.timeoutMs.toNat maxTimeout with tools := tools } :=
  ⟨ha.utcNow, ha.instantNow, ha.interrupt, ha.llm, ha.judge, fun name tool htool =>
    ha.tools name tool ((htools name).symm.trans htool)⟩

omit [Platform σ] in
/-- Tools outside the list make no difference to how a run is prepared. -/
theorem prepare_withTools {rt : Runtime σ ε} {agentName : String} {agent : AgentRow}
    (hagent : rt.agents agentName = some agent) {registered : ToolRegistry σ}
    (hsame : ∀ name ∈ agent.tools, registered.get name = rt.registry.tools.get name)
    (req : RunRequest σ) :
    (rt.withTools registered).prepare agentName req = rt.prepare agentName req := by
  have hresolved : (rt.withTools registered).resolveTools agent.tools =
      rt.resolveTools agent.tools := by
    unfold resolveTools
    refine List.foldl_ext _ _ _ fun sub name hname => ?_
    simp only [withTools, hsame name hname]
  have htools : (rt.withTools registered).agentTools agent = rt.agentTools agent := by
    unfold agentTools
    rw [hresolved]
  have hcontext : ∀ llm, (rt.withTools registered).contextOf agent llm req =
      rt.contextOf agent llm req := by
    intro llm
    unfold contextOf
    rw [htools]
    rfl
  have hagent' : (rt.withTools registered).agents agentName = some agent := hagent
  unfold prepare
  simp only [hagent, hagent', htools, hcontext]
  rfl

/-- **Tool confinement**: whatever the providers and the tools answer, a run of the agent offers and
runs the tools the agent is allowed, and no other.  Tools outside the agent's list have no part in
it: another runtime that differs only in these prepares the same run, and as long as the providers
and the allowed tools answer alike, both runs end the same way and make the same calls, up to the
order in which tools are offered. -/
theorem tools_confined {rt : Runtime σ ε} {agentName : String} {agent : AgentRow}
    {req : RunRequest σ} {run : Prepared σ} (hagent : rt.agents agentName = some agent)
    (hrun : rt.prepare agentName req = .ok run) (passes : Nat) (maxTimeout : Option Nat) :
    (∀ tools env, tools.Same (rt.agentTools agent) →
      ∀ e ∈ (run.runIn tools passes maxTimeout env).2.world.effects,
        rt.Confines agent req.executionId e) ∧
    ∀ registered : ToolRegistry σ,
      (∀ name ∈ agent.tools, registered.get name = rt.registry.tools.get name) →
      (rt.withTools registered).prepare agentName req = .ok run ∧
      ∀ (R : σ → σ → Prop) (tools tools' : ToolRegistry σ) (env env' : σ),
        tools.Same (rt.agentTools agent) →
        tools'.Same ((rt.withTools registered).agentTools agent) →
        AnswersAlike R run.ctx → R env env' →
        (run.runIn tools passes maxTimeout env).1 = (run.runIn tools' passes maxTimeout env').1 ∧
        List.Forall₂ Effect.Same (run.runIn tools passes maxTimeout env).2.world.effects
          (run.runIn tools' passes maxTimeout env').2.world.effects := by
  obtain ⟨agent', llm, hagent', -, hctx⟩ := prepare_eq_ok hrun
  obtain rfl := Option.some.inj (hagent.symm.trans hagent')
  have hid : run.ctx.executionId = req.executionId := by rw [hctx]; rfl
  have htools : run.ctx.tools = rt.agentTools agent := by rw [hctx]; rfl
  refine ⟨?_, ?_⟩
  · intro tools env hsame e he
    have hget : ∀ name, tools.get name = rt.allowedTool agent name := fun name =>
      (hsame name).trans (rt.agentTools_get agent name)
    rcases runExecutor_acts _ _ _ _ e he with ⟨model, ms, answer, rfl⟩ |
      ⟨tc, tool, env', htool, rfl⟩
    · exact requestFor_offers hget model ms
    · exact ⟨hid, tool, env', (hget tc.name).symm.trans htool, rfl⟩
  · intro registered hlisted
    refine ⟨(prepare_withTools hagent hlisted req).trans hrun, ?_⟩
    intro R tools tools' env env' hsame hsame' ha henv
    have hboth : tools.Same tools' := by
      intro name
      rw [hsame, hsame', agentTools_get, agentTools_get, allowedTool_withTools rt agent hlisted]
    have hctxTools : tools.Same run.ctx.tools := fun name => by rw [htools, hsame]
    obtain ⟨hend, htwin⟩ := runExecutor_twin (answersAlike_in ha hctxTools maxTimeout) hboth
      run.kind passes henv
    exact ⟨hend, htwin.world.effects⟩

end Runtime

/-! ### A tool outside the list -/

namespace Script

/-- An agent that may look things up. -/
def librarian : AgentRow where
  name := "librarian"
  systemPrompt := ""
  soul := none
  executorName := "conversation"
  llmProfileMain := some "main"
  llmProfileSmall := none
  llmProfileJudge := none
  embeddingProfile := none
  tools := ["lookup"]
  maxIterations := 8
  timeoutMs := 0
  costCapUsd := none
  traceLevel := none
  components := .default

/-- A runtime with that agent, and with the tools it is given. -/
def runtime (registered : ToolRegistry Script) : Runtime Script Unit where
  registry := ⟨registered, fun _ => some .conversation, fun _ => none, fun _ => none⟩
  llmProviders := fun _ => some ⟨provider, true⟩
  embeddingProviders := fun _ => none
  agents := insertAgent (fun _ => none) librarian
  keyed := insertAgent_keyed (fun _ _ h => absurd h (by simp)) librarian

/-- The look-up, and a tool that no agent lists. -/
def registered : ToolRegistry Script := ⟨[("purge", lookup), ("lookup", lookup)], by decide⟩

/-- A run of the agent. -/
def request : Runtime.RunRequest Script := ⟨"hi", none, ⟨1⟩, none⟩

/-- The run of the agent, where the look-up is registered. -/
def lookupRun : Runtime.Prepared Script :=
  ⟨.conversation, (runtime registered).contextOf librarian ⟨provider, true⟩ request, 0⟩

/-- A run with two look-ups is confined, and is the same where the other tool is missing. -/
theorem lookups_confined : (runtime registered).prepare "librarian" request = .ok lookupRun ∧
    (∀ e ∈ (lookupRun.runIn context.tools 2 none ⟨[twoCalls]⟩).2.world.effects,
      (runtime registered).Confines librarian ⟨1⟩ e) ∧
    (runtime context.tools).prepare "librarian" request = .ok lookupRun ∧
    List.Forall₂ Effect.Same
      (lookupRun.runIn ((runtime registered).agentTools librarian) 2 none
        ⟨[twoCalls]⟩).2.world.effects
      (lookupRun.runIn ((runtime context.tools).agentTools librarian) 2 none
        ⟨[twoCalls]⟩).2.world.effects := by
  have hagent : (runtime registered).agents "librarian" = some librarian := rfl
  have hrun : (runtime registered).prepare "librarian" request = .ok lookupRun := rfl
  have hlisted : ∀ name ∈ librarian.tools,
      context.tools.get name = (runtime registered).registry.tools.get name := by
    intro name hname
    obtain rfl := List.mem_singleton.mp hname
    rfl
  have halike : AnswersAlike Eq lookupRun.ctx :=
    ⟨.eq _, .eq _, by simp [lookupRun, Runtime.contextOf, request], fun _ _ _ _ => .eq _,
      by simp [lookupRun, Runtime.contextOf, librarian], fun _ _ _ _ _ => .eq _⟩
  obtain ⟨hconfined, hothers⟩ := Runtime.tools_confined hagent hrun 2 none
  obtain ⟨hrun', htwins⟩ := hothers context.tools hlisted
  have hsame : context.tools.Same ((runtime registered).agentTools librarian) := fun _ => rfl
  exact ⟨hrun, hconfined context.tools ⟨[twoCalls]⟩ hsame, hrun',
    (htwins Eq _ _ ⟨[twoCalls]⟩ _ (fun _ => rfl) (fun _ => rfl) halike rfl).2⟩

end Script

end PgSynapse

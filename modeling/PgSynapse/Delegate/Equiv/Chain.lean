import PgSynapse.Delegate.Chain
import PgSynapse.Runtime.Equiv.Ends

/-!
# Agents that call each other

A call of the kernel comes back with an outcome or an error, also where its agents call each other
in a circle (`every_call_ends`): the iteration caps bound each run, and the depth guard bounds how
many of them wait for one another.  A budget ends a run whose call is out of its poll; where there
are no budgets nothing is dropped, and the guard's counter is after the call what it was
(`depth_given_back`).
-/

namespace PgSynapse

open LoopHarness

variable {σ ε : Type}

/-! ### The answer of a run -/

namespace Runtime

/-- No call of a provider or of a registered tool stays without an answer. -/
structure ComesBack (rt : Runtime σ ε) : Prop where
  llm : ∀ key llm, rt.llmProviders key = some llm → ¬ llm.provider.MayHang
  tools : ∀ name tool, rt.registry.tools.get name = some tool → ¬ tool.MayHang

/-- No call of a provider panics. -/
def NeverPanics (rt : Runtime σ ε) : Prop :=
  ∀ key llm payload, rt.llmProviders key = some llm → ¬ llm.provider.MayPanic payload

/-- Nothing drops a call: no agent has a budget, and every call of a provider or of a registered tool
comes back.  A budget would also drop a call that comes back late, and the calls of agents above
it. -/
structure Unhurried (rt : Runtime σ ε) : Prop extends rt.ComesBack where
  budgets : ∀ name agent, rt.agents name = some agent → agent.timeoutMs = 0

/-- What the calls of a kernel keep of the outside; `check` is the host's interrupt check. -/
structure Keeps [Platform σ] (rt : Runtime σ ε) (check : Option (σ → Option String × σ))
    (P : σ → Prop) : Prop where
  utcNow : ∀ env, P env → P (Platform.utcNow env).2
  instantNow : ∀ env, P env → P (Platform.instantNow env).2
  interrupt : ∀ asked, check = some asked → ∀ env, P env → P (asked env).2
  llm : ∀ key llm, rt.llmProviders key = some llm → ∀ asked wait env, P env →
    P (llm.provider.complete asked wait env).2
  tools : ∀ name tool, rt.registry.tools.get name = some tool → ∀ args toolCtx env, P env →
    P (tool.run args toolCtx env).2

/-- Every agent has a cap that a counter can pass, in the passes a run is followed for. -/
def CapsWithin (rt : Runtime σ ε) (passes : Nat) : Prop :=
  ∀ name agent, rt.agents name = some agent →
    agent.maxIterations.toNat < 2 ^ 32 - 1 ∧ agent.maxIterations.toNat < passes

variable {rt : Runtime σ ε} {agentName : String} {req : RunRequest σ} {run : Prepared σ}

/-- The tools of a run come back when the registered ones do. -/
theorem ComesBack.tool (hback : rt.ComesBack) {agent : AgentRow} {name : String} {tool : Tool σ}
    (htool : (rt.agentTools agent).get name = some tool) : ¬ tool.MayHang := by
  rcases agentTools_registered htool with ⟨-, rfl⟩ | hregistered
  · -- the skill loader answers at once
    rintro ⟨args, toolCtx, env, hpending⟩
    cases hpending
  · exact hback.tools name tool hregistered

/-- A run of an agent with a timeout has a budget, unless the ceiling takes it away. -/
theorem budget_ne_zero {ctx : ExecutionContext σ} {timeoutMs : UInt64} {maxTimeout : Option Nat}
    (hown : timeoutMs ≠ 0) (hceiling : maxTimeout ≠ some 0) :
    (withBudget ctx timeoutMs.toNat maxTimeout).timeout ≠ 0 := by
  have hmillis : millis timeoutMs.toNat ≠ 0 := by
    have hpos : timeoutMs.toNat ≠ 0 := fun h => hown (UInt64.toNat_inj.mp h)
    unfold millis
    omega
  show budget timeoutMs.toNat maxTimeout ≠ 0
  unfold budget
  cases maxTimeout with
  | none => exact hmillis
  | some cap =>
    have hcap : cap ≠ 0 := fun h => hceiling (congrArg some h)
    dsimp only
    omega

variable [Platform σ]

/-- **What a kernel's calls keep**, the executor of a run of any of its agents keeps. -/
theorem prepared_run_keeps {P : σ → Prop} (hk : rt.Keeps req.interruptCheck P)
    (hrun : rt.prepare agentName req = .ok run) (passes : Nat) (maxTimeout : Option Nat) {env : σ}
    (henv : P env) :
    P (runExecutor run.kind passes
      (withBudget run.ctx run.timeoutMs.toNat maxTimeout) env).2.world.env := by
  have hkeeps : (withBudget run.ctx run.timeoutMs.toNat maxTimeout).Keeps fun env _ => P env := by
    apply prepared_keeps hrun
    · exact fun env _ => hk.utcNow env
    · exact fun env _ => hk.instantNow env
    · exact fun check hcheck env _ => hk.interrupt check hcheck env
    · exact fun key llm hllm asked wait env _ => hk.llm key llm hllm asked wait env
    · rintro tc tool (⟨-, skills, rfl⟩ | hregistered) toolCtx env _
      · exact id
      · exact hk.tools tc.name tool hregistered tc.args toolCtx env
  exact runExecutor_keeps hkeeps run.kind passes henv

/-- A run leaves the outside as its executor does. -/
theorem answer_keeps {P : σ → Prop} {held : σ → Bool} (hk : rt.Keeps req.interruptCheck P)
    (passes : Nat) (maxTimeout : Option Nat) {env : σ} (henv : P env) :
    P (rt.answer held passes agentName req maxTimeout env).2 := by
  unfold answer
  cases hrun : rt.prepare agentName req with
  | error e => exact henv
  | ok run =>
    have hend := prepared_run_keeps hk hrun passes maxTimeout henv
    dsimp only
    rcases hres : runExecutor run.kind passes
      (withBudget run.ctx run.timeoutMs.toNat maxTimeout) env with ⟨r, h⟩
    rw [hres] at hend
    dsimp only
    split
    · split <;> exact hend
    · exact hend
    · exact hend
    · exact hend

/-- **What ends a run** that does not end by itself: its calls come back, or there is a budget, and
no call on the outside holds the thread. -/
def Ends (rt : Runtime σ ε) (check : Option (σ → Option String × σ)) (held : σ → Bool)
    (maxTimeout : Option Nat) (env : σ) : Prop :=
  rt.ComesBack ∨ maxTimeout ≠ some 0 ∧
    (∀ name agent, rt.agents name = some agent → agent.timeoutMs ≠ 0) ∧
    rt.Keeps check (fun env => held env = false) ∧ held env = false

/-- **A run comes back** with an outcome or an error, when a budget ends it or its calls return. -/
theorem answer_ready {passes : Nat} {held : σ → Bool} {maxTimeout : Option Nat}
    (hcaps : rt.CapsWithin passes) (hpanics : rt.NeverPanics) {env : σ}
    (hends : rt.Ends req.interruptCheck held maxTimeout env) :
    ∃ result env', rt.answer held passes agentName req maxTimeout env = (.ready result, env') := by
  unfold answer
  cases hrun : rt.prepare agentName req with
  | error e => exact ⟨_, _, rfl⟩
  | ok run =>
    obtain ⟨agent, llm, hagent, hllm, hctx, htimeout⟩ := prepare_limits hrun
    obtain ⟨hmax, hpasses⟩ := hcaps agentName agent hagent
    have huses : ∀ {provider}, (withBudget run.ctx run.timeoutMs.toNat maxTimeout).Uses provider →
        ∃ key handle, rt.llmProviders key = some handle ∧ handle.provider = provider := by
      intro provider huses
      rw [hctx] at huses
      exact uses_registered req hllm huses
    have hcap : (withBudget run.ctx run.timeoutMs.toNat maxTimeout).maxIterations =
        agent.maxIterations := by
      rw [hctx]
      rfl
    have hend : Accounted (withBudget run.ctx run.timeoutMs.toNat maxTimeout) (runExecutor run.kind
        passes (withBudget run.ctx run.timeoutMs.toNat maxTimeout) env).1 :=
      runExecutor_accounted run.kind env (by rwa [hcap]) (by rwa [hcap])
    -- without an end of its own the run has a budget, and is out of its poll
    have hcut : (runExecutor run.kind passes
        (withBudget run.ctx run.timeoutMs.toNat maxTimeout) env).1 = .suspended →
        (withBudget run.ctx run.timeoutMs.toNat maxTimeout).timeout ≠ 0 ∧
        held (runExecutor run.kind passes
          (withBudget run.ctx run.timeoutMs.toNat maxTimeout) env).2.world.env = false := by
      intro hsuspended
      rw [hsuspended] at hend
      rcases hends with hback | ⟨hceiling, htimeouts, hkeeps, hfree⟩
      · cases hend with
        | provider hused hhang =>
          obtain ⟨key, handle, hhandle, rfl⟩ := huses hused
          exact absurd hhang (hback.llm key handle hhandle)
        | tool htool hhang =>
          rw [hctx] at htool
          exact absurd hhang (hback.tool htool)
      · have hown : run.timeoutMs ≠ 0 := htimeout ▸ htimeouts agentName agent hagent
        exact ⟨budget_ne_zero hown hceiling,
          prepared_run_keeps hkeeps hrun passes maxTimeout hfree⟩
    unfold executeInner
    dsimp only
    rcases hres : runExecutor run.kind passes
      (withBudget run.ctx run.timeoutMs.toNat maxTimeout) env with ⟨r, h⟩
    rw [hres] at hend hcut
    cases hend with
    | finished o => exact ⟨_, _, rfl⟩
    | failed e => exact ⟨_, _, rfl⟩
    | panicked hused hpanic =>
      obtain ⟨key, handle, hhandle, rfl⟩ := huses hused
      exact absurd hpanic (hpanics key handle _ hhandle)
    | provider hused hhang =>
      obtain ⟨hbudget, hfree⟩ := hcut rfl
      simp only [if_neg hbudget, hfree]
      exact ⟨_, _, rfl⟩
    | tool htool hhang =>
      obtain ⟨hbudget, hfree⟩ := hcut rfl
      simp only [if_neg hbudget, hfree]
      exact ⟨_, _, rfl⟩

end Runtime

/-! ### The kernel on a chain of calls -/

variable {left : Nat}

theorem LlmProvider.lift_mayHang {provider : LlmProvider σ}
    (h : (provider.lift : LlmProvider (Chain σ left)).MayHang) : provider.MayHang := by
  obtain ⟨req, wait, s, hpending⟩ := h
  exact ⟨req, wait, s.outside, hpending⟩

theorem LlmProvider.lift_mayPanic {provider : LlmProvider σ} {payload : Option String}
    (h : (provider.lift : LlmProvider (Chain σ left)).MayPanic payload) :
    provider.MayPanic payload := by
  obtain ⟨req, wait, s, hpanicked⟩ := h
  exact ⟨req, wait, s.outside, hpanicked⟩

theorem Tool.lift_mayHang {tool : Tool σ} (h : (tool.lift : Tool (Chain σ left)).MayHang) :
    tool.MayHang := by
  obtain ⟨args, toolCtx, s, hpending⟩ := h
  exact ⟨args, toolCtx, s.outside, hpending⟩

theorem ToolRegistry.get_lift (r : ToolRegistry σ) (name : String) :
    (r.lift : ToolRegistry (Chain σ left)).get name = (r.get name).map Tool.lift := by
  have hlookup : ∀ tools : List (String × Tool σ),
      (tools.map fun t => (t.1, t.2.lift)).lookup name =
        (tools.lookup name).map fun tool => (tool.lift : Tool (Chain σ left)) := by
    intro tools
    induction tools with
    | nil => rfl
    | cons t tools ih =>
      rw [List.map_cons, List.lookup_cons, List.lookup_cons]
      split
      · rfl
      · exact ih
  exact hlookup r.tools

namespace Runtime

variable {rt : Runtime σ ε} {tool : Tool (Chain σ left)}

/-- A tool of the kernel is `call_agent` or one of its own. -/
theorem withCallAgent_get {name : String} {other : Tool (Chain σ left)}
    (h : (rt.withCallAgent tool).registry.tools.get name = some other) :
    other = tool ∨ ∃ registered, rt.registry.tools.get name = some registered ∧
      other = registered.lift := by
  have hget : (if name = callAgentName then some tool
      else (rt.registry.tools.get name).map Tool.lift) = some other := by
    rw [← ToolRegistry.get_lift, ← ToolRegistry.get_add]
    exact h
  split_ifs at hget
  · exact .inl (Option.some.inj hget).symm
  · obtain ⟨registered, hregistered, hlifted⟩ := Option.map_eq_some_iff.mp hget
    exact .inr ⟨registered, hregistered, hlifted.symm⟩

/-- The kernel comes back when its own calls do, and `call_agent` does. -/
theorem ComesBack.withCallAgent (hback : rt.ComesBack) (htool : ¬ tool.MayHang) :
    (rt.withCallAgent tool).ComesBack where
  llm := by
    intro key llm hllm hhang
    obtain ⟨handle, hhandle, rfl⟩ := Option.map_eq_some_iff.mp hllm
    exact hback.llm key handle hhandle (LlmProvider.lift_mayHang hhang)
  tools := by
    intro name other hother hhang
    rcases withCallAgent_get hother with rfl | ⟨registered, hregistered, rfl⟩
    · exact htool hhang
    · exact hback.tools name registered hregistered (Tool.lift_mayHang hhang)

theorem NeverPanics.withCallAgent (hpanics : rt.NeverPanics) :
    (rt.withCallAgent tool).NeverPanics := by
  intro key llm payload hllm hpanic
  obtain ⟨handle, hhandle, rfl⟩ := Option.map_eq_some_iff.mp hllm
  exact hpanics key handle payload hhandle (LlmProvider.lift_mayPanic hpanic)

/-- **The kernel keeps what its parts keep**, of the outside and of the counter: its own calls leave
the counter alone, and the rest is up to `call_agent`. -/
theorem Keeps.withCallAgent [Platform σ] {check : Option (σ → Option String × σ)}
    {R : σ → UInt32 → Prop} (hk : ∀ depth, rt.Keeps check fun env => R env depth)
    (htool : ∀ args toolCtx s, R s.outside s.depth →
      R (tool.run args toolCtx s).2.outside (tool.run args toolCtx s).2.depth) :
    (rt.withCallAgent tool).Keeps (check.map Chain.lift) fun s => R s.outside s.depth where
  utcNow s hs := (hk s.depth).utcNow s.outside hs
  instantNow s hs := (hk s.depth).instantNow s.outside hs
  interrupt := by
    intro asked hasked s hs
    obtain ⟨own, hown, rfl⟩ := Option.map_eq_some_iff.mp hasked
    exact (hk s.depth).interrupt own hown s.outside hs
  llm := by
    intro key llm hllm asked wait s hs
    obtain ⟨handle, hhandle, rfl⟩ := Option.map_eq_some_iff.mp hllm
    exact (hk s.depth).llm key handle hhandle asked wait s.outside hs
  tools := by
    intro name other hother args toolCtx s hs
    rcases withCallAgent_get hother with rfl | ⟨registered, hregistered, rfl⟩
    · exact htool args toolCtx s hs
    · exact (hk s.depth).tools name registered hregistered args toolCtx s.outside hs

end Runtime

/-! ### Calls of agents -/

namespace CallHost

variable {host : CallHost σ ε}

/-- **What becomes of a call**: it is refused at once, or let in below the limit. -/
theorem callAgentTool_run (delegate : (s : Chain σ left) → ¬ maxDelegationDepth ≤ s.depth →
    CallAgentInput → Answer (Except ToolError ToolOutput) × Chain σ left) (args : Value)
    (toolCtx : ToolCtx) (s : Chain σ left) :
    (∃ e, (host.callAgentTool delegate).run args toolCtx s = (.ready (.error e), s)) ∨
      ∃ (call : CallAgentInput) (hbelow : ¬ maxDelegationDepth ≤ s.depth),
        (host.callAgentTool delegate).run args toolCtx s = delegate s hbelow call := by
  unfold callAgentTool
  dsimp only
  split
  · exact .inl ⟨_, rfl⟩
  · next call _ =>
    split
    · by_cases hlimit : maxDelegationDepth ≤ s.depth
      · rw [dif_pos hlimit]
        exact .inl ⟨_, rfl⟩
      · rw [dif_neg hlimit]
        exact .inr ⟨call, hlimit, rfl⟩
    · exact .inl ⟨_, rfl⟩

variable [Platform σ] {passes : Nat}

/-- No call on the outside holds the thread: one that is not back is out of its poll. -/
structure Yields (host : CallHost σ ε) : Prop where
  newId : ∀ env, host.held env = false → host.held (host.newId env).2 = false
  calls : host.runtime.Keeps host.interruptCheck fun env => host.held env = false

/-- **A call of the kernel keeps what its parts keep.** -/
theorem executeWith_keeps {R : σ → UInt32 → Prop} {tool : Tool (Chain σ left)}
    (hnew : ∀ env depth, R env depth → R (host.newId env).2 depth)
    (hk : ∀ depth, host.runtime.Keeps host.interruptCheck fun env => R env depth)
    (htool : ∀ args toolCtx s, R s.outside s.depth →
      R (tool.run args toolCtx s).2.outside (tool.run args toolCtx s).2.depth)
    (agentName input : String) (callerRole : Option String) (maxTimeout : Option Nat)
    (s : Chain σ left) (hs : R s.outside s.depth) :
    R (host.executeWith tool passes agentName input callerRole maxTimeout s).2.outside
      (host.executeWith tool passes agentName input callerRole maxTimeout s).2.depth := by
  unfold executeWith
  exact Runtime.answer_keeps (P := fun s : Chain σ left => R s.outside s.depth)
    (Runtime.Keeps.withCallAgent hk htool) passes maxTimeout (hnew s.outside s.depth hs)

/-- A call of the kernel comes back, when its `call_agent` does or there are budgets. -/
theorem executeWith_ready {tool : Tool (Chain σ left)} {maxTimeout : Option Nat}
    (hcaps : host.runtime.CapsWithin passes) (hpanics : host.runtime.NeverPanics)
    {s : Chain σ left} (hends : host.runtime.ComesBack ∧ ¬ tool.MayHang ∨ maxTimeout ≠ some 0 ∧
      (∀ name agent, host.runtime.agents name = some agent → agent.timeoutMs ≠ 0) ∧
      host.Yields ∧ (∀ args toolCtx s', host.held s'.outside = false →
        host.held (tool.run args toolCtx s').2.outside = false) ∧ host.held s.outside = false)
    (agentName input : String) (callerRole : Option String) :
    ∃ result s', host.executeWith tool passes agentName input callerRole maxTimeout s =
      (.ready result, s') := by
  unfold executeWith
  have hlimits : (host.runtime.withCallAgent tool).CapsWithin passes := hcaps
  refine Runtime.answer_ready hlimits hpanics.withCallAgent ?_
  rcases hends with ⟨hback, htool⟩ | ⟨hceiling, htimeouts, hyields, htool, hfree⟩
  · exact .inl (hback.withCallAgent htool)
  · exact .inr ⟨hceiling, htimeouts, Runtime.Keeps.withCallAgent
      (R := fun env _ => host.held env = false) (fun _ => hyields.calls) htool,
      hyields.newId s.outside hfree⟩

/-- Where no call is still let in, every call is refused. -/
theorem callAgent_zero_run (args : Value) (toolCtx : ToolCtx) (s : Chain σ 0) :
    ∃ e, (host.callAgent passes 0).run args toolCtx s = (.ready (.error e), s) := by
  rw [callAgent]
  rcases callAgentTool_run _ args toolCtx s with hrefused | ⟨call, hbelow, -⟩
  · exact hrefused
  · exact absurd s.limit_le hbelow

/-- A call that is let in is a run of the sub-agent, whose own `call_agent` is one closer to the
limit. -/
theorem callAgent_succ_run (args : Value) (toolCtx : ToolCtx) (s : Chain σ (left + 1)) :
    (∃ e, (host.callAgent passes (left + 1)).run args toolCtx s = (.ready (.error e), s)) ∨
      ∃ (call : CallAgentInput) (hbelow : ¬ maxDelegationDepth ≤ s.depth),
        (host.callAgent passes (left + 1)).run args toolCtx s = host.settle call.agent
          (host.executeWith (host.callAgent passes left) passes call.agent call.input none none
            (s.enter hbelow)) := by
  rw [callAgent]
  exact callAgentTool_run _ args toolCtx s

/-- **`call_agent` comes back**, by induction on the calls that are still let in. -/
theorem callAgent_back (hcaps : host.runtime.CapsWithin passes)
    (hpanics : host.runtime.NeverPanics) (hback : host.runtime.ComesBack) (left : Nat) :
    ¬ (host.callAgent passes left).MayHang := by
  induction left with
  | zero =>
    rintro ⟨args, toolCtx, s, hpending⟩
    obtain ⟨e, hrefused⟩ := callAgent_zero_run args toolCtx s
    rw [hrefused] at hpending
    cases hpending
  | succ left ih =>
    rintro ⟨args, toolCtx, s, hpending⟩
    rcases callAgent_succ_run args toolCtx s with ⟨e, hrefused⟩ | ⟨call, hbelow, hrun⟩
    · rw [hrefused] at hpending
      cases hpending
    · obtain ⟨result, s', hready⟩ := executeWith_ready (s := s.enter hbelow) hcaps hpanics
        (.inl ⟨hback, ih⟩) call.agent call.input none
      rw [hrun, hready] at hpending
      cases hpending

omit [Platform σ] in
/-- The end of a call leaves the outside alone. -/
theorem settle_outside (agent : String)
    (x : Answer (Except RuntimeError ExecutorOutcome) × Chain σ left) :
    (host.settle agent x).2.outside = x.2.outside := by
  obtain ⟨answer, s⟩ := x
  cases answer <;> rfl

/-- **`call_agent` does not hold the thread**, by the same induction. -/
theorem callAgent_held (hyields : host.Yields) (left : Nat) (args : Value) (toolCtx : ToolCtx)
    (s : Chain σ left) (hs : host.held s.outside = false) :
    host.held ((host.callAgent passes left).run args toolCtx s).2.outside = false := by
  induction left generalizing args toolCtx with
  | zero =>
    obtain ⟨e, hrefused⟩ := callAgent_zero_run args toolCtx s
    rw [hrefused]
    exact hs
  | succ left ih =>
    rcases callAgent_succ_run args toolCtx s with ⟨e, hrefused⟩ | ⟨call, hbelow, hrun⟩
    · rw [hrefused]
      exact hs
    · rw [hrun, settle_outside]
      exact executeWith_keeps (R := fun env _ => host.held env = false)
        (fun env _ => hyields.newId env) (fun _ => hyields.calls) ih call.agent call.input none
        none (s.enter hbelow) hs

end CallHost

/-! ### Two agents that call each other -/

namespace StillWorld

/-- A reply that calls an agent. -/
def calling (agent : String) : CompletionResponse where
  content := none
  toolCalls := [⟨"c1", "call_agent", .obj [("agent", .string agent), ("input", .string "go on")]⟩]
  finishReason := "tool_calls"
  usage := ⟨1, 1, none⟩

/-- An agent that may call agents, on the profile of its own name. -/
def player (name : String) : AgentRow where
  name := name
  systemPrompt := ""
  soul := none
  executorName := "conversation"
  llmProfileMain := some name
  llmProfileSmall := none
  llmProfileJudge := none
  embeddingProfile := none
  tools := ["call_agent"]
  maxIterations := 3
  timeoutMs := 0
  costCapUsd := none
  traceLevel := none
  components := .default

/-- A backend with two agents, whose models reply to everything with a call of the other agent. -/
def circle : CallHost StillWorld Unit where
  runtime := {
    registry := ⟨.empty, fun _ => some .conversation, fun _ => none, fun _ => none⟩
    llmProviders := fun key =>
      if key = "ping" then some ⟨provider (calling "pong"), true⟩
      else some ⟨provider (calling "ping"), true⟩
    embeddingProviders := fun _ => none
    agents := indexAgents [player "ping", player "pong"]
    keyed := indexAgents_keyed _ }
  newId s := (⟨1⟩, s)
  interruptCheck := none
  held := fun _ => false
  attached := true
  schema := .obj []
  usd := fun _ => ""
  inputError := fun _ => ""

/-- No call above this one. -/
def unnested : Chain StillWorld 4 := ⟨⟨⟩, 0, by decide⟩

/-- The agents are the two. -/
theorem circle_agents {name : String} {agent : AgentRow}
    (hagent : circle.runtime.agents name = some agent) :
    agent = player "pong" ∨ agent = player "ping" := by
  have hrows : insertAgent (insertAgent (fun _ => none) (player "ping")) (player "pong") name =
      some agent := hagent
  unfold insertAgent at hrows
  simp only [Function.update_apply] at hrows
  split_ifs at hrows
  · exact .inl (Option.some.inj hrows).symm
  · exact .inr (Option.some.inj hrows).symm

theorem circle_caps : circle.runtime.CapsWithin 4 := by
  intro name agent hagent
  rcases circle_agents hagent with rfl | rfl <;> decide

/-- Both models answer every request with a reply. -/
theorem circle_models {key : String} {llm : LlmHandle StillWorld}
    (hllm : circle.runtime.llmProviders key = some llm) :
    ∃ reply, llm.provider = provider reply := by
  have hmodels : (if key = "ping" then some ⟨provider (calling "pong"), true⟩
      else some ⟨provider (calling "ping"), true⟩ : Option (LlmHandle StillWorld)) = some llm :=
    hllm
  split_ifs at hmodels
  · exact ⟨_, congrArg LlmHandle.provider (Option.some.inj hmodels).symm⟩
  · exact ⟨_, congrArg LlmHandle.provider (Option.some.inj hmodels).symm⟩

theorem circle_panics : circle.runtime.NeverPanics := by
  rintro key llm payload hllm ⟨req, wait, s, hpanicked⟩
  obtain ⟨reply, hreply⟩ := circle_models hllm
  rw [hreply] at hpanicked
  cases hpanicked

theorem circle_unhurried : circle.runtime.Unhurried where
  llm := by
    rintro key llm hllm ⟨req, wait, s, hpending⟩
    obtain ⟨reply, hreply⟩ := circle_models hllm
    rw [hreply] at hpending
    cases hpending
  tools _ _ htool := by cases htool
  budgets := by
    intro name agent hagent
    rcases circle_agents hagent with rfl | rfl <;> rfl

end StillWorld

namespace CallHost

variable [Platform σ]

/-- **Every call ends**: whatever agents there are, whichever of them call each other, whatever the
models reply and the tools do, a call of the kernel comes back with an outcome or an error.  It
takes caps that a counter can pass and providers that do not panic.  Beyond that either every
provider and every tool comes back, or every agent has a budget and no call holds the thread. -/
theorem every_call_ends (host : CallHost σ ε) (passes left : Nat)
    (hcaps : host.runtime.CapsWithin passes) (hpanics : host.runtime.NeverPanics)
    (maxTimeout : Option Nat) (s : Chain σ left) (hends : host.runtime.ComesBack ∨
      maxTimeout ≠ some 0 ∧
      (∀ name agent, host.runtime.agents name = some agent → agent.timeoutMs ≠ 0) ∧
      host.Yields ∧ host.held s.outside = false)
    (agentName input : String) (callerRole : Option String) :
    ∃ result s', host.execute passes left agentName input callerRole maxTimeout s =
      (.ready result, s') := by
  refine executeWith_ready hcaps hpanics ?_ agentName input callerRole
  rcases hends with hback | ⟨hceiling, htimeouts, hyields, hfree⟩
  · exact .inl ⟨hback, callAgent_back hcaps hpanics hback left⟩
  · exact .inr ⟨hceiling, htimeouts, hyields, callAgent_held hyields left, hfree⟩

/-- The two agents call each other in a circle, and the call of the first one ends. -/
theorem circle_ends : ∃ result s', StillWorld.circle.execute 4 4 "ping" "go on" none none
    StillWorld.unnested = (.ready result, s') :=
  every_call_ends StillWorld.circle 4 4 StillWorld.circle_caps StillWorld.circle_panics none
    StillWorld.unnested (.inl StillWorld.circle_unhurried.toComesBack) "ping" "go on" none

end CallHost

end PgSynapse

import PgSynapse.Executor.Equiv.Executors
import PgSynapse.Runtime.Equiv.Confinement

/-!
# What a run keeps

A run moves the outside only by reading the clocks, asking the interrupt check, and calling its
providers and its tools.  What all of these keep of the outside, the run keeps
(`runExecutor_keeps`).
-/

namespace PgSynapse

variable {σ : Type}

/-- The providers a run talks to. -/
def ExecutionContext.Uses (ctx : ExecutionContext σ) (provider : LlmProvider σ) : Prop :=
  provider = ctx.llm ∨ ctx.judgeLlm = some provider

/-- The judge of a run is a provider it talks to. -/
theorem ExecutionContext.uses_judge (ctx : ExecutionContext σ) :
    ctx.Uses (ctx.judgeLlm.getD ctx.llm) := by
  cases h : ctx.judgeLlm with
  | none => exact .inl rfl
  | some judge => exact .inr h

/-- **What the outside of a run keeps**: `P` of it and of the calls made on it still holds after
every call the run can make. -/
structure ExecutionContext.Keeps [Platform σ] (ctx : ExecutionContext σ)
    (P : σ → List Effect → Prop) : Prop where
  utcNow : ∀ env es, P env es → P (Platform.utcNow env).2 es
  instantNow : ∀ env es, P env es → P (Platform.instantNow env).2 es
  interrupt : ∀ check, ctx.interruptCheck = some check →
    ∀ env es, P env es → P (check env).2 es
  provider : ∀ provider, ctx.Uses provider → ∀ req wait env es, P env es →
    P (provider.complete req wait env).2 (es ++ [.llm req (provider.complete req wait env).1])
  tool : ∀ tc tool, ctx.tools.get tc.name = some tool → ∀ toolCtx env es, P env es →
    P (tool.run tc.args toolCtx env).2 (es ++ [.tool tc toolCtx (tool.run tc.args toolCtx env).1])

/-- The harness of a run under `ctx`, with `P` of the outside and of the calls made on it. -/
structure LoopHarness.Holds (P : σ → List Effect → Prop) (ctx : ExecutionContext σ)
    (h : LoopHarness σ) : Prop where
  under : h.ctx = ctx
  outside : P h.world.env h.world.effects

namespace LoopHarness

variable {P : σ → List Effect → Prop} {ctx : ExecutionContext σ} {h : LoopHarness σ}

/-! ### Keeping the books -/

theorem mirror_holds (hh : h.Holds P ctx) (f : ExecutorOutcome → ExecutorOutcome) :
    (h.mirror f).Holds P ctx := by
  unfold mirror
  split
  · exact ⟨hh.under, hh.outside⟩
  · exact hh

theorem recordEvent_holds (hh : h.Holds P ctx) (kind : EventKind) (payload : Value) :
    (h.recordEvent kind payload).Holds P ctx := by
  have hm := mirror_holds hh fun o => { o with events := o.events ++ [⟨kind, payload⟩] }
  exact ⟨hm.under, hm.outside⟩

theorem append_holds (hh : h.Holds P ctx) (msg : Message) : (h.append msg).Holds P ctx := by
  have hcount : Holds P ctx { h with seq := h.seq + 1 } := ⟨hh.under, hh.outside⟩
  have hm := mirror_holds hcount fun o =>
    { o with messages := o.messages ++ [{ msg with seq := h.seq }] }
  exact ⟨hm.under, hm.outside⟩

theorem bumpIteration_holds (hh : h.Holds P ctx) : h.bumpIteration.Holds P ctx :=
  ⟨hh.under, hh.outside⟩

theorem checkIterationCap_holds (hh : h.Holds P ctx) : h.checkIterationCap.2.Holds P ctx := by
  unfold checkIterationCap
  split
  · exact recordEvent_holds hh _ _
  · exact hh

variable [Platform σ] (hk : ctx.Keeps P)

include hk

theorem elapsed_holds (hh : h.Holds P ctx) : h.elapsed.2.Holds P ctx :=
  ⟨hh.under, hk.instantNow _ _ hh.outside⟩

theorem newMessage_holds (hh : h.Holds P ctx) (role : Role) : (h.newMessage role).2.Holds P ctx :=
  ⟨hh.under, hk.utcNow _ _ hh.outside⟩

theorem pushMessage_holds (hh : h.Holds P ctx) (role : Role) (content : Option String)
    (toolOutput : Option Value) : (h.pushMessage role content toolOutput).Holds P ctx :=
  append_holds (newMessage_holds hk hh role) _

theorem seedMessages_holds (hh : h.Holds P ctx) : h.seedMessages.Holds P ctx := by
  unfold seedMessages
  simp only
  split
  · exact pushMessage_holds hk hh _ _ _
  · exact pushMessage_holds hk (pushMessage_holds hk hh _ _ _) _ _ _

theorem pushCallRow_holds (hh : h.Holds P ctx) (tc : ToolCall) : (h.pushCallRow tc).Holds P ctx :=
  append_holds (newMessage_holds hk hh .assistant) _

theorem recordAssistantResponse_holds (hh : h.Holds P ctx) (resp : CompletionResponse) :
    (h.recordAssistantResponse resp).Holds P ctx := by
  unfold recordAssistantResponse
  split
  · exact pushMessage_holds hk hh _ _ _
  · induction resp.toolCalls generalizing h with
    | nil => exact hh
    | cons tc calls ih => exact ih (pushCallRow_holds hk hh tc)

theorem pushToolResult_holds (hh : h.Holds P ctx) (tc : ToolCall) (output : ToolOutput) :
    (h.pushToolResult tc output).2.Holds P ctx := by
  unfold pushToolResult
  cases output <;> exact append_holds (newMessage_holds hk hh .tool) _

theorem pushToolError_holds (hh : h.Holds P ctx) (tc : ToolCall) (err : ToolError) :
    (h.pushToolError tc err).Holds P ctx :=
  recordEvent_holds (append_holds (newMessage_holds hk hh .tool) _) _ _

theorem pushEmptyTurnNudge_holds (hh : h.Holds P ctx) : h.pushEmptyTurnNudge.Holds P ctx :=
  recordEvent_holds (pushMessage_holds hk hh _ _ _) _ _

theorem recordUsage_holds (hh : h.Holds P ctx) (resp : CompletionResponse) :
    (h.recordUsage resp).Holds P ctx := by
  unfold recordUsage
  apply mirror_holds
  apply elapsed_holds hk
  exact ⟨hh.under, hh.outside⟩

/-! ### Checks -/

theorem checkInterrupt_holds (hh : h.Holds P ctx) : h.checkInterrupt.2.Holds P ctx := by
  unfold checkInterrupt
  rw [hh.under]
  cases hcheck : ctx.interruptCheck with
  | none => exact hh
  | some check =>
    have henv := hk.interrupt check hcheck h.world.env h.world.effects hh.outside
    simp only
    rcases hasked : check h.world.env with ⟨_ | reason, env⟩ <;> rw [hasked] at henv
    · simp only
      exact ⟨rfl, henv⟩
    · simp only
      exact ⟨rfl, henv⟩

theorem remainingBudget_holds (hh : h.Holds P ctx) : h.remainingBudget.2.Holds P ctx := by
  unfold remainingBudget
  split
  · exact hh
  · exact elapsed_holds hk hh

theorem checkDeadline_holds (hh : h.Holds P ctx) : h.checkDeadline.2.Holds P ctx := by
  have he := elapsed_holds hk hh
  unfold checkDeadline
  split
  · exact hh
  · simp only
    split
    · exact recordEvent_holds he _ _
    · exact he

/-! ### Turns and calls -/

theorem acceptResponse_holds (hh : h.Holds P ctx) (model : String) (resp : CompletionResponse) :
    (h.acceptResponse model resp).2.Holds P ctx := by
  have hused := recordUsage_holds hk
    (recordEvent_holds hh .llmResponse (h.responsePayload resp)) resp
  have htold := recordAssistantResponse_holds hk hused resp
  unfold acceptResponse
  simp only
  split
  · exact hused
  · split
    · split
      · exact htold
      · exact htold
    · simp only
      apply mirror_holds
      exact ⟨htold.under, htold.outside⟩

theorem oneLlmTurnWith_holds (hh : h.Holds P ctx) {provider : LlmProvider σ}
    (huses : ctx.Uses provider) : (h.oneLlmTurnWith provider).2.Holds P ctx := by
  have hcheck := checkInterrupt_holds hk hh
  unfold oneLlmTurnWith
  rcases hi : h.checkInterrupt with ⟨_ | _, h₁⟩ <;> rw [hi] at hcheck
  · exact hcheck
  simp only
  generalize h₁.buildRequest provider.modelName = req
  have hwait := remainingBudget_holds hk
    (recordEvent_holds hcheck .llmRequest (h₁.requestPayload provider.modelName req))
  generalize (h₁.recordEvent .llmRequest _).remainingBudget = budgeted at hwait ⊢
  obtain ⟨wait, h₂⟩ := budgeted
  have hcall : (h₂.awaitComplete provider req wait).2.Holds P ctx :=
    ⟨hwait.under, hk.provider provider huses req wait _ _ hwait.outside⟩
  rcases ha : h₂.awaitComplete provider req wait with ⟨answer, h₃⟩
  rw [ha] at hcall
  match answer with
  | .ready (.ok resp) => exact acceptResponse_holds hk hcall _ resp
  | .ready (.error e) => exact hcall
  | .panicked p => exact hcall
  | .pending =>
    cases wait with
    | none => exact hcall
    | some w => exact recordEvent_holds (elapsed_holds hk hcall) _ _

theorem settleToolCall_holds (hh : h.Holds P ctx) (tc : ToolCall)
    (result : Except ToolError ToolOutput) : (h.settleToolCall tc result).2.Holds P ctx := by
  cases result with
  | ok output => exact pushToolResult_holds hk (recordEvent_holds hh _ _) tc output
  | error e => exact hh

theorem dispatchToolCall_holds (hh : h.Holds P ctx) (tc : ToolCall) :
    (h.dispatchToolCall tc).2.Holds P ctx := by
  unfold dispatchToolCall
  cases repeatedCallRefusal h.issuedToolCalls tc with
  | some refusal =>
    simp only
    exact pushToolResult_holds hk (recordEvent_holds hh _ _) tc _
  | none =>
    cases htool : h.ctx.tools.get tc.name with
    | none => exact hh
    | some tool =>
      rw [hh.under] at htool
      simp only
      generalize (ToolCtx.mk _ _ _) = toolCtx
      generalize (if h.ctx.traceLevel.shouldPersistRawPayloads then _ else _ : Value) = payload
      have hstart := recordEvent_holds hh .toolStart payload
      generalize h.recordEvent .toolStart payload = h₁ at hstart
      have hrun : (h₁.awaitTool tool tc toolCtx).2.Holds P ctx :=
        ⟨hstart.under, hk.tool tc tool htool toolCtx _ _ hstart.outside⟩
      rcases ha : h₁.awaitTool tool tc toolCtx with ⟨answer, h₂⟩
      rw [ha] at hrun
      match answer with
      | .ready result => exact settleToolCall_holds hk hrun tc result
      | .panicked p => exact settleToolCall_holds hk hrun tc _
      | .pending => exact hrun

end LoopHarness

/-! ### Executors -/

section

open LoopHarness

variable [Platform σ] {P : σ → List Effect → Prop} {ctx : ExecutionContext σ}
  {h : LoopHarness σ} (hk : ctx.Keeps P)

omit [Platform σ] in
/-- `P` of the outside, however a pass comes out. -/
def LoopStep.Holds (P : σ → List Effect → Prop) (ctx : ExecutionContext σ) (s : LoopStep σ) :
    Prop :=
  s.Meets (LoopHarness.Holds P ctx) fun _ h => h.Holds P ctx

include hk

theorem dispatchAll_holds (hh : h.Holds P ctx) (calls : List ToolCall) :
    (dispatchAll calls h).Holds P ctx := by
  induction calls generalizing h with
  | nil => exact hh
  | cons tc calls ih =>
    have hd := dispatchToolCall_holds hk hh tc
    rw [dispatchAll]
    rcases heq : h.dispatchToolCall tc with ⟨flow, h₁⟩
    rw [heq] at hd
    cases flow with
    | ok msg => exact ih hd
    | err e =>
      cases e
      case tool te => exact ih (pushToolError_holds hk hd tc te)
      all_goals exact hd
    | panicked p => exact hd
    | suspended => exact hd

theorem chatLoopBody_holds (hh : h.Holds P ctx) : (chatLoopBody h).Holds P ctx := by
  have hcap := checkIterationCap_holds (bumpIteration_holds hh)
  unfold chatLoopBody
  simp only
  rcases hi : h.bumpIteration.checkIterationCap with ⟨_ | _, h₁⟩ <;> rw [hi] at hcap
  case error e =>
    cases e
    case maxIterationsReached => exact elapsed_holds hk hcap
    all_goals exact hcap
  simp only
  cases h₁.checkCostCap with
  | error e => exact hcap
  | ok _ =>
    have hdeadline := checkDeadline_holds hk hcap
    rcases hd : h₁.checkDeadline with ⟨_ | _, h₂⟩ <;> rw [hd] at hdeadline
    · exact elapsed_holds hk hdeadline
    simp only
    have huses : ctx.Uses h₂.ctx.llm := .inl (congrArg ExecutionContext.llm hdeadline.under)
    have hturn := oneLlmTurnWith_holds hk hdeadline huses
    rw [oneLlmTurn]
    rcases ht : h₂.oneLlmTurnWith h₂.ctx.llm with ⟨flow, h₃⟩
    rw [ht] at hturn
    cases flow with
    | ok turn =>
      cases turn with
      | assistantText text => exact elapsed_holds hk hturn
      | empty => exact pushEmptyTurnNudge_holds hk hturn
      | toolCalls calls => exact dispatchAll_holds hk hturn calls
    | err e =>
      cases e
      case timeout => exact elapsed_holds hk hturn
      all_goals exact hturn
    | panicked p => exact hturn
    | suspended => exact hturn

theorem chatLoop_holds (hh : h.Holds P ctx) (passes : Nat) :
    (chatLoop passes h).2.Holds P ctx := by
  induction passes generalizing h with
  | zero => exact hh
  | succ passes ih =>
    have hbody := chatLoopBody_holds hk hh
    rw [chatLoop]
    cases hstep : chatLoopBody h with
    | next h' =>
      rw [hstep] at hbody
      exact ih hbody
    | stop r h' =>
      rw [hstep] at hbody
      exact hbody

namespace ReflectionExecutor

theorem phase_holds (hh : h.Holds P ctx) {provider : LlmProvider σ} (huses : ctx.Uses provider)
    (dflt current : String) : (phase h provider dflt current).2.Holds P ctx := by
  have hturn := oneLlmTurnWith_holds hk hh huses
  unfold phase
  rcases ht : h.oneLlmTurnWith provider with ⟨flow, h₁⟩
  rw [ht] at hturn
  cases flow with
  | ok turn => cases turn <;> exact hturn
  | err e =>
    cases e
    case timeout => exact elapsed_holds hk hturn
    all_goals exact hturn
  | panicked p => exact hturn
  | suspended => exact hturn

theorem roundChecks_holds (hh : h.Holds P ctx) (current : String) :
    (roundChecks h current).Holds P ctx := by
  have hcap := checkIterationCap_holds (bumpIteration_holds hh)
  unfold roundChecks
  cases h.checkCostCap with
  | error e => exact hh
  | ok _ =>
    simp only
    rcases hi : h.bumpIteration.checkIterationCap with ⟨_ | _, h₁⟩ <;> rw [hi] at hcap
    · exact elapsed_holds hk hcap
    simp only
    have hdeadline := checkDeadline_holds hk hcap
    rcases hd : h₁.checkDeadline with ⟨_ | _, h₂⟩ <;> rw [hd] at hdeadline
    · exact elapsed_holds hk hdeadline
    · exact hdeadline

theorem rounds_holds (hh : h.Holds P ctx) {judge : LlmProvider σ} (hjudge : ctx.Uses judge)
    (n : Nat) (current : String) : (rounds judge n current h).2.Holds P ctx := by
  refine rounds_induct (P := fun _ _ h' => h'.Holds P ctx) (R := fun _ _ h' => h'.Holds P ctx)
    (Q := fun _ h' => h'.Holds P ctx) ?_ ?_ ?_ ?_ n current h hh
  · exact fun k current h' hh' => elapsed_holds hk hh'
  · exact fun k current h' hh' => roundChecks_holds hk hh' current
  · exact fun n current h' hh' =>
      phase_holds hk (pushMessage_holds hk hh' _ _ _) hjudge "" current
  · intro n current h' hh'
    have hprompted : (h'.pushUserMessage revisePrompt).Holds P ctx := pushMessage_holds hk hh' _ _ _
    have huses : ctx.Uses (h'.pushUserMessage revisePrompt).ctx.llm :=
      .inl (congrArg ExecutionContext.llm hprompted.under)
    exact phase_holds hk hprompted huses current current

theorem execute_holds (maxRevisions : UInt32) {env : σ} (henv : P env []) :
    (execute maxRevisions ctx env).2.Holds P ctx := by
  have hnew : (LoopHarness.new ctx env).Holds P ctx := ⟨rfl, hk.instantNow env [] henv⟩
  have hh := bumpIteration_holds (seedMessages_holds hk hnew)
  unfold execute
  simp only
  generalize (LoopHarness.new ctx env).seedMessages.bumpIteration = h at hh
  cases h.checkCostCap with
  | error e => exact hh
  | ok _ =>
    have hdraft := phase_holds hk hh (.inl rfl) "" ""
    simp only
    rcases hphase : phase h ctx.llm "" "" with ⟨current, h' | ⟨r, h'⟩⟩ <;> rw [hphase] at hdraft
    · exact rounds_holds hk hdraft ctx.uses_judge maxRevisions.toNat current
    · exact hdraft

end ReflectionExecutor

/-- **What a run keeps**: whatever holds of the outside before a run, and is kept by every call the
run can make, holds after the run, of the outside and of the calls of the run. -/
theorem runExecutor_keeps (kind : ExecutorKind) (passes : Nat) {env : σ} (henv : P env []) :
    P (Runtime.runExecutor kind passes ctx env).2.world.env
      (Runtime.runExecutor kind passes ctx env).2.world.effects := by
  have hnew : (LoopHarness.new ctx env).Holds P ctx := ⟨rfl, hk.instantNow env [] henv⟩
  cases kind with
  | conversation => exact (chatLoop_holds hk (seedMessages_holds hk hnew) passes).outside
  | react =>
    have hprefixed : (LoopHarness.newWithPrefix ctx ReActExecutor.systemAddendum env).Holds P ctx :=
      ⟨hnew.under, hnew.outside⟩
    exact (chatLoop_holds hk (seedMessages_holds hk hprefixed) passes).outside
  | reflection maxRevisions =>
    rw [Runtime.runExecutor_reflection]
    exact (ReflectionExecutor.execute_holds hk maxRevisions henv).outside

end

/-! ### The runs of a kernel -/

namespace Runtime

variable {ε : Type} {rt : Runtime σ ε} {agentName : String} {req : RunRequest σ} {run : Prepared σ}

/-- A run that is ready to start has the limits of its agent. -/
theorem prepare_limits (h : rt.prepare agentName req = .ok run) :
    ∃ agent llm, rt.agents agentName = some agent ∧
      rt.resolveLlm agent.llmProfileMain = .ok llm ∧ run.ctx = rt.contextOf agent llm req ∧
      run.timeoutMs = agent.timeoutMs := by
  unfold prepare at h
  split at h
  · cases h
  · next agent hagent =>
    split at h
    · cases h
    · next llm hllm =>
      split at h
      · cases h
      · split at h
        · cases h
        · exact ⟨agent, llm, hagent, hllm, by rw [← Except.ok.inj h], by rw [← Except.ok.inj h]⟩

/-- The providers of a run are registered. -/
theorem uses_registered {agent : AgentRow} {llm : LlmHandle σ} (req : RunRequest σ)
    (hllm : rt.resolveLlm agent.llmProfileMain = .ok llm) {provider : LlmProvider σ}
    (huses : (rt.contextOf agent llm req).Uses provider) :
    ∃ key handle, rt.llmProviders key = some handle ∧ handle.provider = provider := by
  rcases huses with rfl | hjudge
  · unfold resolveLlm at hllm
    split at hllm
    · cases hllm
    · next key _ =>
      split at hllm
      · cases hllm
      · next handle hhandle =>
        obtain rfl := Except.ok.inj hllm
        exact ⟨key, handle, hhandle, rfl⟩
  · obtain ⟨handle, hbound, rfl⟩ := Option.map_eq_some_iff.mp hjudge
    obtain ⟨key, -, hhandle⟩ := Option.bind_eq_some_iff.mp hbound
    exact ⟨key, handle, hhandle, rfl⟩

/-- A tool of a run is the skill loader or a registered one. -/
theorem agentTools_registered {agent : AgentRow} {name : String} {tool : Tool σ}
    (htool : (rt.agentTools agent).get name = some tool) :
    (name = loadSkillName ∧ tool = loadSkillTool agent.components.skills) ∨
      rt.registry.tools.get name = some tool := by
  rw [agentTools_get, allowedTool] at htool
  split_ifs at htool with hloader
  · exact .inl ⟨hloader.1, (Option.some.inj htool).symm⟩
  · exact .inr htool

/-- **What a run that is ready to start keeps**, by what is registered: the calls of a run are the
clocks, the interrupt check, providers of the kernel, and tools that are registered or the loader. -/
theorem prepared_keeps [Platform σ] {P : σ → List Effect → Prop}
    (hrun : rt.prepare agentName req = .ok run)
    (hutcNow : ∀ env es, P env es → P (Platform.utcNow env).2 es)
    (hinstantNow : ∀ env es, P env es → P (Platform.instantNow env).2 es)
    (hinterrupt : ∀ check, req.interruptCheck = some check → ∀ env es, P env es →
      P (check env).2 es)
    (hllm : ∀ key llm, rt.llmProviders key = some llm → ∀ asked wait env es, P env es →
      P (llm.provider.complete asked wait env).2
        (es ++ [.llm asked (llm.provider.complete asked wait env).1]))
    (htool : ∀ tc tool, (tc.name = loadSkillName ∧ ∃ skills, tool = loadSkillTool skills) ∨
      rt.registry.tools.get tc.name = some tool → ∀ toolCtx env es, P env es →
        P (tool.run tc.args toolCtx env).2
          (es ++ [.tool tc toolCtx (tool.run tc.args toolCtx env).1]))
    (timeoutMs : Nat) (maxTimeout : Option Nat) :
    (withBudget run.ctx timeoutMs maxTimeout).Keeps P := by
  obtain ⟨agent, llm, -, hmain, hctx, -⟩ := prepare_limits hrun
  rw [hctx]
  refine ⟨hutcNow, hinstantNow, hinterrupt, ?_, ?_⟩
  · intro provider huses asked wait env es
    obtain ⟨key, handle, hhandle, rfl⟩ := uses_registered req hmain huses
    exact hllm key handle hhandle asked wait env es
  · intro tc tool hget
    apply htool tc tool
    exact (agentTools_registered hget).imp_left fun hloader => ⟨hloader.1, _, hloader.2⟩

end Runtime

end PgSynapse

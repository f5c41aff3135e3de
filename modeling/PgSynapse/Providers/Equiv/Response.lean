import PgSynapse.Executor.Equiv.Answer
import PgSynapse.Providers.Response

/-!
# Replies cut off by the output limit

The harness refuses a reply whose `finish_reason` is `length`: the run ends there with an error
(`truncated_reply_ends_run`).  OpenAI and llama.cpp say `length` when the output limit was hit, and
their providers pass it on; Anthropic says `max_tokens`, and its provider passes that on as well, so
its cut-off replies are taken for whole ones (`cut_off_never_decides_iff`).
-/

namespace PgSynapse

open LoopHarness

/-! ### The harness and `length` -/

/-- No reply in the log was cut off, as the harness sees it. -/
def Untruncated (effects : List Effect) : Prop :=
  ∀ req resp, .llm req (.ready (.ok resp)) ∈ effects → resp.finishReason ≠ "length"

theorem Untruncated.append {es es' : List Effect} (h : Untruncated es) (h' : Untruncated es') :
    Untruncated (es ++ es') := by
  intro req resp hmem
  rcases List.mem_append.mp hmem with hmem | hmem
  · exact h req resp hmem
  · exact h' req resp hmem

theorem untruncated_nil : Untruncated [] := by simp [Untruncated]

theorem untruncated_toolRuns {runs : List Effect} (h : ∀ e ∈ runs, IsToolRun e) :
    Untruncated runs := by
  intro req resp hmem
  obtain ⟨tc, toolCtx, answer, heq⟩ := h _ hmem
  exact absurd heq (by simp)

/-- The log ends with a cut-off reply, and the error for it is `e`. -/
def CutShort (effects : List Effect) (e : ExecutorError) : Prop :=
  ∃ es req resp model, effects = es ++ [.llm req (.ready (.ok resp))] ∧ Untruncated es ∧
    e = .llm (.responseTruncated model resp.usage.tokensOut)

variable {σ : Type}

/-- How a run stands to cut-off replies: it had none, or it failed with the first one. -/
def Refuses (r : ExecResult) (h : LoopHarness σ) : Prop :=
  Untruncated h.world.effects ∨ ∃ e, r = .failed e ∧ CutShort h.world.effects e

/-- A step without a cut-off reply. -/
theorem Untruncated.grows {h h' : LoopHarness σ} {rows : List Message} {calls : List Effect}
    (hu : Untruncated h.world.effects) (g : Grows h h' rows calls) (hc : Untruncated calls) :
    Untruncated h'.world.effects := by
  rw [g.effects]
  exact hu.append hc

variable [Platform σ] (h : LoopHarness σ)

theorem acceptResponse_truncated (model : String) (resp : CompletionResponse)
    (hlen : resp.finishReason = "length") :
    ∃ h', h.acceptResponse model resp =
      (.err (.llm (.responseTruncated model resp.usage.tokensOut)), h') := by
  unfold acceptResponse
  simp only [hlen, if_true]
  exact ⟨_, rfl⟩

/-- **A turn** makes one call at most, and when its reply is cut off it fails with it. -/
theorem oneLlmTurnWith_refuses (provider : LlmProvider σ) :
    ∃ rows calls, Grows h (h.oneLlmTurnWith provider).2 rows calls ∧
      (Untruncated calls ∨ ∃ e, (h.oneLlmTurnWith provider).1 = .err e ∧ CutShort calls e) := by
  unfold oneLlmTurnWith
  have gi := h.checkInterrupt_grows
  rcases hi : h.checkInterrupt with ⟨_ | _, h₁⟩ <;> rw [hi] at gi
  · exact ⟨[], [], gi, .inl untruncated_nil⟩
  simp only
  generalize h₁.buildRequest provider.modelName = req
  have gb := (gi.before (h₁.recordEvent_grows .llmRequest
    (h₁.requestPayload provider.modelName req))).before (remainingBudget_grows _)
  generalize (h₁.recordEvent .llmRequest _).remainingBudget = budgeted at gb ⊢
  obtain ⟨wait, h₂⟩ := budgeted
  have gc : Grows h (h₂.awaitComplete provider req wait).2 [] _ :=
    .after (h₂.awaitComplete_grows provider req wait) gb
  rcases hc : h₂.awaitComplete provider req wait with ⟨answer, h₃⟩
  rw [hc] at gc
  -- an answer without a reply is no cut-off reply
  have hnone : (∀ resp, answer ≠ .ready (.ok resp)) → Untruncated [.llm req answer] := by
    intro hne req' resp hmem
    obtain ⟨-, heq⟩ := Effect.llm.inj (List.mem_singleton.mp hmem)
    exact absurd heq.symm (hne resp)
  match answer with
  | .ready (.ok resp) =>
    by_cases hlen : resp.finishReason = "length"
    · obtain ⟨h₄, heq⟩ := acceptResponse_truncated h₃ provider.modelName resp hlen
      have hcut : CutShort [.llm req (.ready (.ok resp))]
          (.llm (.responseTruncated provider.modelName resp.usage.tokensOut)) :=
        ⟨[], req, resp, _, rfl, untruncated_nil, rfl⟩
      rcases h₃.acceptResponse_cases provider.modelName resp with
        ⟨e, h', heq', g⟩ | ⟨t, h', rows, heq', -⟩
      · obtain ⟨-, rfl⟩ := Prod.mk.inj (heq.symm.trans heq')
        simp only [heq]
        exact ⟨[], _, gc.before g, .inr ⟨_, rfl, hcut⟩⟩
      · exact absurd (heq.symm.trans heq') (by simp)
    · have hwhole : Untruncated [.llm req (.ready (.ok resp))] := by
        intro req' resp' hmem
        obtain ⟨-, heq⟩ := Effect.llm.inj (List.mem_singleton.mp hmem)
        obtain rfl := Except.ok.inj (Answer.ready.inj heq)
        exact hlen
      rcases h₃.acceptResponse_cases provider.modelName resp with
        ⟨e, h', heq, g⟩ | ⟨t, h', rows, heq, g, -⟩ <;> simp only [heq]
      · exact ⟨[], _, gc.before g, .inl hwhole⟩
      · exact ⟨_, _, gc.trans g, .inl (by simpa using hwhole)⟩
  | .ready (.error e) => exact ⟨[], _, gc, .inl (hnone (by simp))⟩
  | .panicked p => exact ⟨[], _, gc, .inl (hnone (by simp))⟩
  | .pending =>
    cases wait with
    | none => exact ⟨[], _, gc, .inl (hnone (by simp))⟩
    | some w =>
      exact ⟨[], _, (gc.before (elapsed_grows _)).before (recordEvent_grows _ _ _),
        .inl (hnone (by simp))⟩

/-- A result that is no error leaves no cut-off reply behind. -/
theorem oneLlmTurnWith_untruncated {provider : LlmProvider σ} {f : Flow TurnResult}
    {h' : LoopHarness σ} (hu : Untruncated h.world.effects)
    (hturn : h.oneLlmTurnWith provider = (f, h')) :
    Untruncated h'.world.effects ∨ ∃ e, f = .err e ∧ CutShort h'.world.effects e := by
  obtain ⟨rows, calls, g, hcalls⟩ := oneLlmTurnWith_refuses h provider
  rw [hturn] at g hcalls
  rcases hcalls with hcalls | ⟨e, he, es, req, resp, model, heq, hes, herr⟩
  · exact .inl (hu.grows g hcalls)
  · refine .inr ⟨e, he, h.world.effects ++ es, req, resp, model, ?_, hu.append hes, herr⟩
    rw [g.effects, heq, List.append_assoc]

/-! ### The loops -/

/-- **One pass of the chat loop.** -/
theorem chatLoopBody_refuses (hu : Untruncated h.world.effects) :
    (chatLoopBody h).Meets (fun h' => Untruncated h'.world.effects) Refuses := by
  unfold chatLoopBody
  simp only
  have gi := h.bumpIteration_grows.before (checkIterationCap_grows _)
  rcases hi : h.bumpIteration.checkIterationCap with ⟨e | _, h₁⟩ <;> rw [hi] at gi
  · have hu₁ := hu.grows gi untruncated_nil
    cases e
    case maxIterationsReached =>
      exact .inl (hu₁.grows (h₁.finalize_grows "" .maxIterations) untruncated_nil)
    all_goals exact .inl hu₁
  simp only
  cases h₁.checkCostCap with
  | error e => exact .inl (hu.grows gi untruncated_nil)
  | ok _ =>
    have gd := gi.before h₁.checkDeadline_grows
    rcases hd : h₁.checkDeadline with ⟨e | _, h₂⟩ <;> rw [hd] at gd
    all_goals have hu₂ := hu.grows gd untruncated_nil
    · exact .inl (hu₂.grows (h₂.finalize_grows "" .timedOut) untruncated_nil)
    simp only [oneLlmTurn]
    rcases ht : h₂.oneLlmTurnWith h₂.ctx.llm with ⟨flow, h₃⟩
    -- the one place where a reply comes in: a cut one is an error there
    have hturn := oneLlmTurnWith_untruncated h₂ hu₂ ht
    cases flow with
    | ok turn =>
      have hu₃ := hturn.resolve_right (by simp)
      cases turn with
      | assistantText text =>
        exact .inl (hu₃.grows (h₃.finalize_grows text .completed) untruncated_nil)
      | empty =>
        obtain ⟨m, g, -⟩ := h₃.pushEmptyTurnNudge_grows
        exact hu₃.grows g untruncated_nil
      | toolCalls calls =>
        simp only
        rcases dispatchAll_cases h₃ calls with
          ⟨h', rows, runs, heq, g, -, hruns⟩ | ⟨r, h', rows, runs, heq, s, hruns⟩ <;> rw [heq]
        · exact hu₃.grows g (untruncated_toolRuns hruns)
        · exact .inl (hu₃.grows s.grows (untruncated_toolRuns hruns))
    | err e =>
      cases e
      case timeout =>
        rcases hturn with hu₃ | ⟨e, he, es, req, resp, model, -, -, herr⟩
        · exact .inl (hu₃.grows (h₃.finalize_grows "" .timedOut) untruncated_nil)
        · rw [← Flow.err.inj he] at herr
          exact absurd herr (by simp)
      all_goals
        rcases hturn with hu₃ | ⟨e, he, hcut⟩
        · exact .inl hu₃
        · exact .inr ⟨e, by rw [Flow.err.inj he], hcut⟩
    | panicked p =>
      rcases hturn with hu₃ | ⟨e, he, -⟩
      · exact .inl hu₃
      · exact absurd he (by simp)
    | suspended =>
      rcases hturn with hu₃ | ⟨e, he, -⟩
      · exact .inl hu₃
      · exact absurd he (by simp)

theorem chatLoop_refuses (passes : Nat) (hu : Untruncated h.world.effects) :
    Refuses (chatLoop passes h).1 (chatLoop passes h).2 := by
  refine chatLoop_induct (P := fun _ h' => Untruncated h'.world.effects) ?_ ?_ passes h hu
  · intro h' hu'
    exact .inl hu'
  · intro k h' hu'
    exact chatLoopBody_refuses h' hu'

namespace ReflectionExecutor

/-- **One phase of a reflection run.** -/
theorem phase_refuses (provider : LlmProvider σ) (dflt current : String)
    (hu : Untruncated h.world.effects) :
    (phase h provider dflt current).2.Meets (fun h' => Untruncated h'.world.effects) Refuses := by
  unfold phase
  rcases ht : h.oneLlmTurnWith provider with ⟨flow, h₁⟩
  have hturn := oneLlmTurnWith_untruncated h hu ht
  cases flow with
  | ok turn => cases turn <;> exact hturn.resolve_right (by simp)
  | err e =>
    cases e
    case timeout =>
      rcases hturn with hu₁ | ⟨e, he, es, req, resp, model, -, -, herr⟩
      · exact .inl (hu₁.grows (h₁.finalize_grows current .timedOut) untruncated_nil)
      · rw [← Flow.err.inj he] at herr
        exact absurd herr (by simp)
    all_goals exact hturn.imp_right fun ⟨e, he, hcut⟩ => ⟨e, by rw [Flow.err.inj he], hcut⟩
  | panicked p => exact hturn.imp_right fun ⟨e, he, _⟩ => absurd he (by simp)
  | suspended => exact hturn.imp_right fun ⟨e, he, _⟩ => absurd he (by simp)

theorem rounds_refuses (judge : LlmProvider σ) (n : Nat) (current : String)
    (hu : Untruncated h.world.effects) :
    Refuses (rounds judge n current h).1 (rounds judge n current h).2 := by
  refine rounds_induct (P := fun _ _ h' => Untruncated h'.world.effects)
    (R := fun _ _ h' => Untruncated h'.world.effects) ?_ ?_ ?_ ?_ n current h hu
  · intro k current h' hu'
    exact .inl (hu'.grows (h'.finalize_grows current .completed) untruncated_nil)
  · intro k current h' hu'
    rcases roundChecks_cases h' current with ⟨h'', heq, g⟩ | ⟨r, h'', heq, s⟩ <;> rw [heq]
    · exact hu'.grows g untruncated_nil
    · exact .inl (hu'.grows s.grows untruncated_nil)
  · intro n current h' hu'
    obtain ⟨m, g, -⟩ := h'.pushUserMessage_grows (critiquePrompt h'.ctx)
    exact phase_refuses _ _ _ _ (hu'.grows g untruncated_nil)
  · intro n current h' hu'
    obtain ⟨m, g, -⟩ := h'.pushUserMessage_grows revisePrompt
    exact phase_refuses _ _ _ _ (hu'.grows g untruncated_nil)

theorem execute_refuses (maxRevisions : UInt32) (ctx : ExecutionContext σ) (env : σ) :
    Refuses (execute maxRevisions ctx env).1 (execute maxRevisions ctx env).2 := by
  obtain ⟨-, heffects, -⟩ := draft_harness ctx env
  unfold execute
  simp only
  generalize (LoopHarness.new ctx env).seedMessages.bumpIteration = h at heffects
  have hu : Untruncated h.world.effects := by
    rw [heffects]
    exact untruncated_nil
  cases h.checkCostCap with
  | error e => exact .inl hu
  | ok _ =>
    have hdraft := phase_refuses h ctx.llm "" "" hu
    simp only
    rcases hphase : phase h ctx.llm "" "" with ⟨current, h' | ⟨r, h'⟩⟩ <;> rw [hphase] at hdraft
    · exact rounds_refuses h' _ _ current hdraft
    · exact hdraft

end ReflectionExecutor

namespace Runtime

variable (kind : ExecutorKind) (passes : Nat) (ctx : ExecutionContext σ) (env : σ)

theorem runExecutor_refuses :
    Refuses (runExecutor kind passes ctx env).1 (runExecutor kind passes ctx env).2 := by
  have seeded : ∀ h : LoopHarness σ, h.world.effects = [] →
      Untruncated h.seedMessages.world.effects := by
    intro h he
    obtain ⟨seed, g, -⟩ := h.seedMessages_grows
    rw [g.effects, he]
    exact untruncated_nil
  cases kind with
  | conversation => exact chatLoop_refuses _ passes (seeded (LoopHarness.new ctx env) rfl)
  | react => exact chatLoop_refuses _ passes (seeded (newWithPrefix ctx _ env) rfl)
  | reflection maxRevisions => exact ReflectionExecutor.execute_refuses maxRevisions ctx env

/-- **A reply with `length` ends the run**: nothing happens after it, and the run failed. -/
theorem truncated_reply_ends_run {before after : List Effect} {req : CompletionRequest}
    {resp : CompletionResponse} (hlen : resp.finishReason = "length")
    (hrun : (runExecutor kind passes ctx env).2.world.effects =
      before ++ .llm req (.ready (.ok resp)) :: after) :
    after = [] ∧ ∃ e, (runExecutor kind passes ctx env).1 = .failed e := by
  rcases runExecutor_refuses kind passes ctx env with hu | ⟨e, he, es, req', resp', model, heq, hu, -⟩
  · have hmem : .llm req (.ready (.ok resp)) ∈ (runExecutor kind passes ctx env).2.world.effects := by
      rw [hrun]
      simp
    exact absurd hlen (hu req resp hmem)
  · refine ⟨?_, e, he⟩
    rw [hrun] at heq
    rcases List.eq_nil_or_concat after with rfl | ⟨init, last, rfl⟩
    · rfl
    · -- the reply would stand before the last entry of the log
      rw [List.concat_eq_append, ← List.cons_append, ← List.append_assoc] at heq
      have hinit := (List.append_inj' heq rfl).1
      have hmem : .llm req (.ready (.ok resp)) ∈ es := by
        rw [← hinit]
        simp
      exact absurd hlen (hu req resp hmem)

end Runtime

/-! ### The three providers -/

/-- The shared reading keeps the finish reason. -/
theorem readChoice_finishReason {reader : ResponseReader} {provider : String}
    {contentOf : Value → Option String} {costOf : UInt32 → UInt32 → Option Rat}
    {tools : List ToolDefinition} {body : Value} {resp : CompletionResponse}
    (hcut : ∃ first, ((body.get? "choices").bind fun cs => cs.item? 0) = some first ∧
      first.get? "finish_reason" = some (.string "length"))
    (hdecode : reader.readChoice provider contentOf costOf tools body = .ok resp) :
    resp.finishReason = "length" := by
  obtain ⟨first, hfirst, hreason⟩ := hcut
  unfold ResponseReader.readChoice at hdecode
  rw [hfirst] at hdecode
  simp only at hdecode
  cases hmessage : first.get? "message" with
  | none => simp [hmessage] at hdecode
  | some message =>
    rw [hmessage] at hdecode
    obtain rfl := Except.ok.inj hdecode
    show first.strOr "finish_reason" "stop" = "length"
    rw [Value.strOr, hreason]
    rfl

/-- The wire formats of the bundled providers. -/
inductive Api where
  | openAi
  | llamaCpp
  | anthropic
  deriving DecidableEq, Repr

namespace Api

/-- The provider's reading of a response body. -/
def decode (api : Api) (reader : ResponseReader) (rates : CostRates) (tools : List ToolDefinition)
    (body : Value) : Except LlmError CompletionResponse :=
  match api with
  | .openAi => OpenAiProvider.decode reader rates tools body
  | .llamaCpp => LlamaCppProvider.decode reader tools body
  | .anthropic => AnthropicProvider.decode body

/-- The body says that the output limit was hit. -/
def CutOff (api : Api) (body : Value) : Prop :=
  match api with
  | .openAi | .llamaCpp => ∃ first, ((body.get? "choices").bind fun cs => cs.item? 0) = some first ∧
      first.get? "finish_reason" = some (.string "length")
  | .anthropic => body.get? "stop_reason" = some (.string "max_tokens")

end Api

/-- **The reply decides nothing**: in every run that received it, no tool runs on it, and a run that
completes has a later turn and another text. -/
def NeverDecides (resp : CompletionResponse) : Prop :=
  ∀ (σ : Type) [Platform σ] (kind : ExecutorKind) (passes : Nat) (ctx : ExecutionContext σ)
    (env : σ) (before after : List Effect) (req : CompletionRequest),
    (Runtime.runExecutor kind passes ctx env).2.world.effects =
      before ++ .llm req (.ready (.ok resp)) :: after →
    (∀ e, after.head? = some e → ¬ IsToolRun e) ∧
    ∀ o, (Runtime.runExecutor kind passes ctx env).1 = .finished o → o.status = .completed →
      after ≠ [] ∧ resp.content ≠ some o.output

theorem neverDecides_of_length {resp : CompletionResponse} (hlen : resp.finishReason = "length") :
    NeverDecides resp := by
  intro σ _ kind passes ctx env before after req hrun
  obtain ⟨rfl, e, hfailed⟩ := Runtime.truncated_reply_ends_run kind passes ctx env hlen hrun
  constructor
  · intro e' he'
    simp at he'
  · intro o ho
    rw [hfailed] at ho
    exact absurd ho (by simp)

omit [Platform σ] in
/-- A turn of a still world's model ends well, unless its reply was cut off. -/
theorem StillWorld.turn {h : LoopHarness StillWorld} {resp : CompletionResponse}
    (hcheck : h.ctx.interruptCheck = none) (hlen : resp.finishReason ≠ "length") :
    ∃ t h' req, h.oneLlmTurnWith (StillWorld.provider resp) = (.ok t, h') ∧
      h'.world.effects = h.world.effects ++ [.llm req (.ready (.ok resp))] := by
  have hok : ∃ t h', h.oneLlmTurnWith (StillWorld.provider resp) = (.ok t, h') := by
    have hpass : h.checkInterrupt = (.ok (), h) := by
      unfold checkInterrupt
      rw [hcheck]
    unfold oneLlmTurnWith
    rw [hpass]
    simp only
    generalize (h.recordEvent .llmRequest _).remainingBudget = budgeted
    obtain ⟨wait, h₁⟩ := budgeted
    -- the model's answer is the reply, and the harness takes it
    show ∃ t h', acceptResponse _ _ resp = (.ok t, h')
    unfold acceptResponse
    simp only [if_neg hlen]
    split
    · split <;> exact ⟨_, _, rfl⟩
    · exact ⟨_, _, rfl⟩
  obtain ⟨t, h', hturn⟩ := hok
  obtain ⟨rows, req, resp', g, -, wait, env, hcomplete⟩ :=
    oneLlmTurnWith_says h (StillWorld.provider resp) t h' hturn
  obtain rfl : resp = resp' := Except.ok.inj (Answer.ready.inj hcomplete)
  exact ⟨t, h', req, hturn, g.effects⟩

omit [Platform σ] in
/-- A reflection run without revisions completes with any reply the harness takes. -/
theorem steady_reflection_completes {resp : CompletionResponse}
    (hlen : resp.finishReason ≠ "length") :
    ∃ o req, (Runtime.runExecutor (.reflection 0) 0 (StillWorld.context resp 8) ⟨⟩).1 =
        .finished o ∧ o.status = .completed ∧
      (Runtime.runExecutor (.reflection 0) 0 (StillWorld.context resp 8) ⟨⟩).2.world.effects =
        [.llm req (.ready (.ok resp))] := by
  obtain ⟨hctx, heffects, -⟩ :=
    ReflectionExecutor.draft_harness (StillWorld.context resp 8) ⟨⟩
  rw [Runtime.runExecutor_reflection]
  unfold ReflectionExecutor.execute
  simp only
  generalize (LoopHarness.new (StillWorld.context resp 8) ⟨⟩).seedMessages.bumpIteration = h
    at hctx heffects
  have hcost : h.checkCostCap = .ok () := by
    unfold checkCostCap
    rw [hctx]
    rfl
  have hcheck : h.ctx.interruptCheck = none := by
    rw [hctx]
    rfl
  obtain ⟨t, h', req, hturn, hlog⟩ := StillWorld.turn hcheck hlen
  have hllm : (StillWorld.context resp 8).llm = StillWorld.provider resp := rfl
  rw [heffects, List.nil_append] at hlog
  -- whatever the turn comes to, the loop of no rounds finishes with it
  have hphase : ∃ text, ReflectionExecutor.phase h (StillWorld.context resp 8).llm "" "" =
      (text, .next h') := by
    unfold ReflectionExecutor.phase
    rw [hllm, hturn]
    cases t <;> exact ⟨_, rfl⟩
  obtain ⟨text, hphase⟩ := hphase
  rw [hcost]
  simp only [hphase]
  exact ⟨_, req, rfl, rfl, hlog⟩

/-- **A cut-off reply decides nothing** for exactly the providers that say `length` for it. -/
theorem cut_off_never_decides_iff (api : Api) (reader : ResponseReader) (rates : CostRates)
    (tools : List ToolDefinition) (body : Value) (resp : CompletionResponse)
    (hcut : api.CutOff body) (hdecode : api.decode reader rates tools body = .ok resp) :
    NeverDecides resp ↔ api ≠ .anthropic := by
  constructor
  · rintro hnever rfl
    have hreason : resp.finishReason = "max_tokens" := by
      obtain rfl := Except.ok.inj hdecode
      show body.strOr "stop_reason" "end_turn" = "max_tokens"
      rw [Value.strOr, show body.get? "stop_reason" = _ from hcut]
      rfl
    have hlen : resp.finishReason ≠ "length" := by
      rw [hreason]
      decide
    obtain ⟨o, req, ho, hstatus, hlog⟩ := steady_reflection_completes hlen
    have hdecides := (hnever StillWorld (.reflection 0) 0 (StillWorld.context resp 8) ⟨⟩ [] [] req
      hlog).2 o ho hstatus
    exact hdecides.1 rfl
  · intro hapi
    have hlen : resp.finishReason = "length" := by
      cases api with
      | openAi => exact readChoice_finishReason hcut hdecode
      | llamaCpp =>
        have hread : reader.readChoice "llama-cpp" LlamaCppProvider.contentOf (fun _ _ => none) tools
            body = .ok resp := hdecode
        exact readChoice_finishReason hcut hread
      | anthropic => exact absurd rfl hapi
    exact neverDecides_of_length hlen

/-- A body of the OpenAI format whose reply was cut off. -/
def cutOffChoice : Value :=
  .obj [("choices", .array [.obj [("finish_reason", .string "length"),
    ("message", .obj [("content", .string "The total is")])]])]

/-- A body of the Anthropic format whose reply was cut off. -/
def cutOffBlocks : Value :=
  .obj [("stop_reason", .string "max_tokens"),
    ("content", .array [.obj [("type", .string "text"), ("text", .string "The total is")]])]

/-- A reply that OpenAI cut off decides nothing. -/
theorem cut_off_choice_never_decides :
    NeverDecides ⟨some "The total is", [], "length", ⟨0, 0, none⟩⟩ := by
  have hcut : Api.CutOff .openAi cutOffChoice := ⟨_, rfl, rfl⟩
  exact (cut_off_never_decides_iff .openAi ⟨fun _ => none, fun _ _ => []⟩ ⟨none, none⟩ []
    cutOffChoice _ hcut rfl).mpr (by decide)

/-- A reply that Anthropic cut off completes a conversation: it is the only turn of the run, and its
text is the output. -/
theorem cut_off_blocks_complete :
    Api.CutOff .anthropic cutOffBlocks ∧
    Api.decode .anthropic ⟨fun _ => none, fun _ _ => []⟩ ⟨none, none⟩ [] cutOffBlocks =
      .ok ⟨some "The total is", [], "max_tokens", ⟨0, 0, none⟩⟩ ∧
    ¬ NeverDecides ⟨some "The total is", [], "max_tokens", ⟨0, 0, none⟩⟩ := by
  refine ⟨rfl, rfl, ?_⟩
  intro hnever
  obtain ⟨o, req, ho, hstatus, hlog⟩ : ∃ o req,
      (Runtime.runExecutor .conversation 1
        (StillWorld.context ⟨some "The total is", [], "max_tokens", ⟨0, 0, none⟩⟩ 8) ⟨⟩).1 =
          .finished o ∧ o.status = .completed ∧
      (Runtime.runExecutor .conversation 1
        (StillWorld.context ⟨some "The total is", [], "max_tokens", ⟨0, 0, none⟩⟩ 8)
          ⟨⟩).2.world.effects =
        [] ++ [.llm req (.ready (.ok ⟨some "The total is", [], "max_tokens", ⟨0, 0, none⟩⟩))] :=
    ⟨_, _, rfl, rfl, rfl⟩
  exact (hnever StillWorld .conversation 1 _ ⟨⟩ [] [] req hlog).2 o ho hstatus |>.1 rfl

end PgSynapse

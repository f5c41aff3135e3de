import PgSynapse.Executor.Suspension
import PgSynapse.Executor.Equiv.Pairing
import PgSynapse.Runtime.Equiv.ExecuteInner

/-!
# The progress sink mirrors the harness

`Follows h h' points` says what a piece of an executor does on the way from `h` to `h'`: if the sink
held a copy of the harness at `h`, it does at `h'` and at each suspension point in between; if the
token counters held the usage of all replies so far, they still do; and there is one suspension
point for each outside call.  Every harness method and every piece of the executors' loops gets one
lemma, and the runs are put together from these.
-/

namespace PgSynapse

namespace LoopHarness

variable {σ : Type}

/-- The cost an outcome of this harness reports. -/
def reportedCost (h : LoopHarness σ) : Option Rat :=
  if h.costSoFar > 0 then some h.costSoFar else none

/-- The outcome carries what the harness recorded. -/
structure Recorded (h : LoopHarness σ) (o : ExecutorOutcome) : Prop where
  messages : o.messages = h.messages
  events : o.events = h.events
  toolCalls : o.toolCalls = h.issuedToolCalls
  tokensIn : o.tokensIn = h.tokensIn
  tokensOut : o.tokensOut = h.tokensOut
  costUsd : o.costUsd = h.reportedCost

/-- The sink holds a copy of what the harness recorded. -/
abbrev Mirrored (h : LoopHarness σ) : Prop := h.Recorded h.world.sink

/-- The saturating sum of a counter over some replies. -/
def totalTokens (count : Usage → UInt32) (replies : List CompletionResponse) : UInt32 :=
  replies.foldl (fun total resp => saturatingAdd total (count resp.usage)) 0

/-- The token counters hold the usage of every reply in the log. -/
structure Metered (h : LoopHarness σ) : Prop where
  tokensIn : h.tokensIn = totalTokens Usage.tokensIn (responses h.world.effects)
  tokensOut : h.tokensOut = totalTokens Usage.tokensOut (responses h.world.effects)

theorem totalTokens_concat (count : Usage → UInt32) (replies : List CompletionResponse)
    (resp : CompletionResponse) :
    totalTokens count (replies ++ [resp]) =
      saturatingAdd (totalTokens count replies) (count resp.usage) := by
  rw [totalTokens, List.foldl_append]
  rfl

/-- What a piece of an executor does between `h` and `h'`, with the suspension points on the way. -/
structure Follows (h h' : LoopHarness σ) (points : List (LoopHarness σ)) : Prop where
  ctx : h'.ctx = h.ctx
  mirrored : h.ctx.progress = true → h.Mirrored → h'.Mirrored ∧ ∀ p ∈ points, p.Mirrored
  metered : h.Metered → h'.Metered
  counted : ∃ n, h'.world.effects.length = h.world.effects.length + n ∧
    points.map (fun p => p.world.effects.length) = List.range' h.world.effects.length n

namespace Follows

variable {h h₁ h₂ : LoopHarness σ} {points points' : List (LoopHarness σ)}

theorem trans (f : Follows h h₁ points) (f' : Follows h₁ h₂ points') :
    Follows h h₂ (points ++ points') where
  ctx := f'.ctx.trans f.ctx
  mirrored hp hm := by
    obtain ⟨hm₁, hpoints⟩ := f.mirrored hp hm
    have hp₁ : h₁.ctx.progress = true := by rw [f.ctx, hp]
    obtain ⟨hm₂, hpoints'⟩ := f'.mirrored hp₁ hm₁
    refine ⟨hm₂, ?_⟩
    intro p hmem
    rcases List.mem_append.mp hmem with hmem | hmem
    · exact hpoints p hmem
    · exact hpoints' p hmem
  metered hm := f'.metered (f.metered hm)
  counted := by
    obtain ⟨n, hlen, hcount⟩ := f.counted
    obtain ⟨n', hlen', hcount'⟩ := f'.counted
    refine ⟨n + n', by rw [hlen', hlen, Nat.add_assoc], ?_⟩
    rw [List.map_append, hcount, hcount', hlen, List.range'_append_1]

/-- A piece without outside calls that leaves the counters alone. -/
theorem quiet (hctx : h₁.ctx = h.ctx) (hes : h₁.world.effects = h.world.effects)
    (hin : h₁.tokensIn = h.tokensIn) (hout : h₁.tokensOut = h.tokensOut)
    (hm : h.ctx.progress = true → h.Mirrored → h₁.Mirrored) : Follows h h₁ [] where
  ctx := hctx
  mirrored hp hmir := ⟨hm hp hmir, by simp⟩
  metered hmet := ⟨by rw [hin, hes, hmet.tokensIn], by rw [hout, hes, hmet.tokensOut]⟩
  counted := ⟨0, by rw [hes, Nat.add_zero], rfl⟩

theorem refl (h : LoopHarness σ) : Follows h h [] := .quiet rfl rfl rfl rfl fun _ hm => hm

/-- A piece without suspension points before another. -/
theorem after (f' : Follows h₁ h₂ points) (f : Follows h h₁ []) : Follows h h₂ points :=
  f.trans f'

/-- A piece without suspension points after another. -/
theorem before (f : Follows h h₁ points) (f' : Follows h₁ h₂ []) : Follows h h₂ points := by
  simpa using f.trans f'

end Follows

variable (h : LoopHarness σ)

/-! ### Recording -/

/-- A change of the outside state alone. -/
theorem env_follows (env : σ) : Follows h { h with world := { h.world with env := env } } [] :=
  .quiet rfl rfl rfl rfl fun _ hm =>
    ⟨hm.messages, hm.events, hm.toolCalls, hm.tokensIn, hm.tokensOut, hm.costUsd⟩

theorem mirror_eq (f : ExecutorOutcome → ExecutorOutcome) (hp : h.ctx.progress = true) :
    h.mirror f = { h with world := { h.world with sink := f h.world.sink } } := if_pos hp

@[simp] theorem mirror_ctx (f : ExecutorOutcome → ExecutorOutcome) : (h.mirror f).ctx = h.ctx := by
  unfold mirror
  split <;> rfl

@[simp] theorem mirror_effects (f : ExecutorOutcome → ExecutorOutcome) :
    (h.mirror f).world.effects = h.world.effects := by
  unfold mirror
  split <;> rfl

@[simp] theorem mirror_tokensIn (f : ExecutorOutcome → ExecutorOutcome) :
    (h.mirror f).tokensIn = h.tokensIn := by
  unfold mirror
  split <;> rfl

@[simp] theorem mirror_tokensOut (f : ExecutorOutcome → ExecutorOutcome) :
    (h.mirror f).tokensOut = h.tokensOut := by
  unfold mirror
  split <;> rfl

theorem recordEvent_follows (kind : EventKind) (payload : Value) :
    Follows h (h.recordEvent kind payload) [] := by
  refine .quiet (by simp [recordEvent]) (by simp [recordEvent]) (by simp [recordEvent])
    (by simp [recordEvent]) ?_
  intro hp hm
  simp only [recordEvent, mirror_eq h _ hp]
  exact ⟨hm.messages, by rw [hm.events], hm.toolCalls, hm.tokensIn, hm.tokensOut, hm.costUsd⟩

theorem append_follows (msg : Message) : Follows h (h.append msg) [] := by
  refine .quiet (by simp [append]) (by simp [append]) (by simp [append]) (by simp [append]) ?_
  intro hp hm
  have hp' : ({ h with seq := h.seq + 1 } : LoopHarness σ).ctx.progress = true := hp
  simp only [append, mirror_eq _ _ hp']
  exact ⟨by rw [hm.messages], hm.events, hm.toolCalls, hm.tokensIn, hm.tokensOut, hm.costUsd⟩

theorem bumpIteration_follows : Follows h h.bumpIteration [] :=
  .quiet rfl rfl rfl rfl fun _ hm =>
    ⟨hm.messages, hm.events, hm.toolCalls, hm.tokensIn, hm.tokensOut, hm.costUsd⟩

theorem checkInterrupt_follows : Follows h h.checkInterrupt.2 [] := by
  unfold checkInterrupt
  split
  · exact .refl h
  · simp only
    split <;> exact h.env_follows _

theorem checkIterationCap_follows : Follows h h.checkIterationCap.2 [] := by
  unfold checkIterationCap
  split
  · exact h.recordEvent_follows _ _
  · exact .refl h

variable [Platform σ]

theorem elapsed_follows : Follows h h.elapsed.2 [] := h.env_follows _

theorem newMessage_follows (role : Role) : Follows h (h.newMessage role).2 [] := h.env_follows _

theorem pushMessage_follows (role : Role) (content : Option String) (toolOutput : Option Value) :
    Follows h (h.pushMessage role content toolOutput) [] :=
  (append_follows _ _).after (h.newMessage_follows role)

theorem pushUserMessage_follows (content : String) : Follows h (h.pushUserMessage content) [] :=
  h.pushMessage_follows _ _ _

theorem pushEmptyTurnNudge_follows : Follows h h.pushEmptyTurnNudge [] :=
  (h.pushUserMessage_follows emptyTurnNudge).before (recordEvent_follows _ _ _)

theorem seedMessages_follows : Follows h h.seedMessages [] := by
  unfold seedMessages
  simp only
  split
  · exact h.pushMessage_follows _ _ _
  · exact (h.pushMessage_follows _ _ _).before (pushMessage_follows _ _ _ _)

theorem pushCallRow_follows (tc : ToolCall) : Follows h (h.pushCallRow tc) [] :=
  (append_follows _ _).after (h.newMessage_follows .assistant)

theorem foldl_pushCallRow_follows (calls : List ToolCall) :
    Follows h (calls.foldl pushCallRow h) [] := by
  induction calls generalizing h with
  | nil => exact .refl h
  | cons tc calls ih => exact (ih (h.pushCallRow tc)).after (h.pushCallRow_follows tc)

theorem recordAssistantResponse_follows (resp : CompletionResponse) :
    Follows h (h.recordAssistantResponse resp) [] := by
  unfold recordAssistantResponse
  split
  · exact h.pushMessage_follows _ _ _
  · exact h.foldl_pushCallRow_follows _

theorem pushToolResult_follows (tc : ToolCall) (output : ToolOutput) :
    Follows h (h.pushToolResult tc output).2 [] :=
  (append_follows _ _).after (h.newMessage_follows .tool)

theorem pushToolError_follows (tc : ToolCall) (err : ToolError) :
    Follows h (h.pushToolError tc err) [] :=
  ((append_follows _ _).after (h.newMessage_follows .tool)).before (recordEvent_follows _ _ _)

theorem remainingBudget_follows : Follows h h.remainingBudget.2 [] := by
  unfold remainingBudget
  split
  · exact .refl h
  · exact h.elapsed_follows

theorem checkDeadline_follows : Follows h h.checkDeadline.2 [] := by
  unfold checkDeadline
  split
  · exact .refl h
  · simp only
    split
    · exact h.elapsed_follows.before (recordEvent_follows _ _ _)
    · exact h.elapsed_follows

omit [Platform σ] in
/-- The calls of a reply, issued and mirrored. -/
theorem issueCalls_follows (calls : List ToolCall) :
    Follows h (({ h with issuedToolCalls := h.issuedToolCalls ++ calls } : LoopHarness σ).mirror
      fun o => { o with toolCalls := o.toolCalls ++ calls }) [] := by
  refine .quiet (by simp) (by simp) (by simp) (by simp) ?_
  intro hp hm
  have hp' : ({ h with issuedToolCalls := h.issuedToolCalls ++ calls } : LoopHarness σ).ctx.progress =
      true := hp
  rw [mirror_eq _ _ hp']
  exact ⟨hm.messages, hm.events, by rw [hm.toolCalls], hm.tokensIn, hm.tokensOut, hm.costUsd⟩

/-! ### Turns -/

/-- The harness once an outside call came back, with the new outside state and the call logged. -/
def returned (h : LoopHarness σ) (env : σ) (e : Effect) : LoopHarness σ :=
  { h with world := { h.world with env := env, effects := h.world.effects ++ [e] } }

omit [Platform σ] in
theorem awaitComplete_eq (provider : LlmProvider σ) (req : CompletionRequest) (wait : Option Nat) :
    h.awaitComplete provider req wait =
      ((provider.complete req wait h.world.env).1,
        h.returned (provider.complete req wait h.world.env).2
          (.llm req (provider.complete req wait h.world.env).1)) := rfl

omit [Platform σ] in
theorem awaitTool_eq (tool : Tool σ) (tc : ToolCall) (toolCtx : ToolCtx) :
    h.awaitTool tool tc toolCtx =
      ((tool.run tc.args toolCtx h.world.env).1,
        h.returned (tool.run tc.args toolCtx h.world.env).2
          (.tool tc toolCtx (tool.run tc.args toolCtx h.world.env).1)) := rfl

omit [Platform σ] in
theorem Mirrored.returned {h : LoopHarness σ} (hm : h.Mirrored) (env : σ) (e : Effect) :
    (h.returned env e).Mirrored :=
  ⟨hm.messages, hm.events, hm.toolCalls, hm.tokensIn, hm.tokensOut, hm.costUsd⟩

omit [Platform σ] in
/-- An outside call that is not answered by a reply: the harness stands still at its await. -/
theorem returned_follows (env : σ) {e : Effect} (he : responses [e] = []) :
    Follows h (h.returned env e) [h] where
  ctx := rfl
  mirrored _ hm := ⟨hm.returned env e, fun p hp => List.mem_singleton.mp hp ▸ hm⟩
  metered hm := by
    have hes : responses (h.returned env e).world.effects = responses h.world.effects := by
      rw [returned, responses_append, he, List.append_nil]
    exact ⟨by rw [hes]; exact hm.tokensIn, by rw [hes]; exact hm.tokensOut⟩
  counted := ⟨1, by simp [returned], rfl⟩

/-- A reply, up to the point where its usage is recorded. -/
theorem reply_follows (env : σ) (req : CompletionRequest) (resp : CompletionResponse)
    (payload : Value) :
    Follows h (((h.returned env (.llm req (.ready (.ok resp)))).recordEvent .llmResponse
      payload).recordUsage resp) [h] := by
  have hrec := (h.returned env (.llm req (.ready (.ok resp)))).recordEvent_follows .llmResponse
    payload
  have hin : ((h.returned env (.llm req (.ready (.ok resp)))).recordEvent .llmResponse
      payload).tokensIn = h.tokensIn := by simp [recordEvent, returned]
  have hout : ((h.returned env (.llm req (.ready (.ok resp)))).recordEvent .llmResponse
      payload).tokensOut = h.tokensOut := by simp [recordEvent, returned]
  -- here the log is one reply ahead of the counters
  have hes : ((h.returned env (.llm req (.ready (.ok resp)))).recordEvent .llmResponse
      payload).world.effects = h.world.effects ++ [.llm req (.ready (.ok resp))] := by
    simp [recordEvent, returned]
  have hctx : ((h.returned env (.llm req (.ready (.ok resp)))).recordEvent .llmResponse
      payload).ctx = h.ctx := hrec.ctx
  have hmir : h.ctx.progress = true → h.Mirrored → ((h.returned env
      (.llm req (.ready (.ok resp)))).recordEvent .llmResponse payload).Mirrored :=
    fun hp hm => (hrec.mirrored hp (hm.returned _ _)).1
  generalize (h.returned env (.llm req (.ready (.ok resp)))).recordEvent .llmResponse payload = h₁
    at hin hout hes hctx hmir
  refine ⟨by simp [recordUsage, elapsed, hctx], ?_, ?_, ⟨1, by simp [recordUsage, elapsed, hes], rfl⟩⟩
  · intro hp hm
    refine ⟨?_, fun p hmem => List.mem_singleton.mp hmem ▸ hm⟩
    have hm₁ := hmir hp hm
    simp only [recordUsage, elapsed]
    rw [mirror_eq _ _ (by rw [hctx, hp])]
    exact ⟨hm₁.messages, hm₁.events, hm₁.toolCalls, rfl, rfl, rfl⟩
  · intro hm
    constructor
    · simp only [recordUsage, elapsed, mirror_tokensIn, mirror_effects]
      rw [hes, responses_append, responses_cons_reply, hin, hm.tokensIn]
      exact (totalTokens_concat _ _ _).symm
    · simp only [recordUsage, elapsed, mirror_tokensOut, mirror_effects]
      rw [hes, responses_append, responses_cons_reply, hout, hm.tokensOut]
      exact (totalTokens_concat _ _ _).symm

/-- What `one_llm_turn_with` does with a reply once its usage is recorded. -/
theorem acceptResponse_follows (model : String) (resp : CompletionResponse) :
    Follows ((h.recordEvent .llmResponse (h.responsePayload resp)).recordUsage resp)
      (h.acceptResponse model resp).2 [] := by
  unfold acceptResponse
  simp only
  generalize (h.recordEvent .llmResponse (h.responsePayload resp)).recordUsage resp = h₁
  by_cases hlen : resp.finishReason = "length"
  · simp only [hlen, if_true]
    exact .refl h₁
  · simp only [hlen, if_false]
    have hrec := h₁.recordAssistantResponse_follows resp
    by_cases hc : resp.toolCalls.isEmpty = true
    · simp only [hc, if_true]
      -- blank or not, a text changes nothing after its row
      split <;> exact hrec
    · simp only [hc, Bool.false_eq_true, if_false]
      exact hrec.before (issueCalls_follows _ _)

/-- **One turn** keeps the copy in the sink up to date, at its await and at its end. -/
theorem oneLlmTurnWith_follows (provider : LlmProvider σ) :
    Follows h (h.oneLlmTurnWith provider).2 (h.turnAwaits provider) := by
  unfold oneLlmTurnWith turnAwaits
  have fi := h.checkInterrupt_follows
  rcases hi : h.checkInterrupt with ⟨_ | _, h₁⟩ <;> rw [hi] at fi
  · exact fi
  simp only
  generalize h₁.buildRequest provider.modelName = req
  have fb := fi.before ((h₁.recordEvent_follows .llmRequest
    (h₁.requestPayload provider.modelName req)).before (remainingBudget_follows _))
  generalize (h₁.recordEvent .llmRequest (h₁.requestPayload provider.modelName req)).remainingBudget =
    budgeted at fb
  obtain ⟨wait, h₂⟩ := budgeted
  simp only at fb ⊢
  rw [awaitComplete_eq]
  generalize (provider.complete req wait h₂.world.env).2 = env
  generalize (provider.complete req wait h₂.world.env).1 = answer
  match answer with
  | .ready (.ok resp) =>
    exact ((h₂.reply_follows env req resp _).before (acceptResponse_follows _ _ _)).after fb
  | .ready (.error e) => exact (h₂.returned_follows env rfl).after fb
  | .panicked p => exact (h₂.returned_follows env rfl).after fb
  | .pending =>
    -- a wait that the budget ends is traced once the call is given up
    have fa := (h₂.returned_follows env (show responses [.llm req .pending] = [] from rfl)).after fb
    cases wait with
    | none => exact fa
    | some w => exact (fa.before (elapsed_follows _)).before (recordEvent_follows _ _ _)

/-! ### Tool dispatch -/

theorem settleToolCall_follows (tc : ToolCall) (result : Except ToolError ToolOutput) :
    Follows h (h.settleToolCall tc result).2 [] := by
  cases result with
  | ok output => exact (recordEvent_follows _ _ _).before (pushToolResult_follows _ _ _)
  | error e => exact .refl h

/-- **One tool call** keeps the copy in the sink up to date, at its await and at its end. -/
theorem dispatchToolCall_follows (tc : ToolCall) :
    Follows h (h.dispatchToolCall tc).2 (h.toolAwaits tc) := by
  unfold dispatchToolCall toolAwaits
  cases repeatedCallRefusal h.issuedToolCalls tc with
  | some refusal =>
    simp only
    exact (h.recordEvent_follows _ _).before (pushToolResult_follows _ tc (.text refusal))
  | none =>
    cases h.ctx.tools.get tc.name with
    | none => exact .refl h
    | some tool =>
      simp only
      have fs := h.recordEvent_follows .toolStart
        (if h.ctx.traceLevel.shouldPersistRawPayloads = true then
          (Value.obj [("tool", .string tc.name), ("call_id", .string tc.id)]).set "args" tc.args
        else Value.obj [("tool", .string tc.name), ("call_id", .string tc.id)])
      generalize h.recordEvent .toolStart
        (if h.ctx.traceLevel.shouldPersistRawPayloads = true then
          (Value.obj [("tool", .string tc.name), ("call_id", .string tc.id)]).set "args" tc.args
        else Value.obj [("tool", .string tc.name), ("call_id", .string tc.id)]) = h₁ at fs
      generalize (⟨h.ctx.executionId, h.ctx.callerRole, some h.ctx.agentName⟩ : ToolCtx) = toolCtx
      rw [awaitTool_eq]
      generalize (tool.run tc.args toolCtx h₁.world.env).2 = env
      generalize (tool.run tc.args toolCtx h₁.world.env).1 = answer
      have fa : ∀ answer, Follows h (h₁.returned env (.tool tc toolCtx answer)) [h₁] :=
        fun answer => (h₁.returned_follows env rfl).after fs
      match answer with
      | .ready result => exact (fa _).before (settleToolCall_follows _ _ _)
      | .panicked p => exact (fa _).before (settleToolCall_follows _ _ _)
      | .pending => exact fa _

end LoopHarness

end PgSynapse

import PgSynapse.Executor.Equiv.Progress

/-!
# The iteration cap bounds the model calls

The counter of a harness moves in `bump_iteration` only, and an executor that compares it with the
cap before a turn has made fewer calls than the counter says.  `Within` is that invariant: as many
model calls as iterations, and no more iterations than the cap.

It needs a cap below `u32::MAX`, at which the counter wraps before it can pass the cap, and a
comparison before every turn, which the reflection executor leaves out before its draft.
-/

namespace PgSynapse

open LoopHarness

/-- Whether an effect is a call of `LlmProvider::complete`. -/
def Effect.isModelCall : Effect → Bool
  | .llm _ _ => true
  | .tool _ _ _ => false

/-- The calls of `LlmProvider::complete` in a log, to whichever provider. -/
def modelCalls (effects : List Effect) : Nat := effects.countP Effect.isModelCall

@[simp] theorem modelCalls_append (es es' : List Effect) :
    modelCalls (es ++ es') = modelCalls es + modelCalls es' :=
  List.countP_append

theorem modelCalls_toolRuns {runs : List Effect} (h : ∀ e ∈ runs, IsToolRun e) :
    modelCalls runs = 0 := by
  rw [modelCalls, List.countP_eq_zero]
  intro e he
  obtain ⟨tc, toolCtx, answer, rfl⟩ := h e he
  exact Bool.false_ne_true

@[simp] theorem modelCalls_llm_cons (req : CompletionRequest)
    (answer : Answer (Except LlmError CompletionResponse)) (es : List Effect) :
    modelCalls (.llm req answer :: es) = modelCalls es + 1 :=
  List.countP_cons_of_pos rfl

/-- A pass makes one model call at most. -/
theorem PassCalls.modelCalls_le {ms : List Message} {calls : List Effect}
    (h : PassCalls ms calls) : modelCalls calls ≤ 1 := by
  rcases h with rfl | ⟨req, answer, runs, rfl, -, hruns⟩
  · exact Nat.zero_le 1
  · rw [modelCalls_llm_cons, modelCalls_toolRuns hruns]

variable {σ : Type}

/-- Every call on the outside returns, with a value or with a panic. -/
structure Responsive (ctx : ExecutionContext σ) : Prop where
  llm : ∀ req wait env, (ctx.llm.complete req wait env).1 ≠ .pending
  judge : ∀ judge, ctx.judgeLlm = some judge →
    ∀ req wait env, (judge.complete req wait env).1 ≠ .pending
  tools : ∀ name tool, ctx.tools.get name = some tool →
    ∀ args toolCtx env, (tool.run args toolCtx env).1 ≠ .pending

/-! ### The counter -/

namespace LoopHarness

variable (h : LoopHarness σ)

@[simp] theorem mirror_iteration (f : ExecutorOutcome → ExecutorOutcome) :
    (h.mirror f).iteration = h.iteration := by
  unfold mirror
  split <;> rfl

@[simp] theorem recordEvent_iteration (kind : EventKind) (payload : Value) :
    (h.recordEvent kind payload).iteration = h.iteration := by
  simp [recordEvent]

@[simp] theorem append_iteration (msg : Message) : (h.append msg).iteration = h.iteration := by
  simp [append]

@[simp] theorem checkInterrupt_iteration : h.checkInterrupt.2.iteration = h.iteration := by
  unfold checkInterrupt
  split
  · rfl
  · simp only
    split <;> rfl

@[simp] theorem checkIterationCap_iteration : h.checkIterationCap.2.iteration = h.iteration := by
  unfold checkIterationCap
  split
  · exact recordEvent_iteration h _ _
  · rfl

@[simp] theorem awaitComplete_iteration (provider : LlmProvider σ) (req : CompletionRequest)
    (wait : Option Nat) : (h.awaitComplete provider req wait).2.iteration = h.iteration := rfl

@[simp] theorem awaitTool_iteration (tool : Tool σ) (tc : ToolCall) (toolCtx : ToolCtx) :
    (h.awaitTool tool tc toolCtx).2.iteration = h.iteration := rfl

@[simp] theorem bumpIteration_iteration : h.bumpIteration.iteration = h.iteration + 1 := rfl

variable [Platform σ]

@[simp] theorem elapsed_iteration : h.elapsed.2.iteration = h.iteration := rfl

@[simp] theorem newMessage_iteration (role : Role) :
    (h.newMessage role).2.iteration = h.iteration := rfl

@[simp] theorem pushMessage_iteration (role : Role) (content : Option String)
    (output : Option Value) : (h.pushMessage role content output).iteration = h.iteration := by
  simp [pushMessage]

@[simp] theorem pushUserMessage_iteration (content : String) :
    (h.pushUserMessage content).iteration = h.iteration :=
  pushMessage_iteration h _ _ _

@[simp] theorem seedMessages_iteration : h.seedMessages.iteration = h.iteration := by
  unfold seedMessages
  simp only [pushMessage_iteration]
  split
  · rfl
  · exact pushMessage_iteration h _ _ _

@[simp] theorem recordUsage_iteration (resp : CompletionResponse) :
    (h.recordUsage resp).iteration = h.iteration := by
  simp [recordUsage]

@[simp] theorem pushCallRow_iteration (tc : ToolCall) :
    (h.pushCallRow tc).iteration = h.iteration := by
  simp [pushCallRow]

@[simp] theorem foldl_pushCallRow_iteration (calls : List ToolCall) :
    (calls.foldl pushCallRow h).iteration = h.iteration := by
  induction calls generalizing h with
  | nil => rfl
  | cons tc calls ih => rw [List.foldl_cons, ih, pushCallRow_iteration]

@[simp] theorem recordAssistantResponse_iteration (resp : CompletionResponse) :
    (h.recordAssistantResponse resp).iteration = h.iteration := by
  unfold recordAssistantResponse
  split
  · exact pushMessage_iteration h _ _ _
  · exact foldl_pushCallRow_iteration h _

@[simp] theorem pushToolResult_iteration (tc : ToolCall) (output : ToolOutput) :
    (h.pushToolResult tc output).2.iteration = h.iteration := by
  simp [pushToolResult]

@[simp] theorem pushToolError_iteration (tc : ToolCall) (err : ToolError) :
    (h.pushToolError tc err).iteration = h.iteration := by
  simp [pushToolError]

@[simp] theorem pushEmptyTurnNudge_iteration : h.pushEmptyTurnNudge.iteration = h.iteration := by
  simp [pushEmptyTurnNudge]

@[simp] theorem remainingBudget_iteration : h.remainingBudget.2.iteration = h.iteration := by
  unfold remainingBudget
  split <;> rfl

@[simp] theorem checkDeadline_iteration : h.checkDeadline.2.iteration = h.iteration := by
  unfold checkDeadline
  split
  · rfl
  · simp only
    split
    · simp
    · rfl

@[simp] theorem acceptResponse_iteration (model : String) (resp : CompletionResponse) :
    (h.acceptResponse model resp).2.iteration = h.iteration := by
  unfold acceptResponse
  simp only
  split
  · simp
  · split
    · split <;> simp
    · simp

@[simp] theorem oneLlmTurnWith_iteration (provider : LlmProvider σ) :
    (h.oneLlmTurnWith provider).2.iteration = h.iteration := by
  have hcheck := h.checkInterrupt_iteration
  unfold oneLlmTurnWith
  rcases hi : h.checkInterrupt with ⟨_ | _, h₁⟩ <;> rw [hi] at hcheck
  · exact hcheck
  simp only
  generalize h₁.buildRequest provider.modelName = req
  have hwait := (h₁.recordEvent .llmRequest
    (h₁.requestPayload provider.modelName req)).remainingBudget_iteration
  rw [recordEvent_iteration, hcheck] at hwait
  generalize (h₁.recordEvent .llmRequest _).remainingBudget = budgeted at hwait ⊢
  obtain ⟨wait, h₂⟩ := budgeted
  have hcall := (h₂.awaitComplete_iteration provider req wait).trans hwait
  rcases ha : h₂.awaitComplete provider req wait with ⟨answer, h₃⟩
  rw [ha] at hcall
  match answer with
  | .ready (.ok resp) => exact (h₃.acceptResponse_iteration _ resp).trans hcall
  | .ready (.error e) => exact hcall
  | .panicked p => exact hcall
  | .pending =>
    cases wait with
    | none => exact hcall
    | some w => exact (recordEvent_iteration _ _ _).trans hcall

@[simp] theorem settleToolCall_iteration (tc : ToolCall) (result : Except ToolError ToolOutput) :
    (h.settleToolCall tc result).2.iteration = h.iteration := by
  cases result with
  | ok output => simp [settleToolCall]
  | error e => rfl

@[simp] theorem dispatchToolCall_iteration (tc : ToolCall) :
    (h.dispatchToolCall tc).2.iteration = h.iteration := by
  unfold dispatchToolCall
  cases repeatedCallRefusal h.issuedToolCalls tc with
  | some refusal => simp
  | none =>
    cases h.ctx.tools.get tc.name with
    | none => rfl
    | some tool =>
      simp only
      generalize hstart : h.recordEvent .toolStart _ = h₁
      have hs : h₁.iteration = h.iteration := by rw [← hstart, recordEvent_iteration]
      generalize (ToolCtx.mk _ _ _) = toolCtx
      have hrun := (h₁.awaitTool_iteration tool tc toolCtx).trans hs
      rcases ha : h₁.awaitTool tool tc toolCtx with ⟨answer, h₂⟩
      rw [ha] at hrun
      match answer with
      | .ready result => exact (h₂.settleToolCall_iteration tc result).trans hrun
      | .panicked p => exact (h₂.settleToolCall_iteration tc _).trans hrun
      | .pending => exact hrun

end LoopHarness

open LoopHarness

/-! ### The invariant -/

namespace LoopHarness

variable (h : LoopHarness σ)

/-- As many model calls as iterations, and no more iterations than the cap. -/
structure Within : Prop where
  calls : modelCalls h.world.effects ≤ h.iteration.toNat
  iteration : h.iteration.toNat ≤ h.ctx.maxIterations.toNat

/-- The same before a turn: there is an iteration left for its call. -/
structure MayCall : Prop where
  calls : modelCalls h.world.effects + 1 ≤ h.iteration.toNat
  iteration : h.iteration.toNat ≤ h.ctx.maxIterations.toNat

theorem Within.calls_le {h : LoopHarness σ} (hw : h.Within) :
    modelCalls h.world.effects ≤ h.ctx.maxIterations.toNat :=
  hw.calls.trans hw.iteration

theorem MayCall.calls_le {h : LoopHarness σ} (hr : h.MayCall) :
    modelCalls h.world.effects + 1 ≤ h.ctx.maxIterations.toNat :=
  hr.calls.trans hr.iteration

theorem checkIterationCap_passed {h' : LoopHarness σ} (hcheck : h.checkIterationCap = (.ok (), h')) :
    h' = h ∧ h.iteration.toNat ≤ h.ctx.maxIterations.toNat := by
  unfold checkIterationCap at hcheck
  split at hcheck
  · simp at hcheck
  · rename_i hcap
    obtain rfl := (Prod.mk.inj hcheck).2
    exact ⟨rfl, UInt32.le_iff_toNat_le.mp (UInt32.not_lt.mp hcap)⟩

/-- Below `u32::MAX` the counter does not wrap. -/
theorem bumpIteration_toNat {h : LoopHarness σ}
    (hle : h.iteration.toNat ≤ h.ctx.maxIterations.toNat)
    (hmax : h.ctx.maxIterations.toNat < 2 ^ 32 - 1) :
    h.bumpIteration.iteration.toNat = h.iteration.toNat + 1 := by
  rw [bumpIteration_iteration, UInt32.toNat_add]
  exact Nat.mod_eq_of_lt (by simpa using (by omega : h.iteration.toNat + 1 < 2 ^ 32))

/-- **A passed check** makes room for one call. -/
theorem Within.mayCall {h h' : LoopHarness σ} (hw : h.Within)
    (hmax : h.ctx.maxIterations.toNat < 2 ^ 32 - 1)
    (hcheck : h.bumpIteration.checkIterationCap = (.ok (), h')) :
    h'.MayCall ∧ h'.iteration.toNat = h.iteration.toNat + 1 := by
  obtain ⟨rfl, hle⟩ := checkIterationCap_passed _ hcheck
  have hbump := bumpIteration_toNat hw.iteration hmax
  refine ⟨⟨?_, hle⟩, hbump⟩
  rw [hbump]
  exact Nat.add_le_add_right hw.calls 1

/-- A step that leaves the counter, and adds no call. -/
theorem MayCall.grows {h h' : LoopHarness σ} {rows : List Message} {calls : List Effect}
    (hr : h.MayCall) (g : Grows h h' rows calls) (hi : h'.iteration = h.iteration)
    (hcalls : modelCalls calls = 0) : h'.MayCall := by
  refine ⟨?_, by rw [hi, g.ctx]; exact hr.iteration⟩
  rw [g.effects, modelCalls_append, hcalls, hi]
  exact hr.calls

/-- A step that leaves the counter, and adds one call at most. -/
theorem MayCall.within {h h' : LoopHarness σ} {rows : List Message} {calls : List Effect}
    (hr : h.MayCall) (g : Grows h h' rows calls) (hi : h'.iteration = h.iteration)
    (hcalls : modelCalls calls ≤ 1) : h'.Within := by
  refine ⟨?_, by rw [hi, g.ctx]; exact hr.iteration⟩
  rw [g.effects, modelCalls_append, hi]
  exact (Nat.add_le_add_left hcalls _).trans hr.calls

end LoopHarness

/-- A run that came back, with an outcome, an error or a panic. -/
def Ended (r : ExecResult) : Prop := r ≠ .suspended ∧ r ≠ .running

/-- The same, of a pass that stops. -/
def LoopStep.Ended : LoopStep σ → Prop
  | .next _ => True
  | .stop r _ => PgSynapse.Ended r

variable [Platform σ] (h : LoopHarness σ)

theorem finish_ended (output : String) (status : OutcomeStatus) :
    Ended (finish h output status).1 :=
  ⟨by simp [finish], by simp [finish]⟩

@[simp] theorem finish_iteration (output : String) (status : OutcomeStatus) :
    (finish h output status).2.iteration = h.iteration := rfl

/-! ### Calls that return -/

/-- A turn with a provider that answers is never left waiting. -/
theorem oneLlmTurnWith_returns {provider : LlmProvider σ}
    (hp : ∀ req wait env, (provider.complete req wait env).1 ≠ .pending) :
    (h.oneLlmTurnWith provider).1 ≠ .suspended := by
  unfold oneLlmTurnWith
  rcases h.checkInterrupt with ⟨_ | _, h₁⟩
  · simp
  simp only
  generalize h₁.buildRequest provider.modelName = req
  generalize (h₁.recordEvent .llmRequest _).remainingBudget = budgeted
  obtain ⟨wait, h₂⟩ := budgeted
  have hanswer : (h₂.awaitComplete provider req wait).1 ≠ .pending := hp req wait h₂.world.env
  rcases ha : h₂.awaitComplete provider req wait with ⟨answer, h₃⟩
  rw [ha] at hanswer
  match answer with
  | .ready (.ok resp) =>
    simp only
    rcases h₃.acceptResponse_cases provider.modelName resp with
      ⟨e, h₄, heq, -⟩ | ⟨t, h₄, rows, heq, -⟩ <;> rw [heq] <;> simp
  | .ready (.error e) => simp
  | .panicked p => simp
  | .pending => exact absurd rfl hanswer

theorem dispatchToolCall_returns (hresp : Responsive h.ctx) (tc : ToolCall) :
    (h.dispatchToolCall tc).1 ≠ .suspended := by
  unfold dispatchToolCall
  cases repeatedCallRefusal h.issuedToolCalls tc with
  | some refusal => simp
  | none =>
    cases htool : h.ctx.tools.get tc.name with
    | none => simp
    | some tool =>
      simp only
      generalize h.recordEvent .toolStart _ = h₁
      generalize (ToolCtx.mk _ _ _) = toolCtx
      have hanswer : (h₁.awaitTool tool tc toolCtx).1 ≠ .pending :=
        hresp.tools tc.name tool htool tc.args toolCtx h₁.world.env
      rcases ha : h₁.awaitTool tool tc toolCtx with ⟨answer, h₂⟩
      rw [ha] at hanswer
      -- a result, an error and a panic are settled, and none of them leaves the run waiting
      have settled : ∀ result, (h₂.settleToolCall tc result).1 ≠ .suspended := by
        intro result
        cases result <;> simp [settleToolCall]
      cases answer with
      | ready result => exact settled result
      | panicked p => exact settled _
      | pending => exact absurd rfl hanswer

/-! ### The chat loop -/

theorem dispatchAll_iteration (calls : List ToolCall) :
    (dispatchAll calls h).harness.iteration = h.iteration := by
  induction calls generalizing h with
  | nil => rfl
  | cons tc rest ih =>
    have hi := h.dispatchToolCall_iteration tc
    rw [dispatchAll]
    rcases h.dispatchToolCall_cases tc with ⟨msg, h₁, row, runs, hd, -⟩ | ⟨te, h₁, runs, hd, -⟩ |
      ⟨h₁, runs, hd, -⟩ <;> rw [hd] at hi ⊢
    · exact (ih h₁).trans hi
    · exact (ih _).trans ((h₁.pushToolError_iteration tc te).trans hi)
    · exact hi

theorem dispatchAll_ended (hresp : Responsive h.ctx) (calls : List ToolCall) :
    (dispatchAll calls h).Ended := by
  induction calls generalizing h with
  | nil => trivial
  | cons tc rest ih =>
    have hreturns := dispatchToolCall_returns h hresp tc
    rw [dispatchAll]
    rcases h.dispatchToolCall_cases tc with ⟨msg, h₁, row, runs, hd, g, -⟩ |
      ⟨te, h₁, runs, hd, g, -⟩ | ⟨h₁, runs, hd, -⟩ <;> rw [hd] at hreturns ⊢
    · exact ih h₁ (g.ctx ▸ hresp)
    · obtain ⟨row, g', -⟩ := h₁.pushToolError_grows tc te
      exact ih _ (g'.ctx ▸ g.ctx ▸ hresp)
    · exact absurd rfl hreturns

theorem chatLoopBody_ended (hresp : Responsive h.ctx) : (chatLoopBody h).Ended := by
  unfold chatLoopBody
  simp only
  have gi := h.bumpIteration_grows.before (checkIterationCap_grows _)
  rcases hi : h.bumpIteration.checkIterationCap with ⟨_ | _, h₁⟩ <;> rw [hi] at gi
  case error e =>
    cases e
    case maxIterationsReached => exact finish_ended _ _ _
    all_goals exact ⟨by simp, by simp⟩
  simp only
  cases h₁.checkCostCap with
  | error e => exact ⟨by simp, by simp⟩
  | ok _ =>
    have gd := gi.before h₁.checkDeadline_grows
    rcases hd : h₁.checkDeadline with ⟨_ | _, h₂⟩ <;> rw [hd] at gd
    · exact finish_ended _ _ _
    simp only
    have hresp₂ : Responsive h₂.ctx := gd.ctx ▸ hresp
    have hreturns := oneLlmTurnWith_returns h₂ hresp₂.llm
    have hturn := h₂.oneLlmTurnWith_cases h₂.ctx.llm
    rw [oneLlmTurn]
    rcases ht : h₂.oneLlmTurnWith h₂.ctx.llm with ⟨flow, h₃⟩
    rw [ht] at hreturns hturn
    cases flow with
    | ok turn =>
      cases turn with
      | assistantText text => exact finish_ended _ _ _
      | empty => trivial
      | toolCalls calls =>
        -- the turn keeps the context, so its calls return too
        have hctx : h₃.ctx = h₂.ctx := by
          rcases hturn with ⟨f, h', calls, heq, g, -⟩ | ⟨t, h', rows, req, resp, heq, g, -⟩ <;>
            (obtain rfl := (Prod.mk.inj heq).2; exact g.ctx)
        exact dispatchAll_ended h₃ (hctx ▸ hresp₂) calls
    | err e =>
      cases e
      case timeout => exact finish_ended _ _ _
      all_goals exact ⟨by simp, by simp⟩
    | panicked p => exact ⟨by simp, by simp⟩
    | suspended => exact absurd rfl hreturns

theorem chatLoopBody_iteration :
    (chatLoopBody h).harness.iteration = h.iteration + 1 := by
  unfold chatLoopBody
  simp only
  have hcap := h.bumpIteration.checkIterationCap_iteration
  rcases hi : h.bumpIteration.checkIterationCap with ⟨_ | _, h₁⟩ <;>
    rw [hi, bumpIteration_iteration] at hcap
  case error e => cases e <;> exact hcap
  simp only
  cases h₁.checkCostCap with
  | error e => exact hcap
  | ok _ =>
    have hdeadline := h₁.checkDeadline_iteration.trans hcap
    rcases hd : h₁.checkDeadline with ⟨_ | _, h₂⟩ <;> rw [hd] at hdeadline
    · exact hdeadline
    simp only
    have hturn := (h₂.oneLlmTurnWith_iteration h₂.ctx.llm).trans hdeadline
    rw [oneLlmTurn]
    rcases ht : h₂.oneLlmTurnWith h₂.ctx.llm with ⟨flow, h₃⟩
    rw [ht] at hturn
    cases flow with
    | ok turn =>
      cases turn with
      | assistantText text => exact hturn
      | empty => exact h₃.pushEmptyTurnNudge_iteration.trans hturn
      | toolCalls calls => exact (dispatchAll_iteration h₃ calls).trans hturn
    | err e => cases e <;> exact hturn
    | panicked p => exact hturn
    | suspended => exact hturn

/-- A pass over the cap ends the run before its turn. -/
theorem chatLoopBody_tripped {e : ExecutorError} {h₁ : LoopHarness σ}
    (hcheck : h.bumpIteration.checkIterationCap = (.error e, h₁)) :
    ∃ r h', chatLoopBody h = .stop r h' ∧ Grows h h' [] [] := by
  have gi := h.bumpIteration_grows.before (checkIterationCap_grows _)
  rw [hcheck] at gi
  unfold chatLoopBody
  simp only [hcheck]
  cases e
  case maxIterationsReached => exact ⟨_, _, rfl, gi.before (h₁.finalize_grows "" .maxIterations)⟩
  all_goals exact ⟨_, _, rfl, gi⟩

/-- **One pass** keeps the run within the cap: it goes on one iteration later, or it stops. -/
theorem chatLoopBody_within (hw : h.Within) (hmax : h.ctx.maxIterations.toNat < 2 ^ 32 - 1) :
    (∃ h', chatLoopBody h = .next h' ∧ h'.ctx = h.ctx ∧ h'.Within ∧
      h'.iteration.toNat = h.iteration.toNat + 1) ∨
    (∃ r h', chatLoopBody h = .stop r h' ∧
      modelCalls h'.world.effects ≤ h.ctx.maxIterations.toNat) := by
  rcases hcheck : h.bumpIteration.checkIterationCap with ⟨e | _, h₁⟩
  · obtain ⟨r, h', hbody, g⟩ := chatLoopBody_tripped h hcheck
    refine .inr ⟨r, h', hbody, ?_⟩
    rw [g.effects, List.append_nil]
    exact hw.calls_le
  obtain ⟨hroom, hbump⟩ := hw.mayCall hmax hcheck
  obtain ⟨rfl, -⟩ := checkIterationCap_passed _ hcheck
  have hi := chatLoopBody_iteration h
  rcases chatLoopBody_cases h with
    ⟨h', block, req, resp, runs, hbody, g, -, hruns, -⟩ | ⟨r, h', rows, calls, hbody, s, hpass⟩
  · rw [hbody] at hi
    have hone : modelCalls (.llm req (.ready (.ok resp)) :: runs) ≤ 1 := by
      rw [modelCalls_llm_cons, modelCalls_toolRuns hruns]
    have g' : Grows h.bumpIteration h' block (.llm req (.ready (.ok resp)) :: runs) :=
      ⟨g.ctx, g.messages, g.stamped, g.effects, g.sink⟩
    exact .inl ⟨h', hbody, g.ctx, hroom.within g' hi hone, by rw [← hbump]; exact congrArg _ hi⟩
  · refine .inr ⟨r, h', hbody, ?_⟩
    rw [s.grows.effects, modelCalls_append]
    exact (Nat.add_le_add_left hpass.modelCalls_le _).trans hroom.calls_le

theorem chatLoop_within (passes : Nat) (hw : h.Within)
    (hmax : h.ctx.maxIterations.toNat < 2 ^ 32 - 1) :
    modelCalls (chatLoop passes h).2.world.effects ≤ h.ctx.maxIterations.toNat := by
  refine chatLoop_induct (P := fun _ h' => h'.Within ∧ h'.ctx = h.ctx)
    (Q := fun _ h' => modelCalls h'.world.effects ≤ h.ctx.maxIterations.toNat) ?_ ?_ passes h
    ⟨hw, rfl⟩
  · rintro h' ⟨hw', hctx⟩
    rw [← hctx]
    exact hw'.calls_le
  · rintro k h' ⟨hw', hctx⟩
    rw [← hctx] at hmax ⊢
    rcases chatLoopBody_within h' hw' hmax with ⟨h'', hbody, hctx', hw'', -⟩ |
      ⟨r, h'', hbody, hle⟩ <;> rw [hbody]
    · exact ⟨hw'', hctx'⟩
    · exact hle

/-- The chat loop ends in the iterations that are left, and the pass after them. -/
theorem chatLoop_ended (hresp : Responsive h.ctx) (passes : Nat) (hw : h.Within)
    (hmax : h.ctx.maxIterations.toNat < 2 ^ 32 - 1)
    (hpasses : h.ctx.maxIterations.toNat < passes + h.iteration.toNat) :
    Ended (chatLoop passes h).1 := by
  refine chatLoop_induct (Q := fun r _ => Ended r) (P := fun k h' => h'.Within ∧ h'.ctx = h.ctx ∧
    h.ctx.maxIterations.toNat < k + h'.iteration.toNat) ?_ ?_ passes h ⟨hw, rfl, hpasses⟩
  · rintro h' ⟨hw', hctx, hleft⟩
    have hle := hw'.iteration
    rw [hctx] at hle
    exact absurd hle (by omega)
  · rintro k h' ⟨hw', hctx, hleft⟩
    rw [← hctx] at hresp hmax hleft ⊢
    have hended := chatLoopBody_ended h' hresp
    rcases chatLoopBody_within h' hw' hmax with ⟨h'', hbody, hctx', hw'', hi⟩ |
      ⟨r, h'', hbody, -⟩ <;> rw [hbody] at hended ⊢
    · exact ⟨hw'', hctx', by omega⟩
    · exact hended

/-! ### The reflection loop -/

namespace ReflectionExecutor

theorem phase_iteration (provider : LlmProvider σ) (dflt current : String) :
    (phase h provider dflt current).2.harness.iteration = h.iteration := by
  have hturn := h.oneLlmTurnWith_iteration provider
  unfold phase
  rcases ht : h.oneLlmTurnWith provider with ⟨flow, h₁⟩
  rw [ht] at hturn
  cases flow with
  | ok turn => cases turn <;> exact hturn
  | err e => cases e <;> exact hturn
  | panicked p => exact hturn
  | suspended => exact hturn

theorem phase_ended {provider : LlmProvider σ}
    (hp : ∀ req wait env, (provider.complete req wait env).1 ≠ .pending) (dflt current : String) :
    (phase h provider dflt current).2.Ended := by
  have hreturns := oneLlmTurnWith_returns h hp
  unfold phase
  rcases ht : h.oneLlmTurnWith provider with ⟨flow, h₁⟩
  rw [ht] at hreturns
  cases flow with
  | ok turn => cases turn <;> trivial
  | err e =>
    cases e
    case timeout => exact finish_ended _ _ _
    all_goals exact ⟨by simp, by simp⟩
  | panicked p => exact ⟨by simp, by simp⟩
  | suspended => exact absurd rfl hreturns

/-- A phase makes one model call at most. -/
theorem phase_calls (provider : LlmProvider σ) (dflt current : String) :
    ∃ rows calls, Grows h (phase h provider dflt current).2.harness rows calls ∧
      modelCalls calls ≤ 1 := by
  rcases phase_cases h provider dflt current with
    ⟨text, h', rows, req, resp, heq, g, -⟩ | ⟨text, r, h', calls, heq, s, hpass⟩ <;> rw [heq]
  · exact ⟨rows, _, g, by rw [modelCalls_llm_cons]; exact le_rfl⟩
  · exact ⟨[], calls, s.grows, hpass.modelCalls_le⟩

theorem roundChecks_ended (current : String) : (roundChecks h current).Ended := by
  unfold roundChecks
  split
  · exact ⟨by simp, by simp⟩
  · simp only
    split
    · exact finish_ended _ _ _
    · split
      · exact finish_ended _ _ _
      · trivial

/-- The checks make no call, and when the round goes on there is room for one. -/
theorem roundChecks_mayCall (current : String) (hw : h.Within)
    (hmax : h.ctx.maxIterations.toNat < 2 ^ 32 - 1) :
    (∃ h', roundChecks h current = .next h' ∧ h'.ctx = h.ctx ∧ h'.MayCall) ∨
    (∃ r h', roundChecks h current = .stop r h' ∧
      modelCalls h'.world.effects ≤ h.ctx.maxIterations.toNat) := by
  rcases roundChecks_cases h current with ⟨h', heq, g⟩ | ⟨r, h', heq, s⟩
  · refine .inl ⟨h', heq, g.ctx, ?_⟩
    unfold roundChecks at heq
    cases hcost : h.checkCostCap with
    | error e => simp [hcost] at heq
    | ok _ =>
      simp only [hcost] at heq
      rcases hcheck : h.bumpIteration.checkIterationCap with ⟨e | _, h₁⟩ <;>
        simp only [hcheck] at heq
      · exact absurd heq (by simp [LoopStep.ret])
      obtain ⟨hroom, -⟩ := hw.mayCall hmax hcheck
      have gd := h₁.checkDeadline_grows
      have hi := h₁.checkDeadline_iteration
      rcases hd : h₁.checkDeadline with ⟨e | _, h₂⟩ <;> rw [hd] at gd hi <;> rw [hd] at heq
      · exact absurd heq (by simp [LoopStep.ret])
      · obtain rfl := LoopStep.next.inj heq
        exact hroom.grows gd hi rfl
  · refine .inr ⟨r, h', heq, ?_⟩
    rw [s.grows.effects, List.append_nil]
    exact hw.calls_le

/-- A phase after its checks keeps the run within the cap. -/
theorem phase_within {h : LoopHarness σ} (hr : h.MayCall) (provider : LlmProvider σ)
    (dflt current : String) :
    (phase h provider dflt current).2.Meets (fun h' => h'.Within ∧ h'.ctx = h.ctx)
      (fun _ h' => modelCalls h'.world.effects ≤ h.ctx.maxIterations.toNat) := by
  obtain ⟨rows, calls, g, hcalls⟩ := phase_calls h provider dflt current
  have hw := hr.within g (phase_iteration h provider dflt current) hcalls
  have hctx := g.ctx
  have hle := hw.calls_le
  rcases hphase : phase h provider dflt current with ⟨text, h' | ⟨r, h'⟩⟩ <;>
    rw [hphase] at hw hctx hle
  · exact ⟨hw, hctx⟩
  · rw [hctx] at hle
    exact hle

/-- The prompt of a phase takes no iteration. -/
theorem promptedPhase_within {h : LoopHarness σ} (hr : h.MayCall) (content : String)
    (provider : LlmProvider σ) (dflt current : String) :
    (phase (h.pushUserMessage content) provider dflt current).2.Meets
      (fun h' => h'.Within ∧ h'.ctx = h.ctx)
      (fun _ h' => modelCalls h'.world.effects ≤ h.ctx.maxIterations.toNat) := by
  obtain ⟨m, g, -⟩ := h.pushUserMessage_grows content
  rw [← g.ctx]
  exact phase_within (hr.grows g (pushUserMessage_iteration h content) rfl) provider dflt current

theorem rounds_within (judge : LlmProvider σ) (n : Nat) (current : String) (hw : h.Within)
    (hmax : h.ctx.maxIterations.toNat < 2 ^ 32 - 1) :
    modelCalls (rounds judge n current h).2.world.effects ≤ h.ctx.maxIterations.toNat := by
  refine rounds_induct (P := fun _ _ h' => h'.Within ∧ h'.ctx = h.ctx)
    (R := fun _ _ h' => h'.MayCall ∧ h'.ctx = h.ctx)
    (Q := fun _ h' => modelCalls h'.world.effects ≤ h.ctx.maxIterations.toNat) ?_ ?_ ?_ ?_ n
    current h ⟨hw, rfl⟩
  · rintro k current h' ⟨hw', hctx⟩
    rw [← hctx]
    exact hw'.calls_le
  · rintro k current h' ⟨hw', hctx⟩
    rw [← hctx] at hmax ⊢
    rcases roundChecks_mayCall h' current hw' hmax with ⟨h'', heq, hctx', hr⟩ |
      ⟨r, h'', heq, hle⟩ <;> rw [heq]
    · exact ⟨hr, hctx'⟩
    · exact hle
  · rintro k current h' ⟨hr, hctx⟩
    rw [← hctx]
    exact promptedPhase_within hr _ _ _ _
  · rintro k current h' ⟨hr, hctx⟩
    rw [← hctx]
    exact promptedPhase_within hr _ _ _ _

theorem rounds_ended (judge : LlmProvider σ) (hresp : Responsive h.ctx)
    (hjudge : ∀ req wait env, (judge.complete req wait env).1 ≠ .pending) (n : Nat)
    (current : String) : Ended (rounds judge n current h).1 := by
  have prompted : ∀ h' : LoopHarness σ, h'.ctx = h.ctx → ∀ content (provider : LlmProvider σ),
      (∀ req wait env, (provider.complete req wait env).1 ≠ .pending) → ∀ dflt current,
      (phase (h'.pushUserMessage content) provider dflt current).2.Meets
        (fun h'' => h''.ctx = h.ctx) (fun r _ => Ended r) := by
    intro h' hctx content provider hp dflt current
    have hended := phase_ended (h'.pushUserMessage content) hp dflt current
    obtain ⟨m, gm, -⟩ := h'.pushUserMessage_grows content
    obtain ⟨rows, calls, g, -⟩ := phase_calls (h'.pushUserMessage content) provider dflt current
    have hctx' := g.ctx.trans (gm.ctx.trans hctx)
    rcases hphase : phase (h'.pushUserMessage content) provider dflt current with
      ⟨text, h'' | ⟨r, h''⟩⟩ <;> rw [hphase] at hended hctx'
    · exact hctx'
    · exact hended
  refine rounds_induct (P := fun _ _ h' => h'.ctx = h.ctx) (R := fun _ _ h' => h'.ctx = h.ctx)
    (Q := fun r _ => Ended r) ?_ ?_ ?_ ?_ n current h rfl
  · intro k current h' _
    exact finish_ended _ _ _
  · intro k current h' hctx
    have hended := roundChecks_ended h' current
    rcases roundChecks_cases h' current with ⟨h'', heq, g⟩ | ⟨r, h'', heq, -⟩ <;>
      rw [heq] at hended ⊢
    · exact g.ctx.trans hctx
    · exact hended
  · intro k current h' hctx
    exact prompted h' hctx _ judge hjudge _ _
  · intro k current h' hctx
    obtain ⟨m, g, -⟩ := h'.pushUserMessage_grows revisePrompt
    have hllm : (h'.pushUserMessage revisePrompt).ctx.llm = h.ctx.llm := by rw [g.ctx, hctx]
    simp only [hllm]
    have hp := prompted h' hctx revisePrompt h.ctx.llm hresp.llm current current
    exact hp

/-- Without a cap that trips, the rounds make two model calls each at most. -/
theorem rounds_calls_le (judge : LlmProvider σ) (n : Nat) (current : String) :
    modelCalls (rounds judge n current h).2.world.effects ≤
      modelCalls h.world.effects + 2 * n := by
  have prompted : ∀ k (h' : LoopHarness σ), modelCalls h'.world.effects + (k + 1) ≤
      modelCalls h.world.effects + 2 * n → ∀ content provider dflt current,
      (phase (h'.pushUserMessage content) provider dflt current).2.Meets
        (fun h'' => modelCalls h''.world.effects + k ≤ modelCalls h.world.effects + 2 * n)
        (fun _ h'' => modelCalls h''.world.effects ≤ modelCalls h.world.effects + 2 * n) := by
    intro k h' hle content provider dflt current
    obtain ⟨m, gm, -⟩ := h'.pushUserMessage_grows content
    obtain ⟨rows, calls, g, hcalls⟩ :=
      phase_calls (h'.pushUserMessage content) provider dflt current
    have heffects := (gm.trans g).effects
    rw [List.nil_append] at heffects
    rcases hphase : phase (h'.pushUserMessage content) provider dflt current with
      ⟨text, h'' | ⟨r, h''⟩⟩ <;> rw [hphase] at heffects
    · show modelCalls h''.world.effects + k ≤ _
      rw [LoopStep.harness] at heffects
      rw [heffects, modelCalls_append]
      omega
    · show modelCalls h''.world.effects ≤ _
      rw [LoopStep.harness] at heffects
      rw [heffects, modelCalls_append]
      omega
  -- `k` is the phases left: each of them asks the model once
  refine rounds_induct
    (P := fun k _ h' => modelCalls h'.world.effects + k ≤ modelCalls h.world.effects + 2 * n)
    (R := fun k _ h' => modelCalls h'.world.effects + (k + 1) ≤ modelCalls h.world.effects + 2 * n)
    (Q := fun _ h' => modelCalls h'.world.effects ≤ modelCalls h.world.effects + 2 * n)
    ?_ ?_ ?_ ?_ n current h le_rfl
  · intro k current h' hle
    exact (Nat.le_add_right _ k).trans hle
  · intro k current h' hle
    rcases roundChecks_cases h' current with ⟨h'', heq, g⟩ | ⟨r, h'', heq, s⟩ <;> rw [heq]
    · show modelCalls h''.world.effects + (k + 1) ≤ _
      rw [g.effects, List.append_nil]
      exact hle
    · show modelCalls h''.world.effects ≤ _
      rw [s.grows.effects, List.append_nil]
      exact (Nat.le_add_right _ (k + 1)).trans hle
  · intro m current h' hle
    exact prompted (2 * m + 1) h' hle _ _ _ _
  · intro m current h' hle
    exact prompted (2 * m) h' hle _ _ _ _

variable (maxRevisions : UInt32) (ctx : ExecutionContext σ) (env : σ)

/-- The harness of a reflection run before its draft. -/
theorem draft_harness :
    let h := (LoopHarness.new ctx env).seedMessages.bumpIteration
    h.ctx = ctx ∧ h.world.effects = [] ∧ h.iteration.toNat = 1 := by
  obtain ⟨seed, g, -⟩ := (LoopHarness.new ctx env).seedMessages_grows
  have hi : (LoopHarness.new ctx env).seedMessages.iteration = 0 := seedMessages_iteration _
  have hctx : (LoopHarness.new ctx env).ctx = ctx := rfl
  have heffects : (LoopHarness.new ctx env).world.effects = [] := rfl
  generalize (LoopHarness.new ctx env).seedMessages = h at g hi
  refine ⟨g.ctx.trans hctx, g.effects.trans heffects, ?_⟩
  rw [bumpIteration_iteration, hi]
  rfl

theorem execute_within (hpos : 0 < ctx.maxIterations.toNat)
    (hmax : ctx.maxIterations.toNat < 2 ^ 32 - 1) :
    modelCalls (execute maxRevisions ctx env).2.world.effects ≤ ctx.maxIterations.toNat := by
  obtain ⟨hctx, heffects, hi⟩ := draft_harness ctx env
  unfold execute
  simp only
  generalize (LoopHarness.new ctx env).seedMessages.bumpIteration = h at hctx heffects hi
  have hr : h.MayCall := by
    refine ⟨?_, ?_⟩
    · rw [heffects, hi]
      exact le_rfl
    · rw [hctx, hi]
      exact hpos
  cases h.checkCostCap with
  | error e =>
    rw [heffects]
    exact Nat.zero_le _
  | ok _ =>
    have hdraft := phase_within hr ctx.llm "" ""
    simp only
    rcases hphase : phase h ctx.llm "" "" with ⟨current, h' | ⟨r, h'⟩⟩ <;> rw [hphase] at hdraft
    · obtain ⟨hw, hctx'⟩ := hdraft
      have hle := rounds_within h' (ctx.judgeLlm.getD ctx.llm) maxRevisions.toNat current hw
      rw [hctx', hctx] at hle
      exact hle hmax
    · rw [← hctx]
      exact hdraft

/-- Whatever the cap, a run makes one call for its draft and two for each round. -/
theorem execute_calls_le :
    modelCalls (execute maxRevisions ctx env).2.world.effects ≤ 1 + 2 * maxRevisions.toNat := by
  obtain ⟨-, heffects, -⟩ := draft_harness ctx env
  unfold execute
  simp only
  generalize (LoopHarness.new ctx env).seedMessages.bumpIteration = h at heffects
  cases h.checkCostCap with
  | error e =>
    rw [heffects]
    exact Nat.zero_le _
  | ok _ =>
    obtain ⟨rows, calls, g, hcalls⟩ := phase_calls h ctx.llm "" ""
    have hdraft := g.effects
    rw [heffects, List.nil_append] at hdraft
    simp only
    rcases hphase : phase h ctx.llm "" "" with ⟨current, h' | ⟨r, h'⟩⟩ <;>
      rw [hphase, LoopStep.harness] at hdraft
    · have hle := rounds_calls_le h' (ctx.judgeLlm.getD ctx.llm) maxRevisions.toNat current
      rw [hdraft] at hle
      exact hle.trans (Nat.add_le_add_right hcalls _)
    · show modelCalls h'.world.effects ≤ _
      rw [hdraft]
      exact hcalls.trans (Nat.le_add_right 1 _)

theorem execute_ended (hresp : Responsive ctx) : Ended (execute maxRevisions ctx env).1 := by
  obtain ⟨hctx, -, -⟩ := draft_harness ctx env
  unfold execute
  simp only
  generalize (LoopHarness.new ctx env).seedMessages.bumpIteration = h at hctx
  cases h.checkCostCap with
  | error e => exact ⟨by simp, by simp⟩
  | ok _ =>
    have hended := phase_ended h hresp.llm "" ""
    obtain ⟨rows, calls, g, -⟩ := phase_calls h ctx.llm "" ""
    have hctx' := g.ctx.trans hctx
    simp only
    rcases hphase : phase h ctx.llm "" "" with ⟨current, h' | ⟨r, h'⟩⟩ <;>
      rw [hphase] at hended hctx'
    · refine rounds_ended h' _ (hctx' ▸ hresp) ?_ _ _
      cases hjudge : ctx.judgeLlm with
      | none => exact hresp.llm
      | some judge => exact hresp.judge judge hjudge
    · exact hended

end ReflectionExecutor

end PgSynapse

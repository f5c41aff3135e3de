import PgSynapse.Executor.Equiv.LoopHarness
import PgSynapse.Executor.Executors
import PgSynapse.Lib.Alike
import PgSynapse.Runtime.ExecuteInner
import Mathlib.Data.List.Forall2
import Mathlib.Data.List.Nodup
import Mathlib.Data.List.Perm.Basic

/-!
# Twin runs

Two runs that have the same tools, enumerated in any order, and whose providers and tools answer
alike, keep the same books: they differ in the outside state and in the order of the tools in their
requests, and in nothing else (`runExecutor_twin`).  Each method of the harness and each part of an
executor has one lemma, which says that it keeps twins twins.
-/

namespace PgSynapse

variable {σ : Type}

/-! ### The same tools, requests and effects -/

/-- The same tools, in any order. -/
def ToolRegistry.Same (r r' : ToolRegistry σ) : Prop := ∀ name, r.get name = r'.get name

/-- Requests that differ at most in the order of the tools. -/
structure CompletionRequest.Same (req req' : CompletionRequest) : Prop where
  tools : req.tools.Perm req'.tools
  rest : req' = { req with tools := req'.tools }

/-- Effects that differ at most in the order of the tools of a request. -/
inductive Effect.Same : Effect → Effect → Prop where
  | llm {req req' : CompletionRequest} (answer : Answer (Except LlmError CompletionResponse))
      (h : req.Same req') : Effect.Same (.llm req answer) (.llm req' answer)
  | tool (tc : ToolCall) (ctx : ToolCtx) (answer : Answer (Except ToolError ToolOutput)) :
      Effect.Same (.tool tc ctx answer) (.tool tc ctx answer)

namespace ToolRegistry

theorem mem_names {r : ToolRegistry σ} {name : String} :
    name ∈ r.names ↔ (r.get name).isSome := by
  rw [names, get, List.mem_map, List.lookup_isSome_iff]
  constructor
  · rintro ⟨⟨name, tool⟩, hmem, rfl⟩
    exact ⟨_, hmem, by simp⟩
  · rintro ⟨entry, hmem, hname⟩
    exact ⟨entry, hmem, by simpa using (beq_iff_eq.mp hname).symm⟩

theorem Same.names_perm {r r' : ToolRegistry σ} (h : r.Same r') : r.names.Perm r'.names := by
  refine (List.perm_ext_iff_of_nodup r.nodup r'.nodup).mpr fun name => ?_
  rw [← names, ← names, mem_names, mem_names, h name]

end ToolRegistry

variable [Platform σ]

/-- **The outside answers alike** from states related by `R`: the clocks, the interrupt check, the
providers up to the order of the tools, and the tools of the run. -/
structure AnswersAlike (R : σ → σ → Prop) (ctx : ExecutionContext σ) : Prop where
  utcNow : Alike R (Platform.utcNow (σ := σ)) Platform.utcNow
  instantNow : Alike R (Platform.instantNow (σ := σ)) Platform.instantNow
  interrupt : ∀ check, ctx.interruptCheck = some check → Alike R check check
  llm : ∀ req req' wait, req.Same req' →
    Alike R (ctx.llm.complete req wait) (ctx.llm.complete req' wait)
  judge : ∀ judge, ctx.judgeLlm = some judge → ∀ req req' wait, req.Same req' →
    Alike R (judge.complete req wait) (judge.complete req' wait)
  tools : ∀ name tool, ctx.tools.get name = some tool → ∀ args toolCtx,
    Alike R (tool.run args toolCtx) (tool.run args toolCtx)

omit [Platform σ] in
/-- Outside states related by `R`, after calls that were the same. -/
structure World.Alike (R : σ → σ → Prop) (w w' : World σ) : Prop where
  env : R w.env w'.env
  effects : List.Forall₂ Effect.Same w.effects w'.effects
  sink : w'.sink = w.sink

omit [Platform σ] in
/-- The harness `h` of a run under `ctx`, and that of its twin, which has the tools `tools'`. -/
structure LoopHarness.Twin (R : σ → σ → Prop) (ctx : ExecutionContext σ) (tools' : ToolRegistry σ)
    (h h' : LoopHarness σ) : Prop where
  under : h.ctx = ctx
  world : World.Alike R h.world h'.world
  books : h' = { h with ctx := { ctx with tools := tools' }, world := h'.world }

namespace LoopHarness

variable {R : σ → σ → Prop} {ctx : ExecutionContext σ} {tools' : ToolRegistry σ}
  {h h' : LoopHarness σ}

/-! ### Keeping the books -/

section Books

omit [Platform σ]

namespace Twin

/-- Bookkeeping that touches neither the context nor the world. -/
theorem update (ht : Twin R ctx tools' h h') (f : LoopHarness σ → LoopHarness σ)
    (hf : ∀ g c w, f { g with ctx := c, world := w } = { f g with ctx := c, world := w })
    (hctx : ∀ g, (f g).ctx = g.ctx) (hworld : ∀ g, (f g).world = g.world) :
    Twin R ctx tools' (f h) (f h') := by
  refine ⟨(hctx h).trans ht.under, ?_, ?_⟩
  · rw [hworld, hworld]
    exact ht.world
  · rw [hworld]
    exact (congrArg f ht.books).trans (hf _ _ _)

/-- Calls on the outside. -/
theorem act (ht : Twin R ctx tools' h h') {w w' : World σ} (hw : World.Alike R w w') :
    Twin R ctx tools' { h with world := w } { h' with world := w' } :=
  ⟨ht.under, hw, congrArg (fun g : LoopHarness σ => { g with world := w' }) ht.books⟩

/-- The outside state moves. -/
theorem move (ht : Twin R ctx tools' h h') {env env' : σ} (henv : R env env') :
    Twin R ctx tools' { h with world := { h.world with env := env } }
      { h' with world := { h'.world with env := env' } } :=
  ht.act ⟨henv, ht.world.effects, ht.world.sink⟩

theorem under' (ht : Twin R ctx tools' h h') : h'.ctx = { ctx with tools := tools' } := by
  rw [ht.books]

/-- Twins by cases: the second is the first, but for its tools and its world. -/
theorem elim (ht : Twin R ctx tools' h h') :
    h.ctx = ctx ∧ ∃ w', World.Alike R h.world w' ∧
      h' = { h with ctx := { ctx with tools := tools' }, world := w' } :=
  ⟨ht.under, h'.world, ht.world, ht.books⟩

end Twin

theorem mirror_twin (ht : Twin R ctx tools' h h') (f : ExecutorOutcome → ExecutorOutcome) :
    Twin R ctx tools' (h.mirror f) (h'.mirror f) := by
  have hprogress : h'.ctx.progress = h.ctx.progress := by rw [ht.under', ht.under]
  unfold mirror
  rw [hprogress]
  split
  · exact ht.act ⟨ht.world.env, ht.world.effects, congrArg f ht.world.sink⟩
  · exact ht

theorem recordEvent_twin (ht : Twin R ctx tools' h h') (kind : EventKind) (payload : Value) :
    Twin R ctx tools' (h.recordEvent kind payload) (h'.recordEvent kind payload) :=
  (mirror_twin ht fun o => { o with events := o.events ++ [⟨kind, payload⟩] }).update
    (fun g => { g with events := g.events ++ [⟨kind, payload⟩] })
    (fun _ _ _ => rfl) (fun _ => rfl) fun _ => rfl

theorem append_twin (ht : Twin R ctx tools' h h') (msg : Message) :
    Twin R ctx tools' (h.append msg) (h'.append msg) := by
  obtain ⟨-, w', -, rfl⟩ := ht.elim
  have hcount := ht.update (fun g => { g with seq := g.seq + 1 })
    (fun _ _ _ => rfl) (fun _ => rfl) fun _ => rfl
  have hmirror := mirror_twin hcount fun o =>
    { o with messages := o.messages ++ [{ msg with seq := h.seq }] }
  exact hmirror.update (fun g => { g with messages := g.messages ++ [{ msg with seq := h.seq }] })
    (fun _ _ _ => rfl) (fun _ => rfl) fun _ => rfl

end Books

variable (ha : AnswersAlike R ctx)

section Clocks

include ha

theorem utcNow_twin (ht : Twin R ctx tools' h h') :
    EndAlike (Twin R ctx tools') h.utcNow h'.utcNow := by
  obtain ⟨hanswer, hstate⟩ := ha.utcNow _ _ ht.world.env
  exact ⟨hanswer, ht.move hstate⟩

theorem elapsed_twin (ht : Twin R ctx tools' h h') :
    EndAlike (Twin R ctx tools') h.elapsed h'.elapsed := by
  obtain ⟨hanswer, hstate⟩ := ha.instantNow _ _ ht.world.env
  have hstarted : h'.startedAt = h.startedAt := by rw [ht.books]
  exact ⟨congrArg₂ (· - ·) hanswer hstarted.symm, ht.move hstate⟩

/-! ### Rows -/

theorem newMessage_twin (ht : Twin R ctx tools' h h') (role : Role) :
    EndAlike (Twin R ctx tools') (h.newMessage role) (h'.newMessage role) := by
  obtain ⟨now, h₁, h₁', heq, heq', ht₁⟩ := (utcNow_twin ha ht).elim
  have hid : h₁'.ctx.executionId = h₁.ctx.executionId := by rw [ht₁.under', ht₁.under]
  unfold newMessage
  rw [heq, heq']
  exact ⟨by simp only [hid], ht₁⟩

/-- A row that is filled in and appended. -/
theorem row_twin (ht : Twin R ctx tools' h h') (role : Role) (fill : Message → Message) :
    EndAlike (Twin R ctx tools')
      (fill (h.newMessage role).1, (h.newMessage role).2.append (fill (h.newMessage role).1))
      (fill (h'.newMessage role).1,
        (h'.newMessage role).2.append (fill (h'.newMessage role).1)) := by
  obtain ⟨hanswer, ht₁⟩ := newMessage_twin ha ht role
  rw [hanswer]
  exact ⟨rfl, append_twin ht₁ _⟩

theorem pushMessage_twin (ht : Twin R ctx tools' h h') (role : Role) (content : Option String)
    (toolOutput : Option Value) :
    Twin R ctx tools' (h.pushMessage role content toolOutput)
      (h'.pushMessage role content toolOutput) :=
  (row_twin ha ht role fun m => { m with content := content, toolOutput := toolOutput }).state

theorem pushUserMessage_twin (ht : Twin R ctx tools' h h') (content : String) :
    Twin R ctx tools' (h.pushUserMessage content) (h'.pushUserMessage content) :=
  pushMessage_twin ha ht .user (some content) none

theorem pushEmptyTurnNudge_twin (ht : Twin R ctx tools' h h') :
    Twin R ctx tools' h.pushEmptyTurnNudge h'.pushEmptyTurnNudge :=
  recordEvent_twin (pushUserMessage_twin ha ht emptyTurnNudge) .emptyTurn (.obj [])

theorem pushCallRow_twin (ht : Twin R ctx tools' h h') (tc : ToolCall) :
    Twin R ctx tools' (h.pushCallRow tc) (h'.pushCallRow tc) :=
  (row_twin ha ht .assistant fun m =>
    { m with toolCallId := some tc.id, toolName := some tc.name, toolInput := some tc.args }).state

theorem pushCallRows_twin (ht : Twin R ctx tools' h h') (calls : List ToolCall) :
    Twin R ctx tools' (calls.foldl pushCallRow h) (calls.foldl pushCallRow h') := by
  induction calls generalizing h h' with
  | nil => exact ht
  | cons tc calls ih => exact ih (pushCallRow_twin ha ht tc)

theorem recordAssistantResponse_twin (ht : Twin R ctx tools' h h') (resp : CompletionResponse) :
    Twin R ctx tools' (h.recordAssistantResponse resp) (h'.recordAssistantResponse resp) := by
  unfold recordAssistantResponse
  split
  · exact pushMessage_twin ha ht _ _ _
  · exact pushCallRows_twin ha ht _

theorem pushToolResult_twin (ht : Twin R ctx tools' h h') (tc : ToolCall) (output : ToolOutput) :
    EndAlike (Twin R ctx tools') (h.pushToolResult tc output) (h'.pushToolResult tc output) := by
  have hrow := fun content json => row_twin ha ht .tool fun m => { m with
    toolCallId := some tc.id, toolName := some tc.name, toolInput := some tc.args,
    content := content, toolOutput := json }
  cases output with
  | text s => exact hrow (some s) (some (.string s))
  | json v => exact hrow (some v.toText) (some v)
  | empty => exact hrow none none

theorem pushToolError_twin (ht : Twin R ctx tools' h h') (tc : ToolCall) (err : ToolError) :
    Twin R ctx tools' (h.pushToolError tc err) (h'.pushToolError tc err) := by
  have htext : h'.toolErrorText tc err = h.toolErrorText tc err := by
    unfold toolErrorText
    rw [ht.under', ht.under]
  unfold pushToolError
  rw [htext]
  exact recordEvent_twin (row_twin ha ht .tool fun m => { m with
    toolCallId := some tc.id, toolName := some tc.name, toolInput := some tc.args,
    content := some (h.toolErrorText tc err),
    toolOutput := some (.obj [("error", .string (h.toolErrorText tc err))]) }).state _ _

theorem seedMessages_twin (ht : Twin R ctx tools' h h') :
    Twin R ctx tools' h.seedMessages h'.seedMessages := by
  have hparts : h'.systemParts = h.systemParts := by
    have hpre : h'.prependSystem = h.prependSystem := by rw [ht.books]
    unfold systemParts
    rw [hpre, ht.under', ht.under]
  have hopened : Twin R ctx tools'
      (if h.systemParts.isEmpty then h
        else h.pushMessage .system (some ("\n".intercalate h.systemParts)) none)
      (if h.systemParts.isEmpty then h'
        else h'.pushMessage .system (some ("\n".intercalate h.systemParts)) none) := by
    split
    · exact ht
    · exact pushMessage_twin ha ht _ _ _
  unfold seedMessages
  simp only [hparts]
  rw [hopened.under, hopened.under']
  exact pushMessage_twin ha hopened .user (some ctx.input) none

theorem recordUsage_twin (ht : Twin R ctx tools' h h') (resp : CompletionResponse) :
    Twin R ctx tools' (h.recordUsage resp) (h'.recordUsage resp) := by
  have hadded := ht.update (fun g => { g with
      tokensIn := saturatingAdd g.tokensIn resp.usage.tokensIn
      tokensOut := saturatingAdd g.tokensOut resp.usage.tokensOut
      costSoFar := g.costSoFar + resp.usage.costUsd.getD 0 })
    (fun _ _ _ => rfl) (fun _ => rfl) fun _ => rfl
  obtain ⟨spent, h₁, h₁', heq, heq', ht₁⟩ := (elapsed_twin ha hadded).elim
  have hin : h₁'.tokensIn = h₁.tokensIn := by rw [ht₁.books]
  have hout : h₁'.tokensOut = h₁.tokensOut := by rw [ht₁.books]
  have hcost : h₁'.costSoFar = h₁.costSoFar := by rw [ht₁.books]
  unfold recordUsage
  simp only [heq, heq', hin, hout, hcost]
  exact mirror_twin ht₁ _

/-! ### Checks -/

theorem checkInterrupt_twin (ht : Twin R ctx tools' h h') :
    EndAlike (Twin R ctx tools') h.checkInterrupt h'.checkInterrupt := by
  have hcheck : h'.ctx.interruptCheck = h.ctx.interruptCheck := by rw [ht.under', ht.under]
  unfold checkInterrupt
  rw [hcheck]
  cases hsome : h.ctx.interruptCheck with
  | none => exact .mk' ht
  | some check =>
    rw [ht.under] at hsome
    obtain ⟨reason, env, env', heq, heq', henv⟩ := (ha.interrupt check hsome _ _ ht.world.env).elim
    simp only [heq, heq']
    cases reason with
    | none => exact .mk' (ht.move henv)
    | some r => exact .mk' (ht.move henv)

omit [Platform σ] ha in
theorem checkCostCap_twin (ht : Twin R ctx tools' h h') : h'.checkCostCap = h.checkCostCap := by
  have hcost : h'.costSoFar = h.costSoFar := by rw [ht.books]
  unfold checkCostCap
  rw [ht.under', ht.under, hcost]

omit [Platform σ] ha in
theorem checkIterationCap_twin (ht : Twin R ctx tools' h h') :
    EndAlike (Twin R ctx tools') h.checkIterationCap h'.checkIterationCap := by
  have hiteration : h'.iteration = h.iteration := by rw [ht.books]
  unfold checkIterationCap
  rw [ht.under', ht.under, hiteration]
  split
  · exact .mk' (recordEvent_twin ht _ _)
  · exact .mk' ht

theorem remainingBudget_twin (ht : Twin R ctx tools' h h') :
    EndAlike (Twin R ctx tools') h.remainingBudget h'.remainingBudget := by
  obtain ⟨spent, h₁, h₁', heq, heq', ht₁⟩ := (elapsed_twin ha ht).elim
  unfold remainingBudget
  rw [ht.under', ht.under, heq, heq']
  simp only [ht₁.under', ht₁.under]
  split
  · exact .mk' ht
  · exact .mk' ht₁

theorem checkDeadline_twin (ht : Twin R ctx tools' h h') :
    EndAlike (Twin R ctx tools') h.checkDeadline h'.checkDeadline := by
  obtain ⟨spent, h₁, h₁', heq, heq', ht₁⟩ := (elapsed_twin ha ht).elim
  unfold checkDeadline
  rw [ht.under', ht.under, heq, heq']
  simp only [ht₁.under', ht₁.under]
  split
  · exact .mk' ht
  · split
    · exact .mk' (recordEvent_twin ht₁ _ _)
    · exact .mk' ht₁

omit [Platform σ] ha in
theorem bumpIteration_twin (ht : Twin R ctx tools' h h') :
    Twin R ctx tools' h.bumpIteration h'.bumpIteration :=
  ht.update bumpIteration (fun _ _ _ => rfl) (fun _ => rfl) fun _ => rfl

theorem finalize_twin (ht : Twin R ctx tools' h h') (output : String) (status : OutcomeStatus) :
    EndAlike (Twin R ctx tools') (h.finalize output status) (h'.finalize output status) := by
  obtain ⟨spent, h₁, h₁', heq, heq', ht₁⟩ := (elapsed_twin ha ht).elim
  unfold finalize
  rw [heq, heq']
  refine ⟨?_, ht₁⟩
  obtain ⟨-, w', -, rfl⟩ := ht₁.elim
  rfl

/-! ### Turns -/

theorem acceptResponse_twin (ht : Twin R ctx tools' h h') (model : String)
    (resp : CompletionResponse) :
    EndAlike (Twin R ctx tools') (h.acceptResponse model resp) (h'.acceptResponse model resp) := by
  have hpayload : h'.responsePayload resp = h.responsePayload resp := by
    have hiteration : h'.iteration = h.iteration := by rw [ht.books]
    unfold responsePayload
    rw [ht.under', ht.under, hiteration]
  have hused := recordUsage_twin ha
    (recordEvent_twin ht .llmResponse (h.responsePayload resp)) resp
  have htold := recordAssistantResponse_twin ha hused resp
  unfold acceptResponse
  simp only [hpayload]
  split
  · exact .mk' hused
  · split
    · split
      · exact .mk' htold
      · exact .mk' htold
    · have hissued := htold.update
        (fun g => { g with issuedToolCalls := g.issuedToolCalls ++ resp.toolCalls })
        (fun _ _ _ => rfl) (fun _ => rfl) fun _ => rfl
      exact .mk' (mirror_twin hissued _)

omit [Platform σ] ha in
theorem buildRequest_same (htools : ctx.tools.Same tools') (ht : Twin R ctx tools' h h')
    (model : String) :
    (h.buildRequest model).Same (h'.buildRequest model) := by
  have hmessages : h'.messages = h.messages := by rw [ht.books]
  refine ⟨?_, ?_⟩
  · unfold buildRequest
    simp only [ht.under', ht.under, ← htools _]
    exact htools.names_perm.filterMap _
  · unfold buildRequest
    rw [hmessages]

omit [Platform σ] ha in
theorem awaitComplete_twin (ht : Twin R ctx tools' h h') {provider : LlmProvider σ}
    (hprovider : ∀ req req' wait, req.Same req' →
      Alike R (provider.complete req wait) (provider.complete req' wait))
    {req req' : CompletionRequest} (hreq : req.Same req') (wait : Option Nat) :
    EndAlike (Twin R ctx tools') (h.awaitComplete provider req wait)
      (h'.awaitComplete provider req' wait) := by
  obtain ⟨answer, env, env', heq, heq', henv⟩ :=
    (hprovider req req' wait hreq _ _ ht.world.env).elim
  unfold awaitComplete
  simp only [heq, heq']
  have heffects : List.Forall₂ Effect.Same (h.world.effects ++ [.llm req answer])
      (h'.world.effects ++ [.llm req' answer]) :=
    List.rel_append ht.world.effects (.cons (.llm answer hreq) .nil)
  exact .mk' (ht.act ⟨henv, heffects, ht.world.sink⟩)

theorem oneLlmTurnWith_twin (htools : ctx.tools.Same tools') (ht : Twin R ctx tools' h h')
    {provider : LlmProvider σ} (hprovider : ∀ req req' wait, req.Same req' →
      Alike R (provider.complete req wait) (provider.complete req' wait)) :
    EndAlike (Twin R ctx tools') (h.oneLlmTurnWith provider) (h'.oneLlmTurnWith provider) := by
  obtain ⟨check, h₁, h₁', heq, heq', ht₁⟩ := (checkInterrupt_twin ha ht).elim
  unfold oneLlmTurnWith
  rw [heq, heq']
  rcases check with e | _
  · exact .mk' ht₁
  have hreq := buildRequest_same htools ht₁ provider.modelName
  have hpayload : h₁'.requestPayload provider.modelName (h₁'.buildRequest provider.modelName) =
      h₁.requestPayload provider.modelName (h₁.buildRequest provider.modelName) := by
    have hiteration : h₁'.iteration = h₁.iteration := by rw [ht₁.books]
    have hmessages : (h₁'.buildRequest provider.modelName).messages =
        (h₁.buildRequest provider.modelName).messages := by rw [hreq.rest]
    unfold requestPayload
    rw [ht₁.under', ht₁.under, hiteration, hmessages, hreq.tools.length_eq]
  simp only [hpayload]
  obtain ⟨wait, h₂, h₂', heq₂, heq₂', ht₂⟩ := (remainingBudget_twin ha
    (recordEvent_twin ht₁ .llmRequest (h₁.requestPayload provider.modelName
      (h₁.buildRequest provider.modelName)))).elim
  obtain ⟨answer, h₃, h₃', heq₃, heq₃', ht₃⟩ :=
    (awaitComplete_twin ht₂ hprovider hreq wait).elim
  rw [heq₂, heq₂']
  simp only [heq₃, heq₃']
  rcases answer with (e | resp) | p | _
  · exact .mk' ht₃
  · exact acceptResponse_twin ha ht₃ _ _
  · exact .mk' ht₃
  · rcases wait with _ | d
    · exact .mk' ht₃
    · obtain ⟨spent, h₄, h₄', heq₄, heq₄', ht₄⟩ := (elapsed_twin ha ht₃).elim
      simp only [heq₄, heq₄', ht₄.under', ht₄.under]
      exact .mk' (recordEvent_twin ht₄ _ _)

/-! ### Calls -/

theorem awaitTool_twin (ht : Twin R ctx tools' h h') {tool : Tool σ} {tc : ToolCall}
    (htool : ctx.tools.get tc.name = some tool) (toolCtx : ToolCtx) :
    EndAlike (Twin R ctx tools') (h.awaitTool tool tc toolCtx) (h'.awaitTool tool tc toolCtx) := by
  obtain ⟨answer, env, env', heq, heq', henv⟩ :=
    (ha.tools tc.name tool htool tc.args toolCtx _ _ ht.world.env).elim
  unfold awaitTool
  simp only [heq, heq']
  have heffects : List.Forall₂ Effect.Same (h.world.effects ++ [.tool tc toolCtx answer])
      (h'.world.effects ++ [.tool tc toolCtx answer]) :=
    List.rel_append ht.world.effects (.cons (.tool tc toolCtx answer) .nil)
  exact .mk' (ht.act ⟨henv, heffects, ht.world.sink⟩)

theorem settleToolCall_twin (ht : Twin R ctx tools' h h') (tc : ToolCall)
    (result : Except ToolError ToolOutput) :
    EndAlike (Twin R ctx tools') (h.settleToolCall tc result) (h'.settleToolCall tc result) := by
  rcases result with e | output
  · exact .mk' ht
  have hlevel : h'.ctx.traceLevel = h.ctx.traceLevel := by rw [ht.under', ht.under]
  unfold settleToolCall
  simp only [hlevel]
  generalize (if h.ctx.traceLevel.shouldPersistRawPayloads then _ else _ : Value) = payload
  obtain ⟨msg, h₁, h₁', heq, heq', ht₁⟩ :=
    (pushToolResult_twin ha (recordEvent_twin ht .toolEnd payload) tc output).elim
  simp only [heq, heq']
  exact .mk' ht₁

theorem dispatchToolCall_twin (htools : ctx.tools.Same tools') (ht : Twin R ctx tools' h h')
    (tc : ToolCall) :
    EndAlike (Twin R ctx tools') (h.dispatchToolCall tc) (h'.dispatchToolCall tc) := by
  have hissued : h'.issuedToolCalls = h.issuedToolCalls := by rw [ht.books]
  have hget : h'.ctx.tools.get tc.name = h.ctx.tools.get tc.name := by
    rw [ht.under', ht.under]
    exact (htools tc.name).symm
  unfold dispatchToolCall
  rw [hissued, hget]
  cases repeatedCallRefusal h.issuedToolCalls tc with
  | some refusal =>
    obtain ⟨msg, h₁, h₁', heq, heq', ht₁⟩ := (pushToolResult_twin ha (recordEvent_twin ht
      .repeatedToolCall (.obj [("tool", .string tc.name), ("call_id", .string tc.id)])) tc
      (.text refusal)).elim
    simp only [heq, heq']
    exact .mk' ht₁
  | none =>
    cases htool : h.ctx.tools.get tc.name with
    | none => exact .mk' ht
    | some tool =>
      rw [ht.under] at htool
      have hlevel : h'.ctx.traceLevel = h.ctx.traceLevel := by rw [ht.under', ht.under]
      have htoolCtx : toolCtxOf h'.ctx = toolCtxOf h.ctx := by
        rw [ht.under', ht.under]
        rfl
      simp only [hlevel]
      generalize (if h.ctx.traceLevel.shouldPersistRawPayloads then _ else _ : Value) = payload
      have hstarted := recordEvent_twin ht .toolStart payload
      obtain ⟨answer, h₁, h₁', heq, heq', ht₁⟩ :=
        (awaitTool_twin ha hstarted htool (toolCtxOf ctx)).elim
      have htoolCtx : toolCtxOf h'.ctx = toolCtxOf ctx ∧ toolCtxOf h.ctx = toolCtxOf ctx := by
        rw [ht.under', ht.under]
        exact ⟨rfl, rfl⟩
      simp only [toolCtxOf] at htoolCtx heq heq'
      simp only [htoolCtx, heq, heq']
      rcases answer with result | p | _
      · exact settleToolCall_twin ha ht₁ tc result
      · exact settleToolCall_twin ha ht₁ tc _
      · exact .mk' ht₁

end Clocks

end LoopHarness

/-! ### Executors -/

open LoopHarness

section Executors

variable {R : σ → σ → Prop} {ctx : ExecutionContext σ} {tools' : ToolRegistry σ}
  {h h' : LoopHarness σ}

/-- Passes of twins that come to the same. -/
inductive LoopStep.Twin (R : σ → σ → Prop) (ctx : ExecutionContext σ) (tools' : ToolRegistry σ) :
    LoopStep σ → LoopStep σ → Prop where
  | next {g g' : LoopHarness σ} (ht : LoopHarness.Twin R ctx tools' g g') :
      LoopStep.Twin R ctx tools' (.next g) (.next g')
  | stop (r : ExecResult) {g g' : LoopHarness σ} (ht : LoopHarness.Twin R ctx tools' g g') :
      LoopStep.Twin R ctx tools' (.stop r g) (.stop r g')

variable (ha : AnswersAlike R ctx) (htools : ctx.tools.Same tools')

include ha

theorem finish_twin (ht : Twin R ctx tools' h h') (output : String) (status : OutcomeStatus) :
    EndAlike (Twin R ctx tools') (finish h output status) (finish h' output status) := by
  obtain ⟨o, h₁, h₁', heq, heq', ht₁⟩ := (finalize_twin ha ht output status).elim
  unfold finish
  rw [heq, heq']
  exact .mk' ht₁

theorem ret_twin (ht : Twin R ctx tools' h h') (output : String) (status : OutcomeStatus) :
    LoopStep.Twin R ctx tools' (.ret (finish h output status))
      (.ret (finish h' output status)) := by
  obtain ⟨r, h₁, h₁', heq, heq', ht₁⟩ := (finish_twin ha ht output status).elim
  rw [heq, heq']
  exact .stop r ht₁

include htools

theorem dispatchAll_twin (ht : Twin R ctx tools' h h') (calls : List ToolCall) :
    LoopStep.Twin R ctx tools' (dispatchAll calls h) (dispatchAll calls h') := by
  induction calls generalizing h h' with
  | nil => exact .next ht
  | cons tc calls ih =>
    obtain ⟨f, h₁, h₁', heq, heq', ht₁⟩ := (dispatchToolCall_twin ha htools ht tc).elim
    rw [dispatchAll, dispatchAll, heq, heq']
    rcases f with m | e | p | _
    · exact ih ht₁
    · cases e with
      | tool te => exact ih (pushToolError_twin ha ht₁ tc te)
      | _ => exact .stop _ ht₁
    · exact .stop _ ht₁
    · exact .stop _ ht₁

theorem chatLoopBody_twin (ht : Twin R ctx tools' h h') :
    LoopStep.Twin R ctx tools' (chatLoopBody h) (chatLoopBody h') := by
  have ht := bumpIteration_twin ht
  unfold chatLoopBody
  simp only
  obtain ⟨cap, h₁, h₁', heq, heq', ht₁⟩ := (checkIterationCap_twin ht).elim
  rw [heq, heq']
  rcases cap with e | _
  · cases e with
    | maxIterationsReached n => exact ret_twin ha ht₁ _ _
    | _ => exact .stop _ ht₁
  simp only [checkCostCap_twin ht₁]
  rcases h₁.checkCostCap with e | _
  · exact .stop _ ht₁
  obtain ⟨deadline, h₂, h₂', heq₂, heq₂', ht₂⟩ := (checkDeadline_twin ha ht₁).elim
  simp only [heq₂, heq₂']
  rcases deadline with e | _
  · exact ret_twin ha ht₂ _ _
  have hllm : h₂'.oneLlmTurn = h₂'.oneLlmTurnWith ctx.llm ∧
      h₂.oneLlmTurn = h₂.oneLlmTurnWith ctx.llm := by
    unfold oneLlmTurn
    rw [ht₂.under', ht₂.under]
    exact ⟨rfl, rfl⟩
  obtain ⟨f, h₃, h₃', heq₃, heq₃', ht₃⟩ := (oneLlmTurnWith_twin ha htools ht₂ ha.llm).elim
  simp only [hllm, heq₃, heq₃']
  rcases f with (text | calls | _) | e | p | _
  · exact ret_twin ha ht₃ _ _
  · exact dispatchAll_twin ha htools ht₃ calls
  · exact .next (pushEmptyTurnNudge_twin ha ht₃)
  · cases e with
    | timeout ms => exact ret_twin ha ht₃ _ _
    | _ => exact .stop _ ht₃
  · exact .stop _ ht₃
  · exact .stop _ ht₃

theorem chatLoop_twin (ht : Twin R ctx tools' h h') (passes : Nat) :
    EndAlike (Twin R ctx tools') (chatLoop passes h) (chatLoop passes h') := by
  induction passes generalizing h h' with
  | zero => exact .mk' ht
  | succ passes ih =>
    have hbody := chatLoopBody_twin ha htools ht
    rw [chatLoop, chatLoop]
    generalize chatLoopBody h = step, chatLoopBody h' = step' at hbody
    cases hbody with
    | next ht₁ => exact ih ht₁
    | stop r ht₁ => exact .mk' ht₁

namespace ReflectionExecutor

theorem phase_twin (ht : Twin R ctx tools' h h') {provider : LlmProvider σ}
    (hprovider : ∀ req req' wait, req.Same req' →
      Alike R (provider.complete req wait) (provider.complete req' wait)) (dflt current : String) :
    (phase h provider dflt current).1 = (phase h' provider dflt current).1 ∧
      LoopStep.Twin R ctx tools' (phase h provider dflt current).2
        (phase h' provider dflt current).2 := by
  obtain ⟨f, h₁, h₁', heq, heq', ht₁⟩ := (oneLlmTurnWith_twin ha htools ht hprovider).elim
  unfold phase
  rw [heq, heq']
  rcases f with (text | calls | _) | e | p | _
  · exact ⟨rfl, .next ht₁⟩
  · exact ⟨rfl, .next ht₁⟩
  · exact ⟨rfl, .next ht₁⟩
  · cases e with
    | timeout ms => exact ⟨rfl, ret_twin ha ht₁ _ _⟩
    | _ => exact ⟨rfl, .stop _ ht₁⟩
  · exact ⟨rfl, .stop _ ht₁⟩
  · exact ⟨rfl, .stop _ ht₁⟩

omit htools in
theorem roundChecks_twin (ht : Twin R ctx tools' h h') (current : String) :
    LoopStep.Twin R ctx tools' (roundChecks h current) (roundChecks h' current) := by
  unfold roundChecks
  rw [checkCostCap_twin ht]
  rcases h.checkCostCap with e | _
  · exact .stop _ ht
  obtain ⟨cap, h₁, h₁', heq, heq', ht₁⟩ := (checkIterationCap_twin (bumpIteration_twin ht)).elim
  simp only [heq, heq']
  rcases cap with e | _
  · exact ret_twin ha ht₁ _ _
  obtain ⟨deadline, h₂, h₂', heq₂, heq₂', ht₂⟩ := (checkDeadline_twin ha ht₁).elim
  simp only [heq₂, heq₂']
  rcases deadline with e | _
  · exact ret_twin ha ht₂ _ _
  · exact .next ht₂

theorem rounds_twin {judge : LlmProvider σ}
    (hjudge : ∀ req req' wait, req.Same req' →
      Alike R (judge.complete req wait) (judge.complete req' wait))
    (n : Nat) (current : String) (ht : Twin R ctx tools' h h') :
    EndAlike (Twin R ctx tools') (rounds judge n current h) (rounds judge n current h') := by
  induction n generalizing current h h' with
  | zero => exact finish_twin ha ht _ _
  | succ n ih =>
    have hcritiqued := roundChecks_twin ha ht current
    rw [rounds, rounds]
    generalize roundChecks h current = step, roundChecks h' current = step' at hcritiqued
    cases hcritiqued with
    | stop r ht₁ => exact .mk' ht₁
    | @next h₁ h₁' ht₁ =>
      -- the prompts are made from the context, which the two runs share
      have hprompt : critiquePrompt h₁'.ctx = critiquePrompt h₁.ctx := by
        rw [ht₁.under', ht₁.under]
        rfl
      simp only [hprompt]
      have hcritique := phase_twin ha htools
        (pushUserMessage_twin ha ht₁ (critiquePrompt h₁.ctx)) hjudge "" current
      generalize phase (h₁.pushUserMessage _) judge "" current = x,
        phase (h₁'.pushUserMessage _) judge "" current = x' at hcritique
      obtain ⟨critique, step⟩ := x
      obtain ⟨critique', step'⟩ := x'
      obtain ⟨rfl, hstep⟩ := hcritique
      cases hstep with
      | stop r ht₂ => exact .mk' ht₂
      | @next h₂ h₂' ht₂ =>
        simp only
        split
        · exact finish_twin ha ht₂ _ _
        have hrevise := roundChecks_twin ha ht₂ current
        generalize roundChecks h₂ current = step, roundChecks h₂' current = step' at hrevise
        cases hrevise with
        | stop r ht₃ => exact .mk' ht₃
        | @next h₃ h₃' ht₃ =>
          have ht₃ := pushUserMessage_twin ha ht₃ revisePrompt
          simp only
          generalize h₃.pushUserMessage revisePrompt = h₃, h₃'.pushUserMessage revisePrompt = h₃'
            at ht₃
          -- the revision asks the main model of the agent
          have hllm : h₃'.ctx.llm = ctx.llm ∧ h₃.ctx.llm = ctx.llm := by
            rw [ht₃.under', ht₃.under]
            exact ⟨rfl, rfl⟩
          rw [hllm.1, hllm.2]
          have hrevised := phase_twin ha htools ht₃ ha.llm current current
          generalize phase h₃ ctx.llm current current = x,
            phase h₃' ctx.llm current current = x' at hrevised
          obtain ⟨revised, step⟩ := x
          obtain ⟨revised', step'⟩ := x'
          obtain ⟨rfl, hstep⟩ := hrevised
          cases hstep with
          | stop r ht₄ => exact .mk' ht₄
          | next ht₄ => exact ih revised ht₄

end ReflectionExecutor

/-! ### Whole runs -/

omit htools in
theorem new_twin {env env' : σ} (henv : R env env') :
    Twin R ctx tools' (LoopHarness.new ctx env)
      (LoopHarness.new { ctx with tools := tools' } env') := by
  obtain ⟨start, env₁, env₁', heq, heq', henv₁⟩ := (ha.instantNow _ _ henv).elim
  unfold LoopHarness.new
  rw [heq, heq']
  exact ⟨rfl, ⟨henv₁, .nil, rfl⟩, rfl⟩

omit htools in
theorem newWithPrefix_twin (pre : String) {env env' : σ} (henv : R env env') :
    Twin R ctx tools' (newWithPrefix ctx pre env)
      (newWithPrefix { ctx with tools := tools' } pre env') :=
  (new_twin ha henv).update (fun g => { g with prependSystem := some pre })
    (fun _ _ _ => rfl) (fun _ => rfl) fun _ => rfl

theorem ReflectionExecutor.execute_twin (maxRevisions : UInt32) {env env' : σ}
    (henv : R env env') :
    EndAlike (Twin R ctx tools') (execute maxRevisions ctx env)
      (execute maxRevisions { ctx with tools := tools' } env') := by
  have hnew : Twin R ctx tools' _ _ := new_twin ha henv
  have ht := bumpIteration_twin (seedMessages_twin ha hnew)
  unfold execute
  simp only
  rw [checkCostCap_twin ht]
  generalize (LoopHarness.new ctx env).seedMessages.bumpIteration = h at ht
  generalize (LoopHarness.new { ctx with tools := tools' } env').seedMessages.bumpIteration = h'
    at ht
  rcases h.checkCostCap with e | _
  · exact .mk' ht
  have hdraft := phase_twin ha htools ht ha.llm "" ""
  generalize phase h ctx.llm "" "" = x, phase h' ctx.llm "" "" = x' at hdraft
  obtain ⟨current, step⟩ := x
  obtain ⟨current', step'⟩ := x'
  obtain ⟨rfl, hstep⟩ := hdraft
  cases hstep with
  | stop r ht₁ => exact .mk' ht₁
  | next ht₁ =>
    refine rounds_twin ha htools ?_ maxRevisions.toNat current ht₁
    cases hjudge : ctx.judgeLlm with
    | none => exact ha.llm
    | some judge => exact ha.judge judge hjudge

/-- **Twin runs**: with the same tools, and an outside that answers alike, the two runs end the same
way, and make the same calls on the outside up to the order of the tools they offer. -/
theorem runExecutor_twin (kind : ExecutorKind) (passes : Nat) {env env' : σ} (henv : R env env') :
    EndAlike (Twin R ctx tools') (Runtime.runExecutor kind passes ctx env)
      (Runtime.runExecutor kind passes { ctx with tools := tools' } env') := by
  cases kind with
  | conversation =>
    exact chatLoop_twin ha htools (seedMessages_twin ha (new_twin ha henv)) passes
  | react =>
    have hnew : Twin R ctx tools' _ _ :=
      newWithPrefix_twin ha ReActExecutor.systemAddendum henv
    exact chatLoop_twin ha htools (seedMessages_twin ha hnew) passes
  | reflection maxRevisions =>
    rw [Runtime.runExecutor_reflection, Runtime.runExecutor_reflection]
    exact ReflectionExecutor.execute_twin ha htools maxRevisions henv

end Executors

end PgSynapse

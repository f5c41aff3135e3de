import Mathlib.Data.List.Forall2
import PgSynapse.Executor.LoopHarness

/-!
# What each harness method adds to the transcript

Every method of `LoopHarness` leaves the context alone and only appends: rows to the transcript,
calls to the log of effects.  `Grows h h' rows calls` says so, and each method gets one lemma that
names the rows and calls it appends.  The executors' proofs use these lemmas and never unfold a
method.
-/

namespace PgSynapse

/-! ### Rows -/

/-- A row that carries a text and no part of a tool call. -/
structure Message.IsText (role : Role) (m : Message) : Prop where
  role : m.role = role
  toolCallId : m.toolCallId = none
  toolName : m.toolName = none
  toolOutput : m.toolOutput = none

/-- The assistant row of the call `tc`. -/
structure Message.IsCall (tc : ToolCall) (m : Message) : Prop where
  role : m.role = .assistant
  toolCallId : m.toolCallId = some tc.id
  toolName : m.toolName = some tc.name
  toolInput : m.toolInput = some tc.args

/-- The row of the call `tc` as the harness writes it, without a text. -/
structure Message.TellsCall (tc : ToolCall) (m : Message) : Prop extends m.IsCall tc where
  content : m.content = none

/-- A tool row that answers the call `tc`. -/
structure Message.IsAnswer (tc : ToolCall) (m : Message) : Prop where
  role : m.role = .tool
  toolCallId : m.toolCallId = some tc.id
  toolName : m.toolName = some tc.name
  toolInput : m.toolInput = some tc.args

/-- `h'` is `h` with `rows` added to the transcript, and to the progress sink when the host set one,
and `calls` to the log of effects. -/
structure LoopHarness.Grows {σ : Type} (h h' : LoopHarness σ) (rows : List Message)
    (calls : List Effect) : Prop where
  ctx : h'.ctx = h.ctx
  messages : h'.messages = h.messages ++ rows
  stamped : ∀ m ∈ rows, m.executionId = h.ctx.executionId
  effects : h'.world.effects = h.world.effects ++ calls
  sink : h'.world.sink.messages =
    h.world.sink.messages ++ if h.ctx.progress then rows else []

namespace LoopHarness

variable {σ : Type}

namespace Grows

variable {h h₁ h₂ : LoopHarness σ} {rows rows' : List Message} {calls calls' : List Effect}

/-- A step that leaves the four parts alone. -/
theorem silent (hctx : h₁.ctx = h.ctx) (hms : h₁.messages = h.messages)
    (hes : h₁.world.effects = h.world.effects)
    (hsink : h₁.world.sink.messages = h.world.sink.messages) : Grows h h₁ [] [] :=
  ⟨hctx, by simpa using hms, by simp, by simpa using hes, by simpa using hsink⟩

theorem refl (h : LoopHarness σ) : Grows h h [] [] := .silent rfl rfl rfl rfl

theorem trans (g : Grows h h₁ rows calls) (g' : Grows h₁ h₂ rows' calls') :
    Grows h h₂ (rows ++ rows') (calls ++ calls') where
  ctx := g'.ctx.trans g.ctx
  messages := by rw [g'.messages, g.messages, List.append_assoc]
  stamped m hm := by
    rcases List.mem_append.mp hm with hm | hm
    · exact g.stamped m hm
    · rw [g'.stamped m hm, g.ctx]
  effects := by rw [g'.effects, g.effects, List.append_assoc]
  sink := by
    rw [g'.sink, g.sink, g.ctx, List.append_assoc]
    split <;> rfl

/-- A silent step before another. -/
theorem after (g' : Grows h₁ h₂ rows calls) (g : Grows h h₁ [] []) : Grows h h₂ rows calls := by
  simpa using g.trans g'

/-- A silent step after another. -/
theorem before (g : Grows h h₁ rows calls) (g' : Grows h₁ h₂ [] []) : Grows h h₂ rows calls := by
  simpa using g.trans g'

end Grows

/-- `h'` is `h` grown by `rows` and `calls`, and the model issued no tool call meanwhile. -/
structure Rests (h h' : LoopHarness σ) (rows : List Message) (calls : List Effect) : Prop where
  grows : Grows h h' rows calls
  issued : h'.issuedToolCalls = h.issuedToolCalls

theorem Rests.refl (h : LoopHarness σ) : Rests h h [] [] := ⟨.refl h, rfl⟩

theorem Rests.trans {h h₁ h₂ : LoopHarness σ} {rows rows' : List Message}
    {calls calls' : List Effect} (r : Rests h h₁ rows calls) (r' : Rests h₁ h₂ rows' calls') :
    Rests h h₂ (rows ++ rows') (calls ++ calls') :=
  ⟨r.grows.trans r'.grows, r'.issued.trans r.issued⟩

theorem Rests.after {h h₁ h₂ : LoopHarness σ} {rows : List Message} {calls : List Effect}
    (r' : Rests h₁ h₂ rows calls) (r : Rests h h₁ [] []) : Rests h h₂ rows calls := by
  simpa using r.trans r'

theorem Rests.before {h h₁ h₂ : LoopHarness σ} {rows : List Message} {calls : List Effect}
    (r : Rests h h₁ rows calls) (r' : Rests h₁ h₂ [] []) : Rests h h₂ rows calls := by
  simpa using r.trans r'

variable (h : LoopHarness σ)

/-! ### Methods that do not read a clock -/

theorem mirror_grows (f : ExecutorOutcome → ExecutorOutcome)
    (hf : ∀ o, (f o).messages = o.messages) : Grows h (h.mirror f) [] [] := by
  unfold mirror
  split
  · exact .silent rfl rfl rfl (hf _)
  · exact .refl h

theorem recordEvent_grows (kind : EventKind) (payload : Value) :
    Grows h (h.recordEvent kind payload) [] [] := by
  unfold recordEvent
  have g := h.mirror_grows (fun o => { o with events := o.events ++ [⟨kind, payload⟩] })
    fun _ => rfl
  exact ⟨g.ctx, g.messages, g.stamped, g.effects, g.sink⟩

theorem checkInterrupt_grows : Grows h h.checkInterrupt.2 [] [] := by
  unfold checkInterrupt
  split
  · exact .refl h
  · simp only
    split <;> exact .silent rfl rfl rfl rfl

theorem checkIterationCap_grows : Grows h h.checkIterationCap.2 [] [] := by
  unfold checkIterationCap
  split
  · exact h.recordEvent_grows _ _
  · exact .refl h

theorem bumpIteration_grows : Grows h h.bumpIteration [] [] := .silent rfl rfl rfl rfl

theorem bumpIteration_rests : Rests h h.bumpIteration [] [] := ⟨h.bumpIteration_grows, rfl⟩

theorem append_grows (msg : Message) (hid : msg.executionId = h.ctx.executionId) :
    Grows h (h.append msg) [{ msg with seq := h.seq }] [] := by
  unfold append mirror
  cases hp : h.ctx.progress with
  | true => exact ⟨by simp [hp], by simp [hp], by simpa using hid, by simp [hp], by simp [hp]⟩
  | false => exact ⟨by simp [hp], by simp [hp], by simpa using hid, by simp [hp], by simp [hp]⟩

theorem awaitComplete_grows (provider : LlmProvider σ) (req : CompletionRequest)
    (wait : Option Nat) :
    Grows h (h.awaitComplete provider req wait).2 []
      [.llm req (h.awaitComplete provider req wait).1] :=
  ⟨rfl, by simp [awaitComplete], by simp, by simp [awaitComplete], by simp [awaitComplete]⟩

theorem awaitTool_grows (tool : Tool σ) (tc : ToolCall) (toolCtx : ToolCtx) :
    Grows h (h.awaitTool tool tc toolCtx).2 []
      [.tool tc toolCtx (h.awaitTool tool tc toolCtx).1] :=
  ⟨rfl, by simp [awaitTool], by simp, by simp [awaitTool], by simp [awaitTool]⟩

variable [Platform σ]

/-! ### The issued calls -/

omit [Platform σ] in
@[simp] theorem mirror_issued (f : ExecutorOutcome → ExecutorOutcome) :
    (h.mirror f).issuedToolCalls = h.issuedToolCalls := by
  unfold mirror
  split <;> rfl

omit [Platform σ] in
@[simp] theorem recordEvent_issued (kind : EventKind) (payload : Value) :
    (h.recordEvent kind payload).issuedToolCalls = h.issuedToolCalls := by
  simp [recordEvent]

omit [Platform σ] in
@[simp] theorem append_issued (msg : Message) :
    (h.append msg).issuedToolCalls = h.issuedToolCalls := by
  simp [append]

@[simp] theorem pushMessage_issued (role : Role) (content : Option String)
    (toolOutput : Option Value) :
    (h.pushMessage role content toolOutput).issuedToolCalls = h.issuedToolCalls := by
  rw [pushMessage, append_issued]
  rfl

@[simp] theorem recordUsage_issued (resp : CompletionResponse) :
    (h.recordUsage resp).issuedToolCalls = h.issuedToolCalls := by
  rw [recordUsage, mirror_issued]
  rfl

@[simp] theorem pushCallRow_issued (tc : ToolCall) :
    (h.pushCallRow tc).issuedToolCalls = h.issuedToolCalls := by
  rw [pushCallRow, append_issued]
  rfl

@[simp] theorem foldl_pushCallRow_issued (calls : List ToolCall) :
    (calls.foldl pushCallRow h).issuedToolCalls = h.issuedToolCalls := by
  induction calls generalizing h with
  | nil => rfl
  | cons tc calls ih => rw [List.foldl_cons, ih, pushCallRow_issued]

@[simp] theorem recordAssistantResponse_issued (resp : CompletionResponse) :
    (h.recordAssistantResponse resp).issuedToolCalls = h.issuedToolCalls := by
  unfold recordAssistantResponse
  split <;> simp

@[simp] theorem pushToolResult_issued (tc : ToolCall) (output : ToolOutput) :
    (h.pushToolResult tc output).2.issuedToolCalls = h.issuedToolCalls :=
  append_issued _ _

@[simp] theorem pushToolError_issued (tc : ToolCall) (err : ToolError) :
    (h.pushToolError tc err).issuedToolCalls = h.issuedToolCalls := by
  rw [pushToolError, recordEvent_issued]
  exact append_issued _ _

@[simp] theorem seedMessages_issued : h.seedMessages.issuedToolCalls = h.issuedToolCalls := by
  unfold seedMessages
  simp only [pushMessage_issued]
  split <;> simp

omit [Platform σ] in
@[simp] theorem checkInterrupt_issued :
    h.checkInterrupt.2.issuedToolCalls = h.issuedToolCalls := by
  unfold checkInterrupt
  split
  · rfl
  · simp only
    split <;> rfl

omit [Platform σ] in
@[simp] theorem checkIterationCap_issued :
    h.checkIterationCap.2.issuedToolCalls = h.issuedToolCalls := by
  unfold checkIterationCap
  split <;> simp

@[simp] theorem remainingBudget_issued :
    h.remainingBudget.2.issuedToolCalls = h.issuedToolCalls := by
  unfold remainingBudget
  split <;> rfl

@[simp] theorem checkDeadline_issued : h.checkDeadline.2.issuedToolCalls = h.issuedToolCalls := by
  unfold checkDeadline
  split
  · rfl
  · simp only
    split
    · exact recordEvent_issued _ _ _
    · rfl

/-! ### Silent methods -/

theorem utcNow_grows : Grows h h.utcNow.2 [] [] := .silent rfl rfl rfl rfl

theorem elapsed_grows : Grows h h.elapsed.2 [] [] := .silent rfl rfl rfl rfl

theorem newMessage_grows (role : Role) : Grows h (h.newMessage role).2 [] [] := h.utcNow_grows

theorem recordUsage_grows (resp : CompletionResponse) : Grows h (h.recordUsage resp) [] [] := by
  unfold recordUsage
  refine .after (mirror_grows _ _ fun _ => rfl) (.after (elapsed_grows _) ?_)
  exact .silent rfl rfl rfl rfl

theorem remainingBudget_grows : Grows h h.remainingBudget.2 [] [] := by
  unfold remainingBudget
  split
  · exact .refl h
  · exact h.elapsed_grows

theorem checkDeadline_grows : Grows h h.checkDeadline.2 [] [] := by
  unfold checkDeadline
  split
  · exact .refl h
  · simp only
    split
    · exact .before h.elapsed_grows (recordEvent_grows _ _ _)
    · exact h.elapsed_grows

theorem finalize_grows (output : String) (status : OutcomeStatus) :
    Grows h (h.finalize output status).2 [] [] := h.elapsed_grows

/-- The outcome carries the whole transcript. -/
theorem finalize_messages (output : String) (status : OutcomeStatus) :
    (h.finalize output status).1.messages = h.messages := rfl

/-! ### Methods that add a row -/

theorem pushMessage_grows (role : Role) (content : Option String) :
    ∃ m, Grows h (h.pushMessage role content none) [m] [] ∧ m.IsText role ∧
      m.content = content := by
  refine ⟨_, .after (append_grows _ _ ?_) (h.newMessage_grows role), ?_, rfl⟩
  · rfl
  · exact ⟨rfl, rfl, rfl, rfl⟩

theorem pushUserMessage_grows (content : String) :
    ∃ m, Grows h (h.pushUserMessage content) [m] [] ∧ m.IsText .user ∧
      m.content = some content :=
  h.pushMessage_grows .user (some content)

theorem pushEmptyTurnNudge_grows :
    ∃ m, Grows h h.pushEmptyTurnNudge [m] [] ∧ m.IsText .user ∧
      m.content = some emptyTurnNudge := by
  obtain ⟨m, g, hm, hcontent⟩ := h.pushUserMessage_grows emptyTurnNudge
  exact ⟨m, g.before (recordEvent_grows _ _ _), hm, hcontent⟩

/-- The rows a conversation starts with: one system row at most, then the input. -/
def IsOpening (ctx : ExecutionContext σ) (rows : List Message) : Prop :=
  ∃ sys user, rows = sys ++ [user] ∧ (∀ m ∈ sys, m.IsText .system) ∧ user.IsText .user ∧
    user.content = some ctx.input

theorem seedMessages_opens :
    ∃ seed, Grows h h.seedMessages seed [] ∧ IsOpening h.ctx seed := by
  unfold seedMessages
  simp only
  split
  · obtain ⟨u, g, hu, hcontent⟩ := h.pushMessage_grows .user (some h.ctx.input)
    exact ⟨[u], g, [], u, rfl, by simp, hu, hcontent⟩
  · obtain ⟨s, g, hs, -⟩ := h.pushMessage_grows .system (some ("\n".intercalate h.systemParts))
    obtain ⟨u, g', hu, hcontent⟩ := pushMessage_grows
      (h.pushMessage .system (some ("\n".intercalate h.systemParts)) none) .user
      (some (h.pushMessage .system (some ("\n".intercalate h.systemParts)) none).ctx.input)
    refine ⟨[s, u], g.trans g', [s], u, rfl, by simpa using hs, hu, ?_⟩
    rw [hcontent, g.ctx]

/-- The seed of a conversation: one system row at most, then the input. -/
theorem seedMessages_grows :
    ∃ seed, Grows h h.seedMessages seed [] ∧ seed ≠ [] ∧
      ∀ m ∈ seed, m.IsText .system ∨ m.IsText .user := by
  obtain ⟨seed, g, sys, user, rfl, hsys, huser, -⟩ := h.seedMessages_opens
  refine ⟨_, g, by simp, ?_⟩
  intro m hm
  rcases List.mem_append.mp hm with hm | hm
  · exact .inl (hsys m hm)
  · rw [List.mem_singleton.mp hm]
    exact .inr huser

theorem pushCallRow_grows (tc : ToolCall) :
    ∃ m, Grows h (h.pushCallRow tc) [m] [] ∧ m.TellsCall tc := by
  refine ⟨_, .after (append_grows _ _ ?_) (h.newMessage_grows .assistant), ?_⟩
  · rfl
  · exact ⟨⟨rfl, rfl, rfl, rfl⟩, rfl⟩

theorem foldl_pushCallRow_grows (calls : List ToolCall) :
    ∃ rows, Grows h (calls.foldl pushCallRow h) rows [] ∧
      List.Forall₂ Message.TellsCall calls rows := by
  induction calls generalizing h with
  | nil => exact ⟨[], .refl h, .nil⟩
  | cons tc calls ih =>
    obtain ⟨m, g, hm⟩ := h.pushCallRow_grows tc
    obtain ⟨rows, g', hrows⟩ := ih (h.pushCallRow tc)
    exact ⟨m :: rows, g.trans g', .cons hm hrows⟩

/-- The rows of one reply: its calls, or one assistant row with its text. -/
def ReplyRows (resp : CompletionResponse) (rows : List Message) : Prop :=
  if resp.toolCalls = [] then ∃ m, rows = [m] ∧ m.IsText .assistant
  else List.Forall₂ Message.IsCall resp.toolCalls rows

/-- The rows of one reply, with what they say.  The text of a reply with calls is in none of them. -/
def ReplyTold (resp : CompletionResponse) (rows : List Message) : Prop :=
  if resp.toolCalls = [] then
    ∃ m, rows = [m] ∧ m.IsText .assistant ∧ m.content = some (resp.content.getD "")
  else List.Forall₂ Message.TellsCall resp.toolCalls rows

theorem ReplyTold.replyRows {resp : CompletionResponse} {rows : List Message}
    (h : ReplyTold resp rows) : ReplyRows resp rows := by
  unfold ReplyTold at h
  unfold ReplyRows
  split
  · rw [if_pos ‹_›] at h
    obtain ⟨m, hrows, hm, -⟩ := h
    exact ⟨m, hrows, hm⟩
  · rw [if_neg ‹_›] at h
    exact h.imp fun _ _ hm => hm.toIsCall

theorem recordAssistantResponse_grows (resp : CompletionResponse) :
    ∃ rows, Grows h (h.recordAssistantResponse resp) rows [] ∧ ReplyTold resp rows := by
  unfold recordAssistantResponse ReplyTold
  by_cases hc : resp.toolCalls = []
  · obtain ⟨m, g, hm, hcontent⟩ := h.pushMessage_grows .assistant (some (resp.content.getD ""))
    simp only [hc, List.isEmpty_nil, if_true]
    exact ⟨[m], g, m, rfl, hm, hcontent⟩
  · simp only [List.isEmpty_iff, hc, if_false]
    exact h.foldl_pushCallRow_grows resp.toolCalls

theorem pushToolResult_grows (tc : ToolCall) (output : ToolOutput) :
    ∃ m, Grows h (h.pushToolResult tc output).2 [m] [] ∧ m.IsAnswer tc ∧
      ∀ s, output = .text s → m.content = some s := by
  refine ⟨_, .after (append_grows _ _ ?_) (h.newMessage_grows .tool), ?_, ?_⟩
  · rfl
  · exact ⟨rfl, rfl, rfl, rfl⟩
  · rintro s rfl
    rfl

theorem pushToolError_grows (tc : ToolCall) (err : ToolError) :
    ∃ m, Grows h (h.pushToolError tc err) [m] [] ∧ m.IsAnswer tc := by
  refine ⟨_, .before (.after (append_grows _ _ ?_) (h.newMessage_grows .tool))
    (recordEvent_grows _ _ _), ?_⟩
  · rfl
  · exact ⟨rfl, rfl, rfl, rfl⟩

/-! ### Turns -/

/-- A request of the harness: it carries the transcript `ms`, and no provider parameters. -/
structure Carries (ms : List Message) (req : CompletionRequest) : Prop where
  messages : req.messages = ms
  params : req.params = .null

/-- What a turn with an accepted reply comes to: the reply's rows, and the turn result that the
reply's calls and text decide. -/
def TurnOf (resp : CompletionResponse) : TurnResult → Prop
  | .toolCalls calls => calls = resp.toolCalls ∧ resp.toolCalls ≠ []
  | .assistantText _ => resp.toolCalls = []
  | .empty => resp.toolCalls = []

/-- What a turn result says about the reply it was made of. -/
def TurnReads (resp : CompletionResponse) : TurnResult → Prop
  | .toolCalls calls => calls = resp.toolCalls ∧ resp.toolCalls ≠ []
  | .assistantText text => resp.toolCalls = [] ∧ text = resp.content.getD "" ∧
    Text.isBlank text = false
  | .empty => resp.toolCalls = [] ∧ Text.isBlank (resp.content.getD "") = true

theorem TurnReads.turnOf {resp : CompletionResponse} {t : TurnResult} (h : TurnReads resp t) :
    TurnOf resp t := by
  cases t with
  | toolCalls calls => exact h
  | assistantText text => exact h.1
  | empty => exact h.1

/-- The reply `resp` was taken into the transcript of `h`, with the calls it issues. -/
structure Takes (h h' : LoopHarness σ) (resp : CompletionResponse) (rows : List Message)
    (calls : List Effect) : Prop where
  whole : resp.finishReason ≠ "length"
  grows : Grows h h' rows calls
  told : ReplyTold resp rows
  issued : h'.issuedToolCalls = h.issuedToolCalls ++ resp.toolCalls

/-- **An accepted reply** is taken into the transcript; a truncated one leaves nothing there. -/
theorem acceptResponse_takes (model : String) (resp : CompletionResponse) :
    (resp.finishReason = "length" ∧ ∃ e h', h.acceptResponse model resp = (.err e, h') ∧
      Rests h h' [] []) ∨
    (∃ t h' rows, h.acceptResponse model resp = (.ok t, h') ∧ Takes h h' resp rows [] ∧
      TurnReads resp t) := by
  unfold acceptResponse
  have hrests : Rests h ((h.recordEvent .llmResponse (h.responsePayload resp)).recordUsage resp)
      [] [] := ⟨(recordEvent_grows _ _ _).before (recordUsage_grows _ _), by simp⟩
  by_cases hlen : resp.finishReason = "length"
  · left
    -- truncated: the reply leaves no row
    simp only [hlen, if_pos]
    exact ⟨trivial, _, _, rfl, hrests⟩
  · right
    simp only [if_neg hlen]
    generalize (h.recordEvent .llmResponse (h.responsePayload resp)).recordUsage resp = h₁ at hrests
    obtain ⟨rows, g, hrows⟩ := recordAssistantResponse_grows h₁ resp
    have hg := g.after hrests.grows
    have hissued : (h₁.recordAssistantResponse resp).issuedToolCalls = h.issuedToolCalls := by
      rw [recordAssistantResponse_issued, hrests.issued]
    by_cases hc : resp.toolCalls = []
    · have htakes : Takes h (h₁.recordAssistantResponse resp) resp rows [] :=
        ⟨hlen, hg, hrows, by rw [hissued, hc, List.append_nil]⟩
      rw [if_pos (by simp [hc])]
      cases hblank : Text.isBlank (resp.content.getD "") with
      | true =>
        rw [if_pos rfl]
        exact ⟨_, _, rows, rfl, htakes, hc, hblank⟩
      | false =>
        rw [if_neg (by simp)]
        exact ⟨_, _, rows, rfl, htakes, hc, rfl, hblank⟩
    · rw [if_neg (by simpa using hc)]
      refine ⟨_, _, rows, rfl, ⟨hlen, .before ?_ (mirror_grows _ _ fun _ => rfl), hrows, ?_⟩, rfl, hc⟩
      · exact ⟨hg.ctx, hg.messages, hg.stamped, hg.effects, hg.sink⟩
      · rw [mirror_issued, hissued]

theorem acceptResponse_cases (model : String) (resp : CompletionResponse) :
    (∃ e h', h.acceptResponse model resp = (.err e, h') ∧ Grows h h' [] []) ∨
    (∃ t h' rows, h.acceptResponse model resp = (.ok t, h') ∧ Grows h h' rows [] ∧
      ReplyRows resp rows ∧ TurnOf resp t) := by
  rcases h.acceptResponse_takes model resp with
    ⟨-, e, h', heq, r⟩ | ⟨t, h', rows, heq, htakes, hreads⟩
  · exact .inl ⟨e, h', heq, r.grows⟩
  · exact .inr ⟨t, h', rows, heq, htakes.grows, htakes.told.replyRows, hreads.turnOf⟩

/-- The request an executor makes of a transcript, under its context. -/
def requestFor (ctx : ExecutionContext σ) (model : String) (ms : List Message) :
    CompletionRequest where
  messages := ms
  tools := ctx.tools.names.filterMap fun name =>
    (ctx.tools.get name).map fun tool => { name := name, description := "", schema := tool.schema }
  model := some model
  temperature := none
  maxTokens := none
  params := .null

omit [Platform σ] in
theorem requestFor_carries (ctx : ExecutionContext σ) (model : String) (ms : List Message) :
    Carries ms (requestFor ctx model ms) := ⟨rfl, rfl⟩

omit [Platform σ] in
/-- Asking a provider takes nothing into the transcript but the calls it makes: none, or one whose
answer is no reply, or a truncated one. -/
def LostCall (ctx : ExecutionContext σ) (model : String) (ms : List Message)
    (calls : List Effect) : Prop :=
  calls = [] ∨ ∃ answer, calls = [.llm (requestFor ctx model ms) answer] ∧
    ∀ resp, answer = .ready (.ok resp) → resp.finishReason = "length"

/-- **One turn**: the request holds the transcript as it stands.  Either the turn ends the run
without a row, before or after the request was sent, or the provider's reply is taken. -/
theorem oneLlmTurnWith_takes (provider : LlmProvider σ) :
    (∃ f h' calls, h.oneLlmTurnWith provider = (f, h') ∧ Rests h h' [] calls ∧
      (∀ t, f ≠ .ok t) ∧ LostCall h.ctx provider.modelName h.messages calls) ∨
    (∃ t h' rows resp, h.oneLlmTurnWith provider = (.ok t, h') ∧ Takes h h' resp rows
      [.llm (requestFor h.ctx provider.modelName h.messages) (.ready (.ok resp))] ∧
      TurnReads resp t) := by
  unfold oneLlmTurnWith
  have ri : Rests h h.checkInterrupt.2 [] [] := ⟨h.checkInterrupt_grows, by simp⟩
  rcases hi : h.checkInterrupt with ⟨_ | _, h₁⟩
  · exact .inl ⟨_, _, [], rfl, by simpa [hi] using ri, by simp, .inl rfl⟩
  rw [hi] at ri
  simp only
  -- the request is built before anything is recorded, so it carries the rows of `h`
  have hreq : h₁.buildRequest provider.modelName =
      requestFor h.ctx provider.modelName h.messages := by
    rw [buildRequest, ri.grows.messages, ri.grows.ctx, List.append_nil]
    rfl
  generalize h₁.buildRequest provider.modelName = req at hreq
  have re : Rests h (h₁.recordEvent .llmRequest (h₁.requestPayload provider.modelName req)) [] [] :=
    ri.before ⟨recordEvent_grows _ _ _, by simp⟩
  generalize h₁.recordEvent .llmRequest (h₁.requestPayload provider.modelName req) = h₂ at re
  have rb : Rests h h₂.remainingBudget.2 [] [] :=
    re.before ⟨h₂.remainingBudget_grows, by simp⟩
  generalize h₂.remainingBudget.2 = h₃ at rb
  generalize h₂.remainingBudget.1 = wait
  have rc : Rests h (h₃.awaitComplete provider req wait).2 [] _ :=
    .after ⟨h₃.awaitComplete_grows provider req wait, rfl⟩ rb
  rcases hc : h₃.awaitComplete provider req wait with ⟨answer, h₄⟩
  simp only [hc] at rc
  -- an answer without a reply is lost
  have lost : (∀ resp, answer = .ready (.ok resp) → resp.finishReason = "length") →
      LostCall h.ctx provider.modelName h.messages [.llm req answer] :=
    fun hanswer => .inr ⟨answer, by rw [hreq], hanswer⟩
  match answer with
  | .ready (.ok resp) =>
    rcases h₄.acceptResponse_takes provider.modelName resp with
      ⟨hlen, e, h₅, heq, r⟩ | ⟨t, h₅, rows, heq, htakes, hreads⟩
    · refine .inl ⟨_, h₅, _, heq, rc.before r, by simp, lost ?_⟩
      rintro resp' ⟨⟩
      exact hlen
    · refine .inr ⟨t, h₅, rows, resp, heq, ⟨htakes.whole, ?_, htakes.told, ?_⟩, hreads⟩
      · rw [← hreq]
        simpa using rc.grows.trans htakes.grows
      · rw [htakes.issued, rc.issued]
  | .ready (.error e) => exact .inl ⟨_, h₄, _, rfl, rc, by simp, lost (by simp)⟩
  | .panicked p => exact .inl ⟨_, h₄, _, rfl, rc, by simp, lost (by simp)⟩
  | .pending =>
    cases wait with
    | none => exact .inl ⟨_, h₄, _, rfl, rc, by simp, lost (by simp)⟩
    | some w =>
      refine .inl ⟨_, _, _, rfl, ?_, by simp, lost (by simp)⟩
      exact (rc.before ⟨h₄.elapsed_grows, rfl⟩).before ⟨recordEvent_grows _ _ _, by simp⟩

theorem oneLlmTurnWith_cases (provider : LlmProvider σ) :
    (∃ f h' calls, h.oneLlmTurnWith provider = (f, h') ∧ Grows h h' [] calls ∧
      (∀ t, f ≠ .ok t) ∧
      (calls = [] ∨ ∃ req answer, calls = [.llm req answer] ∧ Carries h.messages req)) ∨
    (∃ t h' rows req resp, h.oneLlmTurnWith provider = (.ok t, h') ∧
      Grows h h' rows [.llm req (.ready (.ok resp))] ∧ Carries h.messages req ∧
      ReplyRows resp rows ∧ TurnOf resp t) := by
  have hcarries := requestFor_carries h.ctx provider.modelName h.messages
  rcases h.oneLlmTurnWith_takes provider with
    ⟨f, h', calls, heq, r, hf, hlost⟩ | ⟨t, h', rows, resp, heq, htakes, hreads⟩
  · refine .inl ⟨f, h', calls, heq, r.grows, hf, hlost.imp_right ?_⟩
    rintro ⟨answer, hcalls, -⟩
    exact ⟨_, answer, hcalls, hcarries⟩
  · exact .inr ⟨t, h', rows, _, resp, heq, htakes.grows, hcarries, htakes.told.replyRows,
      hreads.turnOf⟩

/-! ### Tool dispatch -/

/-- Whether an effect is a tool run. -/
def IsToolRun (e : Effect) : Prop := ∃ tc toolCtx answer, e = .tool tc toolCtx answer

theorem settleToolCall_cases (tc : ToolCall) (result : Except ToolError ToolOutput) :
    (∃ msg h' row, h.settleToolCall tc result = (.ok msg, h') ∧ Rests h h' [row] [] ∧
      row.IsAnswer tc) ∨
    (∃ te h', h.settleToolCall tc result = (.err (.tool te), h') ∧ Rests h h' [] []) := by
  cases result with
  | ok output =>
    left
    simp only [settleToolCall]
    generalize (if h.ctx.traceLevel.shouldPersistRawPayloads = true then
      (Value.obj [("tool", .string tc.name), ("call_id", .string tc.id), ("ok", .bool true)]).set
        "output" (outputValue output) else
      Value.obj [("tool", .string tc.name), ("call_id", .string tc.id), ("ok", .bool true)])
      = payload
    obtain ⟨row, g, hrow, -⟩ := (h.recordEvent .toolEnd payload).pushToolResult_grows tc output
    exact ⟨_, _, row, rfl, ⟨.after g (recordEvent_grows _ _ _), by simp⟩, hrow⟩
  | error e => exact .inr ⟨e, h, rfl, .refl h⟩

omit [Platform σ] in
/-- What a tool is told of the run that calls it. -/
def toolCtxOf (ctx : ExecutionContext σ) : ToolCtx :=
  { executionId := ctx.executionId, callerRole := ctx.callerRole, agentName := some ctx.agentName }

omit [Platform σ] in
/-- Whether a call gets to its tool: it is not refused, and there is such a tool. -/
def getsToTool (tools : ToolRegistry σ) (issued : List ToolCall) (tc : ToolCall) : Bool :=
  (repeatedCallRefusal issued tc).isNone && (tools.get tc.name).isSome

omit [Platform σ] in
/-- The effects of the calls that get to their tools: one run of the tool each, in order. -/
def RunsOf (ctx : ExecutionContext σ) (calls : List ToolCall) (runs : List Effect) : Prop :=
  List.Forall₂ (fun tc e => ∃ tool env, ctx.tools.get tc.name = some tool ∧
    e = .tool tc (toolCtxOf ctx) (tool.run tc.args (toolCtxOf ctx) env).1) calls runs

omit [Platform σ] in
/-- The row that answers a call, which says so when the call was refused. -/
structure Answers (issued : List ToolCall) (tc : ToolCall) (m : Message) : Prop extends
    m.IsAnswer tc where
  refused : ∀ refusal, repeatedCallRefusal issued tc = some refusal → m.content = some refusal

omit [Platform σ] in
theorem RunsOf.isToolRun {ctx : ExecutionContext σ} {calls : List ToolCall} {runs : List Effect}
    (h : RunsOf ctx calls runs) : ∀ e ∈ runs, IsToolRun e := by
  induction h with
  | nil => simp
  | @cons tc _ _ _ hrun _ ih =>
    obtain ⟨tool, env, -, rfl⟩ := hrun
    exact List.forall_mem_cons.mpr ⟨⟨tc, _, _, rfl⟩, ih⟩

/-- **One dispatch**: the call is answered with one row, after its tool ran if it got to it, or a tool
error is returned and no row is added, or the tool never returns. -/
theorem dispatchToolCall_answers (tc : ToolCall) :
    (∃ msg h' row runs, h.dispatchToolCall tc = (.ok msg, h') ∧ Rests h h' [row] runs ∧
      Answers h.issuedToolCalls tc row ∧
      RunsOf h.ctx ([tc].filter (getsToTool h.ctx.tools h.issuedToolCalls)) runs) ∨
    (∃ te h' runs, h.dispatchToolCall tc = (.err (.tool te), h') ∧ Rests h h' [] runs ∧
      repeatedCallRefusal h.issuedToolCalls tc = none ∧
      RunsOf h.ctx ([tc].filter (getsToTool h.ctx.tools h.issuedToolCalls)) runs) ∨
    (∃ h' runs, h.dispatchToolCall tc = (.suspended, h') ∧ Rests h h' [] runs ∧
      getsToTool h.ctx.tools h.issuedToolCalls tc = true ∧ RunsOf h.ctx [tc] runs) := by
  unfold dispatchToolCall
  cases hrefusal : repeatedCallRefusal h.issuedToolCalls tc with
  | some refusal =>
    have hstay : [tc].filter (getsToTool h.ctx.tools h.issuedToolCalls) = [] := by
      simp [getsToTool, hrefusal]
    simp only
    obtain ⟨row, g, hrow, hcontent⟩ := pushToolResult_grows
      (h.recordEvent .repeatedToolCall (.obj [("tool", .string tc.name),
        ("call_id", .string tc.id)])) tc (.text refusal)
    refine .inl ⟨_, _, row, [], rfl, ⟨.after g (recordEvent_grows _ _ _), by simp⟩, ⟨hrow, ?_⟩, ?_⟩
    · rintro refusal' heq
      obtain rfl := Option.some.inj (hrefusal.symm.trans heq)
      exact hcontent _ rfl
    · rw [hstay]
      exact .nil
  | none =>
    have hanswers : ∀ row : Message, row.IsAnswer tc → Answers h.issuedToolCalls tc row := by
      intro row hrow
      exact ⟨hrow, by simp [hrefusal]⟩
    cases htool : h.ctx.tools.get tc.name with
    | none =>
      refine .inr (.inl ⟨_, h, [], rfl, .refl h, rfl, ?_⟩)
      have hstay : [tc].filter (getsToTool h.ctx.tools h.issuedToolCalls) = [] := by
        simp [getsToTool, htool]
      rw [hstay]
      exact .nil
    | some tool =>
      have hgets : getsToTool h.ctx.tools h.issuedToolCalls tc = true := by
        simp [getsToTool, hrefusal, htool]
      have hfilter : [tc].filter (getsToTool h.ctx.tools h.issuedToolCalls) = [tc] := by
        simp [hgets]
      simp only [hfilter]
      rw [show ToolCtx.mk h.ctx.executionId h.ctx.callerRole (some h.ctx.agentName) =
        toolCtxOf h.ctx from rfl]
      generalize hstart : h.recordEvent .toolStart _ = h₁
      have rs : Rests h h₁ [] [] := hstart ▸ ⟨recordEvent_grows _ _ _, by simp⟩
      have ra : Rests h (h₁.awaitTool tool tc (toolCtxOf h.ctx)).2 [] _ :=
        .after ⟨h₁.awaitTool_grows tool tc (toolCtxOf h.ctx), rfl⟩ rs
      rcases hc : h₁.awaitTool tool tc (toolCtxOf h.ctx) with ⟨answer, h₂⟩
      simp only [hc] at ra
      have hanswer : (tool.run tc.args (toolCtxOf h.ctx) h₁.world.env).1 = answer :=
        congrArg Prod.fst hc
      have hruns : RunsOf h.ctx [tc] [.tool tc (toolCtxOf h.ctx) answer] :=
        .cons ⟨tool, h₁.world.env, htool, by rw [hanswer]⟩ .nil
      -- a tool that returns and one that panics are settled the same way
      have settled : ∀ result : Except ToolError ToolOutput,
          (∃ msg h' row runs, h₂.settleToolCall tc result = (.ok msg, h') ∧
            Rests h h' [row] runs ∧ Answers h.issuedToolCalls tc row ∧ RunsOf h.ctx [tc] runs) ∨
          (∃ te h' runs, h₂.settleToolCall tc result = (.err (.tool te), h') ∧
            Rests h h' [] runs ∧ RunsOf h.ctx [tc] runs) := by
        intro result
        rcases h₂.settleToolCall_cases tc result with ⟨msg, h₃, row, heq, r, hrow⟩ | ⟨te, h₃, heq, r⟩
        · exact .inl ⟨msg, h₃, row, _, heq, by simpa using ra.trans r, hanswers row hrow, hruns⟩
        · exact .inr ⟨te, h₃, _, heq, ra.before r, hruns⟩
      match answer with
      | .ready result =>
        refine (settled result).imp_right fun hfailed => .inl ?_
        obtain ⟨te, h₃, runs, heq, r, hrun⟩ := hfailed
        exact ⟨te, h₃, runs, heq, r, trivial, hrun⟩
      | .panicked p =>
        refine (settled _).imp_right fun hfailed => .inl ?_
        obtain ⟨te, h₃, runs, heq, r, hrun⟩ := hfailed
        exact ⟨te, h₃, runs, heq, r, trivial, hrun⟩
      | .pending => exact .inr (.inr ⟨h₂, _, rfl, ra, hgets, hruns⟩)

theorem dispatchToolCall_cases (tc : ToolCall) :
    (∃ msg h' row calls, h.dispatchToolCall tc = (.ok msg, h') ∧ Grows h h' [row] calls ∧
      row.IsAnswer tc ∧ ∀ e ∈ calls, IsToolRun e) ∨
    (∃ te h' calls, h.dispatchToolCall tc = (.err (.tool te), h') ∧ Grows h h' [] calls ∧
      ∀ e ∈ calls, IsToolRun e) ∨
    (∃ h' calls, h.dispatchToolCall tc = (.suspended, h') ∧ Grows h h' [] calls ∧
      ∀ e ∈ calls, IsToolRun e) := by
  rcases h.dispatchToolCall_answers tc with ⟨msg, h', row, runs, heq, r, hrow, hruns⟩ |
    ⟨te, h', runs, heq, r, -, hruns⟩ | ⟨h', runs, heq, r, -, hruns⟩
  · exact .inl ⟨msg, h', row, runs, heq, r.grows, hrow.toIsAnswer, hruns.isToolRun⟩
  · exact .inr (.inl ⟨te, h', runs, heq, r.grows, hruns.isToolRun⟩)
  · exact .inr (.inr ⟨h', runs, heq, r.grows, hruns.isToolRun⟩)

end LoopHarness

end PgSynapse

import PgSynapse.Executor.Equiv.Spend
import PgSynapse.Executor.Equiv.Executors
import PgSynapse.Executor.Equiv.Answer

/-!
# The grammar of a trace

The events of a conversation or ReAct run are those of its turns, one after the other, and then those
of the way it ends (`RunTrace`).  A turn that goes on is a request, its response, and one group of
events for each call of the reply; a turn that ends the run breaks off in between.  What the harness
methods record is said by `Traces`, and the run's trace is put together from the passes of the loop
(`trace_grammar`).
-/

namespace PgSynapse

open LoopHarness

variable {σ : Type}

/-! ### The grammar -/

/-- The payload of an event names the tool and the id of a call. -/
def ExecutionEvent.Names (ev : ExecutionEvent) (tc : ToolCall) : Prop :=
  ev.payload.get? "tool" = some (.string tc.name) ∧
    ev.payload.get? "call_id" = some (.string tc.id)

/-- The kinds of the events of one call. -/
inductive CallKinds (tools : ToolRegistry σ) (tc : ToolCall) : List EventKind → Prop
  | repeated : CallKinds tools tc [.repeatedToolCall]
  | ended : CallKinds tools tc [.toolStart, .toolEnd]
  | failed : CallKinds tools tc [.toolStart, .toolError]
  | unknown (hunknown : tools.get tc.name = none) : CallKinds tools tc [.toolError]

/-- The events of one call, each of which names it. -/
structure CallTrace (tools : ToolRegistry σ) (tc : ToolCall) (es : List ExecutionEvent) :
    Prop where
  kinds : CallKinds tools tc (es.map ExecutionEvent.kind)
  named : ∀ ev ∈ es, ev.Names tc

/-- A request and its response. -/
def Opening (es : List ExecutionEvent) : Prop :=
  es.map ExecutionEvent.kind = [.llmRequest, .llmResponse]

/-- The events of a turn with the reply `resp` after which the run goes on. -/
inductive TurnTrace (tools : ToolRegistry σ) (resp : CompletionResponse) :
    List ExecutionEvent → Prop
  | empty {opening : List ExecutionEvent} {ev : ExecutionEvent} (hopening : Opening opening)
    (hcalls : resp.toolCalls = []) (hblank : Text.isBlank (resp.content.getD "") = true)
    (hev : ev.kind = .emptyTurn) :
    TurnTrace tools resp (opening ++ [ev])
  | calls {opening : List ExecutionEvent} {groups : List (List ExecutionEvent)}
    (hopening : Opening opening) (hcalls : resp.toolCalls ≠ [])
    (hgroups : List.Forall₂ (CallTrace tools) resp.toolCalls groups) :
    TurnTrace tools resp (opening ++ groups.flatten)

/-- The events after the last turn that goes on: a limit between two turns, or the turn that ends the
run. -/
inductive LastTrace : List CompletionResponse → List ExecutionEvent → Prop
  | between : LastTrace [] []
  | limit {ev : ExecutionEvent} (hev : ev.kind = .iterationCapCheck ∨ ev.kind = .timeoutCheck) :
    LastTrace [] [ev]
  | unanswered {ev : ExecutionEvent} (hev : ev.kind = .llmRequest) : LastTrace [] [ev]
  | late {es : List ExecutionEvent}
    (hes : es.map ExecutionEvent.kind = [.llmRequest, .timeoutCheck]) : LastTrace [] es
  | answered {resp : CompletionResponse} {es : List ExecutionEvent} (hes : Opening es)
    (hresp : resp.finishReason = "length" ∨
      resp.toolCalls = [] ∧ Text.isBlank (resp.content.getD "") = false) : LastTrace [resp] es

/-- A turn that hangs in one of its calls, which has only started. -/
inductive HungTrace (tools : ToolRegistry σ) : List CompletionResponse → List ExecutionEvent → Prop
  | hung {resp : CompletionResponse} {done rest : List ToolCall} {tc : ToolCall}
    {opening : List ExecutionEvent} {groups : List (List ExecutionEvent)} {ev : ExecutionEvent}
    (hopening : Opening opening) (hcalls : resp.toolCalls = done ++ tc :: rest)
    (hgroups : List.Forall₂ (CallTrace tools) done groups) (hev : ev.kind = .toolStart)
    (hnames : ev.Names tc) : HungTrace tools [resp] (opening ++ groups.flatten ++ [ev])

/-- The events of a run with the given replies, of which `Last` says how it ends. -/
inductive RunTrace (tools : ToolRegistry σ)
    (Last : List CompletionResponse → List ExecutionEvent → Prop) :
    List CompletionResponse → List ExecutionEvent → Prop
  | last {replies : List CompletionResponse} {es : List ExecutionEvent} (hlast : Last replies es) :
    RunTrace tools Last replies es
  | turn {resp : CompletionResponse} {replies : List CompletionResponse}
    {es es' : List ExecutionEvent} (hturn : TurnTrace tools resp es)
    (hrest : RunTrace tools Last replies es') : RunTrace tools Last (resp :: replies) (es ++ es')

/-! ### Starts and ends -/

/-- No more calls started than came to an end. -/
def Balanced (es : List ExecutionEvent) : Prop :=
  es.countP (fun ev => ev.kind = .toolStart) ≤
    es.countP (fun ev => ev.kind = .toolEnd ∨ ev.kind = .toolError)

theorem Balanced.append {es es' : List ExecutionEvent} (hs : Balanced es) (hs' : Balanced es') :
    Balanced (es ++ es') := by
  unfold Balanced at *
  rw [List.countP_append, List.countP_append]
  omega

/-- The kinds alone decide. -/
theorem balanced_of_kinds {es : List ExecutionEvent} {kinds : List EventKind}
    (hkinds : es.map ExecutionEvent.kind = kinds)
    (hle : kinds.countP (· = .toolStart) ≤ kinds.countP fun k => k = .toolEnd ∨ k = .toolError) :
    Balanced es := by
  subst hkinds
  simpa [Balanced, List.countP_map, Function.comp_def] using hle

theorem Opening.balanced {es : List ExecutionEvent} (hopening : Opening es) : Balanced es :=
  balanced_of_kinds hopening (by decide)

theorem LastTrace.balanced {replies : List CompletionResponse} {es : List ExecutionEvent}
    (hlast : LastTrace replies es) : Balanced es := by
  cases hlast with
  | between => exact le_rfl
  | limit hev => rcases hev with hev | hev <;> simp [Balanced, hev]
  | unanswered hev => simp [Balanced, hev]
  | late hes => exact balanced_of_kinds hes (by decide)
  | answered hes => exact hes.balanced

variable {tools : ToolRegistry σ}

theorem CallTrace.balanced {tc : ToolCall} {es : List ExecutionEvent}
    (hcall : CallTrace tools tc es) : Balanced es := by
  refine balanced_of_kinds rfl ?_
  have hkinds := hcall.kinds
  generalize es.map ExecutionEvent.kind = kinds at hkinds
  cases hkinds <;> decide

theorem balanced_calls {calls : List ToolCall} {groups : List (List ExecutionEvent)}
    (hgroups : List.Forall₂ (CallTrace tools) calls groups) : Balanced groups.flatten := by
  induction hgroups with
  | nil => exact le_rfl
  | cons hcall _ ih => exact hcall.balanced.append ih

theorem TurnTrace.balanced {resp : CompletionResponse} {es : List ExecutionEvent}
    (hturn : TurnTrace tools resp es) : Balanced es := by
  cases hturn with
  | empty hopening _ _ hev => exact hopening.balanced.append (by simp [Balanced, hev])
  | calls hopening _ hgroups => exact hopening.balanced.append (balanced_calls hgroups)

/-- In the grammar without hanging turns every call that started came to an end. -/
theorem RunTrace.balanced {replies : List CompletionResponse} {es : List ExecutionEvent}
    (hrun : RunTrace tools LastTrace replies es) : Balanced es := by
  induction hrun with
  | last hlast => exact hlast.balanced
  | turn hturn _ ih => exact hturn.balanced.append ih

/-! ### What the harness records -/

namespace LoopHarness

/-- What a piece of an executor records between `h` and `h'`. -/
structure Traces (h h' : LoopHarness σ) (es : List ExecutionEvent) (calls : List Effect) : Prop where
  ctx : h'.ctx = h.ctx
  events : h'.events = h.events ++ es
  effects : h'.world.effects = h.world.effects ++ calls

namespace Traces

variable {h h₁ h₂ : LoopHarness σ} {es es' : List ExecutionEvent} {calls calls' : List Effect}

theorem refl (h : LoopHarness σ) : Traces h h [] [] := ⟨rfl, by simp, by simp⟩

theorem trans (t : Traces h h₁ es calls) (t' : Traces h₁ h₂ es' calls') :
    Traces h h₂ (es ++ es') (calls ++ calls') :=
  ⟨t'.ctx.trans t.ctx, by rw [t'.events, t.events, List.append_assoc],
    by rw [t'.effects, t.effects, List.append_assoc]⟩

/-- A piece that records nothing before another. -/
theorem after (t' : Traces h₁ h₂ es calls) (t : Traces h h₁ [] []) : Traces h h₂ es calls :=
  t.trans t'

/-- A piece that records nothing after another. -/
theorem before (t : Traces h h₁ es calls) (t' : Traces h₁ h₂ [] []) : Traces h h₂ es calls := by
  simpa using t.trans t'

end Traces

variable (h : LoopHarness σ)

theorem mirror_traces (f : ExecutorOutcome → ExecutorOutcome) : Traces h (h.mirror f) [] [] := by
  unfold mirror
  split
  · exact ⟨rfl, by simp, by simp⟩
  · exact .refl h

theorem env_traces (env : σ) :
    Traces h { h with world := { h.world with env := env } } [] [] := ⟨rfl, by simp, by simp⟩

theorem recordEvent_traces (kind : EventKind) (payload : Value) :
    Traces h (h.recordEvent kind payload) [⟨kind, payload⟩] [] := by
  have t := h.mirror_traces fun o => { o with events := o.events ++ [⟨kind, payload⟩] }
  exact ⟨t.ctx, by simp [recordEvent, t.events], t.effects⟩

theorem append_traces (msg : Message) : Traces h (h.append msg) [] [] := by
  have t := mirror_traces { h with seq := h.seq + 1 } fun o =>
    { o with messages := o.messages ++ [{ msg with seq := h.seq }] }
  exact ⟨t.ctx, t.events, t.effects⟩

theorem bumpIteration_traces : Traces h h.bumpIteration [] [] :=
  ⟨rfl, by simp [bumpIteration], by simp [bumpIteration]⟩

theorem checkInterrupt_traces : Traces h h.checkInterrupt.2 [] [] := by
  unfold checkInterrupt
  split
  · exact .refl h
  · simp only
    split <;> exact h.env_traces _

/-- The check records an event when it trips. -/
theorem checkIterationCap_traces :
    (∃ e h' ev, h.checkIterationCap = (.error e, h') ∧ ev.kind = .iterationCapCheck ∧
      Traces h h' [ev] []) ∨ h.checkIterationCap = (.ok (), h) := by
  unfold checkIterationCap
  split
  · exact .inl ⟨_, _, _, rfl, rfl, h.recordEvent_traces _ _⟩
  · exact .inr rfl

theorem awaitComplete_traces (provider : LlmProvider σ) (req : CompletionRequest)
    (wait : Option Nat) : Traces h (h.awaitComplete provider req wait).2 []
      [.llm req (h.awaitComplete provider req wait).1] := ⟨rfl, by simp [awaitComplete], rfl⟩

theorem awaitTool_traces (tool : Tool σ) (tc : ToolCall) (toolCtx : ToolCtx) :
    Traces h (h.awaitTool tool tc toolCtx).2 []
      [.tool tc toolCtx (h.awaitTool tool tc toolCtx).1] := ⟨rfl, by simp [awaitTool], rfl⟩

variable [Platform σ]

theorem elapsed_traces : Traces h h.elapsed.2 [] [] := h.env_traces _

theorem newMessage_traces (role : Role) : Traces h (h.newMessage role).2 [] [] := h.env_traces _

theorem pushMessage_traces (role : Role) (content : Option String) (toolOutput : Option Value) :
    Traces h (h.pushMessage role content toolOutput) [] [] :=
  (append_traces _ _).after (h.newMessage_traces role)

theorem seedMessages_traces : Traces h h.seedMessages [] [] := by
  unfold seedMessages
  simp only
  split
  · exact h.pushMessage_traces _ _ _
  · exact (h.pushMessage_traces _ _ _).before (pushMessage_traces _ _ _ _)

theorem pushEmptyTurnNudge_traces :
    ∃ ev, ev.kind = .emptyTurn ∧ Traces h h.pushEmptyTurnNudge [ev] [] :=
  ⟨_, rfl, (recordEvent_traces _ _ _).after (h.pushMessage_traces _ _ _)⟩

theorem checkDeadline_traces :
    (∃ e h' ev, h.checkDeadline = (.error e, h') ∧ ev.kind = .timeoutCheck ∧
      Traces h h' [ev] []) ∨ (∃ h', h.checkDeadline = (.ok (), h') ∧ Traces h h' [] []) := by
  unfold checkDeadline
  split
  · exact .inr ⟨h, rfl, .refl h⟩
  · simp only
    split
    · exact .inl ⟨_, _, _, rfl, rfl, (recordEvent_traces _ _ _).after h.elapsed_traces⟩
    · exact .inr ⟨_, rfl, h.elapsed_traces⟩

theorem remainingBudget_traces : Traces h h.remainingBudget.2 [] [] := by
  unfold remainingBudget
  split
  · exact .refl h
  · exact h.elapsed_traces

theorem recordUsage_traces (resp : CompletionResponse) : Traces h (h.recordUsage resp) [] [] := by
  unfold recordUsage mirror
  simp only
  split
  · exact ⟨rfl, by simp [elapsed], by simp [elapsed]⟩
  · exact ⟨rfl, by simp [elapsed], by simp [elapsed]⟩

theorem pushCallRow_traces (tc : ToolCall) : Traces h (h.pushCallRow tc) [] [] :=
  (append_traces _ _).after (h.newMessage_traces .assistant)

theorem foldl_pushCallRow_traces (calls : List ToolCall) :
    Traces h (calls.foldl pushCallRow h) [] [] := by
  induction calls generalizing h with
  | nil => exact .refl h
  | cons tc calls ih => exact (ih (h.pushCallRow tc)).after (h.pushCallRow_traces tc)

theorem recordAssistantResponse_traces (resp : CompletionResponse) :
    Traces h (h.recordAssistantResponse resp) [] [] := by
  unfold recordAssistantResponse
  split
  · exact h.pushMessage_traces _ _ _
  · exact h.foldl_pushCallRow_traces _

theorem pushToolResult_traces (tc : ToolCall) (output : ToolOutput) :
    Traces h (h.pushToolResult tc output).2 [] [] :=
  (append_traces _ _).after (h.newMessage_traces .tool)

/-! ### Turns -/

/-- What a turn records, with the replies received and the way it ends. -/
inductive TurnRecord : Flow TurnResult → List CompletionResponse → List ExecutionEvent → Prop
  | refused {f : Flow TurnResult} (hf : ∀ t, f ≠ .ok t) : TurnRecord f [] []
  | unanswered {f : Flow TurnResult} (hf : ∀ t, f ≠ .ok t) {ev : ExecutionEvent}
    (hev : ev.kind = .llmRequest) : TurnRecord f [] [ev]
  | late {f : Flow TurnResult} (hf : ∀ t, f ≠ .ok t) {es : List ExecutionEvent}
    (hes : es.map ExecutionEvent.kind = [.llmRequest, .timeoutCheck]) : TurnRecord f [] es
  | truncated {f : Flow TurnResult} (hf : ∀ t, f ≠ .ok t) {resp : CompletionResponse}
    {es : List ExecutionEvent} (hes : Opening es) (hlen : resp.finishReason = "length") :
    TurnRecord f [resp] es
  | answered {t : TurnResult} {resp : CompletionResponse} {es : List ExecutionEvent}
    (hes : Opening es) (hreads : TurnReads resp t) : TurnRecord (.ok t) [resp] es

/-- A turn without a result ends the run. -/
theorem TurnRecord.lastTrace {f : Flow TurnResult} {replies : List CompletionResponse}
    {es : List ExecutionEvent} (hrec : TurnRecord f replies es) (hf : ∀ t, f ≠ .ok t) :
    LastTrace replies es := by
  cases hrec with
  | refused => exact .between
  | unanswered _ hev => exact .unanswered hev
  | late _ hes => exact .late hes
  | truncated _ hes hlen => exact .answered hes (.inl hlen)
  | answered => exact absurd rfl (hf _)

theorem acceptResponse_traces (model : String) (resp : CompletionResponse) :
    ∃ ev, ev.kind = .llmResponse ∧ Traces h (h.acceptResponse model resp).2 [ev] [] ∧
      ((resp.finishReason = "length" ∧ ∀ t, (h.acceptResponse model resp).1 ≠ .ok t) ∨
        ∃ t, (h.acceptResponse model resp).1 = .ok t ∧ TurnReads resp t) := by
  refine ⟨⟨.llmResponse, h.responsePayload resp⟩, rfl, ?_, ?_⟩
  · have t := (h.recordEvent_traces .llmResponse (h.responsePayload resp)).before
      (recordUsage_traces _ resp)
    unfold acceptResponse
    simp only
    generalize ((h.recordEvent .llmResponse (h.responsePayload resp)).recordUsage resp) = h₁ at t
    have t' := t.before (h₁.recordAssistantResponse_traces resp)
    generalize h₁.recordAssistantResponse resp = h₂ at t'
    split
    · exact t
    · split
      · split <;> exact t'
      · have ts : Traces h₂ { h₂ with issuedToolCalls := h₂.issuedToolCalls ++ resp.toolCalls } [] [] :=
          ⟨rfl, by simp, by simp⟩
        simp only
        exact (t'.before ts).before (mirror_traces _ _)
  · rcases h.acceptResponse_takes model resp with
      ⟨hlen, e, h', heq, -⟩ | ⟨t, h', rows, heq, -, hreads⟩ <;> rw [heq]
    · exact .inl ⟨hlen, by simp⟩
    · exact .inr ⟨t, rfl, hreads⟩

/-- **One turn**: a request, and what came of it. -/
theorem oneLlmTurnWith_traces (provider : LlmProvider σ) :
    ∃ es calls, Traces h (h.oneLlmTurnWith provider).2 es calls ∧
      TurnRecord (h.oneLlmTurnWith provider).1 (responses calls) es := by
  unfold oneLlmTurnWith
  have ti := h.checkInterrupt_traces
  rcases hi : h.checkInterrupt with ⟨e | _, h₁⟩ <;> rw [hi] at ti
  · exact ⟨[], [], ti, .refused (by simp)⟩
  simp only
  generalize h₁.buildRequest provider.modelName = req
  have tq := (h₁.recordEvent_traces .llmRequest
    (h₁.requestPayload provider.modelName req)).after ti
  have hkind : EventKind.llmRequest =
    (ExecutionEvent.mk .llmRequest (h₁.requestPayload provider.modelName req)).kind := rfl
  generalize (ExecutionEvent.mk .llmRequest (h₁.requestPayload provider.modelName req)) = ev at *
  generalize h₁.recordEvent .llmRequest (h₁.requestPayload provider.modelName req) = h₂ at *
  have tb := tq.before h₂.remainingBudget_traces
  generalize h₂.remainingBudget = budgeted at tb
  obtain ⟨wait, h₃⟩ := budgeted
  have ta := tb.trans (h₃.awaitComplete_traces provider req wait)
  simp only at ta ⊢
  rcases ha : h₃.awaitComplete provider req wait with ⟨answer, h₄⟩
  rw [ha] at ta
  simp only [List.append_nil, List.nil_append] at ta
  match answer with
  | .ready (.ok resp) =>
    obtain ⟨ev', hev', t, hend⟩ := h₄.acceptResponse_traces provider.modelName resp
    have hopening : Opening [ev, ev'] := by
      simp [Opening, ← hkind, hev']
    refine ⟨_, _, ta.trans t, ?_⟩
    rcases hend with ⟨hlen, hf⟩ | ⟨t, ht, hreads⟩
    · exact .truncated hf hopening hlen
    · simp only [ht]
      exact .answered hopening hreads
  | .ready (.error e) => exact ⟨_, _, ta, .unanswered (by simp) hkind.symm⟩
  | .panicked p => exact ⟨_, _, ta, .unanswered (by simp) hkind.symm⟩
  | .pending =>
    cases wait with
    | none => exact ⟨_, _, ta, .unanswered (by simp) hkind.symm⟩
    | some w =>
      refine ⟨_, _, ta.trans ((recordEvent_traces _ _ _).after h₄.elapsed_traces), ?_⟩
      exact .late (by simp) (by simp [← hkind])

/-! ### Calls -/

theorem settleToolCall_traces (tc : ToolCall) (output : ToolOutput) :
    ∃ msg h' ev, h.settleToolCall tc (.ok output) = (.ok msg, h') ∧ Traces h h' [ev] [] ∧
      ev.kind = .toolEnd ∧ ev.Names tc := by
  unfold settleToolCall
  simp only
  refine ⟨_, _, _, rfl, (h.recordEvent_traces .toolEnd _).before (pushToolResult_traces _ tc output),
    rfl, ?_⟩
  split <;> simp [ExecutionEvent.Names, Value.obj, Value.set, Value.get?, Value.lookup_insertField]

theorem pushToolError_traces (tc : ToolCall) (err : ToolError) :
    ∃ ev, Traces h (h.pushToolError tc err) [ev] [] ∧ ev.kind = .toolError ∧ ev.Names tc := by
  unfold pushToolError
  refine ⟨_, (recordEvent_traces _ .toolError _).after
    ((append_traces _ _).after (h.newMessage_traces .tool)), rfl, ?_⟩
  simp [ExecutionEvent.Names, Value.obj, Value.get?, Value.lookup_insertField]

/-- What a call leaves in the trace before a failure is answered. -/
def Failing (tools : ToolRegistry σ) (tc : ToolCall) (es : List ExecutionEvent) : Prop :=
  ∀ ev : ExecutionEvent, ev.kind = .toolError → ev.Names tc → CallTrace tools tc (es ++ [ev])

/-- **One call**: it is answered, or fails, or hangs after its start. -/
theorem dispatchToolCall_traces (tc : ToolCall) :
    (∃ msg h' es calls, h.dispatchToolCall tc = (.ok msg, h') ∧ Traces h h' es calls ∧
      responses calls = [] ∧ CallTrace h.ctx.tools tc es) ∨
    (∃ te h' es calls, h.dispatchToolCall tc = (.err (.tool te), h') ∧ Traces h h' es calls ∧
      responses calls = [] ∧ Failing h.ctx.tools tc es) ∨
    (∃ h' ev calls, h.dispatchToolCall tc = (.suspended, h') ∧ Traces h h' [ev] calls ∧
      responses calls = [] ∧ ev.kind = .toolStart ∧ ev.Names tc) := by
  unfold dispatchToolCall
  cases repeatedCallRefusal h.issuedToolCalls tc with
  | some refusal =>
    left
    refine ⟨_, _, _, _, rfl, (h.recordEvent_traces .repeatedToolCall _).before
      (pushToolResult_traces _ tc (.text refusal)), rfl, .repeated, ?_⟩
    simp [ExecutionEvent.Names, Value.obj, Value.get?, Value.lookup_insertField]
  | none =>
    simp only
    cases htool : h.ctx.tools.get tc.name with
    | none =>
      right; left
      refine ⟨_, h, [], [], rfl, .refl h, rfl, fun ev hev hnames => ⟨?_, ?_⟩⟩
      · simpa [hev] using CallKinds.unknown htool
      · simpa using hnames
    | some tool =>
      simp only
      generalize hpayload : (if h.ctx.traceLevel.shouldPersistRawPayloads = true then _ else _) =
        payload
      -- the name and the id stand in the payload at every trace level
      have hnames : ExecutionEvent.Names ⟨.toolStart, payload⟩ tc := by
        rw [← hpayload]
        split <;> simp [ExecutionEvent.Names, Value.obj, Value.set, Value.get?,
          Value.lookup_insertField]
      have ts := h.recordEvent_traces .toolStart payload
      generalize h.recordEvent .toolStart payload = h₁ at ts
      generalize ToolCtx.mk _ _ _ = toolCtx
      have ta := ts.trans (h₁.awaitTool_traces tool tc toolCtx)
      have hresp : ∀ answer, responses ([] ++ [Effect.tool tc toolCtx answer]) = [] :=
        fun _ => rfl
      rcases ha : h₁.awaitTool tool tc toolCtx with ⟨answer, h₂⟩
      rw [ha] at ta
      -- an error or a panic ends the run behind its start event
      have hfailing : Failing h.ctx.tools tc ([⟨.toolStart, payload⟩] ++ []) := by
        intro ev hev hev'
        refine ⟨by simpa [hev] using CallKinds.failed, ?_⟩
        simpa using ⟨hnames, hev'⟩
      rcases answer with (te | output) | p | _
      · exact .inr (.inl ⟨te, h₂, _, _, rfl, ta, hresp _, hfailing⟩)
      · left
        obtain ⟨msg, h₃, ev, heq, t, hev, hev'⟩ := h₂.settleToolCall_traces tc output
        refine ⟨msg, h₃, _, _, heq, ta.trans t, rfl, ?_, ?_⟩
        · simpa [hev] using CallKinds.ended
        · simpa using ⟨hnames, hev'⟩
      · exact .inr (.inl ⟨_, h₂, _, _, rfl, ta, hresp _, hfailing⟩)
      · exact .inr (.inr ⟨h₂, _, _, rfl, ta, hresp _, rfl, hnames⟩)

end LoopHarness

variable [Platform σ] (h : LoopHarness σ)

/-- How the calls of a reply are traced: one group of events each, up to a call that hangs. -/
def CallsTraced (h : LoopHarness σ) (calls : List ToolCall) (s : LoopStep σ) : Prop :=
  (∃ h' groups effects, s = .next h' ∧ Traces h h' groups.flatten effects ∧
    responses effects = [] ∧ List.Forall₂ (CallTrace h.ctx.tools) calls groups) ∨
  (∃ done tc rest h' groups ev effects, calls = done ++ tc :: rest ∧ s = .stop .suspended h' ∧
    Traces h h' (groups.flatten ++ [ev]) effects ∧ responses effects = [] ∧
    List.Forall₂ (CallTrace h.ctx.tools) done groups ∧ ev.kind = .toolStart ∧ ev.Names tc)

omit [Platform σ] in
/-- An answered call before the others. -/
theorem CallsTraced.cons {h h₁ : LoopHarness σ} {tc : ToolCall} {rest : List ToolCall}
    {es : List ExecutionEvent} {effects : List Effect} {s : LoopStep σ} (t : Traces h h₁ es effects)
    (hnone : responses effects = []) (hcall : CallTrace h.ctx.tools tc es)
    (hrest : CallsTraced h₁ rest s) : CallsTraced h (tc :: rest) s := by
  unfold CallsTraced at hrest
  rw [t.ctx] at hrest
  rcases hrest with ⟨h', groups, effects', rfl, t', hnone', hall⟩ |
    ⟨done, tc', rest', h', groups, ev, effects', rfl, rfl, t', hnone', hall, hev, hnames⟩
  · exact .inl ⟨h', es :: groups, _, rfl, t.trans t', by simp [hnone, hnone'], .cons hcall hall⟩
  · refine .inr ⟨tc :: done, tc', rest', h', es :: groups, ev, effects ++ effects', rfl, rfl, ?_,
      by simp [hnone, hnone'], .cons hcall hall, hev, hnames⟩
    simpa using t.trans t'

/-- **The calls of a reply**, in order. -/
theorem dispatchAll_traces (calls : List ToolCall) : CallsTraced h calls (dispatchAll calls h) := by
  induction calls generalizing h with
  | nil => exact .inl ⟨h, [], [], rfl, .refl h, rfl, .nil⟩
  | cons tc rest ih =>
    rcases h.dispatchToolCall_traces tc with ⟨msg, h₁, es, effects, hd, t, hnone, hcall⟩ |
      ⟨te, h₁, es, effects, hd, t, hnone, hfailing⟩ |
      ⟨h₁, ev, effects, hd, t, hnone, hev, hnames⟩ <;> rw [dispatchAll, hd]
    · exact .cons t hnone hcall (ih h₁)
    · obtain ⟨ev, te', hev, hnames⟩ := h₁.pushToolError_traces tc te
      exact .cons (t.trans te') (by simp [hnone]) (hfailing ev hev hnames) (ih _)
    · exact .inr ⟨[], tc, rest, h₁, [], ev, effects, rfl, rfl, t, hnone, .nil, hev, hnames⟩

/-! ### Passes and runs -/

/-- How a run whose result is `r` may end. -/
def RunEnds (tools : ToolRegistry σ) (r : ExecResult) (replies : List CompletionResponse)
    (es : List ExecutionEvent) : Prop :=
  LastTrace replies es ∨ r = .suspended ∧ HungTrace tools replies es

/-- **One pass of the chat loop** is a turn after which the run goes on, or ends the run. -/
theorem chatLoopBody_traces :
    (∃ h' es calls resp, chatLoopBody h = .next h' ∧ Traces h h' es calls ∧
      responses calls = [resp] ∧ TurnTrace h.ctx.tools resp es) ∨
    (∃ r h' es calls, chatLoopBody h = .stop r h' ∧ Traces h h' es calls ∧
      RunEnds h.ctx.tools r (responses calls) es) := by
  have finish_traces : ∀ (h₁ : LoopHarness σ) output status,
      Traces h₁ (finish h₁ output status).2 [] [] := fun h₁ _ _ => h₁.elapsed_traces
  unfold chatLoopBody
  simp only
  have tb := h.bumpIteration_traces
  generalize h.bumpIteration = h₀ at tb
  rcases h₀.checkIterationCap_traces with ⟨e, h₁, ev, hi, hev, t⟩ | hi <;> rw [hi]
  · right
    have hlast : LastTrace (responses []) [ev] := .limit (.inl hev)
    cases e
    case maxIterationsReached =>
      exact ⟨_, _, _, _, rfl, (t.after tb).before (finish_traces _ _ _), .inl hlast⟩
    all_goals exact ⟨_, _, _, _, rfl, t.after tb, .inl hlast⟩
  simp only
  cases h₀.checkCostCap with
  | error e => exact .inr ⟨_, _, _, _, rfl, tb, .inl .between⟩
  | ok _ =>
    simp only
    rcases h₀.checkDeadline_traces with ⟨e, h₁, ev, hd, hev, t⟩ | ⟨h₁, hd, t⟩ <;> rw [hd]
    · exact .inr ⟨_, _, _, _, rfl, (t.after tb).before (finish_traces _ _ _),
        .inl (.limit (.inr hev))⟩
    have td := t.after tb
    simp only [oneLlmTurn]
    obtain ⟨es, calls, tt, hrec⟩ := h₁.oneLlmTurnWith_traces h₁.ctx.llm
    rcases ht : h₁.oneLlmTurnWith h₁.ctx.llm with ⟨flow, h₂⟩
    rw [ht] at tt hrec
    have tt' := tt.after td
    -- a turn without a result is the last
    have stops : ∀ r, (∀ t, flow ≠ .ok t) → RunEnds h.ctx.tools r (responses calls) es :=
      fun r hf => .inl (hrec.lastTrace hf)
    cases flow with
    | ok turn =>
      obtain ⟨resp, hcalls, hopening, hreads⟩ : ∃ resp, responses calls = [resp] ∧ Opening es ∧
          TurnReads resp turn := by
        generalize responses calls = replies at hrec
        cases hrec with
        | answered hes hreads => exact ⟨_, rfl, hes, hreads⟩
        | refused hf => exact absurd rfl (hf turn)
        | unanswered hf => exact absurd rfl (hf turn)
        | late hf => exact absurd rfl (hf turn)
        | truncated hf => exact absurd rfl (hf turn)
      cases turn with
      | assistantText text =>
        obtain ⟨hnone, rfl, hblank⟩ := hreads
        refine .inr ⟨_, _, _, _, rfl, tt'.before (finish_traces _ _ _), .inl ?_⟩
        rw [hcalls]
        exact .answered hopening (.inr ⟨hnone, hblank⟩)
      | empty =>
        obtain ⟨ev, hev, tn⟩ := h₂.pushEmptyTurnNudge_traces
        exact .inl ⟨_, _, _, resp, rfl, tt'.trans tn, by simp [hcalls],
          .empty hopening hreads.1 hreads.2 hev⟩
      | toolCalls issued =>
        obtain ⟨rfl, hne⟩ := hreads
        have hctx := tt'.ctx
        rcases dispatchAll_traces h₂ resp.toolCalls with ⟨h₃, groups, effects, hs, t₃, hnone, hall⟩ |
          ⟨done, tc, rest, h₃, groups, ev, effects, hsplit, hs, t₃, hnone, hall, hev, hnames⟩ <;>
          rw [hctx] at hall <;> simp only [hs]
        · exact .inl ⟨h₃, _, _, resp, rfl, tt'.trans t₃, by simp [hcalls, hnone],
            .calls hopening hne hall⟩
        · refine .inr ⟨_, h₃, _, _, rfl, tt'.trans t₃, .inr ⟨rfl, ?_⟩⟩
          rw [responses_append, hcalls, hnone, ← List.append_assoc]
          exact .hung hopening hsplit hall hev hnames
    | err e =>
      have hends := fun r => stops r (by simp)
      cases e
      case timeout => exact .inr ⟨_, _, _, _, rfl, tt'.before (finish_traces _ _ _), hends _⟩
      all_goals exact .inr ⟨_, _, _, _, rfl, tt', hends _⟩
    | panicked p => exact .inr ⟨_, _, _, _, rfl, tt', stops _ (by simp)⟩
    | suspended => exact .inr ⟨_, _, _, _, rfl, tt', stops _ (by simp)⟩

/-- **The chat loop** adds a trace of the grammar. -/
theorem chatLoop_traces (passes : Nat) :
    ∃ es calls, Traces h (chatLoop passes h).2 es calls ∧
      RunTrace h.ctx.tools (RunEnds h.ctx.tools (chatLoop passes h).1) (responses calls) es := by
  induction passes generalizing h with
  | zero => exact ⟨[], [], .refl h, .last (.inl .between)⟩
  | succ passes ih =>
    rw [chatLoop]
    rcases chatLoopBody_traces h with ⟨h', es, calls, resp, hbody, t, hcalls, hturn⟩ |
      ⟨r, h', es, calls, hbody, t, hends⟩ <;> rw [hbody]
    · obtain ⟨es', calls', t', hrun⟩ := ih h'
      rw [t.ctx] at hrun
      refine ⟨es ++ es', calls ++ calls', t.trans t', ?_⟩
      rw [responses_append, hcalls]
      exact .turn hturn hrun
    · exact ⟨es, calls, t, .last hends⟩

namespace Runtime

/-- **The trace of every conversation and ReAct run** is one of the grammar, for the replies the run
received.  An outcome carries the events of the run, whether the executor returned it or the backstop
cut the run. -/
theorem trace_grammar (kind : ExecutorKind) (hkind : ∀ n, kind ≠ .reflection n) (passes : Nat)
    (ctx : ExecutionContext σ) (env : σ) :
    let run := runExecutor kind passes ctx env
    RunTrace ctx.tools (RunEnds ctx.tools run.1) (responses run.2.world.effects) run.2.events ∧
    ∀ agent timeoutMs maxTimeout o, ctx = withBudget agent timeoutMs maxTimeout →
      executeInner kind passes agent timeoutMs maxTimeout env = some (.ok o) →
      o.events = run.2.events := by
  refine ⟨?_, ?_⟩
  · -- a run starts with neither events nor calls
    have starts : ∀ h : LoopHarness σ, h.ctx = ctx → h.events = [] → h.world.effects = [] →
        RunTrace ctx.tools (RunEnds ctx.tools (chatLoop passes h.seedMessages).1)
          (responses (chatLoop passes h.seedMessages).2.world.effects)
          (chatLoop passes h.seedMessages).2.events := by
      intro h hctx hevents heffects
      have ts := h.seedMessages_traces
      obtain ⟨es, calls, t, hrun⟩ := chatLoop_traces h.seedMessages passes
      have t' := t.after ts
      rw [t'.events, t'.effects, hevents, heffects, List.nil_append, List.nil_append]
      rwa [ts.ctx, hctx] at hrun
    cases kind with
    | reflection n => exact absurd rfl (hkind n)
    | conversation => exact starts _ rfl rfl rfl
    | react => exact starts _ rfl rfl rfl
  · rintro agent timeoutMs maxTimeout o rfl ho
    exact (executeInner_recorded kind passes agent env ho).events

/-- The trace of a run that answers at once. -/
theorem plain_answer_trace :
    let tools : ToolRegistry StillWorld := .empty
    let run := runExecutor .conversation 1 (StillWorld.context plainAnswer 8) ⟨⟩
    RunTrace tools (RunEnds tools run.1) [plainAnswer] run.2.events :=
  (trace_grammar .conversation (by simp) 1 (StillWorld.context plainAnswer 8) ⟨⟩).1

/-- A reply that calls a tool which never returns. -/
def hangingCall : CompletionResponse :=
  ⟨none, [⟨"c1", "hang", .obj []⟩], "tool_calls", ⟨1, 1, none⟩⟩

/-- A run with that tool. -/
def hangingContext : ExecutionContext StillWorld :=
  { StillWorld.context hangingCall 8 with
    tools := ⟨[("hang", ⟨.obj [], fun _ _ s => (.pending, s)⟩)], by simp⟩ }

/-- The backstop cuts the run in the call, and the trace ends with its start. -/
theorem hanging_call_unended :
    ∃ o, executeInner .conversation 1 hangingContext 1000 none ⟨⟩ = some (.ok o) ∧
      ∀ replies, ¬ RunTrace hangingContext.tools LastTrace replies o.events := by
  refine ⟨_, rfl, fun replies hrun => ?_⟩
  exact absurd hrun.balanced (by unfold Balanced; decide)

end Runtime

end PgSynapse

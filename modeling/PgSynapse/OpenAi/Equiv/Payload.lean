import PgSynapse.OpenAi.Payload
import PgSynapse.Executor.Equiv.Pairing

/-!
# Tool-call conversations on the wire

The Chat Completions contract on the `messages` array, and when the requests of a run meet it.  The
harness splits a reply into one row per call and `build_payload` encodes the rows one by one, so
each assistant message on the wire has one call, and the answers of a reply stand after its last
call.
-/

namespace PgSynapse

open LoopHarness

/-! ### The contract -/

/-- The `messages` array of a request body. -/
def wireMessages (payload : Value) : List Value :=
  ((payload.get? "messages").bind Value.asArray?).getD []

/-- Whether a message on the wire is a tool answer. -/
def isToolMessage (m : Value) : Bool := m.get? "role" == some (.string "tool")

/-- If `m` has a `tool_calls` array, the tool messages of `group` answer exactly its calls. -/
def AnswersCalls (m : Value) (group : List Value) : Prop :=
  ∀ calls, (m.get? "tool_calls").bind Value.asArray? = some calls →
    (group.map fun t => t.get? "tool_call_id").Perm (calls.map fun c => c.get? "id")

/-- Every message with a `tool_calls` array is directly followed by the answers to its calls, before
any message of another role. -/
def ValidToolConversation (payload : Value) : Prop :=
  GroupedBy isToolMessage AnswersCalls (wireMessages payload)

/-! ### The body -/

theorem Value.get?_set_of_ne (v w : Value) {key l : String} (h : l ≠ key) :
    (v.set key w).get? l = v.get? l := by
  cases v with
  | object fields => simp [Value.set, Value.get?, Value.lookup_insertField, h]
  | _ => rfl

theorem OpenAiProvider.withSampling_get? (p : OpenAiProvider) (toLowercase : String → String)
    (req : CompletionRequest) (payload : Value) :
    (p.withSampling toLowercase req payload).get? "messages" = payload.get? "messages" := by
  unfold withSampling
  simp only
  split
  · exact Value.get?_set_of_ne _ _ (by decide)
  · rw [Value.get?_set_of_ne _ _ (by decide)]
    split
    · exact Value.get?_set_of_ne _ _ (by decide)
    · rfl

theorem OpenAiProvider.buildPayload_messages (p : OpenAiProvider) (toLowercase : String → String)
    (req : CompletionRequest) (stream : Bool) (hparams : req.params = .null) :
    wireMessages (p.buildPayload toLowercase req stream) = req.messages.map messageEntry := by
  have hbase : (Value.obj [("model", .string (p.modelFor req)),
      ("messages", .array (req.messages.map messageEntry))]).get? "messages" =
        some (.array (req.messages.map messageEntry)) := by
    simp [Value.obj, Value.get?, Value.lookup_insertField]
  have hget : (p.buildPayload toLowercase req stream).get? "messages" =
      some (.array (req.messages.map messageEntry)) := by
    simp only [buildPayload, hparams, mergeParams]
    split
    · split
      · rw [Value.get?_set_of_ne _ _ (by decide), withSampling_get?, hbase]
      · rw [withSampling_get?, hbase]
    · rw [Value.get?_set_of_ne _ _ (by decide)]
      split
      · rw [Value.get?_set_of_ne _ _ (by decide), withSampling_get?, hbase]
      · rw [withSampling_get?, hbase]
  simp [wireMessages, hget, Value.asArray?]

/-! ### The rows -/

/-- A row on the wire, and the group after it. -/
def RowAnswers (m : Message) (group : List Message) : Prop :=
  AnswersCalls (messageEntry m) (group.map messageEntry)

/-- Whether a row is a tool answer on the wire. -/
def isToolRow (m : Message) : Bool := isToolMessage (messageEntry m)

theorem validToolConversation_iff (p : OpenAiProvider) (toLowercase : String → String)
    (req : CompletionRequest) (stream : Bool) (hparams : req.params = .null) :
    ValidToolConversation (p.buildPayload toLowercase req stream) ↔
      GroupedBy isToolRow RowAnswers req.messages := by
  rw [ValidToolConversation, p.buildPayload_messages toLowercase req stream hparams,
    groupedBy_map]
  rfl

section Rows

variable {m : Message} {tc : ToolCall}

theorem messageEntry_text {role : Role} (hrole : role ≠ .tool) (h : m.IsText role) :
    messageEntry m = .obj [("role", .string role.text), ("content", .ofOption m.content)] := by
  unfold messageEntry
  rw [h.role, h.toolCallId]
  cases role <;> first | rfl | exact absurd rfl hrole

theorem isToolRow_text {role : Role} (hrole : role ≠ .tool) (h : m.IsText role) :
    isToolRow m = false := by
  rw [isToolRow, messageEntry_text hrole h]
  cases role <;>
    simp_all [isToolMessage, Value.obj, Value.get?, Value.lookup_insertField, Role.text]

theorem rowAnswers_text {role : Role} (hrole : role ≠ .tool) (h : m.IsText role)
    (group : List Message) : RowAnswers m group := by
  intro calls hcalls
  rw [messageEntry_text hrole h] at hcalls
  simp [Value.obj, Value.get?, Value.lookup_insertField] at hcalls

/-- The encoding of a call row: an assistant message with one call. -/
theorem messageEntry_call (h : m.IsCall tc) :
    messageEntry m = .obj [("role", .string "assistant"), ("content", .ofOption m.content),
      ("tool_calls", .array [.obj [("id", .string tc.id), ("type", .string "function"),
        ("function", .obj [("name", .string tc.name),
          ("arguments", .string tc.args.toText)])]])] := by
  unfold messageEntry
  rw [h.role, h.toolCallId, h.toolName, h.toolInput]
  rfl

theorem isToolRow_call (h : m.IsCall tc) : isToolRow m = false := by
  rw [isToolRow, messageEntry_call h]
  simp [isToolMessage, Value.obj, Value.get?, Value.lookup_insertField]

/-- A call row wants one answer, with its own id. -/
theorem rowAnswers_call (h : m.IsCall tc) (group : List Message) :
    RowAnswers m group ↔
      (group.map fun t => (messageEntry t).get? "tool_call_id") = [some (.string tc.id)] := by
  rw [RowAnswers, messageEntry_call h, AnswersCalls]
  simp [Value.obj, Value.get?, Value.lookup_insertField, Value.asArray?, Function.comp_def]

theorem isToolRow_answer (h : m.IsAnswer tc) : isToolRow m = true := by
  rw [isToolRow, messageEntry, h.role, h.toolCallId]
  simp [isToolMessage, Value.obj, Value.get?, Value.lookup_insertField]

theorem answer_toolCallId (h : m.IsAnswer tc) :
    (messageEntry m).get? "tool_call_id" = some (.string tc.id) := by
  rw [messageEntry, h.role, h.toolCallId]
  simp [Value.obj, Value.get?, Value.lookup_insertField]

theorem rowAnswers_answer (h : m.IsAnswer tc) (group : List Message) : RowAnswers m group := by
  intro calls hcalls
  rw [messageEntry, h.role, h.toolCallId] at hcalls
  simp [Value.obj, Value.get?, Value.lookup_insertField] at hcalls

end Rows

/-! ### The turns -/

/-- A call row with no answer right after it breaks the contract. -/
theorem not_groupedBy_unanswered {m next : Message} {tc : ToolCall} {rest : List Message}
    (hm : m.IsCall tc) (hnext : isToolRow next = false) :
    ¬ GroupedBy isToolRow RowAnswers (m :: next :: rest) := by
  rintro ⟨hrow, -⟩
  rw [List.takeWhile_cons_of_neg (by simp [hnext]), rowAnswers_call hm] at hrow
  exact absurd hrow (by simp)

/-- A chat turn is valid on the wire exactly when it has at most one call. -/
theorem chatTurn_groupedBy_iff {resp : CompletionResponse} {block : List Message}
    (h : ChatTurn resp block) :
    GroupedBy isToolRow RowAnswers block ↔ resp.toolCalls.length ≤ 1 := by
  unfold ChatTurn at h
  split at h
  case isTrue hc =>
    obtain ⟨text, nudge, rfl, htext, hnudge⟩ := h
    refine iff_of_true (groupedBy_of_forall ?_) (by simp [hc])
    simp only [List.mem_cons, List.not_mem_nil, or_false, forall_eq_or_imp, forall_eq]
    exact ⟨rowAnswers_text (by simp) htext, rowAnswers_text (by simp) hnudge⟩
  case isFalse hc =>
    obtain ⟨calls, answers, rfl, hcalls, hanswers⟩ := h
    rcases htcs : resp.toolCalls with _ | ⟨tc, _ | ⟨tc', rest⟩⟩
    · exact absurd htcs hc
    · rw [htcs] at hcalls hanswers
      obtain ⟨m, _, hm, hnil, rfl⟩ := List.forall₂_cons_left_iff.mp hcalls
      obtain ⟨a, _, ha, hnil', rfl⟩ := List.forall₂_cons_left_iff.mp hanswers
      rw [List.forall₂_nil_left_iff] at hnil hnil'
      subst hnil hnil'
      refine iff_of_true ⟨?_, rowAnswers_answer ha _, trivial⟩ (by simp)
      rw [rowAnswers_call hm]
      simp [isToolRow_answer ha, answer_toolCallId ha]
    · rw [htcs] at hcalls
      obtain ⟨m, _, hm, hrest, rfl⟩ := List.forall₂_cons_left_iff.mp hcalls
      obtain ⟨m', _, hm', -, rfl⟩ := List.forall₂_cons_left_iff.mp hrest
      exact iff_of_false (not_groupedBy_unanswered hm (isToolRow_call hm')) (by simp)

theorem chatTurn_head {resp : CompletionResponse} {block : List Message}
    (h : ChatTurn resp block) : ∃ m rest, block = m :: rest ∧ isToolRow m = false := by
  unfold ChatTurn at h
  split at h
  case isTrue =>
    obtain ⟨text, nudge, rfl, htext, -⟩ := h
    exact ⟨text, [nudge], rfl, isToolRow_text (by simp) htext⟩
  case isFalse hc =>
    obtain ⟨calls, answers, rfl, hcalls, -⟩ := h
    obtain ⟨tc, rest, htcs⟩ := List.exists_cons_of_ne_nil hc
    rw [htcs] at hcalls
    obtain ⟨m, ms, hm, -, rfl⟩ := List.forall₂_cons_left_iff.mp hcalls
    exact ⟨m, ms ++ answers, rfl, isToolRow_call hm⟩

/-- A reflection turn is valid on the wire exactly when it has no call. -/
theorem reflectionTurn_groupedBy_iff {resp : CompletionResponse} {block : List Message}
    (h : ReflectionTurn resp block) :
    GroupedBy isToolRow RowAnswers block ↔ resp.toolCalls = [] := by
  obtain ⟨rows, prompt, rfl, hrows, hprompt⟩ := h
  unfold ReplyRows at hrows
  split at hrows
  case isTrue hc =>
    obtain ⟨text, rfl, htext⟩ := hrows
    refine iff_of_true (groupedBy_of_forall ?_) hc
    simp only [List.cons_append, List.nil_append, List.mem_cons, List.not_mem_nil, or_false,
      forall_eq_or_imp, forall_eq]
    exact ⟨rowAnswers_text (by simp) htext, rowAnswers_text (by simp) hprompt⟩
  case isFalse hc =>
    refine iff_of_false ?_ hc
    rcases htcs : resp.toolCalls with _ | ⟨tc, _ | ⟨tc', rest⟩⟩
    · exact absurd htcs hc
    · -- the only call row is followed by the prompt
      rw [htcs] at hrows
      obtain ⟨m, _, hm, hnil, rfl⟩ := List.forall₂_cons_left_iff.mp hrows
      rw [List.forall₂_nil_left_iff] at hnil
      subst hnil
      exact not_groupedBy_unanswered hm (isToolRow_text (by simp) hprompt)
    · -- the first call row is followed by the second
      rw [htcs] at hrows
      obtain ⟨m, _, hm, hrest, rfl⟩ := List.forall₂_cons_left_iff.mp hrows
      obtain ⟨m', _, hm', -, rfl⟩ := List.forall₂_cons_left_iff.mp hrest
      exact not_groupedBy_unanswered hm (isToolRow_call hm')

theorem reflectionTurn_head {resp : CompletionResponse} {block : List Message}
    (h : ReflectionTurn resp block) : ∃ m rest, block = m :: rest ∧ isToolRow m = false := by
  obtain ⟨rows, prompt, rfl, hrows, -⟩ := h
  unfold ReplyRows at hrows
  split at hrows
  case isTrue =>
    obtain ⟨text, rfl, htext⟩ := hrows
    exact ⟨text, [prompt], rfl, isToolRow_text (by simp) htext⟩
  case isFalse hc =>
    obtain ⟨tc, rest, htcs⟩ := List.exists_cons_of_ne_nil hc
    rw [htcs] at hrows
    obtain ⟨m, ms, hm, -, rfl⟩ := List.forall₂_cons_left_iff.mp hrows
    exact ⟨m, ms ++ [prompt], rfl, isToolRow_call hm⟩

theorem seed_groupedBy {seed : List Message} (h : IsSeed seed) :
    GroupedBy isToolRow RowAnswers seed := by
  refine groupedBy_of_forall ?_
  intro m hm
  rcases h m hm with hs | hu
  · exact rowAnswers_text (by simp) hs
  · exact rowAnswers_text (by simp) hu

/-! ### The requests of a run -/

section Requests

variable (p : OpenAiProvider) (toLowercase : String → String) (stream : Bool)

theorem chatRequest_valid_iff {replies : List CompletionResponse} {req : CompletionRequest}
    (h : Sends ChatTurn replies req) :
    ValidToolConversation (p.buildPayload toLowercase req stream) ↔
      ∀ resp ∈ replies, resp.toolCalls.length ≤ 1 := by
  rw [validToolConversation_iff p toLowercase req stream h.params]
  exact h.transcript.groupedBy_iff (fun _ => seed_groupedBy) (fun _ _ => chatTurn_head)
    (fun _ _ => chatTurn_groupedBy_iff)

theorem reflectionRequest_valid_iff {replies : List CompletionResponse} {req : CompletionRequest}
    (h : Sends ReflectionTurn replies req) :
    ValidToolConversation (p.buildPayload toLowercase req stream) ↔
      ∀ resp ∈ replies, resp.toolCalls = [] := by
  rw [validToolConversation_iff p toLowercase req stream h.params]
  exact h.transcript.groupedBy_iff (fun _ => seed_groupedBy) (fun _ _ => reflectionTurn_head)
    (fun _ _ => reflectionTurn_groupedBy_iff)

variable {σ : Type} [Platform σ]

/-- **When a request is a valid tool-call conversation**: in a conversation or ReAct run, exactly
when no earlier reply of the run had two calls or more; in a reflection run, exactly when no
earlier reply had a call at all. -/
theorem requests_valid_iff (passes : Nat) (maxRevisions : UInt32) (ctx : ExecutionContext σ)
    (env : σ) :
    (∀ before req answer after,
      (ConversationExecutor.execute passes ctx env).2.world.effects =
        before ++ .llm req answer :: after →
      (ValidToolConversation (p.buildPayload toLowercase req stream) ↔
        ∀ resp ∈ responses before, resp.toolCalls.length ≤ 1)) ∧
    (∀ before req answer after,
      (ReActExecutor.execute passes ctx env).2.world.effects =
        before ++ .llm req answer :: after →
      (ValidToolConversation (p.buildPayload toLowercase req stream) ↔
        ∀ resp ∈ responses before, resp.toolCalls.length ≤ 1)) ∧
    (∀ before req answer after,
      (ReflectionExecutor.execute maxRevisions ctx env).2.world.effects =
        before ++ .llm req answer :: after →
      (ValidToolConversation (p.buildPayload toLowercase req stream) ↔
        ∀ resp ∈ responses before, resp.toolCalls = [])) := by
  refine ⟨?_, ?_, ?_⟩ <;> intro before req answer after heq
  · exact chatRequest_valid_iff p toLowercase stream
      (conversation_requests passes ctx env before _ after heq req answer rfl)
  · exact chatRequest_valid_iff p toLowercase stream
      (react_requests passes ctx env before _ after heq req answer rfl)
  · exact reflectionRequest_valid_iff p toLowercase stream
      (ReflectionExecutor.execute_requests maxRevisions ctx env before _ after heq req answer rfl)

end Requests

/-! ### A reply with two calls -/

/-- A model server that gives the replies of a script in turn, and then does not answer. -/
structure Script where
  replies : List CompletionResponse
  deriving DecidableEq

instance : Platform Script where
  utcNow s := ("2026-01-01T00:00:00Z", s)
  instantNow s := (0, s)
  toLowercase := id

namespace Script

def provider : LlmProvider Script where
  modelName := "m"
  complete _ _ s := match s.replies with
    | [] => (.pending, s)
    | r :: rest => (.ready (.ok r), ⟨rest⟩)

/-- A tool that answers every call with the same text. -/
def lookup : Tool Script where
  schema := .obj []
  run _ _ s := (.ready (.ok (.text "ok")), s)

def context : ExecutionContext Script where
  executionId := ⟨1⟩
  agentName := "a"
  systemPrompt := ""
  soul := none
  input := "hi"
  tools := ⟨[("lookup", lookup)], by decide⟩
  llm := provider
  judgeLlm := none
  maxIterations := 8
  timeout := 0
  costCapUsd := none
  callerRole := none
  traceLevel := .off
  interruptCheck := none
  harness := .default
  progress := false

/-- One reply with two calls, the way a model asks for two look-ups at once. -/
def twoCalls : CompletionResponse where
  content := none
  toolCalls := [⟨"c1", "lookup", .obj []⟩, ⟨"c2", "lookup", .nat 2⟩]
  finishReason := "tool_calls"
  usage := ⟨1, 1, none⟩

end Script

/-- The run sends a request after the reply with two calls. -/
theorem Script.second_request : ∃ before req answer after,
    (ConversationExecutor.execute 2 Script.context ⟨[Script.twoCalls]⟩).2.world.effects =
      before ++ .llm req answer :: after ∧ responses before = [Script.twoCalls] := by
  generalize hrun :
    (ConversationExecutor.execute 2 Script.context ⟨[Script.twoCalls]⟩).2.world.effects = effects
  have hreplies : responses (effects.take 3) = [Script.twoCalls] := by
    rw [← hrun]
    rfl
  have hlast : (effects.drop 3).head?.any (fun e => match e with
      | .llm _ _ => true
      | .tool _ _ _ => false) = true := by
    rw [← hrun]
    rfl
  match hd : effects.drop 3 with
  | [] => simp [hd] at hlast
  | .tool _ _ _ :: _ => simp [hd] at hlast
  | .llm req answer :: after =>
    exact ⟨effects.take 3, req, answer, after, by rw [← hd, List.take_append_drop], hreplies⟩

/-- After a reply with two calls the next request is not a valid conversation. -/
theorem two_calls_invalid :
    ¬ ∀ (p : OpenAiProvider) (toLowercase : String → String) (stream : Bool) before req answer
      after,
      (ConversationExecutor.execute 2 Script.context ⟨[Script.twoCalls]⟩).2.world.effects =
        before ++ .llm req answer :: after →
      ValidToolConversation (p.buildPayload toLowercase req stream) := by
  intro hall
  obtain ⟨before, req, answer, after, heq, hbefore⟩ := Script.second_request
  have hvalid := hall ⟨"m", none⟩ id false before req answer after heq
  rw [chatRequest_valid_iff _ _ _
    (conversation_requests 2 Script.context _ before _ after heq req answer rfl), hbefore] at hvalid
  exact absurd (hvalid Script.twoCalls (by simp)) (by decide)

end PgSynapse

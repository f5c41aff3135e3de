import PgSynapse.Executor.Equiv.Turns
import PgSynapse.Lib.MergeRuns
import PgSynapse.OpenAi.Equiv.Payload
import PgSynapse.Providers.Payload
import PgSynapse.Providers.Response
import PgSynapse.Runtime.Equiv.IterationCap

/-!
# A run on the Messages API

The Messages API joins neighbouring messages of one role, and then wants every call of an assistant
message answered in the user message right after it.  The harness keeps a reply's call rows together
and its answers right behind them, so every request of a chat run is paired on the wire
(`chat_requests_paired_on_wire`).

It also refuses empty texts.  A reply without a text leaves one, so a run sends none exactly when
every reply without calls that another request follows has a text (`no_empty_text_iff`).
-/

namespace PgSynapse

open LoopHarness

/-- A member that is written only sometimes does not change another. -/
theorem Value.get?_ite_set_of_ne {c : Prop} [Decidable c] (v w : Value) {key l : String}
    (h : l ≠ key) : (if c then v else v.set key w).get? l = v.get? l := by
  split
  · rfl
  · exact Value.get?_set_of_ne v w h

namespace AnthropicProvider

/-! ### How the API reads a body -/

/-- A message as the API reads it: its role and its blocks; a plain text is one text block. -/
def readMessage (entry : Value) : String × List Value :=
  (entry.strOr "role" "",
    match entry.get? "content" with
    | some (.array blocks) => blocks
    | some (.string text) => [textBlock text]
    | _ => [])

/-- The messages of a body, after neighbours of one role are joined. -/
def groupsOf (payload : Value) : List (String × List Value) :=
  mergeRuns ((wireMessages payload).map readMessage)

/-- The member `key` of every block of a type. -/
def blockIds (type key : String) (blocks : List Value) : List String :=
  (blocks.filter fun b => b.strOr "type" "" == type).map fun b => b.strOr key ""

/-- The ids of the calls among the blocks. -/
def toolUses (blocks : List Value) : List String := blockIds "tool_use" "id" blocks

/-- The ids of the answered calls among the blocks. -/
def toolResults (blocks : List Value) : List String :=
  blockIds "tool_result" "tool_use_id" blocks

/-- **Paired on the wire**: user and assistant messages alternate, from a user message to a user
message; each assistant message is followed by the answers to its calls, in order, and there is no
other answer. -/
structure PairedOnWire (groups : List (String × List Value)) : Prop where
  roles : ∀ g ∈ groups, g.1 = "user" ∨ g.1 = "assistant"
  opens : ∃ first rest, groups = first :: rest ∧ first.1 = "user" ∧ toolResults first.2 = []
  alternates : groups.IsChain fun a b => a.1 ≠ b.1
  answered : groups.IsChain fun a b => a.1 = "assistant" → toolUses a.2 = toolResults b.2
  strays : ∀ g ∈ groups, g.1 = "assistant" → toolResults g.2 = []
  closes : ∀ last ∈ groups.getLast?, last.1 = "user"

/-! ### The body -/

theorem wireMessages_buildPayload (p : AnthropicProvider) {req : CompletionRequest}
    (hparams : req.params = .null) :
    wireMessages (p.buildPayload req) = req.messages.filterMap payloadMessage := by
  have hbase : (Value.obj [("model", .string (req.modelOr p.model)),
      ("max_tokens", .nat (req.maxTokens.getD defaultMaxTokens).toNat),
      ("messages", .array (req.messages.filterMap payloadMessage))]).get? "messages" =
        some (.array (req.messages.filterMap payloadMessage)) := by
    simp [Value.obj, Value.get?, Value.lookup_insertField]
  -- no other member is written under that key
  have hget : (p.buildPayload req).get? "messages" =
      some (.array (req.messages.filterMap payloadMessage)) := by
    simp only [buildPayload, hparams, mergeParams]
    cases req.temperature with
    | none =>
      rw [Value.get?_ite_set_of_ne _ _ (by decide), Value.get?_ite_set_of_ne _ _ (by decide), hbase]
    | some t =>
      rw [Value.get?_ite_set_of_ne _ _ (by decide), Value.get?_set_of_ne _ _ (by decide),
        Value.get?_ite_set_of_ne _ _ (by decide), hbase]
  simp [wireMessages, hget, Value.asArray?]

/-! ### The rows -/

section Rows

variable {m : Message} {tc : ToolCall}

theorem payloadMessage_system (h : m.IsText .system) : payloadMessage m = none := by
  rw [payloadMessage, h.role]

theorem payloadMessage_user (h : m.IsText .user) :
    payloadMessage m = some (textEntry "user" m) := by
  rw [payloadMessage, h.role, h.toolCallId]

theorem payloadMessage_assistant (h : m.IsText .assistant) :
    payloadMessage m = some (textEntry "assistant" m) := by
  rw [payloadMessage, h.role, h.toolCallId]

theorem payloadMessage_call (h : m.TellsCall tc) :
    payloadMessage m = some (toolUseEntry tc.id tc.name m) := by
  rw [payloadMessage, h.role, h.toolCallId, h.toolName]

theorem payloadMessage_answer (h : m.IsAnswer tc) :
    payloadMessage m = some (toolResultEntry tc.id m) := by
  rw [payloadMessage, h.role, h.toolCallId]
  rfl

theorem readMessage_text (role : String) (m : Message) :
    readMessage (textEntry role m) = (role, [textBlock (m.content.getD "")]) := by
  simp [readMessage, textEntry, Value.strOr, Value.obj, Value.get?, Value.lookup_insertField,
    Value.asStr?]

theorem readMessage_toolResult (tcid : String) (m : Message) :
    readMessage (toolResultEntry tcid m) = ("user", [.obj [("type", .string "tool_result"),
      ("tool_use_id", .string tcid), ("content", .string (toolContent m))]]) := by
  simp [readMessage, toolResultEntry, Value.strOr, Value.obj, Value.get?,
    Value.lookup_insertField, Value.asStr?]

theorem readMessage_toolUse (h : m.TellsCall tc) :
    readMessage (toolUseEntry tc.id tc.name m) = ("assistant", [.obj [("type", .string "tool_use"),
      ("id", .string tc.id), ("name", .string tc.name), ("input", tc.args)]]) := by
  simp [readMessage, toolUseEntry, h.content, h.toolInput, Value.strOr, Value.obj, Value.get?,
    Value.lookup_insertField, Value.asStr?]

end Rows

/-! ### Rows of one role -/

/-- The rows as the API reads them. -/
def readRows (rows : List Message) : List (String × List Value) :=
  (rows.filterMap payloadMessage).map readMessage

theorem readRows_append (rows rows' : List Message) :
    readRows (rows ++ rows') = readRows rows ++ readRows rows' := by
  simp [readRows]

theorem readRows_cons {m : Message} {entry : Value} (h : payloadMessage m = some entry)
    (rows : List Message) : readRows (m :: rows) = readMessage entry :: readRows rows := by
  simp [readRows, h]

theorem blockIds_append (type key : String) (blocks blocks' : List Value) :
    blockIds type key (blocks ++ blocks') =
      blockIds type key blocks ++ blockIds type key blocks' := by
  simp [blockIds]

/-- Messages of one role, with the calls and the answers in them. -/
structure OneRole (role : String) (uses results : List String)
    (entries : List (String × List Value)) : Prop where
  role : ∀ e ∈ entries, e.1 = role
  uses : toolUses (entries.flatMap Prod.snd) = uses
  results : toolResults (entries.flatMap Prod.snd) = results

theorem OneRole.nil (role : String) : OneRole role [] [] [] := ⟨by simp, rfl, rfl⟩

theorem OneRole.cons {role : String} {uses uses' results results' : List String}
    {blocks : List Value} {entries : List (String × List Value)}
    (h : OneRole role uses' results' entries) (huses : toolUses blocks = uses)
    (hresults : toolResults blocks = results) :
    OneRole role (uses ++ uses') (results ++ results') ((role, blocks) :: entries) := by
  refine ⟨List.forall_mem_cons.mpr ⟨rfl, h.role⟩, ?_, ?_⟩
  · rw [List.flatMap_cons, toolUses, blockIds_append]
    exact congrArg₂ _ huses h.uses
  · rw [List.flatMap_cons, toolResults, blockIds_append]
    exact congrArg₂ _ hresults h.results

theorem textBlock_ids (text : String) :
    toolUses [textBlock text] = [] ∧ toolResults [textBlock text] = [] := by
  simp [toolUses, toolResults, blockIds, textBlock, Value.strOr, Value.obj, Value.get?,
    Value.lookup_insertField, Value.asStr?]

theorem toolUse_ids (id name : String) (input : Value) :
    toolUses [.obj [("type", .string "tool_use"), ("id", .string id), ("name", .string name),
      ("input", input)]] = [id] ∧
    toolResults [.obj [("type", .string "tool_use"), ("id", .string id), ("name", .string name),
      ("input", input)]] = [] := by
  simp [toolUses, toolResults, blockIds, Value.strOr, Value.obj, Value.get?,
    Value.lookup_insertField, Value.asStr?]

theorem toolResult_ids (id content : String) :
    toolUses [.obj [("type", .string "tool_result"), ("tool_use_id", .string id),
      ("content", .string content)]] = [] ∧
    toolResults [.obj [("type", .string "tool_result"), ("tool_use_id", .string id),
      ("content", .string content)]] = [id] := by
  simp [toolUses, toolResults, blockIds, Value.strOr, Value.obj, Value.get?,
    Value.lookup_insertField, Value.asStr?]

theorem oneRole_text (role : String) {m : Message}
    (h : payloadMessage m = some (textEntry role m)) : OneRole role [] [] (readRows [m]) := by
  rw [readRows_cons h, readMessage_text]
  obtain ⟨huses, hresults⟩ := textBlock_ids (m.content.getD "")
  exact (OneRole.nil role).cons huses hresults

theorem oneRole_calls {calls : List ToolCall} {rows : List Message}
    (h : List.Forall₂ Message.TellsCall calls rows) :
    OneRole "assistant" (calls.map ToolCall.id) [] (readRows rows) := by
  induction h with
  | nil => exact .nil _
  | @cons tc m _ _ hm _ ih =>
    rw [readRows_cons (payloadMessage_call hm), readMessage_toolUse hm]
    obtain ⟨huses, hresults⟩ := toolUse_ids tc.id tc.name tc.args
    exact ih.cons huses hresults

theorem oneRole_answers {issued calls : List ToolCall} {rows : List Message}
    (h : List.Forall₂ (Answers issued) calls rows) :
    OneRole "user" [] (calls.map ToolCall.id) (readRows rows) := by
  induction h with
  | nil => exact .nil _
  | @cons tc m _ _ hm _ ih =>
    rw [readRows_cons (payloadMessage_answer hm.toIsAnswer), readMessage_toolResult]
    obtain ⟨huses, hresults⟩ := toolResult_ids tc.id (toolContent m)
    exact ih.cons huses hresults

theorem readRows_ne_nil {m : Message} {entry : Value} {rows : List Message}
    (h : payloadMessage m = some entry) : readRows (m :: rows) ≠ [] := by
  rw [readRows_cons h]
  exact List.cons_ne_nil _ _

/-! ### Turns -/

/-- A turn on the wire: assistant messages with calls, and then user messages with their answers. -/
structure TurnPaired (t : Turn) : Prop where
  rows : readRows t.rows ≠ []
  after : readRows t.after ≠ []
  calls : OneRole "assistant" (t.resp.toolCalls.map ToolCall.id) [] (readRows t.rows)
  answers : OneRole "user" [] (t.resp.toolCalls.map ToolCall.id) (readRows t.after)

theorem turnPaired {σ : Type} {ctx : ExecutionContext σ} {issued : List ToolCall} {t : Turn}
    (htold : ReplyTold t.resp t.rows) (hsettled : t.Settled ctx issued) : TurnPaired t := by
  unfold ReplyTold at htold
  unfold Turn.Settled at hsettled
  by_cases hc : t.resp.toolCalls = []
  · rw [if_pos hc] at htold hsettled
    obtain ⟨m, hrows, hm, -⟩ := htold
    obtain ⟨-, -, nudge, hafter, hnudge, -⟩ := hsettled
    have hm' := payloadMessage_assistant hm
    have hnudge' := payloadMessage_user hnudge
    constructor
    · rw [hrows]
      exact readRows_ne_nil hm'
    · rw [hafter]
      exact readRows_ne_nil hnudge'
    · rw [hc, hrows]
      exact oneRole_text "assistant" hm'
    · rw [hc, hafter]
      exact oneRole_text "user" hnudge'
  · rw [if_neg hc] at htold hsettled
    obtain ⟨tc, rest, hcalls⟩ := List.exists_cons_of_ne_nil hc
    refine ⟨?_, ?_, oneRole_calls htold, oneRole_answers hsettled.1⟩
    · rw [hcalls] at htold
      obtain ⟨m, _, hm, -, hrows⟩ := List.forall₂_cons_left_iff.mp htold
      rw [hrows]
      exact readRows_ne_nil (payloadMessage_call hm)
    · have hanswers := hsettled.1
      rw [hcalls] at hanswers
      obtain ⟨m, _, hm, -, hafter⟩ := List.forall₂_cons_left_iff.mp hanswers
      rw [hafter]
      exact readRows_ne_nil (payloadMessage_answer hm.toIsAnswer)

/-- The two groups of a turn. -/
def turnGroups (t : Turn) : List (String × List Value) :=
  [("assistant", (readRows t.rows).flatMap Prod.snd),
    ("user", (readRows t.after).flatMap Prod.snd)]

/-- The messages of the turns begin with an assistant message, if there are any. -/
theorem turns_head {turns : List Turn} (hturns : ∀ t ∈ turns, TurnPaired t) :
    ∀ e ∈ (turns.flatMap fun t => readRows t.block).head?, e.1 = "assistant" := by
  cases turns with
  | nil => simp
  | cons t turns =>
    have ht := hturns t List.mem_cons_self
    obtain ⟨e, rest, hrows⟩ := List.exists_cons_of_ne_nil ht.rows
    have he : e.1 = "assistant" := ht.calls.role e (by simp [hrows])
    simp [Turn.block, readRows_append, hrows, he]

theorem mergeRuns_turns {turns : List Turn} (hturns : ∀ t ∈ turns, TurnPaired t) :
    mergeRuns (turns.flatMap fun t => readRows t.block) = turns.flatMap turnGroups := by
  induction turns with
  | nil => rfl
  | cons t turns ih =>
    obtain ⟨ht, hrest⟩ := List.forall_mem_cons.mp hturns
    have hhead := turns_head hrest
    have hafter : ∀ e ∈ (readRows t.after ++ turns.flatMap fun t => readRows t.block).head?,
        e.1 ≠ "assistant" := by
      obtain ⟨e, rest, hrows⟩ := List.exists_cons_of_ne_nil ht.after
      have he : e.1 = "user" := ht.answers.role e (by simp [hrows])
      simp [hrows, he]
    have hnext : ∀ e ∈ (turns.flatMap fun t => readRows t.block).head?, e.1 ≠ "user" := by
      intro e he
      rw [hhead e he]
      decide
    rw [List.flatMap_cons, List.flatMap_cons, Turn.block, readRows_append, List.append_assoc,
      mergeRuns_run ht.rows ht.calls.role hafter, mergeRuns_run ht.after ht.answers.role hnext,
      ih hrest]
    rfl

theorem turns_chain {turns : List Turn} (hturns : ∀ t ∈ turns, TurnPaired t)
    (first : String × List Value) (hfirst : first.1 = "user") :
    (first :: turns.flatMap turnGroups).IsChain
      fun a b => a.1 = "assistant" → toolUses a.2 = toolResults b.2 := by
  induction turns generalizing first with
  | nil => exact .singleton _
  | cons t turns ih =>
    obtain ⟨ht, hrest⟩ := List.forall_mem_cons.mp hturns
    refine .cons_cons ?_ (.cons_cons ?_ (ih hrest _ rfl))
    · intro hrole
      rw [hfirst] at hrole
      exact absurd hrole (by decide)
    · intro _
      exact ht.calls.uses.trans ht.answers.results.symm

/-- **Turns on the wire**: after the input, each joins to its two groups. -/
theorem pairedOnWire_turns {turns : List Turn} (hturns : ∀ t ∈ turns, TurnPaired t)
    (input : String) :
    PairedOnWire (mergeRuns (("user", [textBlock input]) ::
      turns.flatMap fun t => readRows t.block)) := by
  have hnext : ∀ e ∈ (turns.flatMap fun t => readRows t.block).head?, e.1 ≠ "user" := by
    intro e he
    rw [turns_head hturns e he]
    decide
  -- each turn is one message of the assistant and one of the user, and the input joins neither
  have hgroups :
      mergeRuns (("user", [textBlock input]) :: turns.flatMap fun t => readRows t.block) =
        ("user", [textBlock input]) :: turns.flatMap turnGroups := by
    rw [← List.singleton_append, mergeRuns_run (by simp) (by simp) hnext, mergeRuns_turns hturns]
    rfl
  have hmem : ∀ g ∈ turns.flatMap turnGroups, g.1 = "user" ∨
      g.1 = "assistant" ∧ toolResults g.2 = [] := by
    intro g hg
    obtain ⟨t, ht, hg⟩ := List.mem_flatMap.mp hg
    rcases List.mem_pair.mp hg with rfl | rfl
    · exact .inr ⟨rfl, (hturns t ht).calls.results⟩
    · exact .inl rfl
  constructor
  · rw [hgroups]
    exact List.forall_mem_cons.mpr ⟨.inl rfl, fun g hg => (hmem g hg).imp_right And.left⟩
  · exact ⟨_, _, hgroups, rfl, (textBlock_ids input).2⟩
  · exact mergeRuns_alternates _
  · rw [hgroups]
    exact turns_chain hturns _ rfl
  · rw [hgroups]
    refine List.forall_mem_cons.mpr ⟨fun h => absurd h (by simp), ?_⟩
    intro g hg hrole
    rcases hmem g hg with huser | ⟨-, hnone⟩
    · rw [huser] at hrole
      exact absurd hrole (by decide)
    · exact hnone
  · rw [hgroups]
    rcases List.eq_nil_or_concat turns with rfl | ⟨turns', t, rfl⟩
    · simp
    · have hlast : ("user", [textBlock input]) :: (turns'.concat t).flatMap turnGroups =
          (("user", [textBlock input]) :: turns'.flatMap turnGroups ++
            [("assistant", (readRows t.rows).flatMap Prod.snd)]) ++
            [("user", (readRows t.after).flatMap Prod.snd)] := by
        simp [turnGroups]
      rw [hlast, List.getLast?_concat]
      simp

theorem readRows_transcript {σ : Type} {ctx : ExecutionContext σ} {seed : List Message}
    (hseed : IsOpening ctx seed) (turns : List Turn) :
    readRows (transcript seed turns) =
      ("user", [textBlock ctx.input]) :: turns.flatMap fun t => readRows t.block := by
  obtain ⟨sys, user, rfl, hsys, huser, hinput⟩ := hseed
  have hnone : sys.filterMap payloadMessage = [] := by
    rw [List.filterMap_eq_nil_iff]
    intro m hm
    exact payloadMessage_system (hsys m hm)
  have hsys' : readRows sys = [] := by rw [readRows, hnone, List.map_nil]
  have huser' : readRows [user] = [("user", [textBlock ctx.input])] := by
    rw [readRows_cons (payloadMessage_user huser), readMessage_text, hinput]
    rfl
  have hturns : ∀ turns : List Turn,
      readRows (turns.flatMap Turn.block) = turns.flatMap fun t => readRows t.block := by
    intro turns
    induction turns with
    | nil => rfl
    | cons t turns ih => rw [List.flatMap_cons, List.flatMap_cons, readRows_append, ih]
  rw [transcript, readRows_append, readRows_append, hsys', huser', hturns]
  rfl

/-! ### Paired requests -/

section Runs

variable {σ : Type} [Platform σ] (p : AnthropicProvider) (passes : Nat) (ctx : ExecutionContext σ)
  (env : σ)

omit [Platform σ] in
theorem groupsOf_request {ctx : ExecutionContext σ} {seed : List Message}
    (hseed : IsOpening ctx seed) (model : String) (turns : List Turn) :
    groupsOf (p.buildPayload (requestFor ctx model (transcript seed turns))) =
      mergeRuns (("user", [textBlock ctx.input]) :: turns.flatMap fun t => readRows t.block) := by
  rw [groupsOf, wireMessages_buildPayload p rfl, ← readRows_transcript hseed]
  rfl

/-- **Pairing on the Messages API**: whatever the provider and the tools do, each request of a
conversation or ReAct run is paired on the wire. -/
theorem chat_requests_paired_on_wire :
    (∀ before req answer after,
      (ConversationExecutor.execute passes ctx env).2.world.effects =
        before ++ .llm req answer :: after →
      PairedOnWire (groupsOf (p.buildPayload req))) ∧
    (∀ before req answer after,
      (ReActExecutor.execute passes ctx env).2.world.effects =
        before ++ .llm req answer :: after →
      PairedOnWire (groupsOf (p.buildPayload req))) := by
  have settled : ∀ {seed : List Message} {h : LoopHarness σ}, IsOpening ctx seed →
      EndsWith ctx (fun before t => t.Settled ctx (issuedIn before))
        (fun before t => t.Final ctx (issuedIn before)) seed h →
      ∀ before req answer after, h.world.effects = before ++ .llm req answer :: after →
        PairedOnWire (groupsOf (p.buildPayload req)) := by
    intro seed h hseed he before req answer after heq
    obtain ⟨turns, model, hall, -, rfl⟩ := he.request heq
    have hturns : ∀ t ∈ turns, TurnPaired t := by
      intro t ht
      obtain ⟨earlier, htold, hsettled⟩ := hall.exists_of_mem ht
      exact turnPaired htold.rows hsettled
    rw [groupsOf_request p hseed]
    exact pairedOnWire_turns hturns ctx.input
  obtain ⟨seed, hseed, he⟩ := Runtime.runExecutor_ends .conversation passes ctx env
  obtain ⟨seed', hseed', he'⟩ := Runtime.runExecutor_ends .react passes ctx env
  exact ⟨settled hseed he, settled hseed' he'⟩

end Runs

/-! ### Empty texts -/

/-- **No empty text message**: every user or assistant message whose content is a plain text has one
that is not empty. -/
def NoEmptyText (payload : Value) : Prop :=
  ∀ entry ∈ wireMessages payload, ∀ text, entry.get? "content" = some (.string text) → text ≠ ""

/-- A row that leaves no empty text. -/
def LeavesText (m : Message) : Prop :=
  ∀ entry, payloadMessage m = some entry → ∀ text, entry.get? "content" = some (.string text) →
    text ≠ ""

section Rows

variable {m : Message} {tc : ToolCall}

theorem leavesText_text {role : String} (h : payloadMessage m = some (textEntry role m)) :
    LeavesText m ↔ m.content.getD "" ≠ "" := by
  simp [LeavesText, h, textEntry, Value.obj, Value.get?, Value.lookup_insertField]

theorem leavesText_call (h : m.TellsCall tc) : LeavesText m := by
  simp [LeavesText, payloadMessage_call h, toolUseEntry, Value.obj, Value.get?,
    Value.lookup_insertField]

theorem leavesText_answer (h : m.IsAnswer tc) : LeavesText m := by
  simp [LeavesText, payloadMessage_answer h, toolResultEntry, Value.obj, Value.get?,
    Value.lookup_insertField]

theorem leavesText_user (h : m.IsText .user) {text : String} (hcontent : m.content = some text)
    (htext : text ≠ "") : LeavesText m := by
  rw [leavesText_text (payloadMessage_user h), hcontent]
  exact htext

end Rows

/-- Rows that leave no empty text. -/
def LeaveTexts (rows : List Message) : Prop := ∀ m ∈ rows, LeavesText m

theorem leaveTexts_append {rows rows' : List Message} :
    LeaveTexts (rows ++ rows') ↔ LeaveTexts rows ∧ LeaveTexts rows' := List.forall_mem_append

theorem noEmptyText_buildPayload (p : AnthropicProvider) {req : CompletionRequest}
    (hparams : req.params = .null) :
    NoEmptyText (p.buildPayload req) ↔ LeaveTexts req.messages := by
  rw [NoEmptyText, wireMessages_buildPayload p hparams]
  simp only [List.mem_filterMap]
  constructor
  · intro h m hm entry hentry
    exact h entry ⟨m, hm, hentry⟩
  · rintro h entry ⟨m, hm, hentry⟩
    exact h m hm entry hentry

/-- A reply that leaves no empty text: it has a text, or calls. -/
def TextOrCalls (resp : CompletionResponse) : Prop :=
  resp.toolCalls = [] → resp.content.getD "" ≠ ""

/-- The rows of a reply leave an empty text only if it has neither a text nor calls. -/
theorem leaveTexts_rows {resp : CompletionResponse} {rows : List Message}
    (h : ReplyTold resp rows) : LeaveTexts rows ↔ TextOrCalls resp := by
  unfold ReplyTold at h
  by_cases hc : resp.toolCalls = []
  · rw [if_pos hc] at h
    obtain ⟨m, rfl, hm, hcontent⟩ := h
    have hleaves : LeavesText m ↔ resp.content.getD "" ≠ "" := by
      rw [leavesText_text (payloadMessage_assistant hm), hcontent, Option.getD_some]
    simp [LeaveTexts, TextOrCalls, hleaves, hc]
  · rw [if_neg hc] at h
    have hall : LeaveTexts rows := by
      intro m hm
      obtain ⟨tc, -, hcall⟩ := exists_left_of_forall₂ h hm
      exact leavesText_call hcall
    exact ⟨fun _ hnone => absurd hnone hc, fun _ => hall⟩

section Runs

variable {σ : Type} {ctx : ExecutionContext σ} {turns : List Turn} {t : Turn}

/-- A blank critique prompt gives way to the default. -/
theorem critiquePrompt_ne (ctx : ExecutionContext σ) :
    ReflectionExecutor.critiquePrompt ctx ≠ "" := by
  unfold ReflectionExecutor.critiquePrompt
  cases hprompt : Harness.nonBlank ctx.harness.critique with
  | none => decide
  | some text =>
    obtain ⟨-, hblank⟩ := Option.filter_eq_some_iff.mp hprompt
    rintro rfl
    exact absurd hblank (by decide)

/-- What a settled turn adds after its reply leaves no empty text. -/
theorem leaveTexts_after {kind : ExecutorKind} (h : Runtime.Settles kind ctx turns t) :
    LeaveTexts t.after := by
  have chat : t.Settled ctx (issuedIn turns) → LeaveTexts t.after := by
    unfold Turn.Settled
    split
    · rintro ⟨-, -, nudge, hafter, hnudge, hcontent⟩
      rw [hafter]
      exact List.forall_mem_singleton.mpr (leavesText_user hnudge hcontent (by decide))
    · rintro ⟨hall, -⟩ m hm
      obtain ⟨tc, -, hanswer⟩ := exists_left_of_forall₂ hall hm
      exact leavesText_answer hanswer.toIsAnswer
  cases kind with
  | conversation => exact chat h
  | react => exact chat h
  | reflection maxRevisions =>
    obtain ⟨-, prompt, hafter, hprompt, hcontent⟩ := h
    rw [hafter]
    refine List.forall_mem_singleton.mpr ?_
    rcases hcontent with hcritique | hrevise
    · exact leavesText_user hprompt hcritique (critiquePrompt_ne ctx)
    · exact leavesText_user hprompt hrevise (by decide)

theorem leaveTexts_seed {seed : List Message} (hseed : IsOpening ctx seed)
    (hinput : ctx.input ≠ "") : LeaveTexts seed := by
  obtain ⟨sys, user, rfl, hsys, huser, hcontent⟩ := hseed
  refine leaveTexts_append.mpr ⟨fun m hm entry hentry => ?_, ?_⟩
  · rw [payloadMessage_system (hsys m hm)] at hentry
    exact absurd hentry (by simp)
  · exact List.forall_mem_singleton.mpr (leavesText_user huser hcontent hinput)

/-- The transcript of settled turns leaves an empty text only if one of their replies does. -/
theorem leaveTexts_transcript {kind : ExecutorKind} {seed : List Message}
    (hseed : IsOpening ctx seed) (hinput : ctx.input ≠ "")
    (hall : AtEvery (fun before t =>
      t.Told ctx (transcript seed before) ∧ Runtime.Settles kind ctx before t) turns) :
    LeaveTexts (transcript seed turns) ↔ ∀ t ∈ turns, TextOrCalls t.resp := by
  have hblock : ∀ t ∈ turns, LeaveTexts t.block ↔ TextOrCalls t.resp := by
    intro t ht
    obtain ⟨before, htold, hsettles⟩ := hall.exists_of_mem ht
    rw [Turn.block, leaveTexts_append, leaveTexts_rows htold.rows]
    exact and_iff_left (leaveTexts_after hsettles)
  rw [transcript, leaveTexts_append, and_iff_right (leaveTexts_seed hseed hinput)]
  constructor
  · intro h t ht
    exact (hblock t ht).mp fun m hm => h m (List.mem_flatMap.mpr ⟨t, ht, hm⟩)
  · intro h m hm
    obtain ⟨t, ht, hm⟩ := List.mem_flatMap.mp hm
    exact (hblock t ht).mpr (h t ht) m hm

variable [Platform σ] (p : AnthropicProvider)

/-- A request has no empty text exactly when every reply before it has a text or calls. -/
theorem request_noEmptyText_iff (kind : ExecutorKind) (passes : Nat) (env : σ)
    (hinput : Text.isBlank ctx.input = false) {before after : List Effect}
    {req : CompletionRequest} {answer : Answer (Except LlmError CompletionResponse)}
    (heq : (Runtime.runExecutor kind passes ctx env).2.world.effects =
      before ++ .llm req answer :: after) :
    NoEmptyText (p.buildPayload req) ↔ ∀ resp ∈ responses before, TextOrCalls resp := by
  have hne : ctx.input ≠ "" := by
    intro hempty
    rw [hempty] at hinput
    exact absurd hinput (by decide)
  obtain ⟨seed, hseed, he⟩ := Runtime.runExecutor_ends kind passes ctx env
  obtain ⟨turns, model, hall, rfl, rfl⟩ := he.request heq
  rw [noEmptyText_buildPayload p rfl, responses_effectsOf (told_runs hall)]
  simp only [requestFor, List.forall_mem_map]
  exact leaveTexts_transcript hseed hne hall

/-- **No empty text on the Messages API**: no request of a run holds an empty text message exactly
when every reply that a further request follows has a text or calls. -/
theorem no_empty_text_iff (kind : ExecutorKind) (passes : Nat) (ctx : ExecutionContext σ) (env : σ)
    (hinput : Text.isBlank ctx.input = false) :
    (∀ before req answer after, (Runtime.runExecutor kind passes ctx env).2.world.effects =
        before ++ .llm req answer :: after → NoEmptyText (p.buildPayload req)) ↔
      ∀ before req answer after, (Runtime.runExecutor kind passes ctx env).2.world.effects =
        before ++ .llm req answer :: after →
      ∀ resp ∈ responses before, resp.toolCalls = [] → resp.content.getD "" ≠ "" := by
  constructor
  · intro h before req answer after heq
    exact (request_noEmptyText_iff p kind passes env hinput heq).mp (h before req answer after heq)
  · intro h before req answer after heq
    exact (request_noEmptyText_iff p kind passes env hinput heq).mpr (h before req answer after heq)

end Runs

/-! ### An empty turn -/

/-- A provider for the Messages API. -/
def messagesApi : AnthropicProvider where
  model := "m"
  promptCaching := false

/-- A turn with neither a text nor calls. -/
def emptyTurn : CompletionResponse := ⟨none, [], "stop", ⟨1, 1, none⟩⟩

/-- The request with the nudge holds the empty text of the turn that it answers. -/
theorem nudge_sent_with_empty_text :
    ¬∀ before req answer after,
      (Runtime.runExecutor .conversation 2 (StillWorld.context emptyTurn 8) ⟨⟩).2.world.effects =
        before ++ .llm req answer :: after → NoEmptyText (messagesApi.buildPayload req) := by
  intro h
  obtain ⟨before, req, answer, after, heq, hreply⟩ : ∃ before req answer after,
      (Runtime.runExecutor .conversation 2 (StillWorld.context emptyTurn 8) ⟨⟩).2.world.effects =
        before ++ .llm req answer :: after ∧ emptyTurn ∈ responses before :=
    ⟨[_], _, _, [], rfl, by decide⟩
  have htexts := (request_noEmptyText_iff messagesApi .conversation 2 _ (by decide) heq).mp
    (h before req answer after heq)
  exact htexts emptyTurn hreply rfl rfl

/-- A turn with a blank text. -/
def blankTurn : CompletionResponse := ⟨some " ", [], "stop", ⟨1, 1, none⟩⟩

/-- The request with the nudge holds no empty text if the turn has a blank one. -/
theorem nudge_sent_with_blank_text :
    Text.isBlank (StillWorld.context blankTurn 8).input = false ∧
    ∀ before req answer after,
      (Runtime.runExecutor .conversation 2 (StillWorld.context blankTurn 8) ⟨⟩).2.world.effects =
        before ++ .llm req answer :: after → NoEmptyText (messagesApi.buildPayload req) := by
  have hblank : Text.isBlank (StillWorld.context blankTurn 8).input = false := by decide
  have hreplies : ∀ resp ∈ responses (Runtime.runExecutor .conversation 2
      (StillWorld.context blankTurn 8) ⟨⟩).2.world.effects, resp = blankTurn := by decide +kernel
  refine ⟨hblank, (no_empty_text_iff messagesApi .conversation 2 (StillWorld.context blankTurn 8) ⟨⟩
    hblank).mpr ?_⟩
  intro before req answer after heq resp hresp _
  rw [heq, responses_append] at hreplies
  rw [hreplies resp (List.mem_append_left _ hresp)]
  decide

end AnthropicProvider

end PgSynapse

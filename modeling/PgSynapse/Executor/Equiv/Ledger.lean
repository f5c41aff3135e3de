import Mathlib.Algebra.Field.Rat
import PgSynapse.Runtime.Equiv.IterationCap

/-!
# The log of a run

The books of a harness are in order when its rows are numbered in the order they stand in, carry the
id of the run, and the cost so far is that of the replies received (`LoopHarness.Ledger`).  Every
piece of an executor keeps them so and only appends to the log, and the request of a turn is made of
the log as it stands at the await (`Writes`).  So the requests of a run carry longer and longer
beginnings of one log (`requests_are_prefixes`).
-/

namespace PgSynapse

open LoopHarness

/-- The sum of the costs of some replies. -/
def totalCost (replies : List CompletionResponse) : Rat :=
  (replies.map fun resp => resp.usage.costUsd.getD 0).sum

theorem totalCost_concat (replies : List CompletionResponse) (resp : CompletionResponse) :
    totalCost (replies ++ [resp]) = totalCost replies + resp.usage.costUsd.getD 0 := by
  simp [totalCost]

/-- Rows numbered from 0 on, all of the run `id`. -/
def Numbered (id : Uuid) (rows : List Message) : Prop :=
  ∀ i (hi : i < rows.length), rows[i].seq.toNat = i ∧ rows[i].executionId = id

variable {σ : Type}

namespace LoopHarness

/-- The books are in order. -/
structure Ledger (h : LoopHarness σ) : Prop where
  seq : h.seq = UInt32.ofNat h.messages.length
  numbered : h.messages.map Message.seq = (List.range h.messages.length).map UInt32.ofNat
  stamped : ∀ m ∈ h.messages, m.executionId = h.ctx.executionId
  cost : h.costSoFar = totalCost (responses h.world.effects)

/-- Below `2^32` rows the numbers have not wrapped. -/
theorem Ledger.rows_numbered {h : LoopHarness σ} (hl : h.Ledger)
    (hlen : h.messages.length ≤ 2 ^ 32) : Numbered h.ctx.executionId h.messages := by
  intro i hi
  refine ⟨?_, hl.stamped _ (List.getElem_mem hi)⟩
  have hseq : (h.messages.map Message.seq)[i]? =
      ((List.range h.messages.length).map UInt32.ofNat)[i]? := by rw [hl.numbered]
  rw [List.getElem?_map, List.getElem?_eq_getElem hi, List.getElem?_map,
    List.getElem?_range hi] at hseq
  rw [Option.some.inj hseq]
  exact UInt32.toNat_ofNat_of_lt' (show i < 2 ^ 32 by omega)

/-- What a piece of an executor writes between `h` and `h'`, with the suspension points on the
way. -/
structure Writes (h h' : LoopHarness σ) (points : List (LoopHarness σ)) : Prop where
  ctx : h'.ctx = h.ctx
  ledger : h.Ledger → h'.Ledger ∧ ∀ p ∈ points, p.Ledger
  under : ∀ p ∈ points, p.ctx = h.ctx
  grows : h.messages <+: h'.messages
  between : ∀ p ∈ points, h.messages <+: p.messages ∧ p.messages <+: h'.messages
  ordered : points.Pairwise fun p q => p.messages <+: q.messages
  asks : ∃ calls, h'.world.effects = h.world.effects ++ calls ∧
    List.Forall₂ (fun p e => ∀ req answer, e = .llm req answer →
      ∃ model, req = requestFor h.ctx model p.messages) points calls

namespace Writes

variable {h h₁ h₂ : LoopHarness σ} {points points' : List (LoopHarness σ)}

theorem trans (w : Writes h h₁ points) (w' : Writes h₁ h₂ points') :
    Writes h h₂ (points ++ points') where
  ctx := w'.ctx.trans w.ctx
  ledger hl := by
    obtain ⟨hl₁, hpoints⟩ := w.ledger hl
    obtain ⟨hl₂, hpoints'⟩ := w'.ledger hl₁
    exact ⟨hl₂, List.forall_mem_append.mpr ⟨hpoints, hpoints'⟩⟩
  under := List.forall_mem_append.mpr ⟨w.under, fun p hp => (w'.under p hp).trans w.ctx⟩
  grows := w.grows.trans w'.grows
  between := by
    refine List.forall_mem_append.mpr ⟨fun p hp => ?_, fun p hp => ?_⟩
    · exact ⟨(w.between p hp).1, (w.between p hp).2.trans w'.grows⟩
    · exact ⟨w.grows.trans (w'.between p hp).1, (w'.between p hp).2⟩
  ordered := by
    refine List.pairwise_append.mpr ⟨w.ordered, w'.ordered, ?_⟩
    intro p hp q hq
    exact (w.between p hp).2.trans (w'.between q hq).1
  asks := by
    obtain ⟨calls, heffects, hcalls⟩ := w.asks
    obtain ⟨calls', heffects', hcalls'⟩ := w'.asks
    refine ⟨calls ++ calls', by rw [heffects', heffects, List.append_assoc], ?_⟩
    rw [w.ctx] at hcalls'
    exact List.rel_append hcalls hcalls'

/-- A piece that leaves the books alone. -/
theorem quiet (hctx : h₁.ctx = h.ctx) (hseq : h₁.seq = h.seq) (hms : h₁.messages = h.messages)
    (hcost : h₁.costSoFar = h.costSoFar) (hes : h₁.world.effects = h.world.effects) :
    Writes h h₁ [] where
  ctx := hctx
  ledger hl := by
    refine ⟨⟨?_, ?_, ?_, ?_⟩, by simp⟩
    · rw [hseq, hms, hl.seq]
    · rw [hms, hl.numbered]
    · rw [hms, hctx]
      exact hl.stamped
    · rw [hcost, hes, hl.cost]
  under := by simp
  grows := by rw [hms]
  between := by simp
  ordered := .nil
  asks := ⟨[], by rw [hes, List.append_nil], .nil⟩

theorem refl (h : LoopHarness σ) : Writes h h [] := .quiet rfl rfl rfl rfl rfl

/-- A piece without suspension points before another. -/
theorem after (w' : Writes h₁ h₂ points) (w : Writes h h₁ []) : Writes h h₂ points := w.trans w'

/-- A piece without suspension points after another. -/
theorem before (w : Writes h h₁ points) (w' : Writes h₁ h₂ []) : Writes h h₂ points := by
  simpa using w.trans w'

end Writes

variable (h : LoopHarness σ)

/-! ### Recording -/

theorem mirror_writes (f : ExecutorOutcome → ExecutorOutcome) : Writes h (h.mirror f) [] := by
  unfold mirror
  split
  · exact .quiet rfl rfl rfl rfl rfl
  · exact .refl h

theorem env_writes (env : σ) : Writes h { h with world := { h.world with env := env } } [] :=
  .quiet rfl rfl rfl rfl rfl

theorem recordEvent_writes (kind : EventKind) (payload : Value) :
    Writes h (h.recordEvent kind payload) [] :=
  (h.mirror_writes _).before (.quiet rfl rfl rfl rfl rfl)

/-- The row an append adds is numbered next. -/
theorem append_writes (msg : Message) (hid : msg.executionId = h.ctx.executionId) :
    Writes h (h.append msg) [] := by
  have g := h.append_grows msg hid
  have hseq : (h.append msg).seq = h.seq + 1 := by
    unfold append mirror
    simp only
    split <;> rfl
  have hcost : (h.append msg).costSoFar = h.costSoFar := by
    unfold append mirror
    simp only
    split <;> rfl
  have hlen : (h.append msg).messages.length = h.messages.length + 1 := by
    rw [g.messages, List.length_append, List.length_singleton]
  refine ⟨g.ctx, ?_, by simp, ⟨_, g.messages.symm⟩, by simp, .nil, [], g.effects, .nil⟩
  intro hl
  refine ⟨⟨?_, ?_, ?_, ?_⟩, by simp⟩
  · rw [hseq, hl.seq, hlen]
    exact UInt32.ofNat_add h.messages.length 1 |>.symm
  · rw [hlen, List.range_succ, List.map_append, ← hl.numbered, g.messages, List.map_append, hl.seq]
    rfl
  · rw [g.messages, g.ctx]
    exact List.forall_mem_append.mpr ⟨hl.stamped, g.stamped⟩
  · rw [hcost, g.effects, List.append_nil, hl.cost]

theorem bumpIteration_writes : Writes h h.bumpIteration [] := .quiet rfl rfl rfl rfl rfl

theorem checkInterrupt_writes : Writes h h.checkInterrupt.2 [] := by
  unfold checkInterrupt
  split
  · exact .refl h
  · simp only
    split <;> exact h.env_writes _

theorem checkIterationCap_writes : Writes h h.checkIterationCap.2 [] := by
  unfold checkIterationCap
  split
  · exact h.recordEvent_writes _ _
  · exact .refl h

variable [Platform σ]

theorem elapsed_writes : Writes h h.elapsed.2 [] := h.env_writes _

theorem newMessage_writes (role : Role) : Writes h (h.newMessage role).2 [] := h.env_writes _

theorem pushMessage_writes (role : Role) (content : Option String) (toolOutput : Option Value) :
    Writes h (h.pushMessage role content toolOutput) [] :=
  (append_writes _ _ rfl).after (h.newMessage_writes role)

theorem pushUserMessage_writes (content : String) : Writes h (h.pushUserMessage content) [] :=
  h.pushMessage_writes _ _ _

theorem pushEmptyTurnNudge_writes : Writes h h.pushEmptyTurnNudge [] :=
  (h.pushUserMessage_writes emptyTurnNudge).before (recordEvent_writes _ _ _)

theorem seedMessages_writes : Writes h h.seedMessages [] := by
  unfold seedMessages
  simp only
  split
  · exact h.pushMessage_writes _ _ _
  · exact (h.pushMessage_writes _ _ _).before (pushMessage_writes _ _ _ _)

theorem pushCallRow_writes (tc : ToolCall) : Writes h (h.pushCallRow tc) [] :=
  (append_writes _ _ rfl).after (h.newMessage_writes .assistant)

theorem foldl_pushCallRow_writes (calls : List ToolCall) :
    Writes h (calls.foldl pushCallRow h) [] := by
  induction calls generalizing h with
  | nil => exact .refl h
  | cons tc calls ih => exact (ih (h.pushCallRow tc)).after (h.pushCallRow_writes tc)

theorem recordAssistantResponse_writes (resp : CompletionResponse) :
    Writes h (h.recordAssistantResponse resp) [] := by
  unfold recordAssistantResponse
  split
  · exact h.pushMessage_writes _ _ _
  · exact h.foldl_pushCallRow_writes _

theorem pushToolResult_writes (tc : ToolCall) (output : ToolOutput) :
    Writes h (h.pushToolResult tc output).2 [] :=
  (append_writes _ _ rfl).after (h.newMessage_writes .tool)

theorem pushToolError_writes (tc : ToolCall) (err : ToolError) :
    Writes h (h.pushToolError tc err) [] :=
  ((append_writes _ _ rfl).after (h.newMessage_writes .tool)).before (recordEvent_writes _ _ _)

theorem remainingBudget_writes : Writes h h.remainingBudget.2 [] := by
  unfold remainingBudget
  split
  · exact .refl h
  · exact h.elapsed_writes

theorem checkDeadline_writes : Writes h h.checkDeadline.2 [] := by
  unfold checkDeadline
  split
  · exact .refl h
  · simp only
    split
    · exact h.elapsed_writes.before (recordEvent_writes _ _ _)
    · exact h.elapsed_writes

/-! ### Turns -/

omit [Platform σ] in
/-- An outside call whose answer costs nothing: the harness stands still at its await. -/
theorem returned_writes (env : σ) {e : Effect} (he : responses [e] = [])
    (hreq : ∀ req answer, e = .llm req answer → ∃ model, req = requestFor h.ctx model h.messages) :
    Writes h (h.returned env e) [h] where
  ctx := rfl
  ledger hl := by
    refine ⟨⟨hl.seq, hl.numbered, hl.stamped, ?_⟩, by simpa using hl⟩
    rw [returned, responses_append, he, List.append_nil]
    exact hl.cost
  under := by simp
  grows := List.prefix_rfl
  between p hp := by
    rw [List.mem_singleton.mp hp]
    exact ⟨List.prefix_rfl, List.prefix_rfl⟩
  ordered := List.pairwise_singleton _ _
  asks := ⟨[e], rfl, .cons hreq .nil⟩

/-- A reply, up to the point where its usage is recorded: the log of effects is one reply ahead of
the cost, and then the cost catches up. -/
theorem reply_writes (env : σ) (model : String) (resp : CompletionResponse) (payload : Value) :
    Writes h (((h.returned env (.llm (requestFor h.ctx model h.messages) (.ready (.ok resp)))
      ).recordEvent .llmResponse payload).recordUsage resp) [h] := by
  generalize hret : h.returned env (.llm (requestFor h.ctx model h.messages) (.ready (.ok resp)))
    = h₁
  have hseq : ((h₁.recordEvent .llmResponse payload).recordUsage resp).seq = h.seq := by
    subst hret
    simp only [recordUsage, recordEvent, mirror, elapsed]
    repeat' split
    all_goals rfl
  have hms : ((h₁.recordEvent .llmResponse payload).recordUsage resp).messages = h.messages := by
    subst hret
    simpa [returned] using ((recordEvent_grows _ _ _).before (recordUsage_grows _ resp)).messages
  have hctx : ((h₁.recordEvent .llmResponse payload).recordUsage resp).ctx = h.ctx := by
    subst hret
    exact ((recordEvent_grows _ _ _).before (recordUsage_grows _ resp)).ctx
  have hcost : ((h₁.recordEvent .llmResponse payload).recordUsage resp).costSoFar =
      h.costSoFar + resp.usage.costUsd.getD 0 := by
    subst hret
    simp only [recordUsage, recordEvent, mirror, elapsed]
    repeat' split
    all_goals rfl
  have hes : ((h₁.recordEvent .llmResponse payload).recordUsage resp).world.effects =
      h.world.effects ++ [.llm (requestFor h.ctx model h.messages) (.ready (.ok resp))] := by
    subst hret
    simpa [returned] using ((recordEvent_grows _ _ _).before (recordUsage_grows _ resp)).effects
  generalize (h₁.recordEvent .llmResponse payload).recordUsage resp = h₂ at *
  refine ⟨hctx, ?_, by simp, by rw [hms], ?_, List.pairwise_singleton _ _, _, hes, .cons ?_ .nil⟩
  · intro hl
    refine ⟨⟨?_, ?_, ?_, ?_⟩, by simpa using hl⟩
    · rw [hseq, hms, hl.seq]
    · rw [hms, hl.numbered]
    · rw [hms, hctx]
      exact hl.stamped
    · rw [hcost, hes, responses_append, responses_cons_reply, hl.cost]
      exact (totalCost_concat _ _).symm
  · intro p hp
    rw [List.mem_singleton.mp hp, hms]
    exact ⟨List.prefix_rfl, List.prefix_rfl⟩
  · intro req answer heq
    exact ⟨model, (Effect.llm.inj heq).1.symm⟩

/-- What `one_llm_turn_with` does with a reply once its usage is recorded. -/
theorem acceptResponse_writes (model : String) (resp : CompletionResponse) :
    Writes ((h.recordEvent .llmResponse (h.responsePayload resp)).recordUsage resp)
      (h.acceptResponse model resp).2 [] := by
  unfold acceptResponse
  simp only
  generalize (h.recordEvent .llmResponse (h.responsePayload resp)).recordUsage resp = h₁
  by_cases hlen : resp.finishReason = "length"
  · simp only [hlen, if_true]
    exact .refl h₁
  · simp only [hlen, if_false]
    have hrec := h₁.recordAssistantResponse_writes resp
    by_cases hc : resp.toolCalls.isEmpty = true
    · simp only [hc, if_true]
      split <;> exact hrec
    · simp only [hc, Bool.false_eq_true, if_false]
      exact hrec.before (.after (mirror_writes _ _) (.quiet rfl rfl rfl rfl rfl))

/-- **One turn** asks with the log as it stands at the await. -/
theorem oneLlmTurnWith_writes (provider : LlmProvider σ) :
    Writes h (h.oneLlmTurnWith provider).2 (h.turnAwaits provider) := by
  unfold oneLlmTurnWith turnAwaits
  have wi := h.checkInterrupt_writes
  rcases hi : h.checkInterrupt with ⟨_ | _, h₁⟩ <;> rw [hi] at wi
  · exact wi
  simp only
  have hreq : h₁.buildRequest provider.modelName =
      requestFor h₁.ctx provider.modelName h₁.messages := rfl
  generalize h₁.requestPayload provider.modelName (h₁.buildRequest provider.modelName) = payload
  have wb := (h₁.recordEvent_writes .llmRequest payload).before (remainingBudget_writes _)
  have gb := (h₁.recordEvent_grows .llmRequest payload).before (remainingBudget_grows _)
  generalize (h₁.recordEvent .llmRequest payload).remainingBudget = budgeted at wb gb
  obtain ⟨wait, h₂⟩ := budgeted
  simp only at wb gb ⊢
  -- nothing is written between the request and the await
  have hms : h₂.messages = h₁.messages := by simpa using gb.messages
  rw [hreq, ← hms, ← gb.ctx, awaitComplete_eq]
  replace wb := wb.after wi
  generalize (provider.complete _ wait h₂.world.env).2 = env
  generalize (provider.complete _ wait h₂.world.env).1 = answer
  have wlost : responses [.llm (requestFor h₂.ctx provider.modelName h₂.messages) answer] = [] →
      Writes h (h₂.returned env (.llm (requestFor h₂.ctx provider.modelName h₂.messages) answer))
        [h₂] := by
    intro he
    refine (h₂.returned_writes env he ?_).after wb
    intro req answer' heq
    exact ⟨provider.modelName, (Effect.llm.inj heq).1.symm⟩
  match answer with
  | .ready (.ok resp) =>
    exact ((h₂.reply_writes env _ resp _).before (acceptResponse_writes _ _ _)).after wb
  | .ready (.error e) => exact wlost rfl
  | .panicked p => exact wlost rfl
  | .pending =>
    cases wait with
    | none => exact wlost rfl
    | some w => exact ((wlost rfl).before (elapsed_writes _)).before (recordEvent_writes _ _ _)

/-! ### Tool dispatch -/

theorem settleToolCall_writes (tc : ToolCall) (result : Except ToolError ToolOutput) :
    Writes h (h.settleToolCall tc result).2 [] := by
  cases result with
  | ok output => exact (recordEvent_writes _ _ _).before (pushToolResult_writes _ _ _)
  | error e => exact .refl h

/-- **One tool call** asks no model. -/
theorem dispatchToolCall_writes (tc : ToolCall) :
    Writes h (h.dispatchToolCall tc).2 (h.toolAwaits tc) := by
  unfold dispatchToolCall toolAwaits
  cases repeatedCallRefusal h.issuedToolCalls tc with
  | some refusal =>
    simp only
    exact (h.recordEvent_writes _ _).before (pushToolResult_writes _ tc (.text refusal))
  | none =>
    cases h.ctx.tools.get tc.name with
    | none => exact .refl h
    | some tool =>
      simp only
      generalize (if h.ctx.traceLevel.shouldPersistRawPayloads = true then
        (Value.obj [("tool", .string tc.name), ("call_id", .string tc.id)]).set "args" tc.args
        else Value.obj [("tool", .string tc.name), ("call_id", .string tc.id)]) = payload
      have ws := h.recordEvent_writes .toolStart payload
      generalize h.recordEvent .toolStart payload = h₁ at ws
      generalize (⟨h.ctx.executionId, h.ctx.callerRole, some h.ctx.agentName⟩ : ToolCtx) = toolCtx
      rw [awaitTool_eq]
      generalize (tool.run tc.args toolCtx h₁.world.env).2 = env
      generalize (tool.run tc.args toolCtx h₁.world.env).1 = answer
      have wa : Writes h (h₁.returned env (.tool tc toolCtx answer)) [h₁] :=
        (h₁.returned_writes env rfl (by simp)).after ws
      match answer with
      | .ready result => exact wa.before (settleToolCall_writes _ _ _)
      | .panicked p => exact wa.before (settleToolCall_writes _ _ _)
      | .pending => exact wa

end LoopHarness

/-- What a piece writes composes, and every piece writes so. -/
theorem writes_composes [Platform σ] : Composes (Writes (σ := σ)) where
  refl := .refl
  trans := .trans
  seed h := h.seedMessages_writes
  bump := bumpIteration_writes
  iterationCap := checkIterationCap_writes
  deadline h := h.checkDeadline_writes
  turn h := h.oneLlmTurnWith_writes
  dispatch h := h.dispatchToolCall_writes
  toolError h := h.pushToolError_writes
  nudge h := h.pushEmptyTurnNudge_writes
  prompt h := h.pushUserMessage_writes
  finish h _ _ := h.elapsed_writes

/-! ### Whole runs -/

namespace Runtime

variable [Platform σ] (kind : ExecutorKind) (passes : Nat) (ctx : ExecutionContext σ) (env : σ)

theorem runExecutor_writes :
    Writes (startHarness kind ctx env) (runExecutor kind passes ctx env).2
      (suspensionPoints kind passes ctx env) :=
  writes_composes.run kind passes ctx env

theorem startHarness_ledger : (startHarness kind ctx env).Ledger := by
  cases kind <;> exact ⟨rfl, rfl, by simp [startHarness, LoopHarness.new, newWithPrefix], rfl⟩

/-- **The books of a run** are in order at its end and at every suspension point. -/
theorem runExecutor_ledger : (runExecutor kind passes ctx env).2.Ledger ∧
    ∀ p ∈ suspensionPoints kind passes ctx env, p.Ledger :=
  (runExecutor_writes kind passes ctx env).ledger (startHarness_ledger kind ctx env)

/-- The outside calls of a run, each with the harness at its await. -/
theorem runExecutor_asks :
    List.Forall₂ (fun (p : LoopHarness σ) e => ∀ req answer, e = .llm req answer →
      ∃ model, req = requestFor ctx model p.messages)
      (suspensionPoints kind passes ctx env) (runExecutor kind passes ctx env).2.world.effects := by
  obtain ⟨calls, heffects, hcalls⟩ := (runExecutor_writes kind passes ctx env).asks
  rw [startHarness_effects, List.nil_append] at heffects
  rw [startHarness_ctx] at hcalls
  rwa [heffects]

/-- **Requests are growing beginnings of one log**: at every await of a run and at its end the rows
are numbered from 0 in order and belong to the run, and no row is changed or removed from one of
these points to a later one.  Each request holds the log as it stands at its await, the tools of the
run and a model, and nothing else; so its messages are a beginning of those of every later
request. -/
theorem requests_are_prefixes (hlen : (runExecutor kind passes ctx env).2.messages.length < 2 ^ 32) :
    let last := (runExecutor kind passes ctx env).2
    let points := suspensionPoints kind passes ctx env
    (∀ p ∈ points ++ [last], Numbered ctx.executionId p.messages) ∧
    ((points ++ [last]).Pairwise fun p q => p.messages <+: q.messages) ∧
    List.Forall₂ (fun p e => ∀ req answer, e = .llm req answer →
      ∃ model, req = requestFor ctx model p.messages) points last.world.effects ∧
    (∀ before req answer between req' answer' after,
      last.world.effects = before ++ .llm req answer :: (between ++ .llm req' answer' :: after) →
      req.messages <+: req'.messages ∧ req.tools = req'.tools) := by
  have w := runExecutor_writes kind passes ctx env
  have hasks := runExecutor_asks kind passes ctx env
  obtain ⟨hend, hpoints⟩ := runExecutor_ledger kind passes ctx env
  have hctx : (runExecutor kind passes ctx env).2.ctx = ctx := w.ctx.trans (startHarness_ctx _ _ _)
  refine ⟨?_, ?_, hasks, ?_⟩
  · have hlast := hend.rows_numbered (Nat.le_of_lt hlen)
    rw [hctx] at hlast
    refine List.forall_mem_append.mpr ⟨fun p hp => ?_, by simpa using hlast⟩
    have hple := (w.between p hp).2.length_le
    have hpctx : p.ctx = ctx := (w.under p hp).trans (startHarness_ctx _ _ _)
    have hrows := (hpoints p hp).rows_numbered (hple.trans (Nat.le_of_lt hlen))
    rwa [hpctx] at hrows
  · refine List.pairwise_append.mpr ⟨w.ordered, List.pairwise_singleton _ _, ?_⟩
    intro p hp q hq
    rw [List.mem_singleton.mp hq]
    exact (w.between p hp).2
  · intro before req answer between req' answer' after heq
    have hordered := w.ordered
    rw [heq] at hasks
    obtain ⟨pre, p, post, hsplit, hp, hrest⟩ := split_of_forall₂ hasks
    obtain ⟨pre', q, post', rfl, hq, -⟩ := split_of_forall₂ hrest
    rw [hsplit] at hordered
    have hpq : p.messages <+: q.messages :=
      (List.pairwise_cons.mp (List.pairwise_append.mp hordered).2.1).1 q (by simp)
    obtain ⟨model, rfl⟩ := hp req answer rfl
    obtain ⟨model', rfl⟩ := hq req' answer' rfl
    exact ⟨hpq, rfl⟩

/-- Two passes with a model that never says anything: five rows, and two requests on the way. -/
theorem silent_log_numbered :
    (runExecutor .conversation 2 (StillWorld.context silence 8) ⟨⟩).2.messages.length < 2 ^ 32 ∧
    ∀ p ∈ suspensionPoints .conversation 2 (StillWorld.context silence 8) ⟨⟩,
      Numbered ⟨1⟩ p.messages := by
  have hlen : (runExecutor .conversation 2 (StillWorld.context silence 8) ⟨⟩).2.messages.length <
      2 ^ 32 := by decide +kernel
  obtain ⟨hnumbered, -⟩ := requests_are_prefixes .conversation 2 (StillWorld.context silence 8) ⟨⟩ hlen
  exact ⟨hlen, fun p hp => hnumbered p (List.mem_append_left _ hp)⟩

end Runtime

end PgSynapse

import PgSynapse.Runtime.Equiv.IterationCap

/-!
# When a completed run has an answer

A chat run completes with the text of its last turn and in no other way.  A reflection run completes
with its current answer: the last text of the main provider, or the empty text it started from while
there was none (`completed_answered_iff`).
-/

namespace PgSynapse

open LoopHarness

/-- A reply that is an answer: a text, and no calls. -/
structure CompletionResponse.IsAnswer (resp : CompletionResponse) : Prop where
  toolCalls : resp.toolCalls = []
  content : Text.isBlank (resp.content.getD "") = false

/-- The elements at the even places of a list. -/
def everyOther {α : Type} : List α → List α
  | [] => []
  | [a] => [a]
  | a :: _ :: rest => a :: everyOther rest

theorem everyOther_concat {α : Type} (l : List α) (a : α) :
    everyOther (l ++ [a]) = everyOther l ++ if l.length % 2 = 0 then [a] else [] := by
  induction l using everyOther.induct with
  | case1 => rfl
  | case2 b => rfl
  | case3 b c rest ih =>
    have hlen : (b :: c :: rest).length % 2 = rest.length % 2 := by
      simp only [List.length_cons]
      omega
    rw [hlen, List.cons_append, List.cons_append, everyOther, ih, everyOther, List.cons_append]

/-- The replies of the main provider.  A chat run asks nobody else; a reflection run asks the main
provider for the draft, and then the judge and the main provider in turn. -/
def mainReplies (kind : ExecutorKind) (effects : List Effect) : List CompletionResponse :=
  match kind with
  | .conversation | .react => responses effects
  | .reflection _ => everyOther (responses effects)

variable {σ : Type}

/-- `text` is an answer among `replies`: not blank, given by the main provider to a request of the
run, and written down as an assistant message. -/
structure Spoken (ctx : ExecutionContext σ) (text : String) (replies : List CompletionResponse)
    (effects : List Effect) (messages : List Message) : Prop where
  notBlank : Text.isBlank text = false
  returned : ∃ resp ∈ replies, resp.toolCalls = [] ∧ resp.content = some text ∧
    ∃ req wait env, .llm req (.ready (.ok resp)) ∈ effects ∧
      (ctx.llm.complete req wait env).1 = .ready (.ok resp)
  stands : ∃ m ∈ messages, m.role = .assistant ∧ m.content = some text

/-- More replies, effects and messages take no answer away. -/
theorem Spoken.mono {ctx : ExecutionContext σ} {text : String}
    {replies replies' : List CompletionResponse} {effects effects' : List Effect}
    {messages messages' : List Message} (s : Spoken ctx text replies effects messages)
    (hr : ∀ resp ∈ replies, resp ∈ replies') (he : ∀ e ∈ effects, e ∈ effects')
    (hm : ∀ m ∈ messages, m ∈ messages') : Spoken ctx text replies' effects' messages' := by
  obtain ⟨resp, hresp, hcalls, hcontent, req, wait, env, heffect, hcomplete⟩ := s.returned
  obtain ⟨m, hmem, hrow⟩ := s.stands
  exact ⟨s.notBlank, ⟨resp, hr resp hresp, hcalls, hcontent, req, wait, env, he _ heffect,
    hcomplete⟩, ⟨m, hm m hmem, hrow⟩⟩

/-- **An answered outcome**: its output is an answer of the main provider, and in a chat run that of
the last turn. -/
structure Answered (kind : ExecutorKind) (ctx : ExecutionContext σ) (o : ExecutorOutcome)
    (effects : List Effect) : Prop where
  spoken : Spoken ctx o.output (mainReplies kind effects) effects o.messages
  last : (∀ r, kind ≠ .reflection r) →
    ∃ resp, (responses effects).getLast? = some resp ∧ resp.content = some o.output

/-! ### Turns -/

/-- What a turn result says about the reply and its rows. -/
def TurnSays (resp : CompletionResponse) (rows : List Message) : TurnResult → Prop
  | .assistantText text => resp.IsAnswer ∧ resp.content = some text ∧
    ∃ row, rows = [row] ∧ row.role = .assistant ∧ row.content = some text
  | .toolCalls _ | .empty => ¬ resp.IsAnswer

variable [Platform σ] (h : LoopHarness σ)

theorem acceptResponse_says (model : String) (resp : CompletionResponse) (t : TurnResult)
    (h' : LoopHarness σ) (hturn : h.acceptResponse model resp = (.ok t, h')) :
    ∃ rows, Grows h h' rows [] ∧ TurnSays resp rows t := by
  unfold acceptResponse at hturn
  have hsilent : Grows h ((h.recordEvent .llmResponse (h.responsePayload resp)).recordUsage resp)
      [] [] := (recordEvent_grows _ _ _).before (recordUsage_grows _ _)
  by_cases hlen : resp.finishReason = "length"
  · simp [hlen] at hturn
  simp only [if_neg hlen] at hturn
  generalize (h.recordEvent .llmResponse (h.responsePayload resp)).recordUsage resp = h₁
    at hsilent hturn
  by_cases hc : resp.toolCalls = []
  · obtain ⟨m, g, hm, hcontent⟩ := h₁.pushMessage_grows .assistant (some (resp.content.getD ""))
    have hrow : h₁.recordAssistantResponse resp =
        h₁.pushMessage .assistant (some (resp.content.getD "")) none := by
      simp [recordAssistantResponse, hc]
    rw [if_pos (by simp [hc]), hrow] at hturn
    cases hblank : Text.isBlank (resp.content.getD "") with
    | true =>
      simp only [hblank, if_true] at hturn
      obtain ⟨ht, rfl⟩ := Prod.mk.inj hturn
      obtain rfl := Flow.ok.inj ht
      refine ⟨[m], g.after hsilent, ?_⟩
      intro ha
      exact absurd (hblank.symm.trans ha.content) (by decide)
    | false =>
      simp only [hblank, Bool.false_eq_true, if_false] at hturn
      obtain ⟨ht, rfl⟩ := Prod.mk.inj hturn
      obtain rfl := Flow.ok.inj ht
      refine ⟨[m], g.after hsilent, ⟨hc, hblank⟩, ?_, m, rfl, hm.role, hcontent⟩
      -- a missing content reads as the empty text, which is blank
      cases hsome : resp.content with
      | none => rw [hsome] at hblank; exact absurd hblank (by decide)
      | some text => rfl
  · obtain ⟨rows, g, -⟩ := h₁.recordAssistantResponse_grows resp
    rw [if_neg (by simpa using hc)] at hturn
    obtain ⟨ht, rfl⟩ := Prod.mk.inj hturn
    obtain rfl := Flow.ok.inj ht
    refine ⟨rows, .before ?_ (mirror_grows _ _ fun _ => rfl), fun ha => hc ha.toolCalls⟩
    have hg := g.after hsilent
    exact ⟨hg.ctx, hg.messages, hg.stamped, hg.effects, hg.sink⟩

/-- **A turn** that comes to a result had one reply, from the provider that was asked. -/
theorem oneLlmTurnWith_says (provider : LlmProvider σ) (t : TurnResult) (h' : LoopHarness σ)
    (hturn : h.oneLlmTurnWith provider = (.ok t, h')) :
    ∃ rows req resp, Grows h h' rows [.llm req (.ready (.ok resp))] ∧ TurnSays resp rows t ∧
      ∃ wait env, (provider.complete req wait env).1 = .ready (.ok resp) := by
  unfold oneLlmTurnWith at hturn
  have gi := h.checkInterrupt_grows
  rcases hi : h.checkInterrupt with ⟨_ | _, h₁⟩ <;> rw [hi] at gi hturn
  · simp at hturn
  simp only at hturn
  generalize h₁.buildRequest provider.modelName = req at hturn
  have gb := (gi.before (h₁.recordEvent_grows .llmRequest
    (h₁.requestPayload provider.modelName req))).before (remainingBudget_grows _)
  generalize (h₁.recordEvent .llmRequest _).remainingBudget = budgeted at gb hturn
  obtain ⟨wait, h₂⟩ := budgeted
  have gc : Grows h (h₂.awaitComplete provider req wait).2 [] _ :=
    .after (h₂.awaitComplete_grows provider req wait) gb
  have hanswer : (h₂.awaitComplete provider req wait).1 =
      (provider.complete req wait h₂.world.env).1 := rfl
  rcases hc : h₂.awaitComplete provider req wait with ⟨answer, h₃⟩
  rw [hc] at gc hanswer hturn
  match answer with
  | .ready (.ok resp) =>
    obtain ⟨rows, g, hspoken⟩ := acceptResponse_says h₃ _ resp t h' hturn
    exact ⟨rows, req, resp, by simpa using gc.trans g, hspoken, wait, _, hanswer.symm⟩
  | .ready (.error e) => simp at hturn
  | .panicked p => simp at hturn
  | .pending => cases wait <;> simp at hturn

/-- A result that is no completed outcome. -/
def Incomplete (r : ExecResult) : Prop := ∀ o, r = .finished o → o.status ≠ .completed

omit [Platform σ] in
theorem incomplete_of_ne {r : ExecResult} (hr : ∀ o, r ≠ .finished o) : Incomplete r :=
  fun o ho => absurd ho (hr o)

/-- The outcome `finish` returns. -/
theorem finish_outcome {output : String} {status : OutcomeStatus} {o : ExecutorOutcome}
    (ho : (finish h output status).1 = .finished o) :
    o.output = output ∧ o.status = status ∧ o.messages = h.messages := by
  obtain rfl : (h.finalize output status).1 = o := by simpa [finish] using ho
  exact ⟨rfl, rfl, rfl⟩

theorem finish_incomplete (output : String) {status : OutcomeStatus} (hs : status ≠ .completed) :
    Incomplete (finish h output status).1 := by
  intro o ho
  rw [(finish_outcome h ho).2.1]
  exact hs

/-! ### The chat loop -/

/-- A call of a turn never ends the run with an outcome. -/
theorem dispatchAll_meets (calls : List ToolCall) :
    (dispatchAll calls h).Meets (fun _ => True) (fun r _ => ∀ o, r ≠ .finished o) := by
  induction calls generalizing h with
  | nil => trivial
  | cons tc rest ih =>
    rw [dispatchAll]
    split
    · exact ih _
    · exact ih _
    · intro o; simp
    · intro o; simp
    · intro o; simp

/-- **A pass that completes the run** does so with the text of its own turn. -/
theorem chatLoopBody_completed {o : ExecutorOutcome} {h' : LoopHarness σ}
    (hbody : chatLoopBody h = .stop (.finished o) h') (hstatus : o.status = .completed) :
    ∃ rows req resp, Grows h h' rows [.llm req (.ready (.ok resp))] ∧
      TurnSays resp rows (.assistantText o.output) ∧ o.messages = h'.messages ∧
      ∃ wait env, (h.ctx.llm.complete req wait env).1 = .ready (.ok resp) := by
  unfold chatLoopBody at hbody
  simp only at hbody
  have gi := h.bumpIteration_grows.before (checkIterationCap_grows _)
  rcases hi : h.bumpIteration.checkIterationCap with ⟨e | _, h₁⟩ <;> rw [hi] at gi hbody
  · cases e
    -- every way to stop but the last has another status
    case maxIterationsReached =>
      obtain ⟨ho, -⟩ := LoopStep.stop.inj hbody
      exact absurd hstatus (finish_incomplete h₁ "" (by simp) o ho)
    all_goals simp at hbody
  simp only at hbody
  cases hcost : h₁.checkCostCap with
  | error e => simp [hcost] at hbody
  | ok _ =>
    rw [hcost] at hbody
    simp only at hbody
    have gd := gi.before h₁.checkDeadline_grows
    rcases hd : h₁.checkDeadline with ⟨e | _, h₂⟩ <;> rw [hd] at gd hbody
    · obtain ⟨ho, -⟩ := LoopStep.stop.inj hbody
      exact absurd hstatus (finish_incomplete h₂ "" (by simp) o ho)
    simp only [oneLlmTurn] at hbody
    rcases ht : h₂.oneLlmTurnWith h₂.ctx.llm with ⟨flow, h₃⟩
    rw [ht] at hbody
    cases flow with
    | ok turn =>
      cases turn with
      | assistantText text =>
        -- the model answered with a text, and that is the output
        obtain ⟨ho, rfl⟩ := LoopStep.stop.inj hbody
        obtain ⟨hout, -, hmessages⟩ := finish_outcome h₃ ho
        obtain ⟨rows, req, resp, g, hspoken, wait, env, hcomplete⟩ :=
          oneLlmTurnWith_says h₂ _ _ h₃ ht
        have hctx : h₂.ctx = h.ctx := gd.ctx
        refine ⟨rows, req, resp, ?_, ?_, hmessages, wait, env, ?_⟩
        · exact (g.after gd).before (h₃.finalize_grows text .completed)
        · rw [hout]
          exact hspoken
        · rw [← hctx]
          exact hcomplete
      | empty => simp at hbody
      | toolCalls calls =>
        have hmeets := dispatchAll_meets h₃ calls
        simp only at hbody
        rw [hbody] at hmeets
        exact absurd rfl (hmeets o)
    | err e =>
      cases e
      case timeout =>
        obtain ⟨ho, -⟩ := LoopStep.stop.inj hbody
        exact absurd hstatus (finish_incomplete h₃ "" (by simp) o ho)
      all_goals simp at hbody
    | panicked p => simp at hbody
    | suspended => simp at hbody

/-- **A chat run that completes** is answered by its last turn. -/
theorem chatLoop_answered {kind : ExecutorKind} (hkind : ∀ r, kind ≠ .reflection r) (passes : Nat)
    (o : ExecutorOutcome) (ho : (chatLoop passes h).1 = .finished o)
    (hstatus : o.status = .completed) :
    Answered kind h.ctx o (chatLoop passes h).2.world.effects := by
  have hmain : ∀ effects, mainReplies kind effects = responses effects := by
    intro effects
    cases kind with
    | reflection r => exact absurd rfl (hkind r)
    | conversation => rfl
    | react => rfl
  refine chatLoop_induct (P := fun _ h' => h'.ctx = h.ctx) (Q := fun r h' => ∀ o, r = .finished o →
    o.status = .completed → Answered kind h.ctx o h'.world.effects) ?_ ?_ passes h rfl o ho hstatus
  · intro h' _ o ho
    simp at ho
  · intro k h' hctx
    rcases chatLoopBody_cases h' with ⟨h'', block, req, resp, runs, hbody, g, -⟩ |
      ⟨r, h'', rows, calls, hbody, -⟩ <;> rw [hbody]
    · exact g.ctx.trans hctx
    · intro o ho hstatus
      subst ho
      obtain ⟨rows, req, resp, g, ⟨ha, hcontent, row, rfl, hrole, hrow⟩, hmessages, wait, env,
        hcomplete⟩ := chatLoopBody_completed h' hbody hstatus
      have hreplies : responses h''.world.effects = responses h'.world.effects ++ [resp] := by
        rw [g.effects, responses_append]
        rfl
      have hblank : Text.isBlank o.output = false := by
        have hb := ha.content
        rw [hcontent] at hb
        exact hb
      refine ⟨⟨hblank, ⟨resp, ?_, ha.toolCalls, hcontent, req, wait, env, ?_, ?_⟩, row, ?_, hrole,
        hrow⟩, fun _ => ⟨resp, ?_, hcontent⟩⟩
      · rw [hmain, hreplies]
        simp
      · rw [g.effects]
        simp
      · rw [← hctx]
        exact hcomplete
      · rw [hmessages, g.messages]
        simp
      · rw [hreplies]
        simp

/-! ### The reflection loop -/

namespace ReflectionExecutor

omit [Platform σ] in
/-- What the current answer is with `k` phases left: the empty text while the main provider has
answered nothing, or else one of its answers.  The parity of the replies says whose turn it is. -/
structure Draft (ctx : ExecutionContext σ) (k : Nat) (current : String) (h : LoopHarness σ) :
    Prop where
  context : h.ctx = ctx
  parity : ((responses h.world.effects).length + k) % 2 = 1
  current : (current = "" ∧ ∀ resp ∈ everyOther (responses h.world.effects), ¬ resp.IsAnswer) ∨
    Spoken ctx current (everyOther (responses h.world.effects)) h.world.effects h.messages

variable {ctx : ExecutionContext σ}

omit [Platform σ] in
/-- A step that makes no call keeps the answer. -/
theorem Draft.grows {k : Nat} {current : String} {h h' : LoopHarness σ} {rows : List Message}
    (hd : Draft ctx k current h) (g : Grows h h' rows []) : Draft ctx k current h' := by
  have heffects : h'.world.effects = h.world.effects := by simpa using g.effects
  refine ⟨g.ctx.trans hd.context, heffects ▸ hd.parity, ?_⟩
  rw [heffects]
  refine hd.current.imp_right fun s => s.mono (fun _ hr => hr) (fun _ he => he) fun m hm => ?_
  rw [g.messages]
  exact List.mem_append_left rows hm

/-- A phase goes on with one more reply, and its text is that reply's or the default. -/
theorem phase_says (provider : LlmProvider σ) (dflt current : String) :
    (phase h provider dflt current).2.Meets
      (fun h' => ∃ rows req resp, Grows h h' rows [.llm req (.ready (.ok resp))] ∧
        (TurnSays resp rows (.assistantText (phase h provider dflt current).1) ∧
            (∃ wait env, (provider.complete req wait env).1 = .ready (.ok resp)) ∨
          ¬ resp.IsAnswer ∧ (phase h provider dflt current).1 = dflt))
      (fun r _ => Incomplete r) := by
  unfold phase
  rcases ht : h.oneLlmTurnWith provider with ⟨flow, h₁⟩
  cases flow with
  | ok turn =>
    obtain ⟨rows, req, resp, g, hspoken, hcomplete⟩ := oneLlmTurnWith_says h provider turn h₁ ht
    cases turn with
    | assistantText text => exact ⟨rows, req, resp, g, .inl ⟨hspoken, hcomplete⟩⟩
    | toolCalls calls => exact ⟨rows, req, resp, g, .inr ⟨hspoken, rfl⟩⟩
    | empty => exact ⟨rows, req, resp, g, .inr ⟨hspoken, rfl⟩⟩
  | err e =>
    cases e
    case timeout => exact finish_incomplete h₁ current (by simp)
    all_goals exact incomplete_of_ne (by simp)
  | panicked p => exact incomplete_of_ne (by simp)
  | suspended => exact incomplete_of_ne (by simp)

/-- The checks finish the run for a limit, never as completed. -/
theorem roundChecks_incomplete (current : String) :
    (roundChecks h current).Meets (fun _ => True) (fun r _ => Incomplete r) := by
  unfold roundChecks
  split
  · exact incomplete_of_ne (by simp)
  · simp only
    split
    · exact finish_incomplete _ current (by simp)
    · split
      · exact finish_incomplete _ current (by simp)
      · trivial

theorem roundChecks_draft {k : Nat} {current : String} (hd : Draft ctx (k + 1) current h) :
    (roundChecks h current).Meets (Draft ctx (k + 1) current) (fun r _ => Incomplete r) := by
  have hstop := roundChecks_incomplete h current
  rcases roundChecks_cases h current with ⟨h', heq, g⟩ | ⟨r, h', heq, -⟩ <;> rw [heq] at hstop ⊢
  · exact hd.grows g
  · exact hstop

/-- **The judge's turn** leaves the answer as it is. -/
theorem critique_draft {n : Nat} {current : String} (judge : LlmProvider σ)
    (hd : Draft ctx (2 * n + 2) current h) :
    (phase h judge "" current).2.Meets (Draft ctx (2 * n + 1) current)
      (fun r _ => Incomplete r) := by
  have hspoken := phase_says h judge "" current
  rcases hphase : phase h judge "" current with ⟨text, h' | ⟨r, h'⟩⟩ <;> rw [hphase] at hspoken
  case stop => exact hspoken
  obtain ⟨rows, req, resp, g, -⟩ := hspoken
  have hreplies : responses h'.world.effects = responses h.world.effects ++ [resp] := by
    rw [g.effects, responses_append]
    rfl
  have hparity := hd.parity
  -- the reply is at an odd place
  have hodd : ¬ (responses h.world.effects).length % 2 = 0 := by omega
  refine ⟨g.ctx.trans hd.context, ?_, ?_⟩
  · rw [hreplies, List.length_append, List.length_singleton]
    omega
  · rw [hreplies, everyOther_concat, if_neg hodd, List.append_nil]
    refine hd.current.imp_right fun s => s.mono (fun _ hr => hr) ?_ ?_
    · intro e he
      rw [g.effects]
      exact List.mem_append_left _ he
    · intro m hm
      rw [g.messages]
      exact List.mem_append_left _ hm

/-- **The main provider's turn** replaces the answer, or keeps it when the reply is none. -/
theorem revise_draft {n : Nat} {current : String} (hd : Draft ctx (2 * n + 1) current h) :
    (phase h ctx.llm current current).2.Meets
      (Draft ctx (2 * n) (phase h ctx.llm current current).1) (fun r _ => Incomplete r) := by
  have hspoken := phase_says h ctx.llm current current
  rcases hphase : phase h ctx.llm current current with ⟨text, h' | ⟨r, h'⟩⟩ <;>
    rw [hphase] at hspoken
  case stop => exact hspoken
  obtain ⟨rows, req, resp, g, hspoken⟩ := hspoken
  have hreplies : responses h'.world.effects = responses h.world.effects ++ [resp] := by
    rw [g.effects, responses_append]
    rfl
  have hparity := hd.parity
  -- the reply is at an even place
  have heven : (responses h.world.effects).length % 2 = 0 := by omega
  have hmain : everyOther (responses h'.world.effects) =
      everyOther (responses h.world.effects) ++ [resp] := by
    rw [hreplies, everyOther_concat, if_pos heven]
  refine ⟨g.ctx.trans hd.context, ?_, ?_⟩
  · rw [hreplies, List.length_append, List.length_singleton]
    omega
  rw [hmain]
  rcases hspoken with ⟨⟨ha, hcontent, row, rfl, hrole, hrow⟩, wait, env, hcomplete⟩ | ⟨hno, htext⟩
  · have hblank := ha.content
    rw [hcontent] at hblank
    refine .inr ⟨hblank, ⟨resp, by simp, ha.toolCalls, hcontent, req, wait, env, ?_, hcomplete⟩,
      row, ?_, hrole, hrow⟩
    · rw [g.effects]
      simp
    · rw [g.messages]
      simp
  · obtain rfl : text = current := htext
    rcases hd.current with ⟨hempty, hnone⟩ | hspoken
    · refine .inl ⟨hempty, ?_⟩
      intro resp' hmem
      rcases List.mem_append.mp hmem with hmem | hmem
      · exact hnone resp' hmem
      · rwa [List.mem_singleton.mp hmem]
    · refine .inr (hspoken.mono (fun _ hr => List.mem_append_left _ hr) ?_ ?_)
      · intro e he
        rw [g.effects]
        exact List.mem_append_left _ he
      · intro m hm
        rw [g.messages]
        exact List.mem_append_left _ hm

/-- What a completed reflection run returns: the empty text when the main provider answered nothing,
or one of its answers. -/
def Returns (ctx : ExecutionContext σ) (r : ExecResult) (h : LoopHarness σ) : Prop :=
  ∀ o, r = .finished o → o.status = .completed →
    (o.output = "" ∧ ∀ resp ∈ everyOther (responses h.world.effects), ¬ resp.IsAnswer) ∨
    Spoken ctx o.output (everyOther (responses h.world.effects)) h.world.effects o.messages

omit [Platform σ] in
theorem returns_of_incomplete {r : ExecResult} {h : LoopHarness σ} (hr : Incomplete r) :
    Returns ctx r h :=
  fun o ho hs => absurd hs (hr o ho)

omit [Platform σ] in
theorem meets_returns {P : LoopHarness σ → Prop} {step : LoopStep σ}
    (hs : step.Meets P (fun r _ => Incomplete r)) : step.Meets P (Returns ctx) := by
  cases step with
  | next h => exact hs
  | stop r h => exact returns_of_incomplete hs

theorem finish_returns {k : Nat} {current : String} (hd : Draft ctx k current h) :
    Returns ctx (finish h current .completed).1 (finish h current .completed).2 := by
  intro o ho _
  obtain ⟨hout, -, hmessages⟩ := finish_outcome h ho
  rw [hout, hmessages]
  exact hd.current

theorem rounds_returns (judge : LlmProvider σ) (n : Nat) (current : String)
    (hd : Draft ctx (2 * n) current h) :
    Returns ctx (rounds judge n current h).1 (rounds judge n current h).2 := by
  refine rounds_induct (P := Draft ctx) (R := fun k => Draft ctx (k + 1)) ?_ ?_ ?_ ?_ n current h hd
  · intro k current h' hd
    exact finish_returns h' hd
  · intro k current h' hd
    exact meets_returns (roundChecks_draft h' hd)
  · intro n current h' hd
    obtain ⟨m, g, -⟩ := h'.pushUserMessage_grows (critiquePrompt h'.ctx)
    exact meets_returns (critique_draft _ judge (hd.grows g))
  · intro n current h' hd
    obtain ⟨m, g, -⟩ := h'.pushUserMessage_grows revisePrompt
    have hctx : (h'.pushUserMessage revisePrompt).ctx = ctx := g.ctx.trans hd.context
    simp only [hctx]
    exact meets_returns (revise_draft _ (hd.grows g))

theorem execute_returns (maxRevisions : UInt32) (ctx : ExecutionContext σ) (env : σ) :
    Returns ctx (execute maxRevisions ctx env).1 (execute maxRevisions ctx env).2 := by
  obtain ⟨seed, g, -⟩ := (LoopHarness.new ctx env).seedMessages_grows
  have gb := g.before (bumpIteration_grows _)
  unfold execute
  simp only
  generalize (LoopHarness.new ctx env).seedMessages.bumpIteration = h at gb
  have hstart : Draft ctx (2 * maxRevisions.toNat + 1) "" h := by
    have heffects : h.world.effects = [] := gb.effects
    have hnone : responses h.world.effects = [] := by rw [heffects]; rfl
    refine ⟨gb.ctx, ?_, .inl ⟨rfl, ?_⟩⟩
    · rw [hnone, List.length_nil]
      omega
    · rw [hnone]
      intro resp hmem
      exact absurd hmem (List.not_mem_nil)
  cases h.checkCostCap with
  | error e => exact returns_of_incomplete (incomplete_of_ne (by simp))
  | ok _ =>
    have hdraft := revise_draft h hstart
    simp only
    rcases hphase : phase h ctx.llm "" "" with ⟨current, h' | ⟨r, h'⟩⟩ <;> rw [hphase] at hdraft
    · exact rounds_returns h' _ _ current hdraft
    · exact returns_of_incomplete hdraft

end ReflectionExecutor

/-! ### Whole runs -/

namespace Runtime

variable (kind : ExecutorKind) (passes : Nat) (ctx : ExecutionContext σ) (env : σ)

/-- **Completed means an answer** in exactly the runs in which the main provider gave one, and these
are all the completed runs of the chat executors. -/
theorem completed_answered_iff (o : ExecutorOutcome)
    (ho : (runExecutor kind passes ctx env).1 = .finished o) (hstatus : o.status = .completed) :
    let effects := (runExecutor kind passes ctx env).2.world.effects
    (Answered kind ctx o effects ↔ ∃ resp ∈ mainReplies kind effects, resp.IsAnswer) ∧
    ((∀ r, kind ≠ .reflection r) → Answered kind ctx o effects) := by
  have answers : ∀ effects, Answered kind ctx o effects →
      ∃ resp ∈ mainReplies kind effects, resp.IsAnswer := by
    intro effects ha
    obtain ⟨resp, hmem, hcalls, hcontent, -⟩ := ha.spoken.returned
    refine ⟨resp, hmem, hcalls, ?_⟩
    rw [hcontent]
    exact ha.spoken.notBlank
  have hchat : (∀ r, kind ≠ .reflection r) →
      Answered kind ctx o (runExecutor kind passes ctx env).2.world.effects := by
    intro hkind
    cases kind with
    | reflection r => exact absurd rfl (hkind r)
    | conversation =>
      have hctx : (LoopHarness.new ctx env).seedMessages.ctx = ctx :=
        (LoopHarness.new ctx env).seedMessages_grows.choose_spec.1.ctx
      have ha := chatLoop_answered _ hkind passes o ho hstatus
      rw [hctx] at ha
      exact ha
    | react =>
      have hctx : (newWithPrefix ctx ReActExecutor.systemAddendum env).seedMessages.ctx = ctx :=
        (newWithPrefix ctx ReActExecutor.systemAddendum env).seedMessages_grows.choose_spec.1.ctx
      have ha := chatLoop_answered _ hkind passes o ho hstatus
      rw [hctx] at ha
      exact ha
  refine ⟨⟨answers _, ?_⟩, hchat⟩
  rintro ⟨resp, hmem, ha⟩
  cases kind with
  | conversation => exact hchat (by simp)
  | react => exact hchat (by simp)
  | reflection maxRevisions =>
    rw [runExecutor_reflection] at ho hmem ⊢
    rcases ReflectionExecutor.execute_returns maxRevisions ctx env o ho hstatus with
      ⟨-, hnone⟩ | hspoken
    · exact absurd ha (hnone resp hmem)
    · exact ⟨hspoken, fun hkind => absurd rfl (hkind maxRevisions)⟩

/-- The reply of a model that answers at once. -/
def plainAnswer : CompletionResponse := ⟨some "42", [], "stop", ⟨1, 1, none⟩⟩

/-- A reflection run whose main provider answers has that answer. -/
theorem plain_answer_completes :
    ∃ o, (runExecutor (.reflection 0) 0 (StillWorld.context plainAnswer 8) ⟨⟩).1 = .finished o ∧
      o.status = .completed ∧ o.output = "42" ∧
      Answered (.reflection 0) (StillWorld.context plainAnswer 8) o
        (runExecutor (.reflection 0) 0 (StillWorld.context plainAnswer 8) ⟨⟩).2.world.effects := by
  obtain ⟨o, ho, hstatus, hout⟩ : ∃ o,
      (runExecutor (.reflection 0) 0 (StillWorld.context plainAnswer 8) ⟨⟩).1 = .finished o ∧
        o.status = .completed ∧ o.output = "42" := ⟨_, rfl, rfl, rfl⟩
  have hreplies : mainReplies (.reflection 0) (runExecutor (.reflection 0) 0
      (StillWorld.context plainAnswer 8) ⟨⟩).2.world.effects = [plainAnswer] := rfl
  have hiff := (completed_answered_iff (.reflection 0) 0 (StillWorld.context plainAnswer 8) ⟨⟩ o ho
    hstatus).1
  refine ⟨o, ho, hstatus, hout, hiff.mpr ⟨plainAnswer, ?_, rfl, by decide⟩⟩
  rw [hreplies]
  exact List.mem_singleton.mpr rfl

/-- A reflection run whose main provider says nothing completes with the empty text. -/
theorem silence_completes :
    ∃ o, (runExecutor (.reflection 0) 0 (StillWorld.context silence 8) ⟨⟩).1 = .finished o ∧
      o.status = .completed ∧ o.output = "" ∧
      ¬ Answered (.reflection 0) (StillWorld.context silence 8) o
        (runExecutor (.reflection 0) 0 (StillWorld.context silence 8) ⟨⟩).2.world.effects := by
  refine ⟨_, rfl, rfl, rfl, ?_⟩
  intro ha
  exact absurd ha.spoken.notBlank (by decide)

end Runtime

end PgSynapse

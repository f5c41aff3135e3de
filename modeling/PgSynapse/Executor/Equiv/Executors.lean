import PgSynapse.Executor.Executors
import PgSynapse.Executor.Equiv.LoopHarness

/-!
# What each pass of an executor adds to the transcript

One lemma for each piece of the executors' loops, in terms of `Grows`.  A pass either goes on,
having sent one request and appended the rows of one whole turn, or it stops.
-/

namespace PgSynapse

open LoopHarness

variable {σ : Type} [Platform σ]

/-- The calls of one pass: none, or one request that holds the transcript `ms`, then tool runs. -/
def PassCalls (ms : List Message) (calls : List Effect) : Prop :=
  calls = [] ∨ ∃ req answer runs, calls = .llm req answer :: runs ∧ Carries ms req ∧
    ∀ e ∈ runs, IsToolRun e

/-- A stop that leaves the harness `h'`: it added `rows` and `calls` to `h`, and an outcome it
returns carries the whole transcript. -/
structure Stops (h : LoopHarness σ) (r : ExecResult) (h' : LoopHarness σ) (rows : List Message)
    (calls : List Effect) : Prop where
  grows : Grows h h' rows calls
  outcome : ∀ o, r = .finished o → o.messages = h'.messages

omit [Platform σ] in
/-- A step before a stop. -/
theorem Stops.trans {h h₁ h₂ : LoopHarness σ} {r : ExecResult} {rows rows' : List Message}
    {calls calls' : List Effect} (s : Stops h₁ r h₂ rows' calls') (g : Grows h h₁ rows calls) :
    Stops h r h₂ (rows ++ rows') (calls ++ calls') :=
  ⟨g.trans s.grows, s.outcome⟩

variable (h : LoopHarness σ)

theorem finish_stops (output : String) (status : OutcomeStatus) :
    Stops h (finish h output status).1 (finish h output status).2 [] [] := by
  refine ⟨h.finalize_grows output status, ?_⟩
  intro o ho
  obtain rfl : (h.finalize output status).1 = o := by simpa [finish] using ho
  have hg := (h.finalize_grows output status).messages
  rw [List.append_nil] at hg
  exact (h.finalize_messages output status).trans hg.symm

omit [Platform σ] in
/-- A stop that returns no outcome. -/
theorem stops_of_grows {h' : LoopHarness σ} {r : ExecResult} {rows : List Message}
    {calls : List Effect} (g : Grows h h' rows calls) (hr : ∀ o, r ≠ .finished o) :
    Stops h r h' rows calls :=
  ⟨g, fun o ho => absurd ho (hr o)⟩

/-! ### Turns -/

/-- One turn of a run: the request, the reply that was taken, the reply's rows, the rows after them,
and the tool runs between. -/
structure Turn where
  req : CompletionRequest
  resp : CompletionResponse
  rows : List Message
  after : List Message
  runs : List Effect

/-- The rows of a turn. -/
def Turn.block (t : Turn) : List Message := t.rows ++ t.after

/-- The effects of a turn. -/
def Turn.effects (t : Turn) : List Effect := .llm t.req (.ready (.ok t.resp)) :: t.runs

/-- The turn `t` leads from `h` to `h'`. -/
structure Turn.Leads (t : Turn) (h h' : LoopHarness σ) : Prop where
  request : ∃ model, t.req = requestFor h.ctx model h.messages
  whole : t.resp.finishReason ≠ "length"
  told : ReplyTold t.resp t.rows
  grows : Grows h h' t.block t.effects
  issued : h'.issuedToolCalls = h.issuedToolCalls ++ t.resp.toolCalls

omit [Platform σ] in
/-- A silent step after a turn. -/
theorem Turn.Leads.before {t : Turn} {h h' h'' : LoopHarness σ} (l : t.Leads h h')
    (r : Rests h' h'' [] []) : t.Leads h h'' :=
  ⟨l.request, l.whole, l.told, l.grows.before r.grows, r.issued.trans l.issued⟩

omit [Platform σ] in
/-- A silent step before a turn. -/
theorem Turn.Leads.after {t : Turn} {h h' h'' : LoopHarness σ} (l : t.Leads h' h'')
    (r : Rests h h' [] []) : t.Leads h h'' := by
  have hms : h'.messages = h.messages := by simpa using r.grows.messages
  refine ⟨?_, l.whole, l.told, l.grows.after r.grows, by rw [l.issued, r.issued]⟩
  rw [← r.grows.ctx, ← hms]
  exact l.request

omit [Platform σ] in
/-- A turn that goes on after its reply was taken. -/
theorem Turn.leads_of_takes {h h₁ h₂ : LoopHarness σ} {model : String}
    {resp : CompletionResponse} {rows after : List Message} {runs : List Effect}
    (htakes : Takes h h₁ resp rows [.llm (requestFor h.ctx model h.messages) (.ready (.ok resp))])
    (r : Rests h₁ h₂ after runs) :
    Turn.Leads ⟨requestFor h.ctx model h.messages, resp, rows, after, runs⟩ h h₂ :=
  ⟨⟨model, rfl⟩, htakes.whole, htakes.told, htakes.grows.trans r.grows,
    r.issued.trans htakes.issued⟩

/-! ### The chat loop -/

/-- **The calls of one turn**: each is answered once, in order, after its tool ran if it got to it;
or the loop over them stops at a tool that never returns. -/
theorem dispatchAll_answers (calls : List ToolCall) :
    (∃ h' rows runs, dispatchAll calls h = .next h' ∧ Rests h h' rows runs ∧
      List.Forall₂ (Answers h.issuedToolCalls) calls rows ∧
      RunsOf h.ctx (calls.filter (getsToTool h.ctx.tools h.issuedToolCalls)) runs) ∨
    (∃ done tc rest h' rows runs, calls = done ++ tc :: rest ∧
      getsToTool h.ctx.tools h.issuedToolCalls tc = true ∧
      dispatchAll calls h = .stop .suspended h' ∧ Rests h h' rows runs ∧
      List.Forall₂ (Answers h.issuedToolCalls) done rows ∧
      RunsOf h.ctx ((done ++ [tc]).filter (getsToTool h.ctx.tools h.issuedToolCalls)) runs) := by
  induction calls generalizing h with
  | nil => exact .inl ⟨h, [], [], rfl, .refl h, .nil, .nil⟩
  | cons tc rest ih =>
    -- the call is answered with `row`, inside the dispatch or by the error arm
    have answered : ∀ h₁ row runs, Rests h h₁ [row] runs → Answers h.issuedToolCalls tc row →
        RunsOf h.ctx ([tc].filter (getsToTool h.ctx.tools h.issuedToolCalls)) runs →
        dispatchAll (tc :: rest) h = dispatchAll rest h₁ →
        (∃ h' rows runs, dispatchAll (tc :: rest) h = .next h' ∧ Rests h h' rows runs ∧
          List.Forall₂ (Answers h.issuedToolCalls) (tc :: rest) rows ∧
          RunsOf h.ctx ((tc :: rest).filter (getsToTool h.ctx.tools h.issuedToolCalls)) runs) ∨
        (∃ done tc' rest' h' rows runs, tc :: rest = done ++ tc' :: rest' ∧
          getsToTool h.ctx.tools h.issuedToolCalls tc' = true ∧
          dispatchAll (tc :: rest) h = .stop .suspended h' ∧ Rests h h' rows runs ∧
          List.Forall₂ (Answers h.issuedToolCalls) done rows ∧
          RunsOf h.ctx ((done ++ [tc']).filter (getsToTool h.ctx.tools h.issuedToolCalls))
            runs) := by
      intro h₁ row runs r hrow hruns heq
      have both : ∀ calls' runs', RunsOf h.ctx
          (calls'.filter (getsToTool h.ctx.tools h.issuedToolCalls)) runs' →
          RunsOf h.ctx ((tc :: calls').filter (getsToTool h.ctx.tools h.issuedToolCalls))
            (runs ++ runs') := by
        intro calls' runs' hruns'
        rw [← List.singleton_append, List.filter_append]
        exact List.rel_append hruns hruns'
      have hih := ih h₁
      rw [r.issued, r.grows.ctx] at hih
      rcases hih with ⟨h', rows, runs', hd, r', hrows, hruns'⟩ |
        ⟨done, tc', rest', h', rows, runs', rfl, hgets, hd, r', hrows, hruns'⟩
      · exact .inl ⟨h', row :: rows, runs ++ runs', heq.trans hd, r.trans r', .cons hrow hrows,
          both rest runs' hruns'⟩
      · exact .inr ⟨tc :: done, tc', rest', h', row :: rows, runs ++ runs', rfl, hgets,
          heq.trans hd, r.trans r', .cons hrow hrows, both (done ++ [tc']) runs' hruns'⟩
    rcases h.dispatchToolCall_answers tc with ⟨msg, h₁, row, runs, hd, r, hrow, hruns⟩ |
      ⟨te, h₁, runs, hd, r, hrefusal, hruns⟩ | ⟨h₁, runs, hd, r, hgets, hruns⟩
    · exact answered h₁ row runs r hrow hruns (by rw [dispatchAll, hd])
    · obtain ⟨row, g', hrow⟩ := h₁.pushToolError_grows tc te
      have r' : Rests h₁ (h₁.pushToolError tc te) [row] [] := ⟨g', by simp⟩
      exact answered (h₁.pushToolError tc te) row runs (by simpa using r.trans r')
        ⟨hrow, by simp [hrefusal]⟩ hruns (by rw [dispatchAll, hd])
    · refine .inr ⟨[], tc, rest, h₁, [], runs, rfl, hgets, by rw [dispatchAll, hd], r, .nil, ?_⟩
      have hfilter : ([] ++ [tc]).filter (getsToTool h.ctx.tools h.issuedToolCalls) = [tc] := by
        simp [hgets]
      rw [hfilter]
      exact hruns

/-! ### The chat loop -/

/-- **The calls of one turn**: if the loop over them goes on, each was answered once, in order. -/
theorem dispatchAll_cases (calls : List ToolCall) :
    (∃ h' rows runs, dispatchAll calls h = .next h' ∧ Grows h h' rows runs ∧
      List.Forall₂ Message.IsAnswer calls rows ∧ ∀ e ∈ runs, IsToolRun e) ∨
    (∃ r h' rows runs, dispatchAll calls h = .stop r h' ∧ Stops h r h' rows runs ∧
      ∀ e ∈ runs, IsToolRun e) := by
  rcases dispatchAll_answers h calls with ⟨h', rows, runs, heq, r, hrows, hruns⟩ |
    ⟨done, tc, rest, h', rows, runs, -, -, heq, r, -, hruns⟩
  · exact .inl ⟨h', rows, runs, heq, r.grows, hrows.imp fun _ _ hrow => hrow.toIsAnswer,
      hruns.isToolRun⟩
  · exact .inr ⟨.suspended, h', rows, runs, heq, stops_of_grows h r.grows (by simp),
      hruns.isToolRun⟩

/-- The rows a reply leaves in a chat transcript once its turn is over: its calls and then one
answer to each, or its blank text and the nudge. -/
def ChatTurn (resp : CompletionResponse) (block : List Message) : Prop :=
  if resp.toolCalls = [] then
    ∃ text nudge, block = [text, nudge] ∧ text.IsText .assistant ∧ nudge.IsText .user
  else
    ∃ calls answers, block = calls ++ answers ∧
      List.Forall₂ Message.IsCall resp.toolCalls calls ∧
      List.Forall₂ Message.IsAnswer resp.toolCalls answers

/-- What follows a reply in a chat run that goes on, where `issued` are the calls before it: an answer
to each of its calls, or the nudge when it had neither calls nor a text. -/
def Turn.Settled (ctx : ExecutionContext σ) (issued : List ToolCall) (t : Turn) : Prop :=
  if t.resp.toolCalls = [] then
    t.runs = [] ∧ Text.isBlank (t.resp.content.getD "") = true ∧
      ∃ nudge, t.after = [nudge] ∧ nudge.IsText .user ∧ nudge.content = some emptyTurnNudge
  else
    List.Forall₂ (Answers (issued ++ t.resp.toolCalls)) t.resp.toolCalls t.after ∧
      RunsOf ctx (t.resp.toolCalls.filter (getsToTool ctx.tools (issued ++ t.resp.toolCalls))) t.runs

/-- What follows the last reply of a chat run: nothing when it is the answer, and else the answers up
to a call whose tool never returns. -/
def Turn.Final (ctx : ExecutionContext σ) (issued : List ToolCall) (t : Turn) : Prop :=
  if t.resp.toolCalls = [] then
    t.runs = [] ∧ Text.isBlank (t.resp.content.getD "") = false ∧ t.after = []
  else
    ∃ done tc rest, t.resp.toolCalls = done ++ tc :: rest ∧
      getsToTool ctx.tools (issued ++ t.resp.toolCalls) tc = true ∧
      List.Forall₂ (Answers (issued ++ t.resp.toolCalls)) done t.after ∧
      RunsOf ctx ((done ++ [tc]).filter (getsToTool ctx.tools (issued ++ t.resp.toolCalls))) t.runs

/-- An outcome that a stop returns carries the whole transcript. -/
def CarriesAll (r : ExecResult) (h : LoopHarness σ) : Prop :=
  ∀ o, r = .finished o → o.messages = h.messages

theorem finish_rests (output : String) (status : OutcomeStatus) :
    Rests h (finish h output status).2 [] [] :=
  ⟨h.finalize_grows output status, rfl⟩

omit [Platform σ] in
theorem carriesAll_of_ne {r : ExecResult} (hr : ∀ o, r ≠ .finished o) : CarriesAll r h :=
  fun o ho => absurd ho (hr o)

/-- **One pass of the chat loop**: a settled turn, or the final one, or none at all. -/
theorem chatLoopBody_turn :
    (∃ h', ∃ t : Turn, chatLoopBody h = .next h' ∧ t.Leads h h' ∧
      t.Settled h.ctx h.issuedToolCalls) ∨
    (∃ r h', ∃ t : Turn, chatLoopBody h = .stop r h' ∧ t.Leads h h' ∧
      t.Final h.ctx h.issuedToolCalls ∧ CarriesAll r h') ∨
    (∃ r h' calls, chatLoopBody h = .stop r h' ∧ Rests h h' [] calls ∧
      LostCall h.ctx h.ctx.llm.modelName h.messages calls ∧ CarriesAll r h') := by
  unfold chatLoopBody
  simp only
  -- the three checks add nothing, and each may end the run
  have rb := h.bumpIteration_rests
  generalize h.bumpIteration = h₁ at rb
  have ri := rb.before ⟨h₁.checkIterationCap_grows, by simp⟩
  rcases hi : h₁.checkIterationCap with ⟨_ | _, h₂⟩ <;> rw [hi] at ri
  case error e =>
    right; right
    cases e
    case maxIterationsReached =>
      exact ⟨_, _, [], rfl, ri.before (finish_rests h₂ _ _), .inl rfl, (finish_stops h₂ _ _).outcome⟩
    all_goals exact ⟨_, _, [], rfl, ri, .inl rfl, carriesAll_of_ne h₂ (by simp)⟩
  simp only
  rcases h₂.checkCostCap with e | _
  · exact .inr (.inr ⟨_, _, [], rfl, ri, .inl rfl, carriesAll_of_ne h₂ (by simp)⟩)
  simp only
  have rd := ri.before ⟨h₂.checkDeadline_grows, by simp⟩
  rcases hd : h₂.checkDeadline with ⟨_ | _, h₃⟩ <;> rw [hd] at rd
  · exact .inr (.inr ⟨_, _, [], rfl, rd.before (finish_rests h₃ _ _), .inl rfl,
      (finish_stops h₃ _ _).outcome⟩)
  simp only
  have hms : h₃.messages = h.messages := by simpa using rd.grows.messages
  have hctx : h₃.ctx = h.ctx := rd.grows.ctx
  have hissued : h₃.issuedToolCalls = h.issuedToolCalls := rd.issued
  rcases h₃.oneLlmTurnWith_takes h₃.ctx.llm with
    ⟨f, h₄, calls, ht, r, hf, hlost⟩ | ⟨t, h₄, rows, resp, ht, htakes, hreads⟩
  · -- the turn ends the run, before or after the request was sent
    right; right
    have rt := r.after rd
    rw [hms, hctx] at hlost
    rw [oneLlmTurn, ht]
    match f with
    | .ok t => exact absurd rfl (hf t)
    | .panicked p => exact ⟨_, _, calls, rfl, rt, hlost, carriesAll_of_ne h₄ (by simp)⟩
    | .suspended => exact ⟨_, _, calls, rfl, rt, hlost, carriesAll_of_ne h₄ (by simp)⟩
    | .err e =>
      cases e
      case timeout =>
        exact ⟨_, _, calls, rfl, rt.before (finish_rests h₄ _ _), hlost,
          (finish_stops h₄ _ _).outcome⟩
      all_goals exact ⟨_, _, calls, rfl, rt, hlost, carriesAll_of_ne h₄ (by simp)⟩
  · -- the reply is taken
    rw [oneLlmTurn, ht]
    match t with
    | .assistantText text =>
      obtain ⟨hc, rfl, hblank⟩ := hreads
      refine .inr (.inl ⟨_, _, _, rfl,
        ((Turn.leads_of_takes htakes (.refl h₄)).after rd).before (finish_rests h₄ _ _), ?_,
        (finish_stops h₄ _ _).outcome⟩)
      rw [Turn.Final, if_pos hc]
      exact ⟨rfl, hblank, rfl⟩
    | .empty =>
      -- a reply with neither text nor calls is answered with a nudge
      obtain ⟨m, g, hm, hcontent⟩ := h₄.pushEmptyTurnNudge_grows
      obtain ⟨hc, hblank⟩ := hreads
      have r : Rests h₄ h₄.pushEmptyTurnNudge [m] [] := ⟨g, by
        rw [pushEmptyTurnNudge, recordEvent_issued, pushUserMessage, pushMessage_issued]⟩
      refine .inl ⟨_, _, rfl, (Turn.leads_of_takes htakes r).after rd, ?_⟩
      rw [Turn.Settled, if_pos hc]
      exact ⟨rfl, hblank, m, rfl, hm, hcontent⟩
    | .toolCalls calls =>
      obtain ⟨rfl, hc⟩ := hreads
      have hdispatch := dispatchAll_answers h₄ resp.toolCalls
      rw [htakes.issued, htakes.grows.ctx, hissued, hctx] at hdispatch
      rcases hdispatch with ⟨h', answers, runs, hd, r, hans, hruns⟩ |
        ⟨done, tc, rest, h', answers, runs, hsplit, hgets, hd, r, hans, hruns⟩
      · -- every call is answered, and the pass is done
        refine .inl ⟨h', _, hd, (Turn.leads_of_takes htakes r).after rd, ?_⟩
        rw [Turn.Settled, if_neg hc]
        exact ⟨hans, hruns⟩
      · refine .inr (.inl ⟨_, h', _, hd, (Turn.leads_of_takes htakes r).after rd, ?_,
          carriesAll_of_ne h' (by simp)⟩)
        rw [Turn.Final, if_neg hc]
        exact ⟨done, tc, rest, hsplit, hgets, hans, hruns⟩

omit [Platform σ] in
theorem Turn.Leads.carries {t : Turn} {h h' : LoopHarness σ} (l : t.Leads h h') :
    Carries h.messages t.req := by
  obtain ⟨model, hreq⟩ := l.request
  rw [hreq]
  exact requestFor_carries h.ctx model h.messages

omit [Platform σ] in
theorem Turn.Settled.chatTurn {ctx : ExecutionContext σ} {issued : List ToolCall} {t : Turn}
    (ht : t.Settled ctx issued) (told : ReplyTold t.resp t.rows) :
    ChatTurn t.resp t.block ∧ ∀ e ∈ t.runs, IsToolRun e := by
  have hrows := told.replyRows
  unfold Turn.Settled at ht
  unfold ReplyRows at hrows
  unfold ChatTurn Turn.block
  by_cases hc : t.resp.toolCalls = []
  · rw [if_pos hc] at ht hrows ⊢
    obtain ⟨hruns, -, nudge, hafter, hnudge, -⟩ := ht
    obtain ⟨m, hm, htext⟩ := hrows
    rw [hruns, hm, hafter]
    exact ⟨⟨m, nudge, rfl, htext, hnudge⟩, by simp⟩
  · rw [if_neg hc] at ht hrows ⊢
    exact ⟨⟨t.rows, t.after, rfl, hrows, ht.1.imp fun _ _ ha => ha.toIsAnswer⟩, ht.2.isToolRun⟩

omit [Platform σ] in
theorem Turn.Final.runs {ctx : ExecutionContext σ} {issued : List ToolCall} {t : Turn}
    (ht : t.Final ctx issued) : ∀ e ∈ t.runs, IsToolRun e := by
  unfold Turn.Final at ht
  split at ht
  · simp [ht.1]
  · obtain ⟨done, tc, rest, -, -, -, hruns⟩ := ht
    exact hruns.isToolRun

omit [Platform σ] in
theorem LoopHarness.LostCall.passCalls {ctx : ExecutionContext σ} {model : String} {ms : List Message}
    {calls : List Effect} (hlost : LostCall ctx model ms calls) : PassCalls ms calls := by
  refine hlost.imp_right ?_
  rintro ⟨answer, hcalls, -⟩
  exact ⟨_, answer, [], hcalls, requestFor_carries ctx model ms, by simp⟩

theorem chatLoopBody_cases :
    (∃ h' block req resp runs, chatLoopBody h = .next h' ∧
      Grows h h' block (.llm req (.ready (.ok resp)) :: runs) ∧ Carries h.messages req ∧
      (∀ e ∈ runs, IsToolRun e) ∧ ChatTurn resp block) ∨
    (∃ r h' rows calls, chatLoopBody h = .stop r h' ∧ Stops h r h' rows calls ∧
      PassCalls h.messages calls) := by
  rcases chatLoopBody_turn h with ⟨h', t, heq, hleads, hsettled⟩ |
    ⟨r, h', t, heq, hleads, hfinal, hall⟩ | ⟨r, h', calls, heq, hrests, hlost, hall⟩
  · obtain ⟨hturn, hruns⟩ := hsettled.chatTurn hleads.told
    exact .inl ⟨h', t.block, t.req, t.resp, t.runs, heq, hleads.grows, hleads.carries, hruns, hturn⟩
  · exact .inr ⟨r, h', t.block, t.effects, heq, ⟨hleads.grows, hall⟩,
      .inr ⟨t.req, _, t.runs, rfl, hleads.carries, hfinal.runs⟩⟩
  · exact .inr ⟨r, h', [], calls, heq, ⟨hrests.grows, hall⟩, hlost.passCalls⟩

/-! ### The reflection loop -/

namespace ReflectionExecutor

/-- **One phase of a reflection run**: a turn that stops after the reply's rows, or none at all. -/
theorem phase_turn (provider : LlmProvider σ) (dflt current : String) :
    (∃ text h', ∃ t : Turn, phase h provider dflt current = (text, .next h') ∧ t.Leads h h' ∧
      t.after = [] ∧ t.runs = []) ∨
    (∃ text r h' calls, phase h provider dflt current = (text, .stop r h') ∧ Rests h h' [] calls ∧
      LostCall h.ctx provider.modelName h.messages calls ∧ CarriesAll r h') := by
  unfold phase
  rcases h.oneLlmTurnWith_takes provider with
    ⟨f, h₁, calls, ht, r, hf, hlost⟩ | ⟨t, h₁, rows, resp, ht, htakes, -⟩
  · right
    rw [ht]
    match f with
    | .ok t => exact absurd rfl (hf t)
    | .panicked p => exact ⟨_, _, _, calls, rfl, r, hlost, carriesAll_of_ne h₁ (by simp)⟩
    | .suspended => exact ⟨_, _, _, calls, rfl, r, hlost, carriesAll_of_ne h₁ (by simp)⟩
    | .err e =>
      cases e
      case timeout =>
        exact ⟨_, _, _, calls, rfl, r.before (finish_rests h₁ _ _), hlost,
          (finish_stops h₁ current .timedOut).outcome⟩
      all_goals exact ⟨_, _, _, calls, rfl, r, hlost, carriesAll_of_ne h₁ (by simp)⟩
  · have hleads := Turn.leads_of_takes htakes (.refl h₁)
    rw [ht]
    cases t <;> exact .inl ⟨_, h₁, _, rfl, hleads, rfl, rfl⟩

/-- One phase of a reflection run. -/
theorem phase_cases (provider : LlmProvider σ) (dflt current : String) :
    (∃ text h' rows req resp, phase h provider dflt current = (text, .next h') ∧
      Grows h h' rows [.llm req (.ready (.ok resp))] ∧ Carries h.messages req ∧
      ReplyRows resp rows) ∨
    (∃ text r h' calls, phase h provider dflt current = (text, .stop r h') ∧
      Stops h r h' [] calls ∧ PassCalls h.messages calls) := by
  rcases phase_turn h provider dflt current with ⟨text, h', t, heq, hleads, hafter, hruns⟩ |
    ⟨text, r, h', calls, heq, hrests, hlost, hall⟩
  · have g := hleads.grows
    rw [Turn.block, Turn.effects, hafter, hruns, List.append_nil] at g
    exact .inl ⟨text, h', t.rows, t.req, t.resp, heq, g, hleads.carries, hleads.told.replyRows⟩
  · exact .inr ⟨text, r, h', calls, heq, ⟨hrests.grows, hall⟩, hlost.passCalls⟩

/-- The checks before a phase add nothing. -/
theorem roundChecks_rests (current : String) :
    (∃ h', roundChecks h current = .next h' ∧ Rests h h' [] []) ∨
    (∃ r h', roundChecks h current = .stop r h' ∧ Rests h h' [] [] ∧ CarriesAll r h') := by
  unfold roundChecks
  rcases h.checkCostCap with e | _
  · exact .inr ⟨_, h, rfl, .refl h, carriesAll_of_ne h (by simp)⟩
  simp only
  have ri := h.bumpIteration_rests.before ⟨h.bumpIteration.checkIterationCap_grows, by simp⟩
  rcases hi : h.bumpIteration.checkIterationCap with ⟨_ | _, h₂⟩ <;> rw [hi] at ri
  · exact .inr ⟨_, _, rfl, ri.before (finish_rests h₂ _ _), (finish_stops h₂ _ _).outcome⟩
  simp only
  have rd := ri.before ⟨h₂.checkDeadline_grows, by simp⟩
  rcases hd : h₂.checkDeadline with ⟨_ | _, h₃⟩ <;> rw [hd] at rd
  · exact .inr ⟨_, _, rfl, rd.before (finish_rests h₃ _ _), (finish_stops h₃ _ _).outcome⟩
  · exact .inl ⟨h₃, rfl, rd⟩

theorem roundChecks_cases (current : String) :
    (∃ h', roundChecks h current = .next h' ∧ Grows h h' [] []) ∨
    (∃ r h', roundChecks h current = .stop r h' ∧ Stops h r h' [] []) := by
  rcases roundChecks_rests h current with ⟨h', heq, r⟩ | ⟨r, h', heq, hrests, hall⟩
  · exact .inl ⟨h', heq, r.grows⟩
  · exact .inr ⟨r, h', heq, hrests.grows, hall⟩

end ReflectionExecutor

/-! ### Induction over the loops -/

omit [Platform σ] in
/-- What a pass comes to: `P` of the harness it goes on with, or `Q` of how it stops. -/
def LoopStep.Meets (P : LoopHarness σ → Prop) (Q : ExecResult → LoopHarness σ → Prop) :
    LoopStep σ → Prop
  | .next h => P h
  | .stop r h => Q r h

omit [Platform σ] in
theorem LoopStep.Meets.imp_next {P P' : LoopHarness σ → Prop}
    {Q : ExecResult → LoopHarness σ → Prop} {s : LoopStep σ} (hs : s.Meets P Q)
    (hP : ∀ h, P h → P' h) : s.Meets P' Q := by
  cases s with
  | next h => exact hP h hs
  | stop r h => exact hs

/-- **The rule of the chat loop**: `P k` holds before a pass with `k` passes left, and `Q` of what a
pass stops with. -/
theorem chatLoop_induct {P : Nat → LoopHarness σ → Prop} {Q : ExecResult → LoopHarness σ → Prop}
    (out : ∀ h, P 0 h → Q .running h)
    (body : ∀ k h, P (k + 1) h → (chatLoopBody h).Meets (P k) Q)
    (passes : Nat) (h : LoopHarness σ) (hP : P passes h) :
    Q (chatLoop passes h).1 (chatLoop passes h).2 := by
  induction passes generalizing h with
  | zero => exact out h hP
  | succ passes ih =>
    have hbody := body passes h hP
    rw [chatLoop]
    cases hstep : chatLoopBody h with
    | next h' =>
      rw [hstep] at hbody
      exact ih h' hbody
    | stop r h' =>
      rw [hstep] at hbody
      exact hbody

/-- **The rule of the reflection loop, with the critique's text**: `P k current` holds between the
phases while `k` of them are left, `C k current text` after a critique, `R k current` after the checks
of a phase, and `Q` of what ends the run.  An even number of phases is left after a draft or a
revision, an odd one after a critique. -/
theorem ReflectionExecutor.rounds_rule {judge : LlmProvider σ}
    {P R : Nat → String → LoopHarness σ → Prop} {C : Nat → String → String → LoopHarness σ → Prop}
    {Q : ExecResult → LoopHarness σ → Prop}
    (done : ∀ current h, P 0 current h →
      Q (finish h current .completed).1 (finish h current .completed).2)
    (checks : ∀ k current h, P (k + 1) current h →
      (roundChecks h current).Meets (R k current) Q)
    (critique : ∀ n current h, R (2 * n + 1) current h →
      let h := h.pushUserMessage (critiquePrompt h.ctx)
      (phase h judge "" current).2.Meets
        (C (2 * n + 1) current (phase h judge "" current).1) Q)
    (accept : ∀ k current text h, C k current text h → Text.contains text acceptToken = true →
      Q (finish h current .completed).1 (finish h current .completed).2)
    (reject : ∀ k current text h, C k current text h → Text.contains text acceptToken = false →
      P k current h)
    (revise : ∀ n current h, R (2 * n) current h →
      let h := h.pushUserMessage revisePrompt
      (phase h h.ctx.llm current current).2.Meets
        (P (2 * n) (phase h h.ctx.llm current current).1) Q)
    (n : Nat) (current : String) (h : LoopHarness σ) (hP : P (2 * n) current h) :
    Q (rounds judge n current h).1 (rounds judge n current h).2 := by
  induction n generalizing current h with
  | zero => exact done current h hP
  | succ n ih =>
    rw [rounds]
    have hchecks := checks (2 * n + 1) current h hP
    cases h₁eq : roundChecks h current with
    | stop r h₁ =>
      rw [h₁eq] at hchecks
      exact hchecks
    | next h₁ =>
      rw [h₁eq] at hchecks
      have hcritique := critique n current h₁ hchecks
      simp only at hcritique ⊢
      -- the critique
      rcases hphase : phase (h₁.pushUserMessage (critiquePrompt h₁.ctx)) judge "" current with
        ⟨text, h₂ | ⟨r, h₂⟩⟩ <;> rw [hphase] at hcritique
      case stop => exact hcritique
      simp only
      cases hacc : Text.contains text acceptToken with
      | true =>
        rw [if_pos rfl]
        exact accept _ current text h₂ hcritique hacc
      | false =>
        rw [if_neg (by simp)]
        -- the revision, with the checks of its own before it
        have hchecks' := checks (2 * n) current h₂ (reject _ current text h₂ hcritique hacc)
        cases h₃eq : roundChecks h₂ current with
        | stop r h₃ =>
          rw [h₃eq] at hchecks'
          exact hchecks'
        | next h₃ =>
          rw [h₃eq] at hchecks'
          have hrevise := revise n current h₃ hchecks'
          simp only at hrevise ⊢
          rcases hphase' : phase (h₃.pushUserMessage revisePrompt)
            (h₃.pushUserMessage revisePrompt).ctx.llm current current with
            ⟨revised, h₄ | ⟨r, h₄⟩⟩ <;> rw [hphase'] at hrevise
          · exact ih revised h₄ hrevise
          · exact hrevise

/-- **The rule of the reflection loop**: `P k current` holds between the phases while `k` of them are
left, `R k current` after the checks of one, and `Q` of what a phase or a check stops with.  An even
number of phases is left after a draft or a revision, an odd one after a critique. -/
theorem ReflectionExecutor.rounds_induct {judge : LlmProvider σ}
    {P R : Nat → String → LoopHarness σ → Prop} {Q : ExecResult → LoopHarness σ → Prop}
    (done : ∀ k current h, P k current h →
      Q (finish h current .completed).1 (finish h current .completed).2)
    (checks : ∀ k current h, P (k + 1) current h →
      (roundChecks h current).Meets (R k current) Q)
    (critique : ∀ n current h, R (2 * n + 1) current h →
      (phase (h.pushUserMessage (critiquePrompt h.ctx)) judge "" current).2.Meets
        (P (2 * n + 1) current) Q)
    (revise : ∀ n current h, R (2 * n) current h →
      let h := h.pushUserMessage revisePrompt
      (phase h h.ctx.llm current current).2.Meets
        (P (2 * n) (phase h h.ctx.llm current current).1) Q)
    (n : Nat) (current : String) (h : LoopHarness σ) (hP : P (2 * n) current h) :
    Q (rounds judge n current h).1 (rounds judge n current h).2 :=
  rounds_rule (C := fun k current _ => P k current) (done 0) checks critique
    (fun k current _ h hP _ => done k current h hP) (fun _ _ _ _ hP _ => hP) revise n current h hP

/-! ### Whole runs -/

theorem chatLoop_stops (passes : Nat) :
    ∃ rows calls, Stops h (chatLoop passes h).1 (chatLoop passes h).2 rows calls := by
  induction passes generalizing h with
  | zero => exact ⟨[], [], stops_of_grows h (.refl h) (by simp [chatLoop])⟩
  | succ passes ih =>
    rw [chatLoop]
    rcases chatLoopBody_cases h with
      ⟨h', block, req, resp, runs, heq, g, -⟩ | ⟨r, h', rows, calls, heq, s, -⟩ <;> rw [heq]
    · obtain ⟨rows, calls, s⟩ := ih h'
      exact ⟨_, _, s.trans g⟩
    · exact ⟨rows, calls, s⟩

namespace ReflectionExecutor

theorem rounds_stops (judge : LlmProvider σ) (n : Nat) (current : String) :
    ∃ rows calls, Stops h (rounds judge n current h).1 (rounds judge n current h).2 rows calls := by
  induction n generalizing current h with
  | zero => exact ⟨[], [], finish_stops h current .completed⟩
  | succ n ih =>
    rw [rounds]
    rcases roundChecks_cases h current with ⟨h₁, heq, g₁⟩ | ⟨r, h₁, heq, s⟩ <;> rw [heq]
    case inr => exact ⟨[], [], s⟩
    simp only
    obtain ⟨m, g, -⟩ := h₁.pushUserMessage_grows (critiquePrompt h₁.ctx)
    have g₂ := g₁.trans g
    generalize h₁.pushUserMessage (critiquePrompt h₁.ctx) = h₂ at g₂
    rcases phase_cases h₂ judge "" current with
      ⟨critique, h₃, rows, req, resp, heq, g, -⟩ | ⟨_, r, h₃, calls, heq, s, -⟩ <;> simp only [heq]
    case inr => exact ⟨_, _, s.trans g₂⟩
    have g₃ := g₂.trans g
    by_cases hacc : Text.contains critique acceptToken
    · rw [if_pos hacc]
      exact ⟨_, _, (finish_stops h₃ current .completed).trans g₃⟩
    rw [if_neg hacc]
    rcases roundChecks_cases h₃ current with ⟨h₄, heq, g⟩ | ⟨r, h₄, heq, s⟩ <;> rw [heq]
    case inr => exact ⟨_, _, s.trans g₃⟩
    simp only
    have g₄ := g₃.before g
    obtain ⟨m', g, -⟩ := h₄.pushUserMessage_grows revisePrompt
    have g₅ := g₄.trans g
    generalize h₄.pushUserMessage revisePrompt = h₅ at g₅
    rcases phase_cases h₅ h₅.ctx.llm current current with
      ⟨revised, h₆, rows', req', resp', heq, g, -⟩ | ⟨_, r, h₆, calls, heq, s, -⟩ <;>
      simp only [heq]
    · obtain ⟨rows'', calls, s⟩ := ih h₆ revised
      exact ⟨_, _, s.trans (g₅.trans g)⟩
    · exact ⟨_, _, s.trans g₅⟩

theorem execute_stops (maxRevisions : UInt32) (ctx : ExecutionContext σ) (env : σ) :
    ∃ rows calls, Stops (LoopHarness.new ctx env).seedMessages (execute maxRevisions ctx env).1
      (execute maxRevisions ctx env).2 rows calls := by
  have g := bumpIteration_grows (LoopHarness.new ctx env).seedMessages
  unfold execute
  simp only
  generalize (LoopHarness.new ctx env).seedMessages.bumpIteration = h at g
  rcases h.checkCostCap with e | _
  · exact ⟨[], [], stops_of_grows _ g (by simp)⟩
  simp only
  rcases phase_cases h ctx.llm "" "" with
    ⟨current, h₁, rows, req, resp, heq, g', -⟩ | ⟨_, r, h₁, calls, heq, s, -⟩ <;> simp only [heq]
  · obtain ⟨rows', calls, s⟩ :=
      rounds_stops h₁ (ctx.judgeLlm.getD ctx.llm) maxRevisions.toNat current
    exact ⟨_, _, s.trans (g.trans g')⟩
  · exact ⟨_, _, s.trans g⟩

end ReflectionExecutor

end PgSynapse

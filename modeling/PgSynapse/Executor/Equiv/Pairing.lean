import PgSynapse.Executor.Equiv.Executors
import PgSynapse.Lib.Blocks

/-!
# Tool-call pairing over whole runs

The transcript of a run is a seed of system and user rows followed by one block per reply of the
model.  In a chat run (`ConversationExecutor`, `ReActExecutor`) the block of a reply that issued
calls holds one assistant row per call and then one tool row per call, in order, each naming its
call; the block of a reply without calls holds no tool row.  In a reflection run the block of a
reply is its own rows and the user prompt of the next phase: calls are recorded and never answered.
-/

namespace PgSynapse

open LoopHarness

variable {σ : Type} [Platform σ]

/-- The replies among the effects of a run, in order. -/
def responses (effects : List Effect) : List CompletionResponse :=
  effects.filterMap fun
    | .llm _ (.ready (.ok resp)) => some resp
    | _ => none

/-- The rows a conversation starts with. -/
def IsSeed (rows : List Message) : Prop :=
  ∀ m ∈ rows, m.IsText .system ∨ m.IsText .user

/-- A chat transcript in which every reply's calls are answered. -/
def Paired (replies : List CompletionResponse) (transcript : List Message) : Prop :=
  Blocked IsSeed ChatTurn replies transcript

/-- The block of a reply in a reflection transcript: its rows, then the next phase's prompt. -/
def ReflectionTurn (resp : CompletionResponse) (block : List Message) : Prop :=
  ∃ rows prompt, block = rows ++ [prompt] ∧ ReplyRows resp rows ∧ prompt.IsText .user

/-- `P` holds of every request of the log and the replies before it. -/
def RequestsMeet (P : List CompletionResponse → CompletionRequest → Prop)
    (effects : List Effect) : Prop :=
  AtEvery (fun before e => ∀ req answer, e = .llm req answer → P (responses before) req) effects

/-- A request that carries a seed and one `turn` block per earlier reply. -/
structure Sends (turn : CompletionResponse → List Message → Prop)
    (replies : List CompletionResponse) (req : CompletionRequest) : Prop where
  transcript : Blocked IsSeed turn replies req.messages
  params : req.params = .null

/-! ### The log -/

@[simp] theorem responses_append (es es' : List Effect) :
    responses (es ++ es') = responses es ++ responses es' :=
  List.filterMap_append

@[simp] theorem responses_cons_reply (req : CompletionRequest) (resp : CompletionResponse)
    (es : List Effect) :
    responses (.llm req (.ready (.ok resp)) :: es) = resp :: responses es :=
  rfl

theorem responses_toolRuns {runs : List Effect} (h : ∀ e ∈ runs, IsToolRun e) :
    responses runs = [] := by
  rw [responses, List.filterMap_eq_nil_iff]
  intro e he
  obtain ⟨tc, toolCtx, answer, rfl⟩ := h e he
  rfl

/-- A pass from a transcript of `turn` blocks keeps the requests so. -/
theorem RequestsMeet.pass {turn : CompletionResponse → List Message → Prop} {es : List Effect}
    (hes : RequestsMeet (Sends turn) es) {ms : List Message} {calls : List Effect}
    (hms : Blocked IsSeed turn (responses es) ms) (hcalls : PassCalls ms calls) :
    RequestsMeet (Sends turn) (es ++ calls) := by
  -- a pass sends one request, with the transcript it starts from; its tool runs send none
  rcases hcalls with rfl | ⟨req, answer, runs, rfl, hreq, hruns⟩
  · rwa [List.append_nil]
  have hone : RequestsMeet (Sends turn) (es ++ [.llm req answer]) := by
    refine AtEvery.concat hes ?_
    intro req' answer' heq
    obtain ⟨rfl, -⟩ := Effect.llm.inj heq
    exact ⟨hreq.messages ▸ hms, hreq.params⟩
  have hmore : ∀ e ∈ runs, ∀ before : List Effect, ∀ req' answer', e = .llm req' answer' →
      Sends turn (responses before) req' := by
    intro e he before req' answer' heq
    obtain ⟨tc, toolCtx, a, rfl⟩ := hruns e he
    exact absurd heq (by simp)
  have hall : RequestsMeet (Sends turn) (es ++ [.llm req answer] ++ runs) :=
    AtEvery.append hone hmore
  rwa [List.append_assoc] at hall

/-! ### Chat runs -/

/-- The loop invariant of a chat run: so far every request was paired, and so is the transcript. -/
structure ChatInv (h : LoopHarness σ) : Prop where
  requests : RequestsMeet (Sends ChatTurn) h.world.effects
  transcript : Paired (responses h.world.effects) h.messages

omit [Platform σ] in
theorem ChatInv.next {h h' : LoopHarness σ} (inv : ChatInv h) {block : List Message}
    {req : CompletionRequest} {resp : CompletionResponse} {runs : List Effect}
    (g : Grows h h' block (.llm req (.ready (.ok resp)) :: runs))
    (hreq : Carries h.messages req) (hruns : ∀ e ∈ runs, IsToolRun e)
    (hturn : ChatTurn resp block) : ChatInv h' := by
  constructor
  · rw [g.effects]
    exact inv.requests.pass inv.transcript (.inr ⟨req, _, runs, rfl, hreq, hruns⟩)
  · rw [g.effects, g.messages, responses_append, responses_cons_reply, responses_toolRuns hruns]
    exact inv.transcript.snoc hturn

theorem chatLoop_requests (passes : Nat) (h : LoopHarness σ) (inv : ChatInv h) :
    RequestsMeet (Sends ChatTurn) (chatLoop passes h).2.world.effects := by
  induction passes generalizing h with
  | zero => exact inv.requests
  | succ passes ih =>
    rw [chatLoop]
    rcases chatLoopBody_cases h with
      ⟨h', block, req, resp, runs, heq, g, hreq, hruns, hturn⟩ | ⟨r, h', rows, calls, heq, s, hcalls⟩
    · rw [heq]
      exact ih h' (inv.next g hreq hruns hturn)
    · rw [heq]
      simp only [s.grows.effects]
      exact inv.requests.pass inv.transcript hcalls

/-- A fresh harness, seeded, meets the loop invariant. -/
theorem chatInv_seeded {h : LoopHarness σ} (hm : h.messages = []) (he : h.world.effects = []) :
    ChatInv h.seedMessages := by
  obtain ⟨seed, g, -, hseed⟩ := h.seedMessages_grows
  have hms : h.seedMessages.messages = seed := by rw [g.messages, hm, List.nil_append]
  have hes : h.seedMessages.world.effects = [] := by rw [g.effects, he, List.append_nil]
  constructor
  · rw [hes]
    exact AtEvery.nil
  · rw [hes, hms]
    exact Blocked.of_seed hseed

theorem conversation_requests (passes : Nat) (ctx : ExecutionContext σ) (env : σ) :
    RequestsMeet (Sends ChatTurn) (ConversationExecutor.execute passes ctx env).2.world.effects :=
  chatLoop_requests passes _ (chatInv_seeded rfl rfl)

theorem react_requests (passes : Nat) (ctx : ExecutionContext σ) (env : σ) :
    RequestsMeet (Sends ChatTurn) (ReActExecutor.execute passes ctx env).2.world.effects :=
  chatLoop_requests passes _ (chatInv_seeded rfl rfl)

/-- **Tool-call pairing**: whatever the provider and the tools do, each request of a conversation
or ReAct run carries a transcript in which every earlier reply's calls are answered, each by one
tool row that names it, right after the reply's own rows, and in which there is no other tool
row. -/
theorem chat_requests_paired (passes : Nat) (ctx : ExecutionContext σ) (env : σ) :
    (∀ before req answer after,
      (ConversationExecutor.execute passes ctx env).2.world.effects =
        before ++ .llm req answer :: after →
      Paired (responses before) req.messages) ∧
    (∀ before req answer after,
      (ReActExecutor.execute passes ctx env).2.world.effects =
        before ++ .llm req answer :: after →
      Paired (responses before) req.messages) := by
  constructor
  · intro before req answer after heq
    exact (conversation_requests passes ctx env before _ after heq req answer rfl).transcript
  · intro before req answer after heq
    exact (react_requests passes ctx env before _ after heq req answer rfl).transcript

/-! ### Reflection runs -/

namespace ReflectionExecutor

/-- Where the next phase starts: the prompt stands, and every earlier reply has its block. -/
structure Ready (h : LoopHarness σ) : Prop where
  requests : RequestsMeet (Sends ReflectionTurn) h.world.effects
  transcript : Blocked IsSeed ReflectionTurn (responses h.world.effects) h.messages

/-- Where a phase ended: the last reply's rows stand, its prompt does not yet. -/
structure Replied (h : LoopHarness σ) : Prop where
  requests : RequestsMeet (Sends ReflectionTurn) h.world.effects
  transcript : ∃ replies resp ms rows, responses h.world.effects = replies ++ [resp] ∧
    h.messages = ms ++ rows ∧ Blocked IsSeed ReflectionTurn replies ms ∧ ReplyRows resp rows

omit [Platform σ] in
theorem Replied.silent {h h' : LoopHarness σ} (inv : Replied h) (g : Grows h h' [] []) :
    Replied h' := by
  have he : h'.world.effects = h.world.effects := by simpa using g.effects
  have hm : h'.messages = h.messages := by simpa using g.messages
  exact ⟨he ▸ inv.requests, he ▸ hm ▸ inv.transcript⟩

theorem Replied.prompt {h : LoopHarness σ} (inv : Replied h) (content : String) :
    Ready (h.pushUserMessage content) := by
  obtain ⟨m, g, hm, -⟩ := h.pushUserMessage_grows content
  obtain ⟨replies, resp, ms, rows, hr, hms, hb, hrows⟩ := inv.transcript
  have he : (h.pushUserMessage content).world.effects = h.world.effects := by
    simpa using g.effects
  constructor
  · rw [he]
    exact inv.requests
  · rw [he, hr, g.messages, hms, List.append_assoc]
    exact hb.snoc ⟨rows, m, rfl, hrows, hm⟩

/-- A phase sends its request from a ready transcript, and stops or leaves a reply. -/
theorem Ready.phase {h : LoopHarness σ} (inv : Ready h) (provider : LlmProvider σ)
    (dflt current : String) :
    (∃ text h', phase h provider dflt current = (text, .next h') ∧ Replied h') ∨
    (∃ text r h', phase h provider dflt current = (text, .stop r h') ∧
      RequestsMeet (Sends ReflectionTurn) h'.world.effects) := by
  rcases phase_cases h provider dflt current with
    ⟨text, h', rows, req, resp, heq, g, hreq, hrows⟩ | ⟨text, r, h', calls, heq, s, hcalls⟩
  · refine .inl ⟨text, h', heq, ?_, _, resp, h.messages, rows, ?_, g.messages, inv.transcript,
      hrows⟩
    · rw [g.effects]
      exact inv.requests.pass inv.transcript (.inr ⟨req, _, [], rfl, hreq, by simp⟩)
    · rw [g.effects, responses_append]
      rfl
  · refine .inr ⟨text, r, h', heq, ?_⟩
    rw [s.grows.effects]
    exact inv.requests.pass inv.transcript hcalls

/-- The checks before a phase keep what stands, whether they stop the run or not. -/
theorem Replied.roundChecks {h : LoopHarness σ} (inv : Replied h) (current : String) :
    (∃ h', roundChecks h current = .next h' ∧ Replied h') ∨
    (∃ r h', roundChecks h current = .stop r h' ∧
      RequestsMeet (Sends ReflectionTurn) h'.world.effects) := by
  rcases roundChecks_cases h current with ⟨h', heq, g⟩ | ⟨r, h', heq, s⟩
  · exact .inl ⟨h', heq, inv.silent g⟩
  · exact .inr ⟨r, h', heq, (inv.silent s.grows).requests⟩

theorem rounds_requests (judge : LlmProvider σ) (n : Nat) (current : String) (h : LoopHarness σ)
    (inv : Replied h) :
    RequestsMeet (Sends ReflectionTurn) (rounds judge n current h).2.world.effects := by
  induction n generalizing current h with
  | zero => exact (inv.silent (finish_stops h current .completed).grows).requests
  | succ n ih =>
    rw [rounds]
    rcases inv.roundChecks current with ⟨h₁, heq, inv₁⟩ | ⟨r, h₁, heq, hreq⟩ <;> rw [heq]
    case inr => exact hreq
    -- the critique
    rcases (inv₁.prompt (critiquePrompt h₁.ctx)).phase judge "" current with
      ⟨critique, h₂, heq, inv₂⟩ | ⟨_, r, h₂, heq, hreq⟩ <;> simp only [heq]
    case inr => exact hreq
    by_cases hacc : Text.contains critique acceptToken
    · rw [if_pos hacc]
      exact (inv₂.silent (finish_stops h₂ current .completed).grows).requests
    rw [if_neg hacc]
    rcases inv₂.roundChecks current with ⟨h₃, heq, inv₃⟩ | ⟨r, h₃, heq, hreq⟩ <;> rw [heq]
    case inr => exact hreq
    simp only
    -- the revision
    rcases (inv₃.prompt revisePrompt).phase (h₃.pushUserMessage revisePrompt).ctx.llm current
      current with ⟨revised, h₄, heq, inv₄⟩ | ⟨_, r, h₄, heq, hreq⟩ <;> simp only [heq]
    case inr => exact hreq
    exact ih revised h₄ inv₄

/-- Each request of a reflection run carries a transcript of seed and `ReflectionTurn` blocks. -/
theorem execute_requests (maxRevisions : UInt32) (ctx : ExecutionContext σ) (env : σ) :
    RequestsMeet (Sends ReflectionTurn)
      (execute maxRevisions ctx env).2.world.effects := by
  obtain ⟨seed, g, -, hseed⟩ := (LoopHarness.new ctx env).seedMessages_grows
  have gb := g.before (bumpIteration_grows _)
  unfold execute
  simp only
  generalize (LoopHarness.new ctx env).seedMessages.bumpIteration = h at gb
  have hes : h.world.effects = [] := gb.effects
  have hms : h.messages = seed := gb.messages
  have ready : Ready h := by
    constructor
    · rw [hes]
      exact AtEvery.nil
    · rw [hes, hms]
      exact Blocked.of_seed hseed
  rcases h.checkCostCap with e | _
  · exact ready.requests
  rcases ready.phase ctx.llm "" "" with ⟨current, h₁, heq, inv⟩ | ⟨_, r, h₁, heq, hreq⟩ <;>
    simp only [heq]
  · exact rounds_requests (ctx.judgeLlm.getD ctx.llm) maxRevisions.toNat current h₁ inv
  · exact hreq

end ReflectionExecutor

end PgSynapse

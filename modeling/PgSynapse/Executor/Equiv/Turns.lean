import PgSynapse.Executor.Equiv.Pairing
import PgSynapse.Runtime.Equiv.ExecuteInner

/-!
# A run, turn by turn

Every run of an executor comes apart into the rows it opens with, a list of settled turns, and an
end: a final turn, or a call whose reply was not taken.  Transcript, effects and issued calls are
those of the turns, one after the other (`runExecutor_ends`).  What a request carries and where the
rows of a reply stand is read off the list.
-/

namespace PgSynapse

open LoopHarness

/-! ### Lists of turns -/

/-- The transcript after the turns. -/
def transcript (seed : List Message) (turns : List Turn) : List Message :=
  seed ++ turns.flatMap Turn.block

/-- The effects of the turns. -/
def effectsOf (turns : List Turn) : List Effect := turns.flatMap Turn.effects

/-- The calls the replies of the turns issued. -/
def issuedIn (turns : List Turn) : List ToolCall := turns.flatMap fun t => t.resp.toolCalls

theorem transcript_concat (seed : List Message) (turns : List Turn) (t : Turn) :
    transcript seed (turns ++ [t]) = transcript seed turns ++ t.block := by
  simp [transcript]

theorem effectsOf_concat (turns : List Turn) (t : Turn) :
    effectsOf (turns ++ [t]) = effectsOf turns ++ t.effects := by
  simp [effectsOf]

theorem issuedIn_concat (turns : List Turn) (t : Turn) :
    issuedIn (turns ++ [t]) = issuedIn turns ++ t.resp.toolCalls := by
  simp [issuedIn]

theorem responses_effectsOf {turns : List Turn} (hruns : ∀ t ∈ turns, ∀ e ∈ t.runs, IsToolRun e) :
    responses (effectsOf turns) = turns.map Turn.resp := by
  induction turns with
  | nil => rfl
  | cons t turns ih =>
    obtain ⟨ht, hturns⟩ := List.forall_mem_cons.mp hruns
    have hcons : effectsOf (t :: turns) = .llm t.req (.ready (.ok t.resp)) :: (t.runs ++
        effectsOf turns) := rfl
    rw [hcons, responses_cons_reply, responses_append, responses_toolRuns ht, ih hturns]
    rfl

/-- The replies a run accepted: those that were not cut off. -/
def accepted (effects : List Effect) : List CompletionResponse :=
  (responses effects).filter fun resp => resp.finishReason ≠ "length"

theorem accepted_append (es es' : List Effect) :
    accepted (es ++ es') = accepted es ++ accepted es' := by
  rw [accepted, responses_append, List.filter_append]
  rfl

/-- Where a model call stands in the effects of the turns: at the head of one of them. -/
theorem effectsOf_split {turns : List Turn} (hruns : ∀ t ∈ turns, ∀ e ∈ t.runs, IsToolRun e)
    {before after : List Effect} {req : CompletionRequest}
    {answer : Answer (Except LlmError CompletionResponse)}
    (heq : effectsOf turns = before ++ .llm req answer :: after) :
    ∃ pre t post, turns = pre ++ t :: post ∧ before = effectsOf pre ∧ t.req = req ∧
      answer = .ready (.ok t.resp) ∧ after = t.runs ++ effectsOf post := by
  induction turns generalizing before with
  | nil => simp [effectsOf] at heq
  | cons t turns ih =>
    obtain ⟨ht, hturns⟩ := List.forall_mem_cons.mp hruns
    have hcons : effectsOf (t :: turns) = .llm t.req (.ready (.ok t.resp)) :: (t.runs ++
        effectsOf turns) := rfl
    rw [hcons] at heq
    cases before with
    | nil =>
      obtain ⟨hhead, htail⟩ := List.cons.inj heq
      obtain ⟨hreq, hanswer⟩ := Effect.llm.inj hhead
      exact ⟨[], t, turns, rfl, rfl, hreq, hanswer.symm, htail.symm⟩
    | cons e before =>
      obtain ⟨rfl, htail⟩ := List.cons.inj heq
      -- the call is not among the tool runs of the first turn
      obtain ⟨before', rfl⟩ : ∃ before', before = t.runs ++ before' := by
        rcases List.append_eq_append_iff.mp htail with ⟨l, hl, -⟩ | ⟨l, hl, hl'⟩
        · exact ⟨l, hl⟩
        · cases l with
          | nil => exact ⟨[], by rw [hl, List.append_nil, List.append_nil]⟩
          | cons x l =>
            obtain ⟨rfl, -⟩ := List.cons.inj hl'
            obtain ⟨tc, toolCtx, a, hrun⟩ := ht (.llm req answer) (by simp [hl])
            cases hrun
      have hrest : effectsOf turns = before' ++ .llm req answer :: after :=
        List.append_cancel_left (htail.trans (List.append_assoc _ _ _))
      obtain ⟨pre, t', post, rfl, rfl, hreq, hanswer, hafter⟩ := ih hturns hrest
      exact ⟨t :: pre, t', post, rfl, rfl, hreq, hanswer, hafter⟩

/-! ### Histories -/

variable {σ : Type}

/-- The turn was made of the transcript `ms`, and its reply is taken. -/
structure Turn.Told (ctx : ExecutionContext σ) (ms : List Message) (t : Turn) : Prop where
  request : ∃ model, t.req = requestFor ctx model ms
  whole : t.resp.finishReason ≠ "length"
  rows : ReplyTold t.resp t.rows
  runs : ∀ e ∈ t.runs, IsToolRun e

/-- The harness stands after `turns`, each of which meets `P` with the turns before it. -/
structure History (ctx : ExecutionContext σ) (P : List Turn → Turn → Prop) (seed : List Message)
    (turns : List Turn) (h : LoopHarness σ) : Prop where
  under : h.ctx = ctx
  told : AtEvery (fun before t => t.Told ctx (transcript seed before) ∧ P before t) turns
  messages : h.messages = transcript seed turns
  effects : h.world.effects = effectsOf turns
  issued : h.issuedToolCalls = issuedIn turns

/-- How a run ended: with a turn that meets `Q`, or with a call whose reply was not taken. -/
def EndsWith (ctx : ExecutionContext σ) (P Q : List Turn → Turn → Prop) (seed : List Message)
    (h : LoopHarness σ) : Prop :=
  (∃ turns t, t.Told ctx (transcript seed turns) ∧ Q turns t ∧
    AtEvery (fun before t => t.Told ctx (transcript seed before) ∧ P before t) turns ∧
    h.messages = transcript seed (turns ++ [t]) ∧ h.world.effects = effectsOf (turns ++ [t]) ∧
    h.issuedToolCalls = issuedIn (turns ++ [t])) ∨
  ∃ turns model calls, LostCall ctx model (transcript seed turns) calls ∧
    AtEvery (fun before t => t.Told ctx (transcript seed before) ∧ P before t) turns ∧
    h.messages = transcript seed turns ∧ h.world.effects = effectsOf turns ++ calls ∧
    h.issuedToolCalls = issuedIn turns

/-- The runs of told turns are tool runs. -/
theorem told_runs {ctx : ExecutionContext σ} {ms : List Turn → List Message}
    {R : List Turn → Turn → Prop} {turns : List Turn}
    (hall : AtEvery (fun before t => t.Told ctx (ms before) ∧ R before t) turns) :
    ∀ t ∈ turns, ∀ e ∈ t.runs, IsToolRun e := by
  intro t ht
  obtain ⟨before, htold, -⟩ := hall.exists_of_mem ht
  exact htold.runs

/-- A lost call leaves no accepted reply. -/
theorem LoopHarness.LostCall.accepted {ctx : ExecutionContext σ} {model : String}
    {ms : List Message} {calls : List Effect} (hlost : LostCall ctx model ms calls) :
    accepted calls = [] := by
  rcases hlost with rfl | ⟨answer, rfl, hcut⟩
  · rfl
  · match answer with
    | .ready (.ok resp) => simp [PgSynapse.accepted, responses, hcut resp rfl]
    | .ready (.error e) => rfl
    | .panicked p => rfl
    | .pending => rfl

namespace History

variable {ctx : ExecutionContext σ} {P Q : List Turn → Turn → Prop} {seed : List Message}
  {turns : List Turn} {h h' : LoopHarness σ}

theorem rests (hist : History ctx P seed turns h) (r : Rests h h' [] []) :
    History ctx P seed turns h' := by
  refine ⟨r.grows.ctx.trans hist.under, hist.told, ?_, ?_, r.issued.trans hist.issued⟩
  · rw [r.grows.messages, List.append_nil, hist.messages]
  · rw [r.grows.effects, List.append_nil, hist.effects]

theorem turn_told (hist : History ctx P seed turns h) {t : Turn} (l : t.Leads h h')
    (hruns : ∀ e ∈ t.runs, IsToolRun e) : t.Told ctx (transcript seed turns) := by
  refine ⟨?_, l.whole, l.told, hruns⟩
  rw [← hist.under, ← hist.messages]
  exact l.request

/-- One more settled turn. -/
theorem concat (hist : History ctx P seed turns h) {t : Turn} (l : t.Leads h h')
    (hruns : ∀ e ∈ t.runs, IsToolRun e) (hP : P turns t) :
    History ctx P seed (turns ++ [t]) h' := by
  refine ⟨l.grows.ctx.trans hist.under, hist.told.concat ⟨hist.turn_told l hruns, hP⟩, ?_, ?_, ?_⟩
  · rw [l.grows.messages, hist.messages, transcript_concat]
  · rw [l.grows.effects, hist.effects, effectsOf_concat]
  · rw [l.issued, hist.issued, issuedIn_concat]

/-- The final turn. -/
theorem final (hist : History ctx P seed turns h) {t : Turn} (l : t.Leads h h')
    (hruns : ∀ e ∈ t.runs, IsToolRun e) (hQ : Q turns t) : EndsWith ctx P Q seed h' := by
  refine .inl ⟨turns, t, hist.turn_told l hruns, hQ, hist.told, ?_, ?_, ?_⟩
  · rw [l.grows.messages, hist.messages, transcript_concat]
  · rw [l.grows.effects, hist.effects, effectsOf_concat]
  · rw [l.issued, hist.issued, issuedIn_concat]

/-- No further turn. -/
theorem lost (hist : History ctx P seed turns h) {calls : List Effect} (r : Rests h h' [] calls)
    (model : String) (hlost : LostCall h.ctx model h.messages calls) :
    EndsWith ctx P Q seed h' := by
  rw [hist.under, hist.messages] at hlost
  refine .inr ⟨turns, model, calls, hlost, hist.told, ?_, ?_, r.issued.trans hist.issued⟩
  · rw [r.grows.messages, List.append_nil, hist.messages]
  · rw [r.grows.effects, hist.effects]

theorem ends (hist : History ctx P seed turns h) : EndsWith ctx P Q seed h :=
  hist.lost (.refl h) "" (.inl rfl)

end History

/-! ### Requests and replies of a run -/

namespace EndsWith

variable {ctx : ExecutionContext σ} {P Q : List Turn → Turn → Prop} {seed : List Message}
  {h : LoopHarness σ}

/-- A request among those of the turns. -/
theorem request_among {R : List Turn → Prop} {turns : List Turn}
    (hall : AtEvery (fun before t => t.Told ctx (transcript seed before) ∧ R before) turns)
    {before after : List Effect} {req : CompletionRequest}
    {answer : Answer (Except LlmError CompletionResponse)}
    (heq : effectsOf turns = before ++ .llm req answer :: after) :
    ∃ turns model, R turns ∧ before = effectsOf turns ∧
      req = requestFor ctx model (transcript seed turns) := by
  obtain ⟨pre, t, post, rfl, hbefore, rfl, -, -⟩ := effectsOf_split (told_runs hall) heq
  obtain ⟨htold, hR⟩ := hall pre t post rfl
  obtain ⟨model, hreq⟩ := htold.request
  exact ⟨pre, model, hR, hbefore, hreq⟩

/-- **A request of the run** carries the transcript of the turns before it, all of them settled. -/
theorem request (he : EndsWith ctx P Q seed h) {before after : List Effect}
    {req : CompletionRequest} {answer : Answer (Except LlmError CompletionResponse)}
    (heq : h.world.effects = before ++ .llm req answer :: after) :
    ∃ turns model,
      AtEvery (fun before t => t.Told ctx (transcript seed before) ∧ P before t) turns ∧
      before = effectsOf turns ∧ req = requestFor ctx model (transcript seed turns) := by
  rcases he with ⟨turns, t, htold, -, hall, -, hes, -⟩ | ⟨turns, model, calls, hlost, hall, -, hes, -⟩
  · have hall' := hall.before.imp fun _ _ ht => And.intro ht.1.1 ht.2
    exact request_among (hall'.concat ⟨htold, hall⟩) (hes.symm.trans heq)
  · have hall' := hall.before.imp fun _ _ ht => And.intro ht.1.1 ht.2
    rcases hlost with rfl | ⟨a, rfl, -⟩
    · rw [hes, List.append_nil] at heq
      exact request_among hall' heq
    · -- the call is the lost one, or one of the turns'
      rw [hes] at heq
      rcases List.eq_nil_or_concat after with rfl | ⟨after', x, rfl⟩
      · obtain ⟨hbefore, hlast⟩ := List.append_inj' heq rfl
        obtain ⟨rfl, -⟩ := Effect.llm.inj (List.cons.inj hlast).1
        exact ⟨turns, model, hall, hbefore.symm, rfl⟩
      · have heq' : effectsOf turns ++ [.llm (requestFor ctx model (transcript seed turns)) a] =
            (before ++ .llm req answer :: after') ++ [x] := by
          rw [heq, List.concat_eq_append, List.append_assoc, List.cons_append]
        exact request_among hall' (List.append_inj' heq' rfl).1

/-- The accepted replies of a run are those of its turns. -/
theorem accepted_turns {R : List Turn → Turn → Prop} {turns : List Turn} {model : String}
    {ms : List Message} {calls : List Effect} (hlost : LostCall ctx model ms calls)
    (hall : AtEvery (fun before t => t.Told ctx (transcript seed before) ∧ R before t) turns) :
    accepted (effectsOf turns ++ calls) = turns.map Turn.resp := by
  rw [accepted_append, hlost.accepted, List.append_nil, accepted,
    responses_effectsOf (told_runs hall), List.filter_eq_self]
  intro resp hresp
  obtain ⟨t, ht, rfl⟩ := List.mem_map.mp hresp
  obtain ⟨before, htold, -⟩ := hall.exists_of_mem ht
  simpa using htold.whole

/-- The turns of a run, with its lost call if there is one. -/
theorem turns (he : EndsWith ctx P Q seed h) :
    ∃ turns model calls, LostCall ctx model (transcript seed turns) calls ∧
      AtEvery (fun before t => t.Told ctx (transcript seed before) ∧ (P before t ∨ Q before t))
        turns ∧
      h.messages = transcript seed turns ∧ h.world.effects = effectsOf turns ++ calls ∧
      h.issuedToolCalls = issuedIn turns := by
  rcases he with ⟨turns, t, htold, hQ, hall, hms, hes, hissued⟩ |
    ⟨turns, model, calls, hlost, hall, hms, hes, hissued⟩
  · refine ⟨turns ++ [t], "", [], .inl rfl, ?_, hms, by rw [hes, List.append_nil], hissued⟩
    exact AtEvery.concat (hall.imp fun _ _ ht => ⟨ht.1, .inl ht.2⟩) ⟨htold, .inr hQ⟩
  · exact ⟨turns, model, calls, hlost, hall.imp fun _ _ ht => ⟨ht.1, .inl ht.2⟩, hms, hes, hissued⟩

end EndsWith

/-! ### Chat runs -/

variable [Platform σ]

omit [Platform σ] in
theorem Turn.Settled.runs {ctx : ExecutionContext σ} {issued : List ToolCall} {t : Turn}
    (ht : t.Settled ctx issued) : ∀ e ∈ t.runs, IsToolRun e := by
  unfold Turn.Settled at ht
  split at ht
  · simp [ht.1]
  · exact ht.2.isToolRun

theorem chatLoop_ends {ctx : ExecutionContext σ} {seed : List Message} (passes : Nat)
    {h : LoopHarness σ} {turns : List Turn}
    (hist : History ctx (fun before t => t.Settled ctx (issuedIn before)) seed turns h) :
    EndsWith ctx (fun before t => t.Settled ctx (issuedIn before))
      (fun before t => t.Final ctx (issuedIn before)) seed (chatLoop passes h).2 := by
  refine chatLoop_induct
    (P := fun _ h => ∃ turns,
      History ctx (fun before t => t.Settled ctx (issuedIn before)) seed turns h)
    (Q := fun _ h => EndsWith ctx (fun before t => t.Settled ctx (issuedIn before))
      (fun before t => t.Final ctx (issuedIn before)) seed h) ?_ ?_ passes h ⟨turns, hist⟩
  · rintro h ⟨turns, hist⟩
    exact hist.ends
  · rintro - h ⟨turns, hist⟩
    rcases chatLoopBody_turn h with ⟨h', t, heq, hleads, hsettled⟩ |
      ⟨r, h', t, heq, hleads, hfinal, -⟩ | ⟨r, h', calls, heq, hrests, hlost, -⟩ <;> rw [heq]
    · rw [hist.under, hist.issued] at hsettled
      exact ⟨_, hist.concat hleads hsettled.runs hsettled⟩
    · rw [hist.under, hist.issued] at hfinal
      exact hist.final hleads hfinal.runs hfinal
    · exact hist.lost hrests _ hlost

/-! ### Reflection runs -/

/-- What follows a reply in a reflection run that goes on: the prompt of the next phase. -/
def Turn.Prompted (ctx : ExecutionContext σ) (t : Turn) : Prop :=
  t.runs = [] ∧ ∃ prompt, t.after = [prompt] ∧ prompt.IsText .user ∧
    (prompt.content = some (ReflectionExecutor.critiquePrompt ctx) ∨
      prompt.content = some ReflectionExecutor.revisePrompt)

/-- What follows the last reply of a reflection run. -/
def Turn.Bare (t : Turn) : Prop := t.runs = [] ∧ t.after = []

theorem Turn.Leads.prompt {t : Turn} {h₀ h : LoopHarness σ} (l : t.Leads h₀ h)
    (hbare : t.Bare) (content : String) :
    ∃ prompt : Message, prompt.IsText .user ∧ prompt.content = some content ∧
      Turn.Leads { t with after := [prompt] } h₀ (h.pushUserMessage content) := by
  obtain ⟨m, g, hm, hcontent⟩ := h.pushUserMessage_grows content
  refine ⟨m, hm, hcontent, l.request, l.whole, l.told, ?_, ?_⟩
  · have hg := l.grows.trans g
    simpa [Turn.block, Turn.effects, hbare.1, hbare.2] using hg
  · rw [pushUserMessage, pushMessage_issued]
    exact l.issued

namespace ReflectionExecutor

/-- Where a phase ended: settled turns, and one with a bare reply. -/
def Standing (ctx : ExecutionContext σ) (seed : List Message) (h : LoopHarness σ) : Prop :=
  ∃ turns h₀, ∃ t : Turn,
    History ctx (fun _ t => t.Prompted ctx) seed turns h₀ ∧ t.Leads h₀ h ∧ t.Bare

/-- How a reflection run ends. -/
abbrev Ends (ctx : ExecutionContext σ) (seed : List Message) (h : LoopHarness σ) : Prop :=
  EndsWith ctx (fun _ t => t.Prompted ctx) (fun _ t => t.Bare) seed h

variable {ctx : ExecutionContext σ} {seed : List Message} {h h' : LoopHarness σ}

omit [Platform σ] in
theorem Standing.rests (hs : Standing ctx seed h) (r : Rests h h' [] []) :
    Standing ctx seed h' := by
  obtain ⟨turns, h₀, t, hist, hleads, hbare⟩ := hs
  exact ⟨turns, h₀, t, hist, hleads.before r, hbare⟩

omit [Platform σ] in
theorem Standing.ends (hs : Standing ctx seed h) : Ends ctx seed h := by
  obtain ⟨turns, h₀, t, hist, hleads, hbare⟩ := hs
  exact hist.final hleads (by simp [hbare.1]) hbare

omit [Platform σ] in
theorem Standing.under (hs : Standing ctx seed h) : h.ctx = ctx := by
  obtain ⟨turns, h₀, t, hist, hleads, -⟩ := hs
  rw [hleads.grows.ctx, hist.under]

/-- The prompt of the next phase settles the last turn. -/
theorem Standing.prompt (hs : Standing ctx seed h) (content : String)
    (hcontent : content = critiquePrompt ctx ∨ content = revisePrompt) :
    ∃ turns, History ctx (fun _ t => t.Prompted ctx) seed turns (h.pushUserMessage content) := by
  obtain ⟨turns, h₀, t, hist, hleads, hbare⟩ := hs
  obtain ⟨m, hm, hmcontent, hleads'⟩ := hleads.prompt hbare content
  refine ⟨_, hist.concat hleads' (by simp [hbare.1]) ⟨hbare.1, m, rfl, hm, ?_⟩⟩
  rw [hmcontent]
  exact hcontent.imp (congrArg some) (congrArg some)

/-- A phase adds a bare turn, or ends the run. -/
theorem phase_meets {turns : List Turn}
    (hist : History ctx (fun _ t => t.Prompted ctx) seed turns h) (provider : LlmProvider σ)
    (dflt current : String) :
    (phase h provider dflt current).2.Meets (Standing ctx seed) fun _ => Ends ctx seed := by
  rcases phase_turn h provider dflt current with ⟨text, h', t, heq, hleads, hafter, hruns⟩ |
    ⟨text, r, h', calls, heq, hrests, hlost, -⟩ <;> rw [heq]
  · exact ⟨turns, h, t, hist, hleads, hruns, hafter⟩
  · exact hist.lost hrests _ hlost

theorem rounds_ends (judge : LlmProvider σ) (n : Nat) (current : String)
    (hs : Standing ctx seed h) : Ends ctx seed (rounds judge n current h).2 := by
  refine rounds_induct (P := fun _ _ => Standing ctx seed) (R := fun _ _ => Standing ctx seed)
    (Q := fun _ => Ends ctx seed) ?_ ?_ ?_ ?_ n current h hs
  · intro _ current h hs
    exact (hs.rests (finish_rests h _ _)).ends
  · intro _ current h hs
    rcases roundChecks_rests h current with ⟨h', heq, r⟩ | ⟨_, h', heq, r, -⟩ <;> rw [heq]
    · exact hs.rests r
    · exact (hs.rests r).ends
  · intro _ current h hs
    obtain ⟨turns, hist⟩ := hs.prompt (critiquePrompt h.ctx) (.inl (by rw [hs.under]))
    exact phase_meets hist judge "" current
  · intro _ current h hs
    obtain ⟨turns, hist⟩ := hs.prompt revisePrompt (.inr rfl)
    exact phase_meets hist _ current current

theorem execute_ends (maxRevisions : UInt32) {turns : List Turn} (env : σ)
    (hist : History ctx (fun _ t => t.Prompted ctx) seed turns
      (LoopHarness.new ctx env).seedMessages) :
    Ends ctx seed (execute maxRevisions ctx env).2 := by
  have hist' := hist.rests (bumpIteration_rests _)
  unfold execute
  simp only
  generalize (LoopHarness.new ctx env).seedMessages.bumpIteration = h at hist'
  rcases h.checkCostCap with e | _
  · exact hist'.ends
  have hmeets := phase_meets hist' ctx.llm "" ""
  rcases hphase : phase h ctx.llm "" "" with ⟨current, h₁ | ⟨r, h₁⟩⟩ <;> rw [hphase] at hmeets
  · exact rounds_ends (ctx.judgeLlm.getD ctx.llm) maxRevisions.toNat current hmeets
  · exact hmeets

end ReflectionExecutor

/-! ### Every run -/

namespace Runtime

/-- A settled turn of a run. -/
def Settles (kind : ExecutorKind) (ctx : ExecutionContext σ) (before : List Turn) (t : Turn) :
    Prop :=
  match kind with
  | .conversation | .react => t.Settled ctx (issuedIn before)
  | .reflection _ => t.Prompted ctx

/-- The final turn of a run. -/
def Closes (kind : ExecutorKind) (ctx : ExecutionContext σ) (before : List Turn) (t : Turn) :
    Prop :=
  match kind with
  | .conversation | .react => t.Final ctx (issuedIn before)
  | .reflection _ => t.Bare

/-- A run starts from its opening rows. -/
theorem startHarness_history (kind : ExecutorKind) (ctx : ExecutionContext σ) (env : σ)
    (P : List Turn → Turn → Prop) :
    ∃ seed, IsOpening ctx seed ∧
      History ctx P seed [] (startHarness kind ctx env).seedMessages := by
  obtain ⟨seed, g, hopening⟩ := (startHarness kind ctx env).seedMessages_opens
  have hctx : (startHarness kind ctx env).ctx = ctx := by cases kind <;> rfl
  have hms : (startHarness kind ctx env).messages = [] := by cases kind <;> rfl
  have hes : (startHarness kind ctx env).world.effects = [] := by cases kind <;> rfl
  have hissued : (startHarness kind ctx env).issuedToolCalls = [] := by cases kind <;> rfl
  refine ⟨seed, hctx ▸ hopening, g.ctx.trans hctx, .nil, ?_, ?_, ?_⟩
  · rw [g.messages, hms]
    simp [transcript]
  · rw [g.effects, hes]
    rfl
  · rw [seedMessages_issued, hissued]
    rfl

/-- **Every run comes apart into turns**, settled ones and an end. -/
theorem runExecutor_ends (kind : ExecutorKind) (passes : Nat) (ctx : ExecutionContext σ)
    (env : σ) :
    ∃ seed, IsOpening ctx seed ∧ EndsWith ctx (Settles kind ctx) (Closes kind ctx) seed
      (runExecutor kind passes ctx env).2 := by
  obtain ⟨seed, hopening, hist⟩ := startHarness_history kind ctx env (Settles kind ctx)
  refine ⟨seed, hopening, ?_⟩
  cases kind with
  | conversation => exact chatLoop_ends passes hist
  | react => exact chatLoop_ends passes hist
  | reflection maxRevisions => exact ReflectionExecutor.execute_ends maxRevisions env hist

end Runtime

end PgSynapse

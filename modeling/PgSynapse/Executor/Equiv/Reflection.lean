import PgSynapse.Executor.Equiv.Answer
import PgSynapse.Executor.Equiv.Turns

/-!
# What a reflection run returns

A reflection run asks for a draft, and then for a critique and a revision in turn.  Its output is the
latest draft or revision that was a text, whatever exit the run takes, and it completes when a
critique accepts or every round has run (`best_answer_returned`).
-/

namespace PgSynapse

open LoopHarness

/-- The text a reply answers with: none when it has calls, or when its text is blank. -/
def CompletionResponse.answer? (resp : CompletionResponse) : Option String :=
  if resp.toolCalls = [] then resp.content.filter fun text => !Text.isBlank text else none

/-- The text a turn came to, read off its reply. -/
def TurnResult.text? : TurnResult → Option String
  | .assistantText text => some text
  | .toolCalls _ | .empty => none

theorem LoopHarness.TurnReads.answer {resp : CompletionResponse} {t : TurnResult}
    (hreads : TurnReads resp t) : t.text? = resp.answer? := by
  unfold CompletionResponse.answer?
  cases t with
  | toolCalls calls =>
    obtain ⟨-, hc⟩ := hreads
    rw [if_neg hc]
    rfl
  | assistantText text =>
    obtain ⟨hc, rfl, hblank⟩ := hreads
    rw [if_pos hc]
    cases hcontent : resp.content with
    | none =>
      -- a missing content reads as the empty text, which is blank
      rw [hcontent] at hblank
      exact absurd hblank (by decide)
    | some text =>
      rw [hcontent] at hblank
      simp only [Option.getD_some] at hblank
      simp [TurnResult.text?, Option.filter, hblank]
  | empty =>
    obtain ⟨hc, hblank⟩ := hreads
    rw [if_pos hc]
    cases hcontent : resp.content with
    | none => rfl
    | some text =>
      rw [hcontent] at hblank
      simp only [Option.getD_some] at hblank
      simp [TurnResult.text?, Option.filter, hblank]

namespace ReflectionExecutor

/-- The replies to the draft and to the revisions. -/
def draftReplies (effects : List Effect) : List CompletionResponse := everyOther (accepted effects)

/-- The replies to the critiques. -/
def critiqueReplies (effects : List Effect) : List CompletionResponse :=
  everyOther (accepted effects).tail

/-- The latest text among some replies, or the empty text. -/
def latestAnswer (replies : List CompletionResponse) : String :=
  ((replies.filterMap CompletionResponse.answer?).getLast?).getD ""

/-- A critique accepts. -/
def Accepted (effects : List Effect) : Prop :=
  ∃ resp ∈ critiqueReplies effects, ∃ text, resp.answer? = some text ∧
    Text.contains text acceptToken = true

/-- The revise turn of every round came back: that of round `i` is the turn `2 * i + 2` of the run,
counted from 0. -/
def RoundsRan (maxRevisions : Nat) (effects : List Effect) : Prop :=
  ∀ i < maxRevisions, 2 * i + 2 < (accepted effects).length

/-- The user message a phase ends its request with: the input for the draft, and then the critique
prompt and the revise prompt in turn. -/
def phasePrompt {σ : Type} (ctx : ExecutionContext σ) (i : Nat) : String :=
  if i = 0 then ctx.input else if i % 2 = 1 then critiquePrompt ctx else revisePrompt

/-- Every outside call of the run is the model call of a phase, and the replies to the calls before
it were all accepted. -/
def Phases {σ : Type} (ctx : ExecutionContext σ) (effects : List Effect) : Prop :=
  AtEvery (fun before e => (accepted before).length = before.length ∧
    ∃ req answer row, e = .llm req answer ∧ req.messages.getLast? = some row ∧
      row.role = .user ∧ row.content = some (phasePrompt ctx before.length)) effects

theorem phasePrompt_odd {σ : Type} (ctx : ExecutionContext σ) {i : Nat} (hodd : i % 2 = 1) :
    phasePrompt ctx i = critiquePrompt ctx := by
  rw [phasePrompt, if_neg (by omega), if_pos hodd]

theorem phasePrompt_even {σ : Type} (ctx : ExecutionContext σ) {i : Nat} (hpos : 0 < i)
    (heven : i % 2 = 0) : phasePrompt ctx i = revisePrompt := by
  rw [phasePrompt, if_neg (by omega), if_neg (by omega)]

theorem le_accepted_iff_roundsRan (maxRevisions : Nat) (effects : List Effect) :
    1 + 2 * maxRevisions ≤ (accepted effects).length ↔
      accepted effects ≠ [] ∧ RoundsRan maxRevisions effects := by
  unfold RoundsRan
  rw [← List.length_pos_iff_ne_nil]
  constructor
  · intro hle
    exact ⟨by omega, fun i hi => by omega⟩
  · rintro ⟨hpos, hran⟩
    -- the last round is enough
    rcases Nat.eq_zero_or_pos maxRevisions with hzero | hrounds
    · omega
    · have hlast := hran (maxRevisions - 1) (by omega)
      omega

theorem latestAnswer_concat (replies : List CompletionResponse) (resp : CompletionResponse) :
    latestAnswer (replies ++ [resp]) = resp.answer?.getD (latestAnswer replies) := by
  unfold latestAnswer
  cases h : resp.answer? with
  | none => simp [List.filterMap_append, h]
  | some text => simp [List.filterMap_append, h]

/-- One more reply, to a critique. -/
theorem draftReplies_critique {effects : List Effect} {resp : CompletionResponse}
    {effects' : List Effect} (hes : accepted effects' = accepted effects ++ [resp])
    (hodd : (accepted effects).length % 2 = 1) :
    draftReplies effects' = draftReplies effects ∧
      critiqueReplies effects' = critiqueReplies effects ++ [resp] := by
  unfold draftReplies critiqueReplies
  rw [hes]
  constructor
  · rw [everyOther_concat, if_neg (by omega), List.append_nil]
  · cases hacc : accepted effects with
    | nil => simp [hacc] at hodd
    | cons first rest =>
      rw [hacc, List.length_cons] at hodd
      rw [List.cons_append, List.tail_cons, List.tail_cons, everyOther_concat, if_pos (by omega)]

/-- One more reply, to the draft or to a revision. -/
theorem draftReplies_revise {effects : List Effect} {resp : CompletionResponse}
    {effects' : List Effect} (hes : accepted effects' = accepted effects ++ [resp])
    (heven : (accepted effects).length % 2 = 0) :
    draftReplies effects' = draftReplies effects ++ [resp] ∧
      critiqueReplies effects' = critiqueReplies effects := by
  unfold draftReplies critiqueReplies
  rw [hes]
  constructor
  · rw [everyOther_concat, if_pos heven]
  · cases hacc : accepted effects with
    | nil => rfl
    | cons first rest =>
      rw [hacc, List.length_cons] at heven
      rw [List.cons_append, List.tail_cons, List.tail_cons, everyOther_concat, if_neg (by omega),
        List.append_nil]

variable {σ : Type}

/-! ### The invariant -/

/-- A reflection run of `rounds` rounds with `k` phases left: every call so far was that of its phase,
and its reply was accepted. -/
structure Under (ctx : ExecutionContext σ) (rounds k : Nat) (current : String)
    (h : LoopHarness σ) : Prop where
  context : h.ctx = ctx
  turns : (accepted h.world.effects).length + k = 1 + 2 * rounds
  calls : h.world.effects.length + k = 1 + 2 * rounds
  phases : Phases ctx h.world.effects
  current : current = latestAnswer (draftReplies h.world.effects)

/-- Between two phases no critique has accepted. -/
structure Stage (ctx : ExecutionContext σ) (rounds k : Nat) (current : String)
    (h : LoopHarness σ) : Prop extends Under ctx rounds k current h where
  rejected : ¬ Accepted h.world.effects

/-- After a critique with the given text, which may accept. -/
structure Critiqued (ctx : ExecutionContext σ) (rounds k : Nat) (current text : String)
    (h : LoopHarness σ) : Prop extends Under ctx rounds k current h where
  accepts : Accepted h.world.effects ↔ Text.contains text acceptToken = true

/-- The next request ends with the prompt of its phase. -/
def Prompted (h : LoopHarness σ) : Prop :=
  ∃ row, h.messages.getLast? = some row ∧ row.role = .user ∧
    row.content = some (phasePrompt h.ctx h.world.effects.length)

/-- How a reflection run of `rounds` rounds ends. -/
structure Verdict (ctx : ExecutionContext σ) (rounds : Nat) (r : ExecResult)
    (h : LoopHarness σ) : Prop where
  phases : Phases ctx h.world.effects
  output : ∀ o, r = .finished o → o.output = latestAnswer (draftReplies h.world.effects)
  status : ∀ o, r = .finished o → (o.status = .completed ↔
    Accepted h.world.effects ∨ 1 + 2 * rounds ≤ (accepted h.world.effects).length)

/-- An exit that a limit takes: the current answer, not as completed. -/
def Limited (current : String) (r : ExecResult) : Prop :=
  ∀ o, r = .finished o → o.output = current ∧ o.status ≠ .completed

theorem limited_of_ne {current : String} {r : ExecResult} (hr : ∀ o, r ≠ .finished o) :
    Limited current r := fun o ho => absurd ho (hr o)

variable {ctx : ExecutionContext σ} {rounds k : Nat} {current : String} {h h' : LoopHarness σ}

/-- A step without an outside call. -/
theorem Stage.silent {rows : List Message} (hs : Stage ctx rounds k current h)
    (g : Grows h h' rows []) : Stage ctx rounds k current h' := by
  have hes : h'.world.effects = h.world.effects := by simpa using g.effects
  exact ⟨⟨g.ctx.trans hs.context, hes ▸ hs.turns, hes ▸ hs.calls, hes ▸ hs.phases,
    hes ▸ hs.current⟩, hes ▸ hs.rejected⟩

/-- The call of a phase, answered or not. -/
theorem Under.asks (hs : Under ctx rounds (k + 1) current h) (hp : Prompted h) (model : String)
    (answer : Answer (Except LlmError CompletionResponse)) :
    Phases ctx (h.world.effects ++ [.llm (requestFor h.ctx model h.messages) answer]) := by
  obtain ⟨row, hlast, hrole, hcontent⟩ := hp
  have hturns := hs.turns
  have hcalls := hs.calls
  refine hs.phases.concat ⟨by omega, _, answer, row, rfl, hlast, hrole, ?_⟩
  rw [hcontent, hs.context]

/-- A limit ends the run while phases are left. -/
theorem Stage.limited {r : ExecResult} (model : String) {calls : List Effect}
    (hs : Stage ctx rounds (k + 1) current h) (hp : Prompted h ∨ calls = [])
    (hes : h'.world.effects = h.world.effects ++ calls)
    (hlost : LostCall h.ctx model h.messages calls) (hr : Limited current r) :
    Verdict ctx rounds r h' := by
  have haccepted : accepted h'.world.effects = accepted h.world.effects := by
    rw [hes, accepted_append, hlost.accepted, List.append_nil]
  have hturns := hs.turns
  refine ⟨?_, fun o ho => ?_, fun o ho => ?_⟩
  · rw [hes]
    rcases hlost with rfl | ⟨answer, rfl, -⟩
    · rw [List.append_nil]
      exact hs.phases
    · exact hs.asks (hp.resolve_right (by simp)) model answer
  · rw [(hr o ho).1, draftReplies, haccepted]
    exact hs.current
  · have hrejected : ¬ Accepted h'.world.effects := by
      unfold Accepted critiqueReplies
      rw [haccepted]
      exact hs.rejected
    rw [haccepted]
    simp only [(hr o ho).2, hrejected, false_or, false_iff]
    omega

/-- The reply `resp` to the call of a phase is accepted. -/
structure Heard (h h' : LoopHarness σ) (resp : CompletionResponse) : Prop where
  context : h'.ctx = h.ctx
  effects : ∃ model, h'.world.effects =
    h.world.effects ++ [.llm (requestFor h.ctx model h.messages) (.ready (.ok resp))]
  whole : resp.finishReason ≠ "length"

theorem Heard.accepted {resp : CompletionResponse} (hr : Heard h h' resp) :
    accepted h'.world.effects = accepted h.world.effects ++ [resp] := by
  obtain ⟨model, heffects⟩ := hr.effects
  rw [heffects, accepted_append]
  simp [PgSynapse.accepted, responses, hr.whole]

/-- What a reply leaves as it is, whichever phase it belongs to. -/
theorem Under.heard {resp : CompletionResponse} {current' : String}
    (hs : Under ctx rounds (k + 1) current h) (hp : Prompted h) (hr : Heard h h' resp)
    (hcurrent : current' = latestAnswer (draftReplies h'.world.effects)) :
    Under ctx rounds k current' h' := by
  have hturns := hs.turns
  have hcalls := hs.calls
  obtain ⟨model, heffects⟩ := hr.effects
  refine ⟨hr.context.trans hs.context, ?_, ?_, ?_, hcurrent⟩
  · rw [hr.accepted, List.length_append, List.length_singleton]
    omega
  · rw [heffects, List.length_append, List.length_singleton]
    omega
  · rw [heffects]
    exact hs.asks hp model _

/-- The draft or a revision: its text is the current answer, if it has one. -/
theorem Stage.revised {n : Nat} {resp : CompletionResponse}
    (hs : Stage ctx rounds (2 * n + 1) current h) (hp : Prompted h) (hr : Heard h h' resp) :
    Stage ctx rounds (2 * n) (resp.answer?.getD current) h' := by
  have hturns := hs.turns
  obtain ⟨hdrafts, hcritiques⟩ := draftReplies_revise hr.accepted (by omega)
  refine ⟨hs.toUnder.heard hp hr ?_, ?_⟩
  · rw [hdrafts, latestAnswer_concat, ← hs.current]
  · unfold Accepted
    rw [hcritiques]
    exact hs.rejected

/-- A critique: the current answer stays, and a text with the token accepts it. -/
theorem Stage.critiqued {n : Nat} {resp : CompletionResponse}
    (hs : Stage ctx rounds (2 * n + 2) current h) (hp : Prompted h) (hr : Heard h h' resp) :
    Critiqued ctx rounds (2 * n + 1) current (resp.answer?.getD "") h' := by
  have hturns := hs.turns
  obtain ⟨hdrafts, hcritiques⟩ := draftReplies_critique hr.accepted (by omega)
  refine ⟨hs.toUnder.heard hp hr (hdrafts ▸ hs.current), ?_⟩
  have hsplit : Accepted h'.world.effects ↔ Accepted h.world.effects ∨
      ∃ text, resp.answer? = some text ∧ Text.contains text acceptToken = true := by
    unfold Accepted
    rw [hcritiques]
    simp only [List.mem_append, List.mem_singleton, or_and_right, exists_or, exists_eq_left]
  rw [hsplit, or_iff_right hs.rejected]
  cases hanswer : resp.answer? with
  | none =>
    have hempty : Text.contains "" acceptToken = false := by decide
    simp [hempty]
  | some text => simp

variable [Platform σ]

/-! ### The steps of a run -/

/-- A prompt is pushed for the next phase. -/
theorem prompted_pushUserMessage {content : String}
    (hcontent : content = phasePrompt h.ctx h.world.effects.length) :
    Prompted (h.pushUserMessage content) := by
  obtain ⟨m, g, hm, hrow⟩ := h.pushUserMessage_grows content
  refine ⟨m, by simp [g.messages], hm.1, ?_⟩
  rw [g.ctx, g.effects, List.append_nil, hrow, hcontent]

/-- **One phase**: the text of its reply, or the default; or the run ends with the current answer. -/
theorem phase_heard (h : LoopHarness σ) (provider : LlmProvider σ) (dflt current : String) :
    (∃ resp h', phase h provider dflt current = (resp.answer?.getD dflt, .next h') ∧
      Heard h h' resp) ∨
    (∃ text r h' calls, phase h provider dflt current = (text, .stop r h') ∧
      h'.world.effects = h.world.effects ++ calls ∧
      LostCall h.ctx provider.modelName h.messages calls ∧ Limited current r) := by
  unfold phase
  rcases h.oneLlmTurnWith_takes provider with
    ⟨f, h₁, calls, ht, r, hf, hlost⟩ | ⟨t, h₁, rows, resp, ht, htakes, hreads⟩
  · right
    have heffects := r.grows.effects
    rw [ht]
    match f with
    | .ok t => exact absurd rfl (hf t)
    | .panicked p => exact ⟨_, _, _, calls, rfl, heffects, hlost, limited_of_ne (by simp)⟩
    | .suspended => exact ⟨_, _, _, calls, rfl, heffects, hlost, limited_of_ne (by simp)⟩
    | .err e =>
      cases e
      case timeout =>
        have hend := (finish_rests h₁ current .timedOut).grows.effects
        refine ⟨_, _, _, calls, rfl, ?_, hlost, fun o ho => ?_⟩
        · rw [hend, List.append_nil, heffects]
        · obtain ⟨hout, hstatus, -⟩ := finish_outcome h₁ ho
          exact ⟨hout, by rw [hstatus]; simp⟩
      all_goals exact ⟨_, _, _, calls, rfl, heffects, hlost, limited_of_ne (by simp)⟩
  · left
    have hanswer := hreads.answer
    have hheard : Heard h h₁ resp :=
      ⟨htakes.grows.ctx, ⟨_, htakes.grows.effects⟩, htakes.whole⟩
    rw [ht]
    cases t <;> exact ⟨resp, h₁, by rw [← hanswer]; rfl, hheard⟩

/-- The checks before a phase keep the answer, or end the run with it. -/
theorem roundChecks_stage (hs : Stage ctx rounds (k + 1) current h) :
    (roundChecks h current).Meets (Stage ctx rounds (k + 1) current) (Verdict ctx rounds) := by
  have ends : ∀ r h', Grows h h' [] [] → Limited current r → Verdict ctx rounds r h' :=
    fun r h' g hr => hs.limited "" (.inr rfl) g.effects (.inl rfl) hr
  have byLimit : ∀ h₁ status, Grows h h₁ [] [] → status ≠ .completed →
      Verdict ctx rounds (finish h₁ current status).1 (finish h₁ current status).2 := by
    intro h₁ status g hstatus
    refine ends _ _ (g.before (finish_rests h₁ current status).grows) fun o ho => ?_
    obtain ⟨hout, hst, -⟩ := finish_outcome h₁ ho
    exact ⟨hout, by rw [hst]; exact hstatus⟩
  unfold roundChecks
  rcases h.checkCostCap with e | _
  · exact ends _ _ (.refl h) (limited_of_ne (by simp))
  simp only
  have gi := h.bumpIteration_grows.before h.bumpIteration.checkIterationCap_grows
  rcases hi : h.bumpIteration.checkIterationCap with ⟨_ | _, h₂⟩ <;> rw [hi] at gi
  · exact byLimit h₂ .maxIterations gi (by simp)
  simp only
  have gd := gi.before h₂.checkDeadline_grows
  rcases hd : h₂.checkDeadline with ⟨_ | _, h₃⟩ <;> rw [hd] at gd
  · exact byLimit h₃ .timedOut gd (by simp)
  · exact hs.silent gd

/-- The run completes: a critique accepted, or no phase is left. -/
theorem finish_verdict (hs : Under ctx rounds k current h) (hdone : Accepted h.world.effects ∨ k = 0) :
    Verdict ctx rounds (finish h current .completed).1 (finish h current .completed).2 := by
  have heffects : (finish h current .completed).2.world.effects = h.world.effects :=
    (finish_rests h current .completed).grows.effects.trans (List.append_nil _)
  have hturns := hs.turns
  refine ⟨?_, fun o ho => ?_, fun o ho => ?_⟩
  · rw [heffects]
    exact hs.phases
  · rw [heffects, (finish_outcome h ho).1]
    exact hs.current
  · rw [heffects, (finish_outcome h ho).2.1]
    refine iff_of_true rfl (hdone.imp_right fun hk => ?_)
    omega

/-- **The rounds** end with the latest answer. -/
theorem rounds_verdict (judge : LlmProvider σ) (n : Nat) (hs : Stage ctx rounds (2 * n) current h)
    (hn : 2 * n ≤ 2 * rounds) :
    Verdict ctx rounds (ReflectionExecutor.rounds judge n current h).1
      (ReflectionExecutor.rounds judge n current h).2 := by
  refine rounds_rule (P := fun k current h => Stage ctx rounds k current h ∧ k ≤ 2 * rounds)
    (R := fun k current h => Stage ctx rounds (k + 1) current h ∧ k + 1 ≤ 2 * rounds)
    (C := fun k current text h => Critiqued ctx rounds k current text h ∧ k ≤ 2 * rounds)
    ?_ ?_ ?_ ?_ ?_ ?_ n current h ⟨hs, hn⟩
  · rintro current h ⟨hs, -⟩
    exact finish_verdict hs.toUnder (.inr rfl)
  · rintro k current h ⟨hs, hk⟩
    exact (roundChecks_stage hs).imp_next fun h' hs' => ⟨hs', hk⟩
  · rintro n current h ⟨hs, hk⟩
    have hcalls := hs.calls
    obtain ⟨m, g, -⟩ := h.pushUserMessage_grows (critiquePrompt h.ctx)
    have hp : Prompted (h.pushUserMessage (critiquePrompt h.ctx)) :=
      prompted_pushUserMessage (phasePrompt_odd h.ctx (by omega)).symm
    have hs' := hs.silent g
    simp only
    rcases phase_heard (h.pushUserMessage (critiquePrompt h.ctx)) judge "" current with
      ⟨resp, h', heq, hr⟩ | ⟨text, r, h', calls, heq, hes, hlost, hlimited⟩ <;> rw [heq]
    · exact ⟨hs'.critiqued hp hr, by omega⟩
    · exact hs'.limited _ (.inl hp) hes hlost hlimited
  · rintro k current text h ⟨hc, -⟩ htoken
    exact finish_verdict hc.toUnder (.inl (hc.accepts.mpr htoken))
  · rintro k current text h ⟨hc, hk⟩ htoken
    refine ⟨⟨hc.toUnder, ?_⟩, hk⟩
    rw [hc.accepts, htoken]
    simp
  · rintro n current h ⟨hs, hk⟩
    have hcalls := hs.calls
    obtain ⟨m, g, -⟩ := h.pushUserMessage_grows revisePrompt
    have hp : Prompted (h.pushUserMessage revisePrompt) :=
      prompted_pushUserMessage (phasePrompt_even h.ctx (by omega) (by omega)).symm
    have hs' := hs.silent g
    simp only
    rcases phase_heard (h.pushUserMessage revisePrompt) (h.pushUserMessage revisePrompt).ctx.llm
      current current with
      ⟨resp, h', heq, hr⟩ | ⟨text, r, h', calls, heq, hes, hlost, hlimited⟩ <;> rw [heq]
    · exact ⟨hs'.revised hp hr, by omega⟩
    · exact hs'.limited _ (.inl hp) hes hlost hlimited

/-- The harness of a run before its draft. -/
theorem draft_stage (maxRevisions : Nat) (ctx : ExecutionContext σ) (env : σ) :
    let h := (LoopHarness.new ctx env).seedMessages.bumpIteration
    Stage ctx maxRevisions (2 * maxRevisions + 1) "" h ∧ Prompted h := by
  obtain ⟨seed, g, sys, user, hseed, -, huser, hcontent⟩ :=
    (LoopHarness.new ctx env).seedMessages_opens
  have g' := g.before (bumpIteration_grows _)
  have hctx : (LoopHarness.new ctx env).ctx = ctx := rfl
  have hes : (LoopHarness.new ctx env).world.effects = [] := rfl
  simp only
  generalize (LoopHarness.new ctx env).seedMessages.bumpIteration = h at g'
  have heffects : h.world.effects = [] := g'.effects.trans (by rw [hes, List.append_nil])
  refine ⟨⟨⟨g'.ctx.trans hctx, ?_, ?_, ?_, ?_⟩, ?_⟩, user, ?_, huser.1, ?_⟩
  · rw [heffects]
    simp [accepted, responses, Nat.add_comm]
  · rw [heffects]
    simp [Nat.add_comm]
  · rw [heffects]
    exact .nil
  · rw [heffects]
    rfl
  · rw [heffects]
    simp [Accepted, critiqueReplies, accepted, responses, everyOther]
  · simp [g'.messages, hseed]
  · rw [heffects, hcontent, g'.ctx]
    rfl

/-- **A reflection run** ends with the latest answer. -/
theorem execute_verdict (maxRevisions : UInt32) (ctx : ExecutionContext σ) (env : σ) :
    Verdict ctx maxRevisions.toNat (execute maxRevisions ctx env).1
      (execute maxRevisions ctx env).2 := by
  obtain ⟨hs, hp⟩ := draft_stage maxRevisions.toNat ctx env
  unfold execute
  simp only at hs hp ⊢
  generalize (LoopHarness.new ctx env).seedMessages.bumpIteration = h at hs hp
  rcases h.checkCostCap with e | _
  · exact hs.limited "" (.inr rfl) (List.append_nil _).symm (.inl rfl) (limited_of_ne (by simp))
  simp only
  rcases phase_heard h ctx.llm "" "" with
    ⟨resp, h', heq, hr⟩ | ⟨text, r, h', calls, heq, hes, hlost, hlimited⟩ <;> rw [heq]
  · exact rounds_verdict _ _ (hs.revised hp hr) le_rfl
  · exact hs.limited _ (.inl hp) hes hlost hlimited

/-- **The best answer so far**: a reflection run that returns an outcome returns the text of the
latest draft or revision that was one.  It makes one call for its draft and two for each round at
most, and completes when a critique accepts, or when its draft and every revision came back. -/
theorem best_answer_returned (maxRevisions : UInt32) (ctx : ExecutionContext σ) (env : σ) :
    let effects := (execute maxRevisions ctx env).2.world.effects
    Phases ctx effects ∧ modelCalls effects ≤ 1 + 2 * maxRevisions.toNat ∧
    ∀ o, (execute maxRevisions ctx env).1 = .finished o →
      o.output = latestAnswer (draftReplies effects) ∧
      (o.status = .completed ↔
        Accepted effects ∨ accepted effects ≠ [] ∧ RoundsRan maxRevisions.toNat effects) := by
  obtain ⟨hphases, houtput, hstatus⟩ := execute_verdict maxRevisions ctx env
  have hcalls := execute_calls_le maxRevisions ctx env
  simp only
  generalize (execute maxRevisions ctx env).2.world.effects = effects at *
  refine ⟨hphases, hcalls, fun o ho => ⟨houtput o ho, ?_⟩⟩
  rw [hstatus o ho, le_accepted_iff_roundsRan]

end ReflectionExecutor

namespace Runtime

open ReflectionExecutor

/-- A main provider that answers every phase: the answer comes back and the run completes. -/
theorem plain_answer_returned :
    ∃ o, (execute 1 (StillWorld.context plainAnswer 8) ⟨⟩).1 = .finished o ∧ o.output = "42" ∧
      o.status = .completed := by
  obtain ⟨o, ho⟩ : ∃ o, (execute 1 (StillWorld.context plainAnswer 8) ⟨⟩).1 = .finished o :=
    ⟨_, rfl⟩
  have hreplies : accepted (execute 1 (StillWorld.context plainAnswer 8) ⟨⟩).2.world.effects =
      [plainAnswer, plainAnswer, plainAnswer] := rfl
  obtain ⟨-, -, hbest⟩ := best_answer_returned 1 (StillWorld.context plainAnswer 8) ⟨⟩
  obtain ⟨hout, hstatus⟩ := hbest o ho
  refine ⟨o, ho, ?_, hstatus.mpr (.inr ⟨?_, ?_⟩)⟩
  · rw [hout, draftReplies, hreplies]
    decide
  · simp [hreplies]
  · intro i hi
    rw [hreplies]
    have hone : (1 : UInt32).toNat = 1 := rfl
    simp only [List.length_cons, List.length_nil]
    omega

/-- A run of no round whose draft call does not return in time: every one of its rounds ran, and it
does not complete. -/
theorem lost_draft_timed_out :
    let ctx := { StillWorld.context plainAnswer 8 with
      llm := ⟨"m", fun _ _ s => (.pending, s)⟩, timeout := millis 1 }
    let effects := (execute 0 ctx ⟨⟩).2.world.effects
    ∃ o, (execute 0 ctx ⟨⟩).1 = .finished o ∧
      ¬ (o.status = .completed ↔ Accepted effects ∨ RoundsRan (0 : UInt32).toNat effects) := by
  refine ⟨_, rfl, fun hiff => ?_⟩
  exact absurd (hiff.mpr (.inr fun i hi => absurd hi (Nat.not_lt_zero i))) (by decide)

end Runtime

end PgSynapse

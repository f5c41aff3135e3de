import PgSynapse.Executor.Equiv.Turns
import PgSynapse.Runtime.Equiv.IterationCap

/-!
# Where a reply's text stands

`record_assistant_response` writes one row with the text of a reply without calls, and one row
without a text for each call of a reply that has some.  So a run keeps what the model said, once in
the turn in which it was said, exactly when no reply with a text has calls (`text_kept_iff`).
-/

namespace PgSynapse

open LoopHarness

/-- The next request among the effects. -/
def nextRequest : List Effect → Option CompletionRequest
  | [] => none
  | .llm req _ :: _ => some req
  | .tool _ _ _ :: rest => nextRequest rest

/-- The rows of the turn that `req` opened: those after its own, up to the next request, or to the
end of the transcript `ms`. -/
def turnRows (ms : List Message) (req : CompletionRequest) (after : List Effect) : List Message :=
  (((nextRequest after).map CompletionRequest.messages).getD ms).drop req.messages.length

/-- Whether a row is an assistant message with the text. -/
def Message.carries (text : String) (m : Message) : Bool :=
  m.role == .assistant && m.content == some text

/-- **No text is lost**: each reply that was not cut off and has a text stands as it is in exactly one
assistant message of its turn. -/
def TextKept (effects : List Effect) (ms : List Message) : Prop :=
  ∀ before req resp after text, effects = before ++ .llm req (.ready (.ok resp)) :: after →
    resp.finishReason ≠ "length" → resp.content = some text → Text.isBlank text = false →
    (turnRows ms req after).countP (Message.carries text) = 1

/-- No reply that was not cut off has both a text and calls. -/
def TextApart (effects : List Effect) : Prop :=
  ∀ req resp text, .llm req (.ready (.ok resp)) ∈ effects → resp.finishReason ≠ "length" →
    resp.content = some text → Text.isBlank text = false → resp.toolCalls = []

/-! ### The rows of a turn -/

theorem nextRequest_append {runs : List Effect} (hruns : ∀ e ∈ runs, IsToolRun e)
    (rest : List Effect) : nextRequest (runs ++ rest) = nextRequest rest := by
  induction runs with
  | nil => rfl
  | cons e runs ih =>
    obtain ⟨he, hrest⟩ := List.forall_mem_cons.mp hruns
    obtain ⟨tc, toolCtx, answer, rfl⟩ := he
    exact ih hrest

variable {σ : Type} {ctx : ExecutionContext σ} {P Q : List Turn → Turn → Prop}
  {seed : List Message} {h : LoopHarness σ}

/-- **The turn of a reply**: the rows between its request and the next are the turn's. -/
theorem EndsWith.turnRows_eq (he : EndsWith ctx P Q seed h) {before after : List Effect}
    {req : CompletionRequest} {resp : CompletionResponse}
    (heq : h.world.effects = before ++ .llm req (.ready (.ok resp)) :: after)
    (hwhole : resp.finishReason ≠ "length") :
    ∃ turns t, t.resp = resp ∧ t.Told ctx (transcript seed turns) ∧ (P turns t ∨ Q turns t) ∧
      turnRows h.messages req after = t.block := by
  obtain ⟨turns, model, calls, hlost, hall, hms, hes, -⟩ := he.turns
  -- the reply is that of a turn, as a lost call has none
  obtain ⟨after', rfl, hturns⟩ : ∃ after', after = after' ++ calls ∧
      effectsOf turns = before ++ .llm req (.ready (.ok resp)) :: after' := by
    rcases hlost with rfl | ⟨answer, rfl, hlost⟩
    · rw [List.append_nil] at hes
      exact ⟨after, (List.append_nil after).symm, hes.symm.trans heq⟩
    · rw [hes] at heq
      rcases List.eq_nil_or_concat after with rfl | ⟨after', x, rfl⟩
      · obtain ⟨-, hlast⟩ := List.append_inj' heq rfl
        obtain ⟨-, rfl⟩ := Effect.llm.inj (List.cons.inj hlast).1
        exact absurd (hlost resp rfl) hwhole
      · rw [List.concat_eq_append, ← List.cons_append, ← List.append_assoc] at heq
        obtain ⟨hturns, hlast⟩ := List.append_inj' heq rfl
        exact ⟨after', by rw [List.concat_eq_append, hlast], hturns⟩
  obtain ⟨pre, t, post, rfl, -, hreq, hresp, hafter⟩ := effectsOf_split (told_runs hall) hturns
  obtain ⟨htold, hPQ⟩ := hall pre t post rfl
  obtain ⟨m, hm⟩ := htold.request
  refine ⟨pre, t, ?_, htold, hPQ, ?_⟩
  · simpa using hresp.symm
  have hupTo : ((nextRequest (after' ++ calls)).map CompletionRequest.messages).getD h.messages =
      transcript seed (pre ++ [t]) := by
    rw [hafter, List.append_assoc, nextRequest_append htold.runs]
    cases post with
    | nil =>
      rcases hlost with rfl | ⟨answer, rfl, -⟩
      · exact hms
      · rfl
    | cons t' post =>
      obtain ⟨model', hreq'⟩ := (hall (pre ++ [t]) t' post (by simp)).1.request
      show t'.req.messages = _
      rw [hreq']
      rfl
  rw [turnRows, hupTo, ← hreq, hm, transcript_concat]
  exact List.drop_left

/-- The text of a reply, among the rows of its turn: once if the reply has no calls, and else
nowhere. -/
theorem Turn.says_count {t : Turn} (htold : ReplyTold t.resp t.rows)
    (hafter : ∀ m ∈ t.after, m.role ≠ .assistant) {text : String}
    (hcontent : t.resp.content = some text) :
    t.block.countP (Message.carries text) = if t.resp.toolCalls = [] then 1 else 0 := by
  have hnone : t.after.countP (Message.carries text) = 0 := by
    rw [List.countP_eq_zero]
    intro m hm
    simp [Message.carries, hafter m hm]
  rw [Turn.block, List.countP_append, hnone, Nat.add_zero]
  unfold ReplyTold at htold
  split
  · rw [if_pos ‹_›] at htold
    obtain ⟨m, hrows, hm, hsays⟩ := htold
    rw [hcontent] at hsays
    simp [hrows, Message.carries, hm.role, hsays]
  · rw [if_neg ‹_›] at htold
    rw [List.countP_eq_zero]
    intro m hm
    obtain ⟨tc, -, hcall⟩ := exists_left_of_forall₂ htold hm
    simp [Message.carries, hcall.content]

/-! ### Whole runs -/

namespace Runtime

variable [Platform σ]

omit [Platform σ] in
/-- Only a reply's own rows are assistant messages of its turn. -/
theorem after_not_assistant {kind : ExecutorKind} {turns : List Turn} {t : Turn}
    (ht : Settles kind ctx turns t ∨ Closes kind ctx turns t) :
    ∀ m ∈ t.after, m.role ≠ .assistant := by
  have answers : ∀ {issued calls}, List.Forall₂ (Answers issued) calls t.after →
      ∀ m ∈ t.after, m.role ≠ .assistant := by
    intro issued calls hall m hm
    obtain ⟨tc, -, hanswer⟩ := exists_left_of_forall₂ hall hm
    simp [hanswer.role]
  have chat : t.Settled ctx (issuedIn turns) ∨ t.Final ctx (issuedIn turns) →
      ∀ m ∈ t.after, m.role ≠ .assistant := by
    unfold Turn.Settled Turn.Final
    by_cases hc : t.resp.toolCalls = []
    · rw [if_pos hc, if_pos hc]
      rintro (⟨-, -, nudge, hafter, hnudge, -⟩ | ⟨-, -, hafter⟩)
      · simp [hafter, hnudge.role]
      · simp [hafter]
    · rw [if_neg hc, if_neg hc]
      rintro (⟨hall, -⟩ | ⟨done, tc, rest, -, -, hall, -⟩)
      · exact answers hall
      · exact answers hall
  cases kind with
  | conversation => exact chat ht
  | react => exact chat ht
  | reflection maxRevisions =>
    rcases ht with ⟨-, prompt, hafter, hprompt, -⟩ | ⟨-, hafter⟩
    · simp [hafter, hprompt.role]
    · simp [hafter]

/-- **The text of every reply is kept** in a run exactly when no reply with a text has calls. -/
theorem text_kept_iff (kind : ExecutorKind) (passes : Nat) (ctx : ExecutionContext σ) (env : σ) :
    TextKept (runExecutor kind passes ctx env).2.world.effects
      (runExecutor kind passes ctx env).2.messages ↔
      TextApart (runExecutor kind passes ctx env).2.world.effects := by
  obtain ⟨seed, -, he⟩ := runExecutor_ends kind passes ctx env
  -- the text of a reply stands once in its turn, unless the reply has calls
  have hcount : ∀ before req resp after text,
      (runExecutor kind passes ctx env).2.world.effects =
        before ++ .llm req (.ready (.ok resp)) :: after →
      resp.finishReason ≠ "length" → resp.content = some text →
      (turnRows (runExecutor kind passes ctx env).2.messages req after).countP
        (Message.carries text) = if resp.toolCalls = [] then 1 else 0 := by
    intro before req resp after text heq hwhole hcontent
    obtain ⟨turns, t, rfl, htold, hPQ, hrows⟩ := he.turnRows_eq heq hwhole
    rw [hrows]
    exact t.says_count htold.rows (after_not_assistant hPQ) hcontent
  constructor
  · intro hkept req resp text hmem hwhole hcontent hblank
    obtain ⟨before, after, heq⟩ := List.append_of_mem hmem
    have hone := hkept before req resp after text heq hwhole hcontent hblank
    rw [hcount before req resp after text heq hwhole hcontent] at hone
    by_contra hcalls
    rw [if_neg hcalls] at hone
    exact absurd hone (by decide)
  · intro hapart before req resp after text heq hwhole hcontent hblank
    rw [hcount before req resp after text heq hwhole hcontent, if_pos]
    exact hapart req resp text (by simp [heq]) hwhole hcontent hblank

/-! ### A reply with a text and a call -/

/-- A reply that explains its call. -/
def explainedCall : CompletionResponse :=
  ⟨some "I look that up first.", [⟨"c1", "lookup", .obj []⟩], "tool_calls", ⟨1, 1, none⟩⟩

/-- What the model said beside its call is in no row. -/
theorem explanation_lost :
    ¬TextKept (runExecutor .conversation 1 (StillWorld.context explainedCall 8) ⟨⟩).2.world.effects
      (runExecutor .conversation 1 (StillWorld.context explainedCall 8) ⟨⟩).2.messages := by
  intro hkept
  obtain ⟨req, after, heq, hcount⟩ : ∃ req after,
      (runExecutor .conversation 1 (StillWorld.context explainedCall 8) ⟨⟩).2.world.effects =
        [] ++ .llm req (.ready (.ok explainedCall)) :: after ∧
      (turnRows (runExecutor .conversation 1 (StillWorld.context explainedCall 8) ⟨⟩).2.messages
        req after).countP (Message.carries "I look that up first.") = 0 := ⟨_, _, rfl, by decide⟩
  have hone := hkept [] req explainedCall after _ heq (by decide) rfl (by decide)
  rw [hcount] at hone
  exact absurd hone (by decide)

end Runtime

end PgSynapse

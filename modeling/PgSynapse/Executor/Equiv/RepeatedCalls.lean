import PgSynapse.Executor.Equiv.Turns
import PgSynapse.Lib.Quota
import PgSynapse.OpenAi.Equiv.Payload

/-!
# The guard against repeated calls

A call that the model issues for the third time is refused.  The harness counts all calls of a
reply before it looks at the first of them, so the guard is a quota that counts whole batches: the
first two issues of a call are run, and no other, exactly when no reply brings the count of the call
from below two to above two (`repeated_calls_guarded_iff`).
-/

namespace PgSynapse

open LoopHarness

/-! ### Issues of a call -/

/-- Whether `p` repeats the call `tc`, as the guard compares them. -/
def Repeats (tc p : ToolCall) : Bool := p.name == tc.name && decide (p.args = tc.args)

/-- The issues of the call `tc` among the calls, in order. -/
def issuesOf (tc : ToolCall) (calls : List ToolCall) : List ToolCall := calls.filter (Repeats tc)

/-- The rows of tool results. -/
def toolRows (ms : List Message) : List Message := ms.filter fun m => m.role == .tool

/-- The calls whose tool was run, in order. -/
def toolRuns (effects : List Effect) : List ToolCall :=
  effects.filterMap fun e => match e with
    | .llm _ _ => none
    | .tool tc _ _ => some tc

/-- The issued calls that the run got to: those it answered, and the one after them, whose tool
never returned if it is not answered. -/
def reachedCalls {σ : Type} (h : LoopHarness σ) : List ToolCall :=
  h.issuedToolCalls.take ((toolRows h.messages).length + 1)

/-- **The guard on one call**: of the issues the run got to, the first two were run, in order, and
no other; every issue after two others was answered with a refusal. -/
structure Guarded {σ : Type} (h : LoopHarness σ) (tc : ToolCall) : Prop where
  runs : issuesOf tc (toolRuns h.world.effects) = (issuesOf tc (reachedCalls h)).take 2
  refused : ∀ before p after, reachedCalls h = before ++ p :: after → Repeats tc p = true →
    2 ≤ (issuesOf tc before).length →
    ∃ row issued refusal, (toolRows h.messages)[before.length]? = some row ∧ row.IsAnswer p ∧
      repeatedCallRefusal issued p = some refusal ∧ row.content = some refusal

/-- No reply that the run got to brings the count of a call from below two to above two: where it
got to an issue of the call in a reply, two were issued in the replies before, or at most two by the
end of this one. -/
def RepeatsApart {σ : Type} (h : LoopHarness σ) (tc : ToolCall) : Prop :=
  ∀ before resp after, responses h.world.effects = before ++ resp :: after →
    resp.finishReason ≠ "length" →
    issuesOf tc (((reachedCalls h).drop (before.flatMap CompletionResponse.toolCalls).length).take
      resp.toolCalls.length) ≠ [] →
    2 ≤ (issuesOf tc (before.flatMap CompletionResponse.toolCalls)).length ∨
      (issuesOf tc ((before ++ [resp]).flatMap CompletionResponse.toolCalls)).length ≤ 2

theorem issuesOf_append (tc : ToolCall) (calls calls' : List ToolCall) :
    issuesOf tc (calls ++ calls') = issuesOf tc calls ++ issuesOf tc calls' :=
  List.filter_append ..

theorem toolRuns_append (effects effects' : List Effect) :
    toolRuns (effects ++ effects') = toolRuns effects ++ toolRuns effects' :=
  List.filterMap_append

theorem toolRows_append (ms ms' : List Message) :
    toolRows (ms ++ ms') = toolRows ms ++ toolRows ms' :=
  List.filter_append ..

/-- The guard looks at the name and the arguments only. -/
theorem issuesOf_repeats {tc p : ToolCall} (h : Repeats tc p = true) (calls : List ToolCall) :
    issuesOf p calls = issuesOf tc calls := by
  obtain ⟨hname, hargs⟩ : p.name = tc.name ∧ p.args = tc.args := by simpa [Repeats] using h
  unfold issuesOf Repeats
  rw [hname, hargs]

theorem refusal_isNone (issued : List ToolCall) (tc : ToolCall) :
    (repeatedCallRefusal issued tc).isNone = decide ((issuesOf tc issued).length ≤ 2) := by
  have hseen : (issued.filter fun p => p.name == tc.name && decide (p.args = tc.args)).length =
      (issuesOf tc issued).length := rfl
  unfold repeatedCallRefusal
  rw [hseen]
  by_cases hle : (issuesOf tc issued).length ≤ 2
  · rw [if_neg (by omega)]
    simp [hle]
  · rw [if_pos (by omega)]
    simp [hle]

/-- A registered call gets to its tool as long as it was issued at most twice. -/
theorem getsToTool_repeats {σ : Type} {tools : ToolRegistry σ} {tc p : ToolCall}
    (htool : (tools.get tc.name).isSome) (h : Repeats tc p = true) (issued : List ToolCall) :
    getsToTool tools issued p = decide ((issuesOf tc issued).length ≤ 2) := by
  have hname : p.name = tc.name := by
    have hboth : p.name = tc.name ∧ p.args = tc.args := by simpa [Repeats] using h
    exact hboth.1
  rw [getsToTool, refusal_isNone, issuesOf_repeats h, hname, htool, Bool.and_true]

/-- The issues among the calls that get to their tools: all, or none. -/
theorem issuesOf_getsToTool {σ : Type} {tools : ToolRegistry σ} {tc : ToolCall}
    (htool : (tools.get tc.name).isSome) (issued calls : List ToolCall) :
    issuesOf tc (calls.filter (getsToTool tools issued)) =
      if (issuesOf tc issued).length ≤ 2 then issuesOf tc calls else [] := by
  have hfilter : issuesOf tc (calls.filter (getsToTool tools issued)) =
      (issuesOf tc calls).filter fun _ => decide ((issuesOf tc issued).length ≤ 2) := by
    unfold issuesOf
    rw [List.filter_filter, List.filter_filter]
    refine List.filter_congr fun p _ => ?_
    by_cases hp : Repeats tc p = true
    · rw [getsToTool_repeats htool hp, Bool.and_comm]
      rfl
    · simp [hp]
  rw [hfilter]
  split <;> simp [*]

/-! ### Turns -/

section Turns

variable {σ : Type} {ctx : ExecutionContext σ} {issued : List ToolCall} {t : Turn}

/-- The calls of a turn that the run got to. -/
def Turn.reached (t : Turn) : List ToolCall :=
  t.resp.toolCalls.take ((toolRows t.after).length + 1)

/-- What a chat turn does with its calls, after `issued`. -/
structure Turn.Dispatches (tools : ToolRegistry σ) (issued : List ToolCall) (t : Turn) : Prop where
  runs : toolRuns t.runs = t.reached.filter (getsToTool tools (issued ++ t.resp.toolCalls))
  refused : ∀ before p after refusal, t.reached = before ++ p :: after →
    repeatedCallRefusal (issued ++ t.resp.toolCalls) p = some refusal →
    ∃ row, (toolRows t.after)[before.length]? = some row ∧ row.IsAnswer p ∧
      row.content = some refusal

theorem toolRuns_runsOf {calls : List ToolCall} {runs : List Effect} (h : RunsOf ctx calls runs) :
    toolRuns runs = calls := by
  induction h with
  | nil => rfl
  | cons hrun _ ih =>
    obtain ⟨tool, env, -, rfl⟩ := hrun
    exact congrArg (List.cons _) ih

theorem toolRows_answers {calls : List ToolCall} {rows : List Message}
    (h : List.Forall₂ (Answers issued) calls rows) : toolRows rows = rows := by
  refine List.filter_eq_self.mpr fun m hm => ?_
  obtain ⟨tc, -, hanswer⟩ := exists_left_of_forall₂ h hm
  simp [hanswer.role]

/-- The answer of a call, at its place. -/
theorem answer_at {calls : List ToolCall} {rows : List Message}
    (h : List.Forall₂ (Answers issued) calls rows) {before after : List ToolCall} {p : ToolCall}
    (heq : calls = before ++ p :: after) :
    ∃ row, rows[before.length]? = some row ∧ Answers issued p row := by
  induction h generalizing before with
  | nil => simp at heq
  | @cons tc row calls rows hrow _ ih =>
    cases before with
    | nil =>
      obtain ⟨rfl, -⟩ := List.cons.inj heq
      exact ⟨row, rfl, hrow⟩
    | cons b before =>
      obtain ⟨-, hrest⟩ := List.cons.inj heq
      obtain ⟨row', hat, hrow'⟩ := ih hrest
      exact ⟨row', by simpa using hat, hrow'⟩

theorem Turn.Settled.reached (h : t.Settled ctx issued) :
    t.reached = t.resp.toolCalls ∧ (toolRows t.after).length = t.resp.toolCalls.length := by
  unfold Turn.Settled at h
  unfold Turn.reached
  by_cases hc : t.resp.toolCalls = []
  · rw [if_pos hc] at h
    obtain ⟨-, -, nudge, hafter, hnudge, -⟩ := h
    simp [hc, hafter, toolRows, hnudge.role]
  · rw [if_neg hc] at h
    have hlength : (toolRows t.after).length = t.resp.toolCalls.length := by
      rw [toolRows_answers h.1]
      exact h.1.length_eq.symm
    exact ⟨List.take_of_length_le (by omega), hlength⟩

theorem Turn.Settled.dispatches (h : t.Settled ctx issued) :
    t.Dispatches ctx.tools issued := by
  have hreached := h.reached.1
  unfold Turn.Settled at h
  by_cases hc : t.resp.toolCalls = []
  · rw [if_pos hc] at h
    rw [hc] at hreached
    constructor
    · rw [hreached, h.1]
      rfl
    · intro before p after refusal heq
      rw [hreached] at heq
      simp at heq
  · rw [if_neg hc] at h
    constructor
    · rw [hreached]
      exact toolRuns_runsOf h.2
    · intro before p after refusal heq hrefusal
      rw [hreached] at heq
      obtain ⟨row, hat, hrow⟩ := answer_at h.1 heq
      rw [toolRows_answers h.1]
      exact ⟨row, hat, hrow.toIsAnswer, hrow.refused refusal hrefusal⟩

theorem Turn.Final.dispatches (h : t.Final ctx issued) : t.Dispatches ctx.tools issued := by
  unfold Turn.Final at h
  by_cases hc : t.resp.toolCalls = []
  · rw [if_pos hc] at h
    have hreached : t.reached = [] := by simp [Turn.reached, hc]
    constructor
    · rw [hreached, h.1]
      rfl
    · intro before p after refusal heq
      rw [hreached] at heq
      simp at heq
  · rw [if_neg hc] at h
    obtain ⟨done, tc, rest, hcalls, hgets, hanswers, hruns⟩ := h
    have hreached : t.reached = done ++ [tc] := by
      rw [Turn.reached, toolRows_answers hanswers, ← hanswers.length_eq, hcalls]
      simp [List.take_append]
    constructor
    · rw [hreached]
      exact toolRuns_runsOf hruns
    · intro before p after refusal heq hrefusal
      rw [hreached] at heq
      rcases List.eq_nil_or_concat after with rfl | ⟨after', q, rfl⟩
      · -- the call whose tool never returned was not refused
        obtain ⟨-, hlast⟩ := List.append_inj' heq rfl
        obtain rfl := (List.cons.inj hlast).1
        simp [getsToTool, hrefusal] at hgets
      · have hdone : done = before ++ p :: after' := by
          have heq' : done ++ [tc] = (before ++ p :: after') ++ [q] := by simpa using heq
          exact (List.append_inj' heq' rfl).1
        obtain ⟨row, hat, hrow⟩ := answer_at hanswers hdone
        rw [toolRows_answers hanswers]
        exact ⟨row, hat, hrow.toIsAnswer, hrow.refused refusal hrefusal⟩

/-- The tool rows of a transcript are those behind the replies. -/
theorem toolRows_transcript {seed : List Message} (hseed : IsOpening ctx seed) {turns : List Turn}
    (htold : ∀ t ∈ turns, ReplyTold t.resp t.rows) :
    toolRows (transcript seed turns) = turns.flatMap fun t => toolRows t.after := by
  have hnone : toolRows seed = [] := by
    obtain ⟨sys, user, rfl, hsys, huser, -⟩ := hseed
    refine List.filter_eq_nil_iff.mpr fun m hm => ?_
    rcases List.mem_append.mp hm with hm | hm
    · simp [(hsys m hm).role]
    · rw [List.mem_singleton.mp hm]
      simp [huser.role]
  have hrows : ∀ t ∈ turns, toolRows t.rows = [] := by
    intro t ht
    have hreply := (htold t ht).replyRows
    refine List.filter_eq_nil_iff.mpr fun m hm => ?_
    unfold ReplyRows at hreply
    split at hreply
    · obtain ⟨m', heq, hm'⟩ := hreply
      rw [heq, List.mem_singleton] at hm
      simp [hm, hm'.role]
    · obtain ⟨tc, -, hcall⟩ := exists_left_of_forall₂ hreply hm
      simp [hcall.role]
  rw [transcript, toolRows_append, hnone, List.nil_append]
  unfold toolRows at hrows ⊢
  rw [List.filter_flatMap]
  refine List.flatMap_congr fun t ht => ?_
  rw [Turn.block, List.filter_append, hrows t ht, List.nil_append]

theorem toolRuns_effectsOf (turns : List Turn) :
    toolRuns (effectsOf turns) = turns.flatMap fun t => toolRuns t.runs := by
  unfold toolRuns effectsOf
  rw [List.filterMap_flatMap]
  rfl

/-! ### Chat runs -/

/-- How a chat run ended, as far as its calls go: every turn but the last got to all its calls. -/
structure ChatEnd (tools : ToolRegistry σ) (turns : List Turn) (h : LoopHarness σ) : Prop where
  dispatches : AtEvery (fun before t => t.Dispatches tools (issuedIn before)) turns
  whole : ∀ pre t post, turns = pre ++ t :: post → post ≠ [] →
    t.reached = t.resp.toolCalls ∧ (toolRows t.after).length = t.resp.toolCalls.length
  taken : ∀ t ∈ turns, t.resp.finishReason ≠ "length"
  runs : toolRuns h.world.effects = turns.flatMap fun t => toolRuns t.runs
  replies : ∃ cut, responses h.world.effects = turns.map Turn.resp ++ cut ∧
    ∀ resp ∈ cut, resp.finishReason = "length"
  issued : h.issuedToolCalls = issuedIn turns
  rows : toolRows h.messages = turns.flatMap fun t => toolRows t.after

theorem chatEnd_of_turns {seed : List Message} {h : LoopHarness σ} (hseed : IsOpening ctx seed)
    {turns : List Turn} {model : String} {calls : List Effect}
    (htold : AtEvery (fun before t => t.Told ctx (transcript seed before)) turns)
    (hdispatches : AtEvery (fun before t => t.Dispatches ctx.tools (issuedIn before)) turns)
    (hwhole : ∀ pre t post, turns = pre ++ t :: post → post ≠ [] →
      t.reached = t.resp.toolCalls ∧ (toolRows t.after).length = t.resp.toolCalls.length)
    (hlost : LostCall ctx model (transcript seed turns) calls)
    (hms : h.messages = transcript seed turns)
    (hes : h.world.effects = effectsOf turns ++ calls)
    (hissued : h.issuedToolCalls = issuedIn turns) : ChatEnd ctx.tools turns h := by
  have hmem : ∀ t ∈ turns, ∃ before, t.Told ctx (transcript seed before) :=
    fun _ ht => htold.exists_of_mem ht
  have hruns : ∀ t ∈ turns, ∀ e ∈ t.runs, IsToolRun e := by
    intro t ht
    obtain ⟨before, htold⟩ := hmem t ht
    exact htold.runs
  -- a call whose reply was not taken runs no tool, and what it brought was cut off
  have hcut : toolRuns calls = [] ∧ ∀ resp ∈ responses calls, resp.finishReason = "length" := by
    rcases hlost with rfl | ⟨answer, rfl, hcut⟩
    · exact ⟨rfl, by simp [responses]⟩
    · refine ⟨rfl, fun resp hresp => hcut resp ?_⟩
      simp only [responses, List.mem_filterMap, List.mem_singleton] at hresp
      obtain ⟨e, rfl, hsome⟩ := hresp
      split at hsome
      · next heq =>
        obtain ⟨-, rfl⟩ := Effect.llm.inj heq
        rw [Option.some.inj hsome]
      · simp at hsome
  refine ⟨hdispatches, hwhole, ?_, ?_, ⟨responses calls, ?_, hcut.2⟩, hissued, ?_⟩
  · intro t ht
    obtain ⟨before, htold⟩ := hmem t ht
    exact htold.whole
  · rw [hes, toolRuns_append, hcut.1, List.append_nil, toolRuns_effectsOf]
  · rw [hes, responses_append, responses_effectsOf hruns]
  · rw [hms]
    refine toolRows_transcript hseed fun t ht => ?_
    obtain ⟨before, htold⟩ := hmem t ht
    exact htold.rows

theorem chatEnd_of_endsWith {seed : List Message} {h : LoopHarness σ} (hseed : IsOpening ctx seed)
    (he : EndsWith ctx (fun before t => t.Settled ctx (issuedIn before))
      (fun before t => t.Final ctx (issuedIn before)) seed h) :
    ∃ turns, ChatEnd ctx.tools turns h := by
  rcases he with ⟨turns, t, htold, hfinal, hall, hms, hes, hissued⟩ |
    ⟨turns, model, calls, hlost, hall, hms, hes, hissued⟩
  · have hnone : LostCall ctx "" (transcript seed (turns ++ [t])) [] := .inl rfl
    refine ⟨turns ++ [t], chatEnd_of_turns hseed (.concat (hall.imp fun _ _ ht => ht.1) htold)
      (.concat (hall.imp fun _ _ ht => ht.2.dispatches) hfinal.dispatches) ?_ hnone hms
      (by rw [hes, List.append_nil]) hissued⟩
    intro pre t' post heq hpost
    obtain ⟨post', x, rfl⟩ := (List.eq_nil_or_concat post).resolve_left hpost
    have heq' : turns ++ [t] = (pre ++ t' :: post') ++ [x] := by simpa using heq
    exact (hall pre t' post' (List.append_inj' heq' rfl).1).2.reached
  · refine ⟨turns, chatEnd_of_turns hseed (hall.imp fun _ _ ht => ht.1)
      (hall.imp fun _ _ ht => ht.2.dispatches) ?_ hlost hms hes hissued⟩
    intro pre t' post heq _
    exact (hall pre t' post heq).2.reached

namespace ChatEnd

variable {tools : ToolRegistry σ} {turns : List Turn} {h : LoopHarness σ}

/-- The turns before one of them got to all their calls. -/
theorem before_whole (he : ChatEnd tools turns h) {pre post : List Turn} (heq : turns = pre ++ post)
    (hpost : post ≠ []) :
    pre.flatMap Turn.reached = issuedIn pre ∧
      (pre.flatMap fun t => toolRows t.after).length = (issuedIn pre).length := by
  have hall : ∀ t ∈ pre, t.reached = t.resp.toolCalls ∧
      (toolRows t.after).length = t.resp.toolCalls.length := by
    intro t ht
    obtain ⟨pre', post', rfl⟩ := List.append_of_mem ht
    exact he.whole pre' t (post' ++ post) (by simp [heq]) (by simp [hpost])
  constructor
  · exact List.flatMap_congr fun t ht => (hall t ht).1
  · unfold issuedIn
    rw [List.length_flatMap, List.length_flatMap]
    exact congrArg List.sum (List.map_congr_left fun t ht => (hall t ht).2)

theorem reachedCalls_eq (he : ChatEnd tools turns h) :
    reachedCalls h = turns.flatMap Turn.reached := by
  rw [reachedCalls, he.issued, he.rows]
  rcases List.eq_nil_or_concat turns with rfl | ⟨pre, t, rfl⟩
  · rfl
  · rw [List.concat_eq_append] at he ⊢
    obtain ⟨hreached, hlength⟩ := he.before_whole rfl (List.cons_ne_nil t [])
    rw [issuedIn_concat, List.flatMap_append, List.flatMap_append, List.length_append, hlength,
      hreached, Nat.add_assoc, List.take_length_add_append]
    simp [Turn.reached]

/-- The calls of a reply that the run got to. -/
theorem reached_of_turn (he : ChatEnd tools turns h) {pre post : List Turn} {t : Turn}
    (heq : turns = pre ++ t :: post) :
    ((reachedCalls h).drop (issuedIn pre).length).take t.resp.toolCalls.length = t.reached := by
  obtain ⟨hreached, -⟩ := he.before_whole heq (List.cons_ne_nil t post)
  rw [he.reachedCalls_eq, heq, List.flatMap_append, hreached, List.drop_left, List.flatMap_cons]
  cases post with
  | nil =>
    rw [List.flatMap_nil, List.append_nil]
    exact List.take_of_length_le (List.length_take_le' ..)
  | cons t' post =>
    obtain ⟨hall, -⟩ := he.whole pre t (t' :: post) heq (List.cons_ne_nil t' post)
    rw [hall]
    exact List.take_left

/-! ### Runs of one call -/

/-- The issues of a call in a turn, as a batch. -/
def batchOf (tc : ToolCall) (t : Turn) : Batch ToolCall :=
  ⟨(issuesOf tc t.resp.toolCalls).length, issuesOf tc t.reached⟩

omit h in
theorem total_batches (tc : ToolCall) (turns : List Turn) :
    Batch.total (turns.map (batchOf tc)) = (issuesOf tc (issuedIn turns)).length := by
  unfold Batch.total issuesOf issuedIn
  rw [List.map_map, List.filter_flatMap, List.length_flatMap]
  rfl

theorem batches_whole (he : ChatEnd tools turns h) (tc : ToolCall) :
    Batch.Whole (turns.map (batchOf tc)) := by
  refine Batch.whole_of ?_ ?_
  · intro b hb
    obtain ⟨t, -, rfl⟩ := List.mem_map.mp hb
    exact ((List.take_sublist _ _).filter _).length_le
  · intro pre b post heq hpost
    obtain ⟨pre', rest, rfl, rfl, hrest⟩ := List.map_eq_append_iff.mp heq
    obtain ⟨t, post', rfl, rfl, rfl⟩ := List.map_eq_cons_iff.mp hrest
    have hne : post' ≠ [] := by simpa using hpost
    obtain ⟨hall, -⟩ := he.whole pre' t post' rfl hne
    rw [batchOf, hall]

/-- The runs of a registered call are what the quota lets through. -/
theorem runs_passed {tc : ToolCall} (htool : (tools.get tc.name).isSome) {turns : List Turn}
    (before : List Turn)
    (hdispatches : AtEvery (fun pre t => t.Dispatches tools (issuedIn (before ++ pre))) turns) :
    issuesOf tc (turns.flatMap fun t => toolRuns t.runs) =
      Batch.passed 2 (issuesOf tc (issuedIn before)).length (turns.map (batchOf tc)) := by
  induction turns generalizing before with
  | nil => rfl
  | cons t turns ih =>
    obtain ⟨hfirst, hrest⟩ := AtEvery.cons_iff.mp hdispatches
    rw [List.append_nil] at hfirst
    have hrest' : AtEvery (fun pre u => u.Dispatches tools (issuedIn ((before ++ [t]) ++ pre)))
        turns := hrest.imp fun pre u hu => by rwa [List.append_assoc]
    rw [List.flatMap_cons, issuesOf_append, ih (before ++ [t]) hrest', hfirst.runs,
      issuesOf_getsToTool htool, issuedIn_concat, issuesOf_append, List.length_append]
    rfl

/-! ### The guard -/

theorem within_iff (he : ChatEnd tools turns h) (tc : ToolCall) :
    Batch.Within 2 0 (turns.map (batchOf tc)) ↔ RepeatsApart h tc := by
  obtain ⟨cut, hreplies, hcut⟩ := he.replies
  have hcalls : ∀ pre : List Turn,
      (pre.map Turn.resp).flatMap CompletionResponse.toolCalls = issuedIn pre := by
    intro pre
    rw [List.flatMap_map]
    rfl
  constructor
  · intro hwithin before resp after heq hlength hgot
    -- the reply is that of a turn
    obtain ⟨pre, t, post, rfl, rfl, rfl⟩ : ∃ pre t post, turns = pre ++ t :: post ∧
        before = pre.map Turn.resp ∧ resp = t.resp := by
      rw [hreplies] at heq
      rcases List.append_eq_append_iff.mp heq with ⟨l, rfl, hl⟩ | ⟨l, hl, hl'⟩
      · exact absurd (hcut resp (by rw [hl]; simp)) hlength
      · cases l with
        | nil => exact absurd (hcut resp (by simp at hl'; rw [← hl']; simp)) hlength
        | cons r l =>
          obtain ⟨rfl, -⟩ := List.cons.inj hl'
          obtain ⟨pre, rest, rfl, rfl, hrest⟩ := List.map_eq_append_iff.mp hl
          obtain ⟨t, post, rfl, rfl, -⟩ := List.map_eq_cons_iff.mp hrest
          exact ⟨pre, t, post, rfl, rfl, rfl⟩
    rw [hcalls, he.reached_of_turn rfl] at hgot
    have hbatch := hwithin (pre.map (batchOf tc)) (batchOf tc t) (post.map (batchOf tc))
      (by simp) hgot
    rw [total_batches, Nat.zero_add] at hbatch
    rw [hcalls, List.flatMap_append, hcalls, issuesOf_append, List.length_append]
    simpa [batchOf] using hbatch
  · intro hapart pre b post heq hgot
    obtain ⟨pre, rest, rfl, rfl, hrest⟩ := List.map_eq_append_iff.mp heq
    obtain ⟨t, post, rfl, rfl, rfl⟩ := List.map_eq_cons_iff.mp hrest
    have hresponses : responses h.world.effects =
        pre.map Turn.resp ++ t.resp :: (post.map Turn.resp ++ cut) := by
      rw [hreplies]
      simp
    have htaken : t.resp.finishReason ≠ "length" := he.taken t (by simp)
    have hreach := hapart (pre.map Turn.resp) t.resp _ hresponses htaken
    rw [hcalls, he.reached_of_turn rfl, List.flatMap_append, hcalls, issuesOf_append,
      List.length_append] at hreach
    rw [total_batches, Nat.zero_add]
    simpa [batchOf] using hreach hgot

/-- Every issue after two others is answered with a refusal. -/
theorem refused_after_two (he : ChatEnd tools turns h) {tc p : ToolCall}
    {before after : List ToolCall} (heq : reachedCalls h = before ++ p :: after)
    (hrep : Repeats tc p = true) (htwo : 2 ≤ (issuesOf tc before).length) :
    ∃ row issued refusal, (toolRows h.messages)[before.length]? = some row ∧ row.IsAnswer p ∧
      repeatedCallRefusal issued p = some refusal ∧ row.content = some refusal := by
  rw [he.reachedCalls_eq] at heq
  obtain ⟨pre, t, post, d, e, rfl, hreached, rfl, -⟩ := split_of_flatMap heq
  obtain ⟨hall, hlength⟩ := he.before_whole rfl (List.cons_ne_nil t post)
  rw [hall] at htwo ⊢
  -- with the two before it, and itself, the call was issued three times by the end of the reply
  have hcalls : t.resp.toolCalls = (d ++ p :: e) ++ t.resp.toolCalls.drop
      ((toolRows t.after).length + 1) := by
    rw [← hreached, Turn.reached, List.take_append_drop]
  have hthree : 2 < (issuesOf tc (issuedIn pre ++ t.resp.toolCalls)).length := by
    have hself : issuesOf tc (p :: e) = p :: issuesOf tc e := List.filter_cons_of_pos hrep
    rw [issuesOf_append, List.length_append] at htwo
    rw [hcalls]
    simp only [issuesOf_append, hself, List.length_append, List.length_cons]
    omega
  obtain ⟨refusal, hrefusal⟩ : ∃ refusal,
      repeatedCallRefusal (issuedIn pre ++ t.resp.toolCalls) p = some refusal := by
    have hnone : (repeatedCallRefusal (issuedIn pre ++ t.resp.toolCalls) p).isNone = false := by
      rw [refusal_isNone, issuesOf_repeats hrep]
      simpa using hthree
    simpa [Option.isNone_eq_false_iff, Option.isSome_iff_exists] using hnone
  obtain ⟨row, hat, hrow, hcontent⟩ :=
    (he.dispatches pre t post rfl).refused d p e refusal hreached hrefusal
  refine ⟨row, _, refusal, ?_, hrow, hrefusal, hcontent⟩
  rw [he.rows, List.flatMap_append, List.flatMap_cons, List.length_append,
    List.getElem?_append_right (by omega), hlength, Nat.add_sub_cancel_left]
  have hin : d.length < (toolRows t.after).length := (List.getElem?_eq_some_iff.mp hat).1
  rw [List.getElem?_append_left hin]
  exact hat

/-- The guard on one call holds exactly when no reply brings the count of the call from below two to
above two. -/
theorem guarded_iff (he : ChatEnd tools turns h) {tc : ToolCall}
    (htool : (tools.get tc.name).isSome) : Guarded h tc ↔ RepeatsApart h tc := by
  have hruns : issuesOf tc (toolRuns h.world.effects) =
      Batch.passed 2 0 (turns.map (batchOf tc)) := by
    rw [he.runs]
    exact runs_passed htool [] he.dispatches
  have hgot : (turns.map (batchOf tc)).flatMap Batch.got = issuesOf tc (reachedCalls h) := by
    rw [he.reachedCalls_eq, issuesOf, List.filter_flatMap, List.flatMap_map]
    rfl
  rw [← he.within_iff tc, ← Batch.passed_eq_take_iff 0 (he.batches_whole tc), hgot, ← hruns]
  constructor
  · intro hg
    exact hg.runs
  · intro hfirst
    exact ⟨hfirst, fun _ _ _ heq hrep htwo => he.refused_after_two heq hrep htwo⟩

end ChatEnd

end Turns

section Runs

variable {σ : Type} [Platform σ] (passes : Nat) (ctx : ExecutionContext σ) (env : σ)

/-- **The guard against repeated calls**, for every run of a chat executor and every registered
call: the first two issues of the call are run and the others refused exactly when no reply brings
its count from below two to above two. -/
theorem repeated_calls_guarded_iff (tc : ToolCall) (htool : (ctx.tools.get tc.name).isSome) :
    (Guarded (ConversationExecutor.execute passes ctx env).2 tc ↔
      RepeatsApart (ConversationExecutor.execute passes ctx env).2 tc) ∧
    (Guarded (ReActExecutor.execute passes ctx env).2 tc ↔
      RepeatsApart (ReActExecutor.execute passes ctx env).2 tc) := by
  obtain ⟨seed, hseed, he⟩ := Runtime.runExecutor_ends .conversation passes ctx env
  obtain ⟨seed', hseed', he'⟩ := Runtime.runExecutor_ends .react passes ctx env
  obtain ⟨turns, hend⟩ := chatEnd_of_endsWith hseed he
  obtain ⟨turns', hend'⟩ := chatEnd_of_endsWith hseed' he'
  exact ⟨hend.guarded_iff htool, hend'.guarded_iff htool⟩

end Runs

/-! ### Three calls in one reply -/

namespace Script

/-- A look-up under an id. -/
def lookupCall (id : String) : ToolCall := ⟨id, "lookup", .obj []⟩

/-- A reply that asks for the same look-up three times. -/
def threeCalls : CompletionResponse :=
  ⟨none, [lookupCall "c1", lookupCall "c2", lookupCall "c3"], "tool_calls", ⟨1, 1, none⟩⟩

/-- None of the three look-ups is run, as each of them finds all three counted. -/
theorem first_lookups_refused :
    ¬Guarded (ConversationExecutor.execute 1 context ⟨[threeCalls]⟩).2 (lookupCall "c1") := by
  intro hguarded
  have hnone : issuesOf (lookupCall "c1") (toolRuns
      (ConversationExecutor.execute 1 context ⟨[threeCalls]⟩).2.world.effects) = [] := by
    decide +kernel
  have htwo : (issuesOf (lookupCall "c1") (reachedCalls
      (ConversationExecutor.execute 1 context ⟨[threeCalls]⟩).2)).take 2 =
      [lookupCall "c1", lookupCall "c2"] := by
    decide +kernel
  have hruns := hguarded.runs
  rw [hnone, htwo] at hruns
  exact absurd hruns (by simp)

/-- Two look-ups with different arguments are both run. -/
theorem different_lookups_guarded :
    (context.tools.get "lookup").isSome ∧
      Guarded (ConversationExecutor.execute 1 context ⟨[twoCalls]⟩).2 (lookupCall "c1") := by
  refine ⟨rfl, (repeated_calls_guarded_iff 1 context ⟨[twoCalls]⟩ (lookupCall "c1")
    rfl).1.mpr ?_⟩
  have hreplies : responses
      (ConversationExecutor.execute 1 context ⟨[twoCalls]⟩).2.world.effects = [twoCalls] := rfl
  intro before resp after heq _ _
  rw [hreplies] at heq
  obtain ⟨rfl, rfl, -⟩ : before = [] ∧ twoCalls = resp ∧ after = [] := by
    cases before with
    | nil =>
      obtain ⟨hresp, hafter⟩ := List.cons.inj heq
      exact ⟨rfl, hresp, hafter.symm⟩
    | cons r before => simp at heq
  exact .inr (by decide)

end Script

end PgSynapse

import PgSynapse.Executor.Equiv.Answer
import PgSynapse.Executor.Equiv.ReplyText
import PgSynapse.Executor.Equiv.Spend
import PgSynapse.Pgrx.Equiv.Execute

/-!
# The iterations `synapse.execute` reports

The host counts the assistant rows of the outcome.  The harness writes one such row for a reply
without calls and one for each call of a reply that has some, so the count is that of the replies
accepted exactly when no reply has more than one call (`iterations_exact_iff`).
-/

namespace PgSynapse

open LoopHarness

/-- The assistant rows of a reply: its text, or one for each call. -/
def CompletionResponse.rowCount (resp : CompletionResponse) : Nat :=
  if resp.toolCalls = [] then 1 else resp.toolCalls.length

/-- The rows are as many as the replies when each reply has one. -/
theorem sum_rowCount_eq_length_iff (replies : List CompletionResponse) :
    replies.length ≤ (replies.map CompletionResponse.rowCount).sum ∧
      ((replies.map CompletionResponse.rowCount).sum = replies.length ↔
        ∀ resp ∈ replies, resp.toolCalls.length ≤ 1) := by
  induction replies with
  | nil => simp
  | cons resp replies ih =>
    obtain ⟨hle, hiff⟩ := ih
    have hrow : 1 ≤ resp.rowCount ∧ (resp.rowCount = 1 ↔ resp.toolCalls.length ≤ 1) := by
      unfold CompletionResponse.rowCount
      cases resp.toolCalls with
      | nil => simp
      | cons tc calls => simp
    rw [List.map_cons, List.sum_cons, List.length_cons, List.forall_mem_cons, ← hiff, ← hrow.2]
    omega

/-! ### Rows -/

variable {σ : Type} {ctx : ExecutionContext σ}

/-- The assistant rows of a reply. -/
theorem LoopHarness.ReplyTold.assistant_count {resp : CompletionResponse} {rows : List Message}
    (htold : ReplyTold resp rows) :
    rows.countP (fun m => m.role = .assistant) = resp.rowCount := by
  unfold ReplyTold at htold
  unfold CompletionResponse.rowCount
  split
  · rw [if_pos ‹_›] at htold
    obtain ⟨m, rfl, hm, -⟩ := htold
    simp [hm.role]
  · rw [if_neg ‹_›] at htold
    rw [htold.length_eq, List.countP_eq_length]
    intro m hm
    obtain ⟨tc, -, hcall⟩ := exists_left_of_forall₂ htold hm
    simp [hcall.role]

/-- A run opens without assistant rows. -/
theorem LoopHarness.IsOpening.assistant_count {seed : List Message} (hseed : IsOpening ctx seed) :
    seed.countP (fun m => m.role = .assistant) = 0 := by
  obtain ⟨sys, user, rfl, hsys, huser, -⟩ := hseed
  rw [List.countP_eq_zero]
  intro m hm
  rcases List.mem_append.mp hm with hm | hm
  · simp [(hsys m hm).role]
  · simp [List.mem_singleton.mp hm, huser.role]

/-- The assistant rows of some turns are those of their replies. -/
theorem assistant_count_turns {turns : List Turn} (htold : ∀ t ∈ turns, ReplyTold t.resp t.rows)
    (hafter : ∀ t ∈ turns, ∀ m ∈ t.after, m.role ≠ .assistant) :
    (turns.flatMap Turn.block).countP (fun m => m.role = .assistant) =
      ((turns.map Turn.resp).map CompletionResponse.rowCount).sum := by
  induction turns with
  | nil => rfl
  | cons t turns ih =>
    obtain ⟨ht, hturns⟩ := List.forall_mem_cons.mp htold
    obtain ⟨ha, has⟩ := List.forall_mem_cons.mp hafter
    have hrest : t.after.countP (fun m => m.role = .assistant) = 0 := by
      rw [List.countP_eq_zero]
      intro m hm
      simpa using ha m hm
    rw [List.flatMap_cons, List.countP_append, ih hturns has, Turn.block, List.countP_append,
      ht.assistant_count, hrest]
    simp

/-! ### Whole runs -/

namespace Runtime

variable [Platform σ]

/-- **The assistant rows of a run** are those of the replies it accepted. -/
theorem runExecutor_assistant_count (kind : ExecutorKind) (passes : Nat) (ctx : ExecutionContext σ)
    (env : σ) :
    (runExecutor kind passes ctx env).2.messages.countP (fun m => m.role = .assistant) =
      ((accepted (runExecutor kind passes ctx env).2.world.effects).map
        CompletionResponse.rowCount).sum := by
  obtain ⟨seed, hseed, he⟩ := runExecutor_ends kind passes ctx env
  obtain ⟨turns, model, calls, hlost, hall, hms, hes, -⟩ := he.turns
  have htold : ∀ t ∈ turns, ReplyTold t.resp t.rows ∧ ∀ m ∈ t.after, m.role ≠ .assistant := by
    intro t ht
    obtain ⟨before, ht, hPQ⟩ := hall.exists_of_mem ht
    exact ⟨ht.rows, after_not_assistant hPQ⟩
  rw [hms, transcript, List.countP_append, hseed.assistant_count, Nat.zero_add, hes,
    EndsWith.accepted_turns hlost hall]
  exact assistant_count_turns (fun t ht => (htold t ht).1) fun t ht => (htold t ht).2

/-- **The iterations** of the envelope are the replies the run accepted exactly when each of them has
one call at most. -/
theorem iterations_exact_iff (money : Money) (kind : ExecutorKind) (passes : Nat)
    (ctx : ExecutionContext σ) (timeoutMs : Nat) (maxTimeout : Option Nat) (env : σ)
    (o : ExecutorOutcome)
    (ho : executeInner kind passes ctx timeoutMs maxTimeout env = some (.ok o)) :
    let replies := accepted
      (runExecutor kind passes (withBudget ctx timeoutMs maxTimeout) env).2.world.effects
    (outcomeEnvelope money o).get? "iterations" = some (.nat replies.length) ↔
      ∀ resp ∈ replies, resp.toolCalls.length ≤ 1 := by
  have hrec := executeInner_recorded kind passes ctx env ho
  have hcount := runExecutor_assistant_count kind passes (withBudget ctx timeoutMs maxTimeout) env
  have hreported : (outcomeEnvelope money o).get? "iterations" =
      some (.nat (o.messages.countP fun m => m.role = .assistant)) := by
    rw [List.countP_eq_length_filter]
    simp [outcomeEnvelope, Value.obj, Value.get?, Value.lookup_insertField]
  have hnat : ∀ m n : Nat, some (Value.nat m) = some (Value.nat n) ↔ m = n := by
    intro m n
    simp only [Value.nat, Option.some.injEq, Value.number.injEq, Number.int.injEq]
    exact Int.ofNat_inj
  simp only
  rw [hreported, hnat, hrec.messages, hcount]
  exact (sum_rowCount_eq_length_iff _).2

/-- A plain answer is one row, and the run reports one iteration. -/
theorem answer_one_iteration :
    ∃ o, executeInner .conversation 1 (StillWorld.context plainAnswer 8) 0 none ⟨⟩ = some (.ok o) ∧
      (outcomeEnvelope EntryCall.noCost o).get? "iterations" = some (.nat 1) := by
  obtain ⟨o, ho⟩ : ∃ o, executeInner .conversation 1 (StillWorld.context plainAnswer 8) 0 none ⟨⟩ =
      some (.ok o) := ⟨_, rfl⟩
  have hreplies : accepted (runExecutor .conversation 1
      (withBudget (StillWorld.context plainAnswer 8) 0 none) ⟨⟩).2.world.effects = [plainAnswer] :=
    rfl
  have hiff := iterations_exact_iff EntryCall.noCost .conversation 1 (StillWorld.context plainAnswer 8)
    0 none ⟨⟩ o ho
  simp only [hreplies] at hiff
  exact ⟨o, ho, hiff.mpr (by simp [plainAnswer])⟩

/-- A reply with two calls at once. -/
def twoCalls : CompletionResponse :=
  ⟨none, [⟨"c1", "lookup", .obj []⟩, ⟨"c2", "lookup", .obj []⟩], "tool_calls", ⟨1, 1, none⟩⟩

/-- A reply with two calls is one turn, and the run reports two iterations. -/
theorem two_calls_counted_twice :
    ∃ o, executeInner .conversation 2 (StillWorld.context twoCalls 1) 0 none ⟨⟩ = some (.ok o) ∧
      accepted (runExecutor .conversation 2 (withBudget (StillWorld.context twoCalls 1) 0 none)
        ⟨⟩).2.world.effects = [twoCalls] ∧
      (outcomeEnvelope EntryCall.noCost o).get? "iterations" = some (.nat 2) :=
  ⟨_, rfl, rfl, by decide +kernel⟩

end Runtime

end PgSynapse

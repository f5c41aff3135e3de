import PgSynapse.Pgrx.Equiv.RunDocument
import PgSynapse.Pgrx.Equiv.SqlFunctions

/-!
# One row for each call, and the id that names it

What a call of `synapse.execute` leaves in `synapse.executions` (`one_audit_row_iff`), and whether the
id a call of `synapse.execute` or `synapse.execute_async` hands back is the id of its row
(`handed_id_names_row_iff`).
-/

namespace PgSynapse

/-! ### The audit writers -/

namespace Audit

@[simp] theorem dropPlaceholder_none (t : Executions) : dropPlaceholder none t = t :=
  Table.keep_eq_self fun _ _ => by simp

/-- The placeholder is dropped, and nothing else. -/
theorem ne_of_mem_dropPlaceholder {t : Executions} {id a : Uuid}
    (h : a ∈ (dropPlaceholder (some id) t).keys) : a ≠ id := by
  obtain ⟨r, hr, rfl⟩ := List.mem_map.mp h
  have hne := (List.mem_filter.mp hr).2
  simpa using hne

theorem recordRun_some {doc : Value} {supersedes : Option Uuid} {row : AuditRow} {t t' : Executions}
    (h : recordRun doc supersedes row t = some t') :
    RunDocument.readable doc = true ∧
      row.executionId ∉ (dropPlaceholder supersedes t).keys ∧
      t'.rows = (dropPlaceholder supersedes t).rows ++ [row] := by
  unfold recordRun at h
  simp only at h
  split at h
  · split at h
    · exact absurd h (by simp)
    · obtain rfl := Option.some.inj h
      exact ⟨‹_›, ‹_›, rfl⟩
  · exact absurd h (by simp)

theorem recordRun_of_readable {doc : Value} {supersedes : Option Uuid} {row : AuditRow}
    {t : Executions} (hdoc : RunDocument.readable doc = true)
    (hid : row.executionId ∉ (dropPlaceholder supersedes t).keys) :
    recordRun doc supersedes row t = some ((dropPlaceholder supersedes t).insert row hid) := by
  unfold recordRun
  rw [if_pos hdoc, dif_neg hid]

theorem logStatus_of_storable {call : CallInfo} {id : Uuid} {output : Option String}
    {status : String} {t : Executions}
    (h : (RunDocument.statusDocument call id output status).storable = true) :
    logStatus .ok call id output status t =
      some (recordStatus (statusRow call id output status) t) := if_pos h

theorem logStatus_some {call : CallInfo} {id : Uuid} {output : Option String} {status : String}
    {t t' : Executions} (h : logStatus .ok call id output status t = some t') :
    (RunDocument.statusDocument call id output status).storable = true ∧
      recordStatus (statusRow call id output status) t = t' := by
  simp only [logStatus, write] at h
  split at h
  · exact ⟨‹_›, Option.some.inj h⟩
  · exact absurd h (by simp)

theorem recordStatus_of_notMem {row : ExecutionRow} {t : Executions}
    (h : row.executionId ∉ t.keys) :
    recordStatus row t = t.insert { row with tokensIn := 0, tokensOut := 0 } h := dif_neg h

/-- After `record_status` one row has the id, and it has the status. -/
theorem recordStatus_withKey (row : ExecutionRow) (t : Executions) :
    ∃ r, (recordStatus row t).withKey row.executionId = [r] ∧ r.status = row.status := by
  unfold recordStatus Table.upsert
  split
  · obtain ⟨r, hr⟩ := Table.exists_withKey ‹_›
    rw [Table.withKey_update, hr]
    exact ⟨_, rfl, rfl⟩
  · exact ⟨_, Table.withKey_insert t _ _, rfl⟩

/-- Without the counters, `record_run` is `PgSynapse.recordRun`. -/
theorem recordRun_executionRows {doc : Value} {supersedes : Option Uuid} {row : AuditRow}
    {t t' : Executions} (h : recordRun doc supersedes row t = some t') :
    t'.rows.map AuditRow.toExecutionRow =
      PgSynapse.recordRun supersedes row.toExecutionRow (t.rows.map AuditRow.toExecutionRow) := by
  rw [(recordRun_some h).2.2, PgSynapse.recordRun, List.map_append, List.filter_map]
  rfl

/-- Without the counters, `record_status` is `PgSynapse.recordStatus`. -/
theorem recordStatus_executionRows (row : ExecutionRow) (t : Executions) :
    (recordStatus row t).rows.map AuditRow.toExecutionRow =
      PgSynapse.recordStatus row (t.rows.map AuditRow.toExecutionRow) := by
  have hany : (t.rows.map AuditRow.toExecutionRow).any (fun r => r.executionId = row.executionId) =
      decide (row.executionId ∈ t.keys) := by
    rw [Bool.eq_iff_iff]
    simp [Table.keys]
  unfold recordStatus Table.upsert PgSynapse.recordStatus
  rw [hany]
  by_cases h : row.executionId ∈ t.keys
  · simp only [h, decide_true, if_true, dif_pos, Table.update, List.map_map]
    refine List.map_congr_left fun r _ => ?_
    simp only [Function.comp_apply]
    split <;> rfl
  · simp [h]

end Audit

/-! ### Envelopes -/

@[simp] theorem errorEnvelope_status (message : String) :
    (errorEnvelope message).get? "status" = some (.string "errored") := by
  simp [errorEnvelope, Value.obj, Value.get?, Value.lookup_insertField]

@[simp] theorem errorEnvelope_executionId (message : String) :
    (errorEnvelope message).get? "execution_id" = none := by
  simp [errorEnvelope, Value.obj, Value.get?, Value.lookup_insertField]

@[simp] theorem outcomeEnvelope_status (money : Money) (o : ExecutorOutcome) :
    (outcomeEnvelope money o).get? "status" = some (.string (statusLabel o.status)) := by
  simp [outcomeEnvelope, Value.obj, Value.get?, Value.lookup_insertField]

@[simp] theorem outcomeEnvelope_executionId (money : Money) (o : ExecutorOutcome) :
    (outcomeEnvelope money o).get? "execution_id" =
      some (.string (((Audit.firstId o).map Uuid.text).getD "")) := by
  simp [outcomeEnvelope, Value.obj, Value.get?, Value.lookup_insertField]

theorem Uuid.text_ne_empty (u : Uuid) : u.text ≠ "" := by
  intro h
  have hempty := u.text_isEmpty
  rw [h] at hempty
  exact absurd hempty (by decide)

namespace EntryCall

variable (money : Money) (c : EntryCall) (t : Executions)

/-! ### One row for each call -/

/-- The call comes back before the kernel runs: SPI could not ask for the kernel, there is none, or
the agent is refused in a trigger. -/
inductive ReturnsEarly (c : EntryCall) : Prop where
  | spi (e : String) (h : c.ensured = .err e)
  | unavailable (e : String) (h : c.ensured = .ok) (hkernel : c.kernel = .error e)
  | refused (kernel : Kernel) (bad : String) (h : c.ensured = .ok) (hkernel : c.kernel = .ok kernel)
      (hbad : c.refusedFor kernel = some bad)

/-- The kernel the call runs on. -/
def reached (c : EntryCall) : Option Kernel :=
  match c.ensured, c.kernel with
  | .ok, .ok kernel => if c.refusedFor kernel = none then some kernel else none
  | _, _ => none

/-- The table as the run's own statements leave it. -/
def duringRun (c : EntryCall) (t : Executions) : Executions :=
  match c.reached with
  | some kernel => (kernel.run c.toCallInfo c.ceiling).executions t
  | none => t

/-- **One audit row**: the call added one row to what the run's own statements left, under an id that
was not there, for its agent and its input, and with the envelope's status. -/
def AuditedBy (c : EntryCall) (before : Executions) (envelope : Value) (after : Executions) : Prop :=
  ∃ row : AuditRow, row.executionId ∉ before.keys ∧ after.rows = before.rows ++ [row] ∧
    row.agentName = c.agent ∧ row.input = c.input ∧
    envelope.get? "status" = some (.string row.status)

/-- How a call stands: it raises, it comes back early with an error, or it runs on its kernel. -/
theorem execute_cases :
    (c.ensured = .raised ∧ c.execute money t = none) ∨
    (c.ReturnsEarly ∧ c.reached = none ∧ ∃ e, c.execute money t = some (errorEnvelope e, t)) ∨
    (¬ c.ReturnsEarly ∧ ∃ kernel, c.ensured = .ok ∧ c.kernel = .ok kernel ∧
      c.refusedFor kernel = none ∧ c.reached = some kernel) := by
  cases hensured : c.ensured with
  | raised => exact .inl ⟨rfl, by simp [execute, hensured]⟩
  | err e =>
    exact .inr (.inl ⟨.spi e hensured, by simp [reached, hensured], e, by simp [execute, hensured]⟩)
  | ok =>
    cases hkernel : c.kernel with
    | error e =>
      exact .inr (.inl ⟨.unavailable e hensured hkernel, by simp [reached, hensured, hkernel], e,
        by simp [execute, hensured, hkernel]⟩)
    | ok kernel =>
      cases hbad : c.refusedFor kernel with
      | some bad =>
        exact .inr (.inl ⟨.refused kernel bad hensured hkernel hbad,
          by simp [reached, hensured, hkernel, hbad], inlineRefusal c.agent bad,
          by simp only [execute, hensured, hkernel, hbad]⟩)
      | none =>
        refine .inr (.inr ⟨?_, kernel, rfl, rfl, hbad, by simp [reached, hensured, hkernel, hbad]⟩)
        rintro (⟨e, h⟩ | ⟨e, h, hk⟩ | ⟨k, bad, h, hk, hb⟩)
        · exact absurd (hensured.symm.trans h) (by simp)
        · exact absurd (hkernel.symm.trans hk) (by simp)
        · obtain rfl := Except.ok.inj (hkernel.symm.trans hk)
          exact absurd (hbad.symm.trans hb) (by simp)

variable {money c t}

/-- A call that runs on its kernel and comes back has logged its run. -/
theorem execute_reached {kernel : Kernel} {envelope : Value} {t' : Executions}
    (hensured : c.ensured = .ok) (hkernel : c.kernel = .ok kernel)
    (hbad : c.refusedFor kernel = none) (h : c.execute money t = some (envelope, t')) :
    let answer := kernel.run c.toCallInfo c.ceiling
    (∃ o, answer.result = some (.ok o) ∧ envelope = outcomeEnvelope money o ∧
      c.logOutcome money o none (answer.executions t) = some t') ∨
    (∃ e, answer.result = some (.error e) ∧ envelope = errorEnvelope (e.text money.text) ∧
      c.logError c.freshId (e.text money.text) (answer.executions t) = some t') := by
  simp only [execute, hensured, hkernel, hbad] at h
  simp only
  cases hres : (kernel.run c.toCallInfo c.ceiling).result with
  | none =>
    rw [hres] at h
    exact absurd h (by simp)
  | some res =>
    rw [hres] at h
    cases res with
    | ok o =>
      obtain ⟨t₁, hlog, heq⟩ := Option.map_eq_some_iff.mp h
      obtain ⟨rfl, rfl⟩ := Prod.mk.inj heq
      exact .inl ⟨o, rfl, rfl, hlog⟩
    | error e =>
      obtain ⟨t₁, hlog, heq⟩ := Option.map_eq_some_iff.mp h
      obtain ⟨rfl, rfl⟩ := Prod.mk.inj heq
      exact .inr ⟨e, rfl, rfl, hlog⟩

/-- The row of an outcome is one row more. -/
theorem logOutcome_audited {o : ExecutorOutcome} {t' : Executions} (hspi : c.auditSpi = .ok)
    (h : c.logOutcome money o none t = some t') : c.AuditedBy t (outcomeEnvelope money o) t' := by
  simp only [logOutcome, Audit.logExecution, Audit.write, hspi] at h
  obtain ⟨-, hid, hrows⟩ := Audit.recordRun_some h
  rw [Audit.dropPlaceholder_none] at hid hrows
  exact ⟨_, hid, hrows, rfl, rfl, outcomeEnvelope_status money o⟩

/-- The row of an error is one row more. -/
theorem logError_audited {message : String} {t' : Executions} (hspi : c.auditSpi = .ok)
    (hfresh : c.freshId ∉ t.keys) (h : c.logError c.freshId message t = some t') :
    c.AuditedBy t (errorEnvelope message) t' := by
  rw [logError, hspi] at h
  obtain ⟨-, rfl⟩ := Audit.logStatus_some h
  have hid : (statusRow c.toCallInfo c.freshId (some message) "errored").executionId ∉ t.keys := hfresh
  rw [Audit.recordStatus_of_notMem hid]
  exact ⟨_, hfresh, rfl, rfl, rfl, errorEnvelope_status message⟩

/-- **The audit trail of `synapse.execute`**: a call that hands back an envelope has left one audit
row with the envelope's status, unless it came back before the kernel ran, and then it has left
none. -/
theorem one_audit_row_iff (money : Money) (c : EntryCall) (t : Executions)
    (hspi : c.auditSpi = .ok) (hfresh : c.freshId ∉ (c.duringRun t).keys) :
    (∀ envelope t', c.execute money t = some (envelope, t') →
      c.AuditedBy (c.duringRun t) envelope t') ↔ ¬ c.ReturnsEarly := by
  rcases c.execute_cases money t with ⟨hraised, hnone⟩ | ⟨hearly, hreached, e, hexec⟩ |
    ⟨hearly, kernel, hensured, hkernel, hbad, hreached⟩
  · -- nothing is handed back, and the call did not come back early either
    have hearly : ¬ c.ReturnsEarly := by
      rintro (⟨e, h⟩ | ⟨e, h, -⟩ | ⟨k, bad, h, -, -⟩) <;>
        exact absurd (hraised.symm.trans h) (by simp)
    simp [hnone, hearly]
  · -- an envelope came back over an unchanged table
    refine iff_of_false ?_ (not_not_intro hearly)
    intro hall
    obtain ⟨row, -, hrows, -⟩ := hall _ _ hexec
    have hsame : c.duringRun t = t := by simp [duringRun, hreached]
    rw [hsame] at hrows
    exact absurd hrows (by simp)
  · -- the kernel ran, and either logger adds the row
    refine iff_of_true ?_ hearly
    intro envelope t' hexec
    have hduring : c.duringRun t = (kernel.run c.toCallInfo c.ceiling).executions t := by
      simp [duringRun, hreached]
    rw [hduring] at hfresh ⊢
    rcases execute_reached hensured hkernel hbad hexec with ⟨o, -, rfl, hlog⟩ | ⟨e, -, rfl, hlog⟩
    · exact logOutcome_audited hspi hlog
    · exact logError_audited hspi hfresh hlog

/-- An agent with one network tool. -/
def feedReader : AgentRow where
  name := "feed_reader"
  systemPrompt := "Read the feed."
  soul := none
  executorName := "conversation"
  llmProfileMain := some "main"
  llmProfileSmall := none
  llmProfileJudge := none
  embeddingProfile := none
  tools := ["http_get"]
  maxIterations := 8
  timeoutMs := 60000
  costCapUsd := none
  traceLevel := none
  components := .default

/-- A kernel with that agent, whose runs end with a given result. -/
def feedKernel (result : Except RuntimeError ExecutorOutcome) : Kernel where
  agents name := if name = "feed_reader" then some feedReader else none
  run _ _ := ⟨some result, id⟩

/-- A call for that agent at a given trigger depth. -/
def feedCall (depth : Int) (result : Except RuntimeError ExecutorOutcome) : EntryCall where
  agent := "feed_reader"
  input := "news"
  caller := none
  triggerDepth := some depth
  inlineTimeoutMs := 2000
  ensured := .ok
  kernel := .ok (feedKernel result)
  placeholderSpi := .ok
  auditSpi := .ok
  traceLevel := .info
  queuedId := ⟨1⟩
  freshId := ⟨2⟩

/-- The empty table. -/
def noExecutions : Executions := .empty

/-- The amounts of a run that costs nothing. -/
def noCost : Money := ⟨fun _ => "0", fun _ => .nat 0⟩

/-- An outcome with the given messages. -/
def feedOutcome (messages : List Message) : ExecutorOutcome :=
  { ExecutorOutcome.default with output := "done", messages := messages, tokensIn := 10 }

/-- The first message of a run. -/
def feedMessage : Message := ⟨⟨3⟩, 0, .user, some "news", none, none, none, none, ""⟩

theorem feed_fits {messages : List Message} (h : messages ∈ [[], [feedMessage]]) :
    RunDocument.InOrder messages ∧ RunDocument.DocumentFits noCost ⟨"feed_reader", "news", none⟩
      (feedOutcome messages) .info := by
  simp only [List.mem_cons, List.not_mem_nil, or_false] at h
  rcases h with rfl | rfl <;>
    exact ⟨by unfold RunDocument.InOrder; decide,
      ⟨by decide, by decide, by decide, by decide, by decide, by decide⟩,
      ⟨by decide, by decide, by decide +kernel, by decide⟩, by decide, by decide⟩

/-- The document of such a run can be read. -/
theorem feed_readable {messages : List Message} (h : messages ∈ [[], [feedMessage]])
    (supersedes : Option Uuid) :
    RunDocument.readable (RunDocument.logExecution noCost ⟨"feed_reader", "news", none⟩
      (feedOutcome messages) .info supersedes ⟨2⟩) = true :=
  (RunDocument.readable_logExecution (o := feedOutcome messages) (feed_fits h).1).mpr (feed_fits h).2

/-- The call for such a run hands back the envelope of its outcome. -/
theorem feedCall_execute {messages : List Message} (h : messages ∈ [[], [feedMessage]]) :
    ∃ t', (feedCall 0 (.ok (feedOutcome messages))).execute noCost noExecutions =
      some (outcomeEnvelope noCost (feedOutcome messages), t') := by
  have hid : (Audit.outcomeRow ⟨"feed_reader", "news", none⟩ (feedOutcome messages)
      ⟨2⟩).executionId ∉ (Audit.dropPlaceholder none noExecutions).keys := List.not_mem_nil
  have hexecute : (feedCall 0 (.ok (feedOutcome messages))).execute noCost noExecutions =
      (Audit.recordRun (RunDocument.logExecution noCost ⟨"feed_reader", "news", none⟩
        (feedOutcome messages) .info none ⟨2⟩) none (Audit.outcomeRow ⟨"feed_reader", "news", none⟩
        (feedOutcome messages) ⟨2⟩) noExecutions).map fun t =>
          (outcomeEnvelope noCost (feedOutcome messages), t) := rfl
  rw [hexecute, Audit.recordRun_of_readable (feed_readable h none) hid]
  exact ⟨_, rfl⟩

/-- Outside a trigger the agent runs, and its run is recorded. -/
theorem plain_call_audited :
    ∃ envelope t', (feedCall 0 (.ok (feedOutcome [feedMessage]))).execute noCost noExecutions =
        some (envelope, t') ∧
      (feedCall 0 (.ok (feedOutcome [feedMessage]))).AuditedBy noExecutions envelope t' := by
  have hearly : ¬ (feedCall 0 (.ok (feedOutcome [feedMessage]))).ReturnsEarly := by
    rintro (⟨e, h⟩ | ⟨e, h, hk⟩ | ⟨k, bad, h, hk, hb⟩)
    · exact absurd h (by simp [feedCall])
    · exact absurd hk (by simp [feedCall])
    · exact absurd hb (by simp [refusedFor, isInline, feedCall])
  have haudited := (one_audit_row_iff noCost (feedCall 0 (.ok (feedOutcome [feedMessage])))
    noExecutions rfl (by decide)).mpr hearly
  have hmessages : [feedMessage] ∈ [[], [feedMessage]] := by decide
  obtain ⟨t', hrun⟩ := feedCall_execute hmessages
  exact ⟨_, _, hrun, haudited _ _ hrun⟩

/-- In a trigger the agent is refused: the caller is told `errored`, and no row is written. -/
theorem inline_refusal_unrecorded :
    (feedCall 1 (.ok (feedOutcome [feedMessage]))).execute noCost noExecutions =
      some (errorEnvelope (inlineRefusal "feed_reader" "http_get"), noExecutions) ∧
    ¬ (feedCall 1 (.ok (feedOutcome [feedMessage]))).AuditedBy noExecutions
      (errorEnvelope (inlineRefusal "feed_reader" "http_get")) noExecutions := by
  refine ⟨rfl, ?_⟩
  rintro ⟨row, -, hrows, -⟩
  exact absurd hrows (by simp [noExecutions])

/-! ### The id that is handed back -/

/-- The id in an envelope. -/
def handedId (envelope : Value) : Option String :=
  (envelope.get? "execution_id").bind Value.asStr?

/-- The status of the row of a run. -/
def terminalStatus : Except RuntimeError ExecutorOutcome → String
  | .ok o => statusLabel o.status
  | .error _ => "errored"

/-- The text is the id of one row, and that row has the status. -/
def NamesRow (t : Executions) (text status : String) : Prop :=
  ∃ id row, text = Uuid.text id ∧ t.withKey id = [row] ∧ row.status = status

/-- A document without U+0000, of a run without an outcome. -/
def StatusTaken (c : EntryCall) (output : Option String) (status : String) : Prop :=
  (Text.noNul c.agent && Text.noNul c.input && output.all Text.noNul && Text.noNul status &&
    c.caller.all Text.noNul) = true

/-- The audit functions take the row of the run: its document can be read, and its id is not taken. -/
def Taken (money : Money) (c : EntryCall) (supersedes : Option Uuid)
    (res : Except RuntimeError ExecutorOutcome) (t : Executions) : Prop :=
  c.freshId ∉ t.keys ∧
    match res with
    | .ok o => RunDocument.readable (RunDocument.logExecution money c.toCallInfo o c.traceLevel
        supersedes c.freshId) = true ∧ ∀ id, Audit.firstId o = some id → id ∉ t.keys
    | .error e => c.StatusTaken (some (e.text money.text)) "errored"

/-- The result is no outcome without messages. -/
def HasMessages (res : Except RuntimeError ExecutorOutcome) : Prop :=
  ∀ o, res = .ok o → o.messages ≠ []

theorem firstId_eq_none {o : ExecutorOutcome} : Audit.firstId o = none ↔ o.messages = [] := by
  rw [Audit.firstId, Option.map_eq_none_iff, List.head?_eq_none_iff]

/-- The id of an outcome's row is not in the table. -/
theorem Taken.outcomeRow {supersedes : Option Uuid} {o : ExecutorOutcome}
    (h : Taken money c supersedes (.ok o) t) :
    (Audit.outcomeRow c.toCallInfo o c.freshId).executionId ∉ t.keys := by
  show (Audit.firstId o).getD c.freshId ∉ t.keys
  cases hid : Audit.firstId o with
  | none => exact h.1
  | some id => exact h.2.2 id hid

/-- The row of an outcome that is taken. -/
theorem logOutcome_taken {o : ExecutorOutcome} {supersedes : Option Uuid} (hspi : c.auditSpi = .ok)
    (h : Taken money c supersedes (.ok o) t) :
    ∃ t', c.logOutcome money o supersedes t = some t' ∧
      t'.withKey ((Audit.firstId o).getD c.freshId) =
        [Audit.outcomeRow c.toCallInfo o c.freshId] ∧
      ∀ id, id ∈ t'.keys → id ∈ (Audit.dropPlaceholder supersedes t).keys ∨
        id = (Audit.firstId o).getD c.freshId := by
  have hid : (Audit.outcomeRow c.toCallInfo o c.freshId).executionId ∉
      (Audit.dropPlaceholder supersedes t).keys := by
    intro hmem
    refine h.outcomeRow ?_
    cases supersedes with
    | none => rwa [Audit.dropPlaceholder_none] at hmem
    | some id => exact Table.mem_keys_of_keep hmem
  refine ⟨_, ?_, Table.withKey_insert _ _ hid, ?_⟩
  · simp only [logOutcome, Audit.logExecution, Audit.write, hspi]
    exact Audit.recordRun_of_readable h.2.1 hid
  · intro id hmem
    rw [Table.insert_keys, List.mem_append, List.mem_singleton] at hmem
    exact hmem

/-- The row of an error, under any id. -/
theorem logError_taken (hspi : c.auditSpi = .ok) (id : Uuid) {message : String}
    (htaken : c.StatusTaken (some message) "errored") :
    ∃ t' row, c.logError id message t = some t' ∧ t'.withKey id = [row] ∧
      row.status = "errored" := by
  obtain ⟨row, hrow, hstatus⟩ := Audit.recordStatus_withKey
    (statusRow c.toCallInfo id (some message) "errored") t
  refine ⟨_, row, ?_, hrow, hstatus⟩
  rw [logError, hspi]
  exact Audit.logStatus_of_storable ((RunDocument.statusDocument_storable _ _ _ _).trans htaken)

theorem statusLabel_ne_queued (status : OutcomeStatus) : statusLabel status ≠ "queued" := by
  cases status <;> simp [statusLabel]

/-- `synapse.execute` hands back the id of its row when the outcome has a message, and the empty text
when it has none. -/
theorem execute_names_iff {kernel : Kernel} {res : Except RuntimeError ExecutorOutcome}
    (hensured : c.ensured = .ok) (haudit : c.auditSpi = .ok) (hkernel : c.kernel = .ok kernel)
    (hbad : c.refusedFor kernel = none)
    (hres : (kernel.run c.toCallInfo c.ceiling).result = some res)
    (htaken : Taken money c none res ((kernel.run c.toCallInfo c.ceiling).executions t)) :
    ∃ envelope t', c.execute money t = some (envelope, t') ∧
      ((∀ text, handedId envelope = some text → NamesRow t' text (terminalStatus res)) ↔
        HasMessages res) ∧
      ∀ e, res = .error e → handedId envelope = none ∧
        c.AuditedBy ((kernel.run c.toCallInfo c.ceiling).executions t) envelope t' := by
  cases res with
  | ok o =>
    obtain ⟨t', hlog, hrow, hids⟩ := logOutcome_taken haudit htaken
    refine ⟨outcomeEnvelope money o, t', ?_, ?_, fun e he => absurd he (by simp)⟩
    · simp only [execute, hensured, hkernel, hbad, hres, hlog, Option.map_some]
    have hhanded : handedId (outcomeEnvelope money o) =
        some (((Audit.firstId o).map Uuid.text).getD "") := by
      rw [handedId, outcomeEnvelope_executionId]
      rfl
    cases hid : Audit.firstId o with
    | some id =>
      -- the envelope and the row both take the id of the first message
      rw [hid] at hrow hhanded
      refine iff_of_true ?_ ?_
      · intro text htext
        obtain rfl : id.text = text := Option.some.inj (hhanded.symm.trans htext)
        exact ⟨id, _, rfl, hrow, rfl⟩
      · intro o' ho' hempty
        obtain rfl := Except.ok.inj ho'
        exact absurd (hid.symm.trans (firstId_eq_none.mpr hempty)) (by simp)
    | none =>
      -- the envelope has the empty text, which is no id
      rw [hid] at hhanded
      refine iff_of_false ?_ ?_
      · intro hall
        obtain ⟨id, row, htext, -, -⟩ := hall _ hhanded
        exact id.text_ne_empty htext.symm
      · intro hall
        exact hall o rfl (firstId_eq_none.mp hid)
  | error e =>
    obtain ⟨t', row, hlog, hrow, hstatus⟩ :=
      logError_taken (t := (kernel.run c.toCallInfo c.ceiling).executions t) haudit c.freshId htaken.2
    have hnone : handedId (errorEnvelope (e.text money.text)) = none := by simp [handedId]
    refine ⟨errorEnvelope (e.text money.text), t', ?_, ?_, ?_⟩
    · simp only [execute, hensured, hkernel, hbad, hres, hlog, Option.map_some]
    · refine iff_of_true ?_ fun o ho => absurd ho (by simp)
      intro text htext
      exact absurd (hnone.symm.trans htext) (by simp)
    · exact fun _ _ => ⟨hnone, logError_audited haudit htaken.1 hlog⟩

/-- The table with the placeholder of an asynchronous call. -/
def placed (c : EntryCall) (t : Executions) : Executions :=
  Audit.recordStatus (statusRow c.toCallInfo c.queuedId none "queued") t

theorem placed_eq (hplace : c.placeholderSpi = .ok) (hqueued : c.StatusTaken none "queued") :
    Audit.logStatus c.placeholderSpi c.toCallInfo c.queuedId none "queued" t =
      some (c.placed t) := by
  rw [hplace]
  exact Audit.logStatus_of_storable ((RunDocument.statusDocument_storable _ _ _ _).trans hqueued)

/-- The id names the row of the run, and no placeholder of the call is left. -/
def AsyncNames (c : EntryCall) (id : Uuid) (t : Executions) (status : String) : Prop :=
  NamesRow t id.text status ∧ ∀ row ∈ t.withKey c.queuedId, row.status ≠ "queued"

/-- The row of an asynchronous call that failed is the one its placeholder stood for. -/
theorem logError_asyncNames (haudit : c.auditSpi = .ok) {message : String}
    (htaken : c.StatusTaken (some message) "errored") :
    ∃ t', c.logError c.queuedId message t = some t' ∧
      c.AsyncNames c.queuedId t' "errored" := by
  obtain ⟨t', row, hlog, hrow, hstatus⟩ :=
    logError_taken (t := t) haudit c.queuedId htaken
  refine ⟨t', hlog, ⟨c.queuedId, row, rfl, hrow, hstatus⟩, ?_⟩
  intro r hr
  rw [hrow, List.mem_singleton] at hr
  rw [hr, hstatus]
  decide

/-- `synapse.execute_async` hands back the id of its row, unless the outcome has no message. -/
theorem executeAsync_names_iff {kernel : Kernel} {res : Except RuntimeError ExecutorOutcome}
    (hensured : c.ensured = .ok) (hplace : c.placeholderSpi = .ok)
    (hqueued : c.StatusTaken none "queued") (haudit : c.auditSpi = .ok)
    (hne : c.freshId ≠ c.queuedId) (hkernel : c.kernel = .ok kernel)
    (hres : (kernel.run c.toCallInfo none).result = some res)
    (htaken : Taken money c (some c.queuedId) res
      ((kernel.run c.toCallInfo none).executions (c.placed t))) :
    ∃ id t', c.executeAsync money t = some (id, t') ∧
      (c.AsyncNames id t' (terminalStatus res) ↔ HasMessages res) := by
  have hplaced : Audit.logStatus c.placeholderSpi c.toCallInfo c.queuedId none "queued" t =
      some (c.placed t) := placed_eq hplace hqueued
  cases res with
  | error e =>
    obtain ⟨t', hlog, hnames⟩ := logError_asyncNames
      (t := (kernel.run c.toCallInfo none).executions (c.placed t)) haudit htaken.2
    -- the error goes into the placeholder's own row
    refine ⟨c.queuedId, t', ?_, iff_of_true hnames fun o ho => absurd ho (by simp)⟩
    simp only [executeAsync, hensured, hplaced, Option.bind_some, hkernel, hres, hlog,
      Option.map_some]
  | ok o =>
    obtain ⟨t', hlog, hrow, hids⟩ := logOutcome_taken haudit htaken
    refine ⟨(Audit.firstId o).getD c.queuedId, t', ?_, ?_⟩
    · simp only [executeAsync, hensured, hplaced, Option.bind_some, hkernel, hres, hlog,
        Option.map_some]
    cases hid : Audit.firstId o with
    | some id =>
      rw [hid] at hrow hids
      refine iff_of_true ⟨⟨id, _, rfl, hrow, rfl⟩, ?_⟩ ?_
      · -- a row under the placeholder's id is the row of the run
        intro r hr
        have hrid : r.executionId = c.queuedId := by simpa using (List.mem_filter.mp hr).2
        have hmem : c.queuedId ∈ t'.keys := hrid ▸ List.mem_map_of_mem (List.mem_filter.mp hr).1
        rcases hids c.queuedId hmem with hdel | heq
        · exact absurd rfl (Audit.ne_of_mem_dropPlaceholder hdel)
        · rw [heq, hrow, List.mem_singleton] at hr
          rw [hr]
          exact statusLabel_ne_queued o.status
      · intro o' ho' hempty
        obtain rfl := Except.ok.inj ho'
        exact absurd (hid.symm.trans (firstId_eq_none.mpr hempty)) (by simp)
    | none =>
      rw [hid] at hids
      refine iff_of_false ?_ fun hall => hall o rfl (firstId_eq_none.mp hid)
      rintro ⟨⟨id, row, htext, hwith, -⟩, -⟩
      -- the placeholder is gone, and the row stands under the fresh id
      have hqueued : c.queuedId ∉ t'.keys := by
        intro hmem
        rcases hids c.queuedId hmem with hdel | heq
        · exact Audit.ne_of_mem_dropPlaceholder hdel rfl
        · exact hne heq.symm
      obtain rfl : c.queuedId = id := Uuid.text_injective htext
      rw [Table.withKey_of_notMem hqueued] at hwith
      exact absurd hwith (by simp)

/-- **The id handed back**: whatever the kernel returns, the id `synapse.execute` or
`synapse.execute_async` hands to the caller is the id of one row, which has the terminal status of
the run, and no placeholder is left, if and only if the result is no outcome without messages.  On an
error `synapse.execute` hands back no id, and its row is there all the same. -/
theorem handed_id_names_row_iff (money : Money) (c : EntryCall) (t : Executions)
    (hensured : c.ensured = .ok) (hplace : c.placeholderSpi = .ok)
    (hqueued : c.StatusTaken none "queued") (haudit : c.auditSpi = .ok)
    (hne : c.freshId ≠ c.queuedId) :
    (∀ kernel res, c.kernel = .ok kernel → c.refusedFor kernel = none →
      (kernel.run c.toCallInfo c.ceiling).result = some res →
      Taken money c none res ((kernel.run c.toCallInfo c.ceiling).executions t) →
      ∃ envelope t', c.execute money t = some (envelope, t') ∧
        ((∀ text, handedId envelope = some text → NamesRow t' text (terminalStatus res)) ↔
          HasMessages res) ∧
        ∀ e, res = .error e → handedId envelope = none ∧
          c.AuditedBy ((kernel.run c.toCallInfo c.ceiling).executions t) envelope t') ∧
    (∀ kernel res, c.kernel = .ok kernel →
      (kernel.run c.toCallInfo none).result = some res →
      Taken money c (some c.queuedId) res
        ((kernel.run c.toCallInfo none).executions (c.placed t)) →
      ∃ id t', c.executeAsync money t = some (id, t') ∧
        (c.AsyncNames id t' (terminalStatus res) ↔ HasMessages res)) ∧
    ∀ e, c.kernel = .error e → c.StatusTaken (some ("kernel error: " ++ e)) "errored" →
      ∃ t', c.executeAsync money t = some (c.queuedId, t') ∧
        c.AsyncNames c.queuedId t' "errored" := by
  refine ⟨?_, ?_, ?_⟩
  · intro kernel res hkernel hbad hres htaken
    exact execute_names_iff hensured haudit hkernel hbad hres htaken
  · intro kernel res hkernel hres htaken
    exact executeAsync_names_iff hensured hplace hqueued haudit hne hkernel hres htaken
  · intro e hkernel htaken
    obtain ⟨t', hlog, hnames⟩ := logError_asyncNames (t := c.placed t) haudit htaken
    refine ⟨t', ?_, hnames⟩
    simp only [executeAsync, hensured, placed_eq hplace hqueued, Option.bind_some, hkernel, hlog,
      Option.map_some]

/-- The asynchronous call for such a run drops its placeholder and leaves one row. -/
theorem feedCall_executeAsync {messages : List Message} (h : messages ∈ [[], [feedMessage]]) :
    ∃ t', (feedCall 0 (.ok (feedOutcome messages))).executeAsync noCost noExecutions =
        some ((Audit.firstId (feedOutcome messages)).getD ⟨1⟩, t') ∧
      t'.rows = [Audit.outcomeRow ⟨"feed_reader", "news", none⟩ (feedOutcome messages) ⟨2⟩] := by
  have hid : (Audit.outcomeRow ⟨"feed_reader", "news", none⟩ (feedOutcome messages)
      ⟨2⟩).executionId ∉ (Audit.dropPlaceholder (some ⟨1⟩)
        ((feedCall 0 (.ok (feedOutcome messages))).placed noExecutions)).keys := List.not_mem_nil
  have hplaced := placed_eq (c := feedCall 0 (.ok (feedOutcome messages))) (t := noExecutions) rfl
    (show StatusTaken (feedCall 0 (.ok .default)) none "queued" by unfold StatusTaken; decide)
  have hexecute : (feedCall 0 (.ok (feedOutcome messages))).executeAsync noCost noExecutions =
      (Audit.recordRun (RunDocument.logExecution noCost ⟨"feed_reader", "news", none⟩
        (feedOutcome messages) .info (some ⟨1⟩) ⟨2⟩) (some ⟨1⟩)
        (Audit.outcomeRow ⟨"feed_reader", "news", none⟩ (feedOutcome messages) ⟨2⟩)
        ((feedCall 0 (.ok (feedOutcome messages))).placed noExecutions)).map fun t =>
          ((Audit.firstId (feedOutcome messages)).getD ⟨1⟩, t) := by
    simp only [executeAsync]
    show Option.bind (Audit.logStatus _ _ _ _ _ _) _ = _
    rw [hplaced]
    rfl
  rw [hexecute, Audit.recordRun_of_readable (feed_readable h (some ⟨1⟩)) hid]
  exact ⟨_, rfl, rfl⟩

/-- Both entry points name the row of a run whose outcome has a message. -/
theorem messages_name_row :
    (∃ envelope t', (feedCall 0 (.ok (feedOutcome [feedMessage]))).execute noCost noExecutions =
        some (envelope, t') ∧ handedId envelope = some (Uuid.text ⟨3⟩) ∧
      NamesRow t' (Uuid.text ⟨3⟩) "completed") ∧
    ∃ t', (feedCall 0 (.ok (feedOutcome [feedMessage]))).executeAsync noCost noExecutions =
        some (⟨3⟩, t') ∧
      (feedCall 0 (.ok (feedOutcome [feedMessage]))).AsyncNames ⟨3⟩ t' "completed" := by
  have hmessages : HasMessages (.ok (feedOutcome [feedMessage])) := by
    intro o ho
    rw [← Except.ok.inj ho]
    simp [feedOutcome]
  have hmem : [feedMessage] ∈ [[], [feedMessage]] := by decide
  have htaken : ∀ supersedes (t : Executions), ⟨2⟩ ∉ t.keys → ⟨3⟩ ∉ t.keys →
      Taken noCost (feedCall 0 (.ok (feedOutcome [feedMessage]))) supersedes
        (.ok (feedOutcome [feedMessage])) t := by
    intro supersedes t hfresh hid
    refine ⟨hfresh, feed_readable hmem supersedes, ?_⟩
    intro id hfirst
    obtain rfl : ⟨3⟩ = id := Option.some.inj hfirst
    exact hid
  obtain ⟨hexecute, hasync, -⟩ := handed_id_names_row_iff noCost
    (feedCall 0 (.ok (feedOutcome [feedMessage]))) noExecutions rfl rfl
    (by unfold StatusTaken; decide) rfl (by decide)
  obtain ⟨envelope, t', hrun, hnames, -⟩ := hexecute _ _ rfl (by decide) rfl
    (htaken none noExecutions (by decide) (by decide))
  obtain ⟨id, t'', hrun', hnames'⟩ := hasync _ _ rfl rfl
    (htaken (some ⟨1⟩) _ (by decide) (by decide))
  obtain ⟨t₁, hrun₁⟩ := feedCall_execute hmem
  obtain ⟨rfl, rfl⟩ := Prod.mk.inj (Option.some.inj (hrun.symm.trans hrun₁))
  obtain ⟨t₂, hrun₂, -⟩ := feedCall_executeAsync hmem
  obtain ⟨rfl, rfl⟩ := Prod.mk.inj (Option.some.inj (hrun'.symm.trans hrun₂))
  exact ⟨⟨_, _, hrun, rfl, hnames.mpr hmessages _ rfl⟩, _, hrun', hnames'.mpr hmessages⟩

/-- The id of an outcome without messages: `synapse.execute` hands back an empty text, and
`synapse.execute_async` the id of the placeholder it has just dropped. -/
theorem empty_outcome_misnamed :
    (∃ envelope t', (feedCall 0 (.ok (feedOutcome []))).execute noCost noExecutions =
        some (envelope, t') ∧ handedId envelope = some "" ∧ ¬ NamesRow t' "" "completed") ∧
    ∃ t', (feedCall 0 (.ok (feedOutcome []))).executeAsync noCost noExecutions = some (⟨1⟩, t') ∧
      t'.withKey ⟨1⟩ = [] ∧
      ¬ (feedCall 0 (.ok (feedOutcome []))).AsyncNames ⟨1⟩ t' "completed" := by
  have hmem : [] ∈ [[], [feedMessage]] := by decide
  obtain ⟨t₁, hrun₁⟩ := feedCall_execute hmem
  obtain ⟨t', hrun, hrows⟩ := feedCall_executeAsync hmem
  have hnone : t'.withKey ⟨1⟩ = [] := by
    rw [Table.withKey, hrows]
    decide
  refine ⟨⟨_, t₁, hrun₁, rfl, ?_⟩, t', hrun, hnone, ?_⟩
  · rintro ⟨id, row, htext, -, -⟩
    exact id.text_ne_empty htext.symm
  · rintro ⟨⟨id, row, htext, hwith, -⟩, -⟩
    obtain rfl : ⟨1⟩ = id := Uuid.text_injective htext
    rw [hnone] at hwith
    exact absurd hwith (by simp)

end EntryCall

end PgSynapse

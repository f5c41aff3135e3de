import PgSynapse.Pgrx.Equiv.RunDocument
import PgSynapse.Pgrx.Equiv.Spend

/-!
# The rows of a run

`run_recorded`: a run that ended with an outcome has its row, its messages and its events under the id
it was started with, if and only if Postgres can take its document.  The `synapse.record_run` of the
three tables is, on `synapse.executions`, the one that the entry points are modelled with
(`recordRun_auditRows`).
-/

namespace PgSynapse

namespace AuditTables

/-- The columns of `synapse.executions` that the entry points are about. -/
def auditRows (t : AuditTables) : Executions where
  rows := t.executions.rows.map RunRow.toAuditRow
  nodup := by
    rw [List.map_map]
    exact t.executions.nodup

theorem auditRows_superseded (t : AuditTables) (supersedes : Option Uuid) :
    (t.superseded supersedes).auditRows = Audit.dropPlaceholder supersedes t.auditRows := by
  cases supersedes with
  | none => rw [superseded_none, Audit.dropPlaceholder_none]
  | some id =>
    have hrows : (t.deleteRun id).auditRows.rows =
        (Audit.dropPlaceholder (some id) t.auditRows).rows := by
      show (t.executions.rows.filter _).map _ = (t.executions.rows.map _).filter _
      rw [List.filter_map]
      congr 2
      funext r
      simp
    rw [superseded_some]
    exact Table.eq_of_rows hrows

end AuditTables

namespace RunDocument

variable {money : Money} {call : CallInfo} {o : ExecutorOutcome} {level : TraceLevel}
  {supersedes : Option Uuid} {freshId : Uuid}

open AuditTables

/-- On `synapse.executions`, it is the `record_run` that the entry points are modelled with. -/
theorem recordRun_auditRows {model : String → Option String} {now : Nat} (h : InOrder o.messages)
    {t t' : AuditTables}
    (hrun : recordRun model now (logExecution money call o level supersedes freshId) t = some t') :
    Audit.recordRun (logExecution money call o level supersedes freshId) supersedes
      (Audit.outcomeRow call o freshId) t.auditRows = some t'.auditRows := by
  have hcases := @recordRun_logExecution money call o level supersedes freshId model now h t
  by_cases hrow : Recordable money call o level (runId o freshId) (t.superseded supersedes)
  · obtain ⟨t₁, hrun₁, hext⟩ := hcases.1 hrow
    obtain rfl := Option.some.inj (hrun₁.symm.trans hrun)
    have hkeys : (Audit.dropPlaceholder supersedes t.auditRows).keys =
        (t.superseded supersedes).executions.keys := by
      rw [← auditRows_superseded]
      exact List.map_map
    have hfree : (Audit.outcomeRow call o freshId).executionId ∉
        (Audit.dropPlaceholder supersedes t.auditRows).keys := hkeys ▸ hrow.free
    rw [Audit.recordRun_of_readable ((readable_logExecution h).mpr hrow.toDocumentFits) hfree,
      Option.some_inj]
    refine Table.eq_of_rows ?_
    rw [Table.insert_rows, ← auditRows_superseded]
    show _ = t₁.executions.rows.map RunRow.toAuditRow
    rw [hext.executions, List.map_append]
    rfl
  · rw [hcases.2 hrow] at hrun
    cases hrun

/-- **A recorded run**: of a run that ended with an outcome, `synapse.record_run` takes the document
just if the run can be recorded.  Then the tables are what they were without the placeholder, and the
row of the run, one row for each message and one for each event that the trace level keeps, all under
the id the run was started with. -/
theorem run_recorded {σ ε : Type} [Platform σ] (money : Money) (rt : Runtime σ ε) (passes : Nat)
    (req : Runtime.RunRequest σ) (maxTimeout : Option Nat) (env : σ) (call : CallInfo)
    (o : ExecutorOutcome) (level : TraceLevel) (supersedes : Option Uuid) (freshId : Uuid)
    (model : String → Option String) (now : Nat) (t : AuditTables)
    (h : (rt.execute passes call.agent req maxTimeout env).1 = some (.ok o)) :
    (Recordable money call o level req.executionId (t.superseded supersedes) → ∃ t',
      recordRun model now (logExecution money call o level supersedes freshId) t = some t' ∧
      (t.superseded supersedes).Extends t'
        { Audit.outcomeRow call o freshId with
          executionId := req.executionId, costUsd := (costOf money o).join,
          durationMs := some o.durationMs, model := model call.agent, startedAt := now,
          finishedAt := some now }
        ((keptMessages level o).map (messageRow req.executionId now))
        ((keptEvents level o).zipIdx.map (traceRow req.executionId now))) ∧
    (¬ Recordable money call o level req.executionId (t.superseded supersedes) →
      recordRun model now (logExecution money call o level supersedes freshId) t = none) := by
  have hid : runId o freshId = req.executionId := by
    rw [runId, (Runtime.execute_outcome h).1]
    rfl
  have hrow : runRow money model now call o freshId =
      { Audit.outcomeRow call o freshId with
        executionId := req.executionId, costUsd := (costOf money o).join,
        durationMs := some o.durationMs, model := model call.agent, startedAt := now,
        finishedAt := now } := by
    rw [← hid]
    rfl
  rw [← hrow, ← hid]
  exact recordRun_logExecution model now (Runtime.execute_inOrder h) t

/-- The messages of a run that completes are recorded. -/
theorem scribe_recorded : ∃ o t', (ReplyQueue.run "stop").1 = some (.ok o) ∧
    recordRun (fun _ => none) 0 (logExecution EntryCall.noCost (ReplyQueue.call "stop").toCallInfo o
      .full none ⟨9⟩) noRuns = some t' ∧
    t'.messages.rows.map (fun m => (m.seq, m.role)) =
      [(0, "system"), (1, "user"), (2, "assistant")] := by
  obtain ⟨o, ho, hrow, hmessages⟩ : ∃ o, (ReplyQueue.run "stop").1 = some (.ok o) ∧
      Recordable EntryCall.noCost (ReplyQueue.call "stop").toCallInfo o .full ⟨3⟩ noRuns ∧
      (keptMessages .full o).map (fun m => (m.seq, m.role)) =
        [(0, .system), (1, .user), (2, .assistant)] := by
    exact ⟨_, rfl, ⟨⟨⟨by decide, by decide, by decide, by decide, by decide, by decide⟩,
      ⟨by decide, by decide, by decide +kernel, by decide⟩, by decide, by decide⟩, by decide⟩,
      by decide⟩
  obtain ⟨t', hrun, hext⟩ := (run_recorded EntryCall.noCost ReplyQueue.runtime 1
    ⟨"news", none, ⟨3⟩, none⟩ none ⟨[ReplyQueue.reply "stop"]⟩ (ReplyQueue.call "stop").toCallInfo o
    .full none ⟨9⟩ (fun _ => none) 0 noRuns ho).1 hrow
  have hrows : t'.messages.rows.map (fun m => (m.seq, m.role)) =
      (keptMessages .full o).map fun m => ((m.seq.toNat : Int), m.role.text) := by
    rw [hext.messages]
    exact List.map_map
  have htexts := congrArg (List.map fun p : UInt32 × Role => ((p.1.toNat : Int), p.2.text))
    hmessages
  rw [List.map_map] at htexts
  exact ⟨o, t', ho, hrun, hrows.trans htexts⟩

end RunDocument

end PgSynapse

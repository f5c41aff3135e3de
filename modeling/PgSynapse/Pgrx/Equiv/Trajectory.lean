import PgSynapse.Pgrx.Equiv.RunRecorded
import PgSynapse.Pgrx.Trajectory

/-!
# How long a run can be read

A run that was recorded reads the same, its messages in the order it wrote them, whatever is recorded
of other runs, until the first purge that takes it; after that nothing of it is left
(`trajectory_lasts`).
-/

namespace PgSynapse

namespace AuditTables

variable {t t' t'' : AuditTables} {id : Uuid}

/-! ### What the tables have of a run -/

/-- The messages of a run, as they stand in the table. -/
def rowsOf (t : AuditTables) (id : Uuid) : List MessageRow :=
  t.messages.rows.filter fun m => m.executionId = id

/-- Both have the same of a run. -/
structure SameRun (t t' : AuditTables) (id : Uuid) : Prop where
  run : t'.executions.get id = t.executions.get id
  messages : t'.rowsOf id = t.rowsOf id

/-- Nothing is left of a run. -/
structure Gone (t : AuditTables) (id : Uuid) : Prop where
  run : t.executions.get id = none
  messages : t.rowsOf id = []

theorem SameRun.refl (t : AuditTables) (id : Uuid) : t.SameRun t id := ⟨rfl, rfl⟩

theorem SameRun.trans (h : t.SameRun t' id) (h' : t'.SameRun t'' id) : t.SameRun t'' id :=
  ⟨h'.run.trans h.run, h'.messages.trans h.messages⟩

theorem SameRun.gone (h : t.SameRun t' id) (hgone : t.Gone id) : t'.Gone id :=
  ⟨h.run.trans hgone.run, h.messages.trans hgone.messages⟩

/-- A run without a row has no messages, by the foreign key. -/
theorem gone_of_notMem (h : id ∉ t.executions.keys) : t.Gone id := by
  refine ⟨Table.get_of_notMem h, List.filter_eq_nil_iff.mpr fun m hm heq => h ?_⟩
  rw [← of_decide_eq_true heq]
  exact t.messages_fk m hm

/-! ### Statements -/

theorem deleteRun_sameRun {other : Uuid} (hne : id ≠ other) (t : AuditTables) :
    t.SameRun (t.deleteRun other) id := by
  constructor
  · exact Table.get_keep fun r _ hr => by simpa [hr] using hne
  · show (t.messages.rows.filter _).filter _ = t.messages.rows.filter _
    rw [List.filter_filter]
    refine List.filter_congr fun m _ => ?_
    by_cases hm : m.executionId = id
    · simp [hm, hne]
    · simp [hm]

theorem superseded_sameRun {supersedes : Option Uuid} (hne : supersedes ≠ some id)
    (t : AuditTables) : t.SameRun (t.superseded supersedes) id := by
  cases supersedes with
  | none => exact SameRun.refl t id
  | some other => exact deleteRun_sameRun (fun heq => hne (congrArg some heq.symm)) t

/-- The rows of another run. -/
theorem Extends.sameRun {row : RunRow} {ms : List MessageRow} {es : List TraceRow}
    (h : t.Extends t' row ms es) (hne : row.executionId ≠ id)
    (hms : ∀ m ∈ ms, m.executionId = row.executionId) : t.SameRun t' id := by
  constructor
  · unfold Table.get Table.withKey
    rw [h.executions, List.filter_append, List.filter_cons_of_neg (by simpa using hne),
      List.filter_nil, List.append_nil]
  · have hnone : (ms.filter fun m => m.executionId = id) = [] :=
      List.filter_eq_nil_iff.mpr fun m hm heq =>
        hne ((hms m hm).symm.trans (of_decide_eq_true heq))
    unfold rowsOf
    rw [h.messages, List.filter_append, hnone, List.append_nil]

/-- The rows of a new run. -/
theorem Extends.run {row : RunRow} {ms : List MessageRow} {es : List TraceRow}
    (h : t.Extends t' row ms es) (hnew : row.executionId ∉ t.executions.keys)
    (hms : ∀ m ∈ ms, m.executionId = row.executionId) :
    t'.executions.get row.executionId = some row ∧ t'.rowsOf row.executionId = ms := by
  constructor
  · refine Table.get_of_mem ?_
    rw [h.executions]
    exact List.mem_append_right _ List.mem_cons_self
  · have hall : (ms.filter fun m => m.executionId = row.executionId) = ms :=
      List.filter_eq_self.mpr fun m hm => decide_eq_true (hms m hm)
    unfold rowsOf
    rw [h.messages, List.filter_append, hall]
    exact (congrArg (· ++ ms) (gone_of_notMem hnew).messages).trans (List.nil_append ms)

theorem upsertRun_sameRun (t : AuditTables) (row : RunRow) (f : RunRow → RunRow)
    (hf : ∀ r, (f r).executionId = r.executionId) (hne : id ≠ row.executionId) :
    t.SameRun (t.upsertRun row f hf) id :=
  ⟨Table.get_upsert_of_ne t.executions row f hf hne, rfl⟩

/-- A purge that spares the run. -/
theorem deleteRuns_sameRun {p : RunRow → Bool} {r : RunRow} (hr : t.executions.get id = some r)
    (hp : p r = false) : t.SameRun (t.deleteRuns p) id := by
  have hkey : ∀ r' ∈ t.executions.rows, r'.executionId = id → p r' = false := by
    intro r' hr' hid
    have hget : t.executions.get r'.executionId = some r' := Table.get_of_mem hr'
    rw [hid, hr] at hget
    rw [← Option.some.inj hget]
    exact hp
  have hrun : (t.deleteRuns p).executions.get id = t.executions.get id :=
    Table.get_keep fun r' hr' hid => by rw [hkey r' hr' hid, Bool.not_false]
  refine ⟨hrun, ?_⟩
  have hkept : id ∈ (t.executions.keep fun r => !p r).keys := by
    by_contra hnot
    have hnone : (t.deleteRuns p).executions.get id = none := Table.get_of_notMem hnot
    rw [hrun, hr] at hnone
    cases hnone
  show (t.messages.rows.filter _).filter _ = t.messages.rows.filter _
  rw [List.filter_filter]
  refine List.filter_congr fun m _ => ?_
  by_cases hm : m.executionId = id
  · simp [hm, hkept]
  · simp [hm]

/-- A purge that takes the run, or that does not find it. -/
theorem deleteRuns_gone {p : RunRow → Bool} (hp : ∀ r, t.executions.get id = some r → p r = true) :
    (t.deleteRuns p).Gone id := by
  refine gone_of_notMem fun hmem => ?_
  obtain ⟨r, hr, rfl⟩ := List.mem_map.mp hmem
  obtain ⟨hr, hkeep⟩ := List.mem_filter.mp hr
  rw [hp r (Table.get_of_mem hr)] at hkeep
  cases hkeep

end AuditTables

/-! ### The writers -/

namespace RunDocument

open AuditTables

/-- The row of a run without an outcome. -/
def statusRunRow (model : String → Option String) (now : Nat) (call : CallInfo) (id : Uuid)
    (output : Option String) (status : String) : RunRow where
  toExecutionRow := statusRow call id output status
  tokensIn := 0
  tokensOut := 0
  costUsd := none
  durationMs := none
  model := model call.agent
  startedAt := now
  finishedAt := if status = "queued" then none else some now

/-- What `synapse.record_status` makes of the host's document. -/
theorem recordStatus_statusDocument (model : String → Option String) (now : Nat) (call : CallInfo)
    (id : Uuid) (output : Option String) (status : String) (t : AuditTables) :
    recordStatus model now (statusDocument call id output status) t =
      if (statusDocument call id output status).storable = true then
        let row := statusRunRow model now call id output status
        some (t.upsertRun row (fun r =>
          { r with status := status, output := output, finishedAt := row.finishedAt }) fun _ => rfl)
      else none := by
  have hcolumn : ∀ {key v}, (key, v) ∈ statusFields call id output status →
      (statusDocument call id output status).column key = v :=
    fun h => Value.column_obj (statusFields_nodup call id output status) h
  have hid : (statusDocument call id output status).column "execution_id" = .string id.text :=
    hcolumn (by simp [statusFields])
  have hagent : (statusDocument call id output status).column "agent_name" = .string call.agent :=
    hcolumn (by simp [statusFields])
  have hinput : (statusDocument call id output status).column "input" = .string call.input :=
    hcolumn (by simp [statusFields])
  have houtput : (statusDocument call id output status).column "output" = .ofOption output :=
    hcolumn (by simp [statusFields])
  have hstatus : (statusDocument call id output status).column "status" = .string status :=
    hcolumn (by simp [statusFields])
  have hcaller : (statusDocument call id output status).column "caller_role" =
      .ofOption call.caller := hcolumn (by simp [statusFields])
  unfold recordStatus
  rw [hid, hagent, hinput, houtput, hstatus, hcaller]
  cases (statusDocument call id output status).storable with
  | false => rfl
  | true =>
    simp only [Value.uuidColumn_text, Value.textColumn_string, Value.textColumn_ofOption]
    rfl

/-- A run that was recorded, whatever its outcome is. -/
theorem recordRun_some {money : Money} {call : CallInfo} {o : ExecutorOutcome} {level : TraceLevel}
    {supersedes : Option Uuid} {freshId : Uuid} {model : String → Option String} {now : Nat}
    {t t' : AuditTables}
    (h : recordRun model now (logExecution money call o level supersedes freshId) t = some t') :
    (t.superseded supersedes).Extends t' (runRow money model now call o freshId)
      ((keptMessages level o).map (messageRow (runId o freshId) now))
      ((keptEvents level o).zipIdx.map (traceRow (runId o freshId) now)) := by
  rw [recordRun_eq] at h
  split_ifs at h
  by_cases hfit : CountersFit money o
  · have hid : (runRow money model now call o freshId).executionId = runId o freshId := rfl
    rw [(readExecution_executionEntry money model now call o freshId).1 hfit, Option.bind_some, hid,
      mapM_of_checked (readMessage_messageEntry _ now),
      mapM_of_checked (readTrace_eventEntry _ now)] at h
    split_ifs at h
    · rw [Option.bind_some, Option.bind_some] at h
      by_cases hadmits : (t.superseded supersedes).Admits (runRow money model now call o freshId)
          ((keptMessages level o).map (messageRow (runId o freshId) now))
          ((keptEvents level o).zipIdx.map (traceRow (runId o freshId) now))
      · obtain ⟨t₁, hrun, hext⟩ := insertRun_of_admits hadmits
        obtain rfl := Option.some.inj (hrun.symm.trans h)
        exact hext
      · rw [insertRun_of_not hadmits] at h
        cases h
    all_goals simp at h
  · rw [(readExecution_executionEntry money model now call o freshId).2 hfit] at h
    cases h

/-- On `synapse.executions`, it is the `record_status` that the entry points are modelled with. -/
theorem recordStatus_auditRows {model : String → Option String} {now : Nat} {call : CallInfo}
    {id : Uuid} {output : Option String} {status : String} {t t' : AuditTables}
    (h : recordStatus model now (statusDocument call id output status) t = some t') :
    Audit.recordStatus (statusRow call id output status) t.auditRows = t'.auditRows := by
  rw [recordStatus_statusDocument] at h
  split_ifs at h
  obtain rfl := Option.some.inj h
  refine Table.eq_of_rows ?_
  exact Table.upsert_rows_map (g := RunRow.toAuditRow) rfl (fun _ => rfl) (fun _ => rfl)
    (statusRunRow model now call id output status)

end RunDocument

/-! ### A history of writes -/

/-- The write is about the run. -/
def AuditWrite.Names (id : Uuid) : AuditWrite → Prop
  | .run _ _ o _ supersedes freshId =>
    RunDocument.runId o freshId = id ∨ supersedes = some id
  | .status _ other _ _ => other = id
  | .purge _ _ => False

/-- The write is a purge that takes the run. -/
def AuditWrite.purges (c : AuditClock) (r : RunRow) : AuditWrite → Bool
  | .purge olderThanDays agentFilter =>
    (c.minusDays c.now olderThanDays).any fun cutoff => purged cutoff agentFilter r
  | _ => false

theorem AuditWrite.purges_purge (c : AuditClock) (r : RunRow) (days : Int)
    (agent : Option String) : (AuditWrite.purge days agent).purges c r =
      (c.minusDays c.now days).any fun cutoff => purged cutoff agent r := rfl

section Histories

open AuditTables RunDocument

variable {t : AuditTables} {id : Uuid}

/-- A write about another run. -/
theorem AuditWrite.apply_other {c : AuditClock} {w : AuditWrite} (hw : ¬w.Names id)
    (hpurge : ∀ days agent, w ≠ .purge days agent) : t.SameRun (w.apply c t) id := by
  cases w with
  | run money call o level supersedes freshId =>
    show t.SameRun ((RunDocument.recordRun c.model c.now
      (RunDocument.logExecution money call o level supersedes freshId) t).getD t) id
    cases hrun : RunDocument.recordRun c.model c.now
      (RunDocument.logExecution money call o level supersedes freshId) t with
    | none => exact SameRun.refl t id
    | some t' =>
      have hother : t.SameRun (t.superseded supersedes) id :=
        superseded_sameRun (fun h => hw (.inr h)) t
      exact hother.trans ((recordRun_some hrun).sameRun (fun h => hw (.inl h))
        (List.forall_mem_map.mpr fun _ _ => rfl))
  | status call other output label =>
    show t.SameRun ((RunDocument.recordStatus c.model c.now
      (statusDocument call other output label) t).getD t) id
    rw [recordStatus_statusDocument]
    split
    · exact upsertRun_sameRun t _ _ _ fun h => hw h.symm
    · exact SameRun.refl t id
  | purge days agent => exact absurd rfl (hpurge days agent)

/-- **One write** that is not about the run and does not purge it leaves what the tables have of
it. -/
theorem AuditWrite.apply_sameRun {c : AuditClock} {w : AuditWrite} (hw : ¬w.Names id) {r : RunRow}
    (hr : t.executions.get id = some r) (hspared : w.purges c r = false) :
    t.SameRun (w.apply c t) id := by
  cases w with
  | purge days agent =>
    show t.SameRun ((purgeTraces c.minusDays c.now days agent t).getD t) id
    unfold purgeTraces
    rw [purges_purge] at hspared
    cases hcutoff : c.minusDays c.now days with
    | none => exact SameRun.refl t id
    | some cutoff =>
      rw [hcutoff] at hspared
      exact deleteRuns_sameRun hr hspared
  | _ => exact apply_other hw (by simp)

/-- **One write** that is not about the run brings nothing of it back, and a purge that takes it
leaves nothing of it. -/
theorem AuditWrite.apply_gone {c : AuditClock} {w : AuditWrite} (hw : ¬w.Names id)
    (h : t.Gone id ∨ ∃ r, t.executions.get id = some r ∧ w.purges c r = true) :
    (w.apply c t).Gone id := by
  cases w with
  | purge days agent =>
    show ((purgeTraces c.minusDays c.now days agent t).getD t).Gone id
    unfold purgeTraces
    simp only [purges_purge] at h
    cases hcutoff : c.minusDays c.now days with
    | none =>
      rcases h with hgone | ⟨r, -, hpurged⟩
      · exact hgone
      · rw [hcutoff] at hpurged
        cases hpurged
    | some cutoff =>
      refine deleteRuns_gone fun r hr => ?_
      rcases h with hgone | ⟨r', hr', hpurged⟩
      · rw [hgone.run] at hr
        cases hr
      · rw [hcutoff] at hpurged
        obtain rfl : r' = r := Option.some.inj (hr'.symm.trans hr)
        exact hpurged
  | _ =>
    rcases h with hgone | ⟨r, -, hpurged⟩
    · exact (apply_other hw (by simp)).gone hgone
    · cases hpurged

/-- **A history of writes** that are not about the run leaves what the tables have of it, until a
purge takes all of it. -/
theorem auditTrail_run {history : List (AuditClock × AuditWrite)}
    (hother : ∀ w ∈ history, ¬w.2.Names id) {r : RunRow} (hr : t.executions.get id = some r) :
    ((history.any fun w => w.2.purges w.1 r) = false → t.SameRun (auditTrail history t) id) ∧
      ((history.any fun w => w.2.purges w.1 r) = true → (auditTrail history t).Gone id) := by
  have hgone : ∀ (ws : List (AuditClock × AuditWrite)) (t₁ : AuditTables),
      (∀ w ∈ ws, ¬w.2.Names id) → t₁.Gone id → (auditTrail ws t₁).Gone id := by
    intro ws
    induction ws with
    | nil => exact fun _ _ h => h
    | cons w rest ih =>
      intro t₁ hws h
      rw [List.forall_mem_cons] at hws
      exact ih _ hws.2 (AuditWrite.apply_gone hws.1 (.inl h))
  induction history generalizing t with
  | nil => exact ⟨fun _ => SameRun.refl t id, fun h => by cases h⟩
  | cons w rest ih =>
    rw [List.forall_mem_cons] at hother
    show (_ → t.SameRun (auditTrail rest (w.2.apply w.1 t)) id) ∧
      (_ → (auditTrail rest (w.2.apply w.1 t)).Gone id)
    rw [List.any_cons]
    cases hpurges : w.2.purges w.1 r with
    | true =>
      have hstep : (w.2.apply w.1 t).Gone id := AuditWrite.apply_gone hother.1 (.inr ⟨r, hr, hpurges⟩)
      exact ⟨fun h => by simp at h, fun _ => hgone rest _ hother.2 hstep⟩
    | false =>
      have hstep : t.SameRun (w.2.apply w.1 t) id := AuditWrite.apply_sameRun hother.1 hr hpurges
      have hrest := ih hother.2 (hstep.run.trans hr)
      rw [Bool.false_or]
      exact ⟨fun h => hstep.trans (hrest.1 h), hrest.2⟩

end Histories

/-! ### Reading a run -/

namespace Trajectory

open RunDocument

/-- Messages that are numbered in order are read in that order. -/
theorem insertionSort_rows {ms : List Message} (h : InOrder ms) (hlen : ms.length ≤ 2 ^ 31)
    (id : Uuid) (now : Nat) :
    ((ms.map (messageRow id now)).insertionSort fun a b => a.seq ≤ b.seq) =
      ms.map (messageRow id now) := by
  apply List.Pairwise.insertionSort_eq
  have hseqs : ms.map (fun m => m.seq.toNat) = List.range ms.length := by
    rw [h.seqs]
    refine (List.map_congr_left fun i hi => Nat.mod_eq_of_lt ?_).trans (List.map_id' _)
    have hi := List.mem_range.mp hi
    omega
  have hsorted : (ms.map fun m => m.seq.toNat).Pairwise (· < ·) := by
    rw [hseqs]
    exact List.pairwise_lt_range
  rw [List.pairwise_map] at hsorted ⊢
  exact hsorted.imp fun hlt => Int.ofNat_le.mpr (Nat.le_of_lt hlt)

/-- **How long a run can be read**: once a run is recorded, `synapse.trajectory` renders its row and
all messages that the trace level keeps, in the order the run wrote them, whatever the extension
records of other runs and whatever of that is refused, until a purge takes the run.  From then on it
renders an unknown run. -/
theorem trajectory_lasts {σ ε : Type} [Platform σ] {money : Money} {rt : Runtime σ ε} {passes : Nat}
    {req : Runtime.RunRequest σ} {maxTimeout : Option Nat} {env : σ} {call : CallInfo}
    {o : ExecutorOutcome} {level : TraceLevel} {supersedes : Option Uuid} {freshId : Uuid}
    {model : String → Option String} {now : Nat} {t t' : AuditTables}
    (hrun : (rt.execute passes call.agent req maxTimeout env).1 = some (.ok o))
    (hrecorded : RunDocument.recordRun model now
      (RunDocument.logExecution money call o level supersedes freshId) t = some t')
    {history : List (AuditClock × AuditWrite)}
    (hother : ∀ w ∈ history, ¬w.2.Names req.executionId) (pg : PgText) (n : Option Int) :
    trajectory pg (auditTrail history t') req.executionId n =
      if history.any fun w => w.2.purges w.1 (runRow money model now call o freshId) then
        render pg n req.executionId none []
      else
        render pg n req.executionId (some (runRow money model now call o freshId))
          ((keptMessages level o).map (messageRow req.executionId now)) := by
  have hid : runId o freshId = req.executionId := by
    rw [runId, (Runtime.execute_outcome hrun).1]
    rfl
  have horder : InOrder o.messages := Runtime.execute_inOrder hrun
  have hcases := @recordRun_logExecution money call o level supersedes freshId model now horder t
  -- a document that was taken could be recorded
  have hrow : Recordable money call o level (runId o freshId) (t.superseded supersedes) := by
    by_contra hnot
    rw [hcases.2 hnot] at hrecorded
    cases hrecorded
  have hext := recordRun_some hrecorded
  obtain ⟨hget, hrows⟩ := hext.run hrow.free (List.forall_mem_map.mpr fun _ _ => rfl)
  change t'.executions.get (runId o freshId) = _ at hget
  change t'.rowsOf (runId o freshId) = _ at hrows
  rw [hid] at hget hrows
  -- `synapse.trajectory` sorts by `seq`, the order the messages were written in
  have hsorted := insertionSort_rows (keptMessages_inOrder horder) hrow.messages req.executionId now
  obtain ⟨hspared, hpurged⟩ := auditTrail_run hother hget
  unfold trajectory messagesOf
  split_ifs with hany
  · obtain ⟨hnone, hnil⟩ := hpurged hany
    rw [AuditTables.rowsOf] at hnil
    rw [hnone, hnil]
    rfl
  · obtain ⟨hsame, hmessages⟩ := hspared (Bool.eq_false_iff.mpr hany)
    rw [AuditTables.rowsOf] at hmessages
    rw [hsame, hmessages, hget, hrows, hsorted]

/-- A clock whose days are units of time. -/
def clockAt (now : Nat) : AuditClock := ⟨fun _ => none, now, fun now days => some (now - days)⟩

/-- The placeholder of another run, and then a purge of what is older than seven days. -/
def laterWrites (now : Nat) : List (AuditClock × AuditWrite) :=
  [(clockAt 1, .status (ReplyQueue.call "stop").toCallInfo ⟨5⟩ none "queued"),
    (clockAt now, .purge 7 none)]

/-- Texts written as they are, and no documents. -/
def plainText : PgText := ⟨fun _ => "", id⟩

/-- A run at time 0 is read after a purge at time 5, and not after one at time 9. -/
theorem scribe_read : ∃ o t', (ReplyQueue.run "stop").1 = some (.ok o) ∧
    RunDocument.recordRun (fun _ => none) 0 (RunDocument.logExecution EntryCall.noCost
      (ReplyQueue.call "stop").toCallInfo o .full none ⟨9⟩) noRuns = some t' ∧
    trajectory plainText (auditTrail (laterWrites 5) t') ⟨3⟩ none =
      render plainText none ⟨3⟩ (some (runRow EntryCall.noCost (fun _ => none) 0
        (ReplyQueue.call "stop").toCallInfo o ⟨9⟩))
        ((keptMessages .full o).map (messageRow ⟨3⟩ 0)) ∧
    trajectory plainText (auditTrail (laterWrites 9) t') ⟨3⟩ none =
      render plainText none ⟨3⟩ none [] := by
  obtain ⟨o, ho, hrow⟩ : ∃ o, (ReplyQueue.run "stop").1 = some (.ok o) ∧
      Recordable EntryCall.noCost (ReplyQueue.call "stop").toCallInfo o .full (runId o ⟨9⟩)
        (noRuns.superseded none) := by
    exact ⟨_, rfl, ⟨⟨⟨by decide, by decide, by decide, by decide, by decide, by decide⟩,
      ⟨by decide, by decide, by decide +kernel, by decide⟩, by decide, by decide⟩, by decide⟩⟩
  obtain ⟨t', hrecorded, -⟩ := (recordRun_logExecution (fun _ => none) 0 (Runtime.execute_inOrder ho)
    noRuns).1 hrow
  have hother : ∀ now, ∀ w ∈ laterWrites now, ¬w.2.Names ⟨3⟩ := by
    intro now w hw
    rcases List.mem_pair.mp hw with rfl | rfl
    · exact (by decide : ¬(⟨5⟩ : Uuid) = ⟨3⟩)
    · exact id
  have hrun : (ReplyQueue.runtime.execute 1 (ReplyQueue.call "stop").agent
      ⟨"news", none, ⟨3⟩, none⟩ none ⟨[ReplyQueue.reply "stop"]⟩).1 = some (.ok o) := ho
  have hspared := trajectory_lasts hrun hrecorded (hother 5) plainText none
  have hpurged := trajectory_lasts hrun hrecorded (hother 9) plainText none
  exact ⟨o, t', ho, hrecorded, hspared.trans (if_neg (Bool.eq_false_iff.mp rfl)),
    hpurged.trans (if_pos rfl)⟩

end Trajectory

end PgSynapse

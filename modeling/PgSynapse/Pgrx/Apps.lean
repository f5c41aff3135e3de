import PgSynapse.Config.Tables
import PgSynapse.Lib.Transition
import PgSynapse.Pgrx.Schedules
import PgSynapse.Pgrx.SqlFunctions

/-!
# Apps

`synapse.app_register` and `synapse.app_drop` (`sql/schema.sql`) on the tables of the schema
`synapse` they read, write or cascade to, and the harness' writes to the tables of schedules and
questions.  A call that raises changes nothing.  The grants of a registration are left out, and of
the times those that no modelled statement sets.
-/

namespace PgSynapse

/-! ### Tables -/

/-- A row of `synapse.apps`. -/
structure AppRow where
  name : String
  title : Option String
  description : Option String
  schemaName : Option String
  connection : Option String
  deriving DecidableEq, Repr

/-- A row of `synapse.app_agents`. -/
structure AppAgent where
  app : String
  agent : String
  deriving DecidableEq, Repr

/-- The primary key of `synapse.app_agents`. -/
def AppAgent.key (b : AppAgent) : String × String := (b.app, b.agent)

/-- The values of `questions.kind`. -/
inductive QuestionKind where
  | sql
  | agent
  deriving DecidableEq, Repr

/-- A row of `synapse.questions`, with its CHECK. -/
structure Question where
  app : String
  name : String
  nlText : String
  kind : QuestionKind
  sqlText : Option String
  confirmedAt : Option Nat
  sqlPresent : kind = .sql → sqlText.isSome
  deriving DecidableEq

/-- The primary key of `synapse.questions`. -/
def Question.key (q : Question) : String × String := (q.app, q.name)

/-- A row of `synapse.lessons` with its key and the lesson that replaced it. -/
structure LessonRow where
  lessonId : Int
  record : LessonRecord
  supersededBy : Option Int
  deriving DecidableEq, Repr

/-- The agents and the tables that refer to them, with the foreign keys. -/
structure AgentTables where
  agents : Table AgentRecord.name
  skills : Table SkillRecord.key
  toolHints : List HintRecord
  lessons : Table LessonRow.lessonId
  skillAgents : ∀ k ∈ skills.rows, k.agent ∈ agents.keys
  hintAgents : ∀ h ∈ toolHints, ∀ agent ∈ h.agent, agent ∈ agents.keys
  lessonAgents : ∀ l ∈ lessons.rows, l.record.agent ∈ agents.keys
  successors : ∀ l ∈ lessons.rows, ∀ id ∈ l.supersededBy, id ∈ lessons.keys

/-- The tables around apps, with the foreign keys to `synapse.apps`. -/
structure AppTables where
  apps : Table AppRow.name
  appAgents : Table AppAgent.key
  schedules : Table Schedule.scheduleId
  questions : Table Question.key
  agentTables : AgentTables
  queue : List QueueRow
  executions : List ExecutionRow
  rowProvenance : List ProvenanceRow
  boundApps : ∀ b ∈ appAgents.rows, b.app ∈ apps.keys
  scheduledApps : ∀ sc ∈ schedules.rows, sc.app ∈ apps.keys

/-! ### DELETE with cascades -/

/-- `DELETE FROM synapse.agents WHERE name = ANY(names)`: the rows that refer to the agents go too,
and no lesson that stays may name one of those as its successor. -/
def AgentTables.deleteAgents (names : List String) (t : AgentTables) : Except String AgentTables :=
  let agents := t.agents.keep fun a => a.name ∉ names
  let skills := t.skills.keep fun k => k.agent ∉ names
  let toolHints := t.toolHints.filter fun h => h.agent.all fun agent => agent ∉ names
  let lessons := t.lessons.keep fun l => l.record.agent ∉ names
  if successors : ∀ l ∈ lessons.rows, ∀ id ∈ l.supersededBy, id ∈ lessons.keys then
    .ok { agents, skills, toolHints, lessons, successors
          skillAgents := by
            intro k hk
            obtain ⟨hk, hname⟩ := List.mem_filter.mp hk
            exact Table.mem_keys_keep (t.skillAgents k hk) fun a _ heq => heq ▸ hname
          hintAgents := by
            intro h hh agent hagent
            obtain ⟨hh, hname⟩ := List.mem_filter.mp hh
            rw [Option.mem_def.mp hagent] at hname
            exact Table.mem_keys_keep (t.hintAgents h hh agent hagent) fun a _ heq => heq ▸ hname
          lessonAgents := by
            intro l hl
            obtain ⟨hl, hname⟩ := List.mem_filter.mp hl
            exact Table.mem_keys_keep (t.lessonAgents l hl) fun a _ heq => heq ▸ hname }
  else
    .error ("update or delete on table \"lessons\" violates foreign key constraint " ++
      "\"lessons_superseded_by_fkey\" on table \"lessons\"")

namespace AppTables

/-! ### Registering and dropping -/

/-- What `app_register` returns. -/
structure Registered where
  app : String
  agent : String
  schema : Option String
  deriving DecidableEq, Repr

/-- `synapse.app_register`; `hasSchema` reads `pg_namespace`. -/
def appRegister (hasSchema : String → Bool) (appName agentName : String)
    (appTitle appDesc appSchema : Option String) (s : AppTables) :
    Except String (Registered × AppTables) :=
  if agentName ∉ s.agentTables.agents.keys then .error ("no agent named \"" ++ agentName ++ "\"")
  else
    match appSchema.filter fun schema => !hasSchema schema with
    | some schema => .error ("no schema named \"" ++ schema ++ "\"")
    | none =>
      let described (r : AppRow) : AppRow :=
        { r with
          title := appTitle.or r.title
          description := appDesc.or r.description
          schemaName := appSchema.or r.schemaName }
      let apps := s.apps.upsert ⟨appName, appTitle, appDesc, appSchema, none⟩ described fun _ => rfl
      -- ON CONFLICT DO NOTHING: a binding that is there stays as it is
      let appAgents := s.appAgents.upsert ⟨appName, agentName⟩ id fun _ => rfl
      .ok (⟨appName, agentName, appSchema⟩,
        { s with
          apps, appAgents
          boundApps := by
            intro b hb
            rw [Table.mem_keys_upsert]
            rcases Table.mem_upsert hb with ⟨hb, -⟩ | ⟨-, rfl⟩ | ⟨b', hb', -, rfl⟩
            · exact .inl (s.boundApps b hb)
            · exact .inr rfl
            · exact .inl (s.boundApps _ hb')
          scheduledApps := by
            intro sc hsc
            exact Table.mem_keys_upsert.mpr (.inl (s.scheduledApps sc hsc)) })

/-- What `app_drop` returns. -/
structure Dropped where
  app : String
  agentsRemoved : List String
  questionsRemoved : Nat
  schedulesRemoved : Nat
  schema : Option String
  dataDropped : Bool
  auditKept : Bool
  deriving DecidableEq, Repr

/-- The agents an app is bound to. -/
def agentsOf (s : AppTables) (app : String) : List String :=
  (s.appAgents.rows.filter fun b => b.app = app).map AppAgent.agent

/-- The DELETE statements of `app_drop`; the bindings and the schedules go by their foreign keys. -/
def deleteApp (appName : String) (agentTables : AgentTables) (s : AppTables) : AppTables :=
  let agentNames := s.agentsOf appName
  let live (q : QueueRow) : Bool := q.status = .queued || q.status = .running
  { s with
    questions := s.questions.keep fun q => q.app ≠ appName
    apps := s.apps.keep fun a => a.name ≠ appName
    appAgents := s.appAgents.keep fun b => b.app ≠ appName
    schedules := s.schedules.keep fun sc => sc.app ≠ appName
    agentTables := agentTables
    queue := s.queue.filter fun q => !(agentNames.contains q.agent && live q)
    boundApps := by
      intro b hb
      obtain ⟨hb, hname⟩ := List.mem_filter.mp hb
      exact Table.mem_keys_keep (s.boundApps b hb) fun a _ heq => heq ▸ hname
    scheduledApps := by
      intro sc hsc
      obtain ⟨hsc, hname⟩ := List.mem_filter.mp hsc
      exact Table.mem_keys_keep (s.scheduledApps sc hsc) fun a _ heq => heq ▸ hname }

/-- Whether `DROP SCHEMA ... CASCADE` takes the tables with it: of their own schema, and of the one that
`CREATE EXTENSION` put the extension in, on which the extension depends and with it all it made.
`extensionSchema` is that schema, `none` in an install by plain DDL. -/
def takesTables (extensionSchema : Option String) (schema : String) : Bool :=
  schema = "synapse" ∨ extensionSchema = some schema

/-- `synapse.app_drop`: what it returns and the tables it leaves, `none` where they are gone with a
schema.  `dropSchema` is how `DROP SCHEMA IF EXISTS ... CASCADE` ends; it fails on a schema that an
extension needs or the caller does not own. -/
def appDrop (extensionSchema : Option String) (dropSchema : String → Except String Unit)
    (appName : String) (dropData : Bool) (s : AppTables) :
    Except String (Dropped × Option AppTables) :=
  match s.apps.get appName with
  | none => .error ("no app named \"" ++ appName ++ "\"")
  | some app =>
    let agentNames := s.agentsOf appName
    let nQuestions := (s.questions.rows.filter fun q => q.app = appName).length
    let nSchedules := (s.schedules.rows.filter fun sc => sc.app = appName).length
    match s.agentTables.deleteAgents agentNames with
    | .error e => .error e
    | .ok agentTables =>
      let s' := s.deleteApp appName agentTables
      let dropped (data : Bool) : Dropped :=
        ⟨appName, agentNames, nQuestions, nSchedules, app.schemaName, data, true⟩
      match dropData, app.schemaName with
      | true, some schema =>
        match dropSchema schema with
        | .error e => .error e
        | .ok () => .ok (dropped true, if takesTables extensionSchema schema then none else some s')
      | _, _ => .ok (dropped false, some s')

/-! ### Writes -/

/-- The writes between drops.  A tick is enqueues and schedule updates. -/
inductive Write where
  | register (hasSchema : String → Bool) (appName agentName : String)
      (appTitle appDesc appSchema : Option String)
  | scheduleInsert (sc : Schedule)
  | scheduleUpdate (sc : Schedule)
  | scheduleDelete (scheduleId : Uuid)
  | questionSave (q : Question)
  | enqueue (q : QueueRow)

/-- INSERT of a schedule. -/
def scheduleInsert (sc : Schedule) (s : AppTables) : Except String AppTables :=
  if hid : sc.scheduleId ∈ s.schedules.keys then
    .error "duplicate key value violates unique constraint \"schedules_pkey\""
  else if happ : sc.app ∈ s.apps.keys then
    .ok { s with
      schedules := s.schedules.insert sc hid
      scheduledApps := by
        intro sc' hsc'
        rw [Table.insert_rows, List.mem_append, List.mem_singleton] at hsc'
        rcases hsc' with hsc' | rfl
        · exact s.scheduledApps sc' hsc'
        · exact happ }
  else
    .error ("insert or update on table \"schedules\" violates foreign key constraint " ++
      "\"schedules_app_fkey\"")

/-- UPDATE of the schedule with the same key. -/
def scheduleUpdate (sc : Schedule) (s : AppTables) : Except String AppTables :=
  if happ : sc.app ∈ s.apps.keys then
    let set (r : Schedule) : Schedule := { sc with scheduleId := r.scheduleId }
    .ok { s with
      schedules := s.schedules.update sc.scheduleId set fun _ => rfl
      scheduledApps := by
        intro sc' hsc'
        rcases (Table.mem_update _).mp hsc' with ⟨hsc', -⟩ | ⟨-, -, -, rfl⟩
        · exact s.scheduledApps sc' hsc'
        · exact happ }
  else
    .error ("insert or update on table \"schedules\" violates foreign key constraint " ++
      "\"schedules_app_fkey\"")

/-- DELETE of a schedule. -/
def scheduleDelete (scheduleId : Uuid) (s : AppTables) : AppTables :=
  { s with
    schedules := s.schedules.keep fun sc => sc.scheduleId ≠ scheduleId
    scheduledApps := fun sc hsc => s.scheduledApps sc (List.mem_filter.mp hsc).1 }

/-- The INSERT with ON CONFLICT DO UPDATE by which the harness saves a question. -/
def questionSave (q : Question) (s : AppTables) : AppTables :=
  let set (r : Question) : Question :=
    { r with
      nlText := q.nlText
      kind := q.kind
      sqlText := q.sqlText
      confirmedAt := q.confirmedAt
      sqlPresent := q.sqlPresent }
  { s with questions := s.questions.upsert q set fun _ => rfl }

/-- One write. -/
def write (s : AppTables) : Write → Except String AppTables
  | .register hasSchema appName agentName appTitle appDesc appSchema =>
    (s.appRegister hasSchema appName agentName appTitle appDesc appSchema).map Prod.snd
  | .scheduleInsert sc => s.scheduleInsert sc
  | .scheduleUpdate sc => s.scheduleUpdate sc
  | .scheduleDelete scheduleId => .ok (s.scheduleDelete scheduleId)
  | .questionSave q => .ok (s.questionSave q)
  | .enqueue q => .ok { s with queue := s.queue ++ [q] }

/-- One write that does not raise. -/
def step (s : AppTables) (w : Write) : Option AppTables := (s.write w).toOption

end AppTables

end PgSynapse

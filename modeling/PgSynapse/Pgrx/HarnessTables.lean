import PgSynapse.Lib.Savepoint
import PgSynapse.Pgrx.Configure

/-!
# The harness functions, write by write

The SQL functions that write what an agent's always-on text is made of (`sql_functions.rs`).  A body
says how the function ends and which tables it leaves behind; a call runs the body in a
subtransaction of its own, which an error that is raised rolls back.
-/

namespace PgSynapse

/-- The configuration with the keys of the lessons: the `lesson_id` of row `i` of `cfg.lessons` is
entry `i` of `lessonIds`. -/
structure HarnessTables where
  cfg : Config
  lessonIds : List Int
  nextLessonId : Int

/-- A call of a harness function.  The ids that failed calls used up before it are in
`skippedIds`. -/
inductive HarnessCall where
  | agentCreate (name systemPrompt executorName : String) (llmProfileMain : Option String)
      (tools : List String) (maxIterations timeoutMs : Int)
  | agentSetComponent (agent component : String) (value : Option String)
  | skillSet (agent name description body : String)
  | skillDrop (agent name : String)
  | lessonAdd (agent cue lesson evidence : String) (skippedIds : Nat)
  | lessonRetire (lessonId : Int) (supersededBy : Option Int)
  deriving DecidableEq, Repr

namespace HarnessTables

/-- A body that raises, if it does, before it writes. -/
def ofConfig (write : Config → Except String Config) (s : HarnessTables) :
    Except String Unit × HarnessTables :=
  match write s.cfg with
  | .ok cfg => (.ok (), { s with cfg := cfg })
  | .error e => (.error e, s)

theorem key_describe (description body : String) (r : SkillRecord) :
    SkillRecord.key { r with skill := { r.skill with description := description, body := body } } =
      r.key := rfl

/-- The body of `synapse.skill_set`. -/
def skillSet (env : PgEnv) (agent name description body : String) (s : HarnessTables) :
    Except String Unit × HarnessTables :=
  if Text.isBlank description || Text.isBlank body then
    (.error "skill description and body must not be empty", s)
  else if !Configure.validSkillName name then
    (.error "new row for relation \"skills\" violates check constraint \"skills_name_check\"", s)
  else if agent ∉ s.cfg.agents.keys then
    (.error ("insert or update on table \"skills\" violates foreign key constraint " ++
      "\"skills_agent_fkey\""), s)
  else
    let set (r : SkillRecord) : SkillRecord :=
      { r with skill := { r.skill with description := description, body := body } }
    let skills := s.cfg.skills.upsert ⟨agent, name, description, body⟩ set
      (key_describe description body)
    let written := { s with cfg := { s.cfg with skills := skills } }
    match Configure.alwaysOnAfter env written.cfg agent none none with
    | .error e => (.error e, written)
    | .ok total =>
      if total > Configure.alwaysOnMaxChars then
        -- the row is deleted by hand before the error is raised, also one that was there before
        let removed := skills.keep fun r => r.key ≠ (agent, name)
        (Configure.enforceAlwaysOnCap agent total,
          { written with cfg := { written.cfg with skills := removed } })
      else (.ok (), written)

/-- The body of `synapse.lesson_add`. -/
def lessonAdd (env : PgEnv) (agent cue lesson evidence : String) (skippedIds : Nat)
    (s : HarnessTables) : Except String Unit × HarnessTables :=
  if Text.isBlank cue || Text.isBlank lesson || Text.isBlank evidence then
    (.error ("cue, lesson and evidence must all be non-empty; a lesson without evidence is a " ++
      "guess"), s)
  else if agent ∉ s.cfg.agents.keys then
    (.error ("insert or update on table \"lessons\" violates foreign key constraint " ++
      "\"lessons_agent_fkey\""), s)
  else
    let id := s.nextLessonId + skippedIds
    let lessons := s.cfg.lessons ++ [⟨agent, cue, lesson, evidence, true⟩]
    let written : HarnessTables := ⟨{ s.cfg with lessons := lessons }, s.lessonIds ++ [id], id + 1⟩
    match Configure.alwaysOnAfter env written.cfg agent none none with
    | .error e => (.error e, written)
    | .ok total => (Configure.enforceAlwaysOnCap agent total, written)

/-- The body of `synapse.lesson_retire`. -/
def lessonRetire (lessonId : Int) (supersededBy : Option Int) (s : HarnessTables) :
    Except String Unit × HarnessTables :=
  let retire (i : Nat) (l : LessonRecord) : LessonRecord :=
    if s.lessonIds[i]? = some lessonId then { l with active := false } else l
  let written := { s with cfg := { s.cfg with lessons := s.cfg.lessons.mapIdx retire } }
  if lessonId ∉ s.lessonIds then
    (.error ("lesson " ++ toString lessonId ++ " does not exist"), s)
  else if supersededBy.any fun id => id ∉ s.lessonIds then
    (.error ("insert or update on table \"lessons\" violates foreign key constraint " ++
      "\"lessons_superseded_by_fkey\""), written)
  else (.ok (), written)

end HarnessTables

/-- The body of the function a call is of. -/
def HarnessCall.body (env : PgEnv) :
    HarnessCall → HarnessTables → Except String Unit × HarnessTables
  | .agentCreate name systemPrompt executorName llmProfileMain tools maxIterations timeoutMs =>
    HarnessTables.ofConfig (Configure.agentCreate name systemPrompt executorName llmProfileMain
      tools maxIterations timeoutMs)
  | .agentSetComponent agent component value =>
    HarnessTables.ofConfig (Configure.agentSetComponent env agent component value)
  | .skillSet agent name description body => HarnessTables.skillSet env agent name description body
  | .skillDrop agent name => HarnessTables.ofConfig (Configure.skillDrop agent name)
  | .lessonAdd agent cue lesson evidence skippedIds =>
    HarnessTables.lessonAdd env agent cue lesson evidence skippedIds
  | .lessonRetire lessonId supersededBy => HarnessTables.lessonRetire lessonId supersededBy

/-- A call, in a transaction: an error undoes what the call has written. -/
def HarnessCall.call (env : PgEnv) (c : HarnessCall) (b : Backend HarnessTables) :
    Except String Unit × Backend HarnessTables :=
  match b.beginSub.run (c.body env) with
  | (.ok (), b') => (.ok (), b'.release)
  | (.error e, b') => (.error e, b'.rollback)

end PgSynapse

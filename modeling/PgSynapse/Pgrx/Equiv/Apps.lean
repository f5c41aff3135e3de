import PgSynapse.Lib.Except
import PgSynapse.Pgrx.Apps

/-!
# What dropping an app touches

An app is dropped by its name, its agents and its schema, and an agent may be bound to several apps.
In a state that registrations and writes lead to, a drop leaves the other apps and the audit trail
alone exactly when no agent of the app is bound to another app and the schema it drops takes no table of
the extension with it (`appDrop_touchesOnly`).
-/

namespace PgSynapse

namespace AppTables

variable {s s' : AppTables}

/-! ### The agents of the bindings -/

/-- Every agent that is bound to an app is there. -/
def Bound (s : AppTables) : Prop := ∀ b ∈ s.appAgents.rows, b.agent ∈ s.agentTables.agents.keys

/-- A registration that returns: the agent is there, and the bindings are one more at most. -/
theorem appRegister_ok {hasSchema : String → Bool} {appName agentName : String}
    {appTitle appDesc appSchema : Option String} {r : Registered × AppTables}
    (h : s.appRegister hasSchema appName agentName appTitle appDesc appSchema = .ok r) :
    agentName ∈ s.agentTables.agents.keys ∧ r.2.agentTables = s.agentTables ∧
      ∀ b ∈ r.2.appAgents.rows, b ∈ s.appAgents.rows ∨ b = ⟨appName, agentName⟩ := by
  unfold appRegister at h
  split at h
  case isTrue => cases h
  case isFalse hagent =>
    split at h
    case h_1 => cases h
    case h_2 =>
      obtain rfl := Except.ok.inj h
      refine ⟨Decidable.not_not.mp hagent, rfl, ?_⟩
      intro b hb
      rcases Table.mem_upsert hb with ⟨hb, -⟩ | ⟨-, rfl⟩ | ⟨b', hb', -, rfl⟩
      · exact .inl hb
      · exact .inr rfl
      · exact .inl hb'

/-- A write that returns changes no agent, and binds only agents that are there. -/
theorem bound_write {w : Write} (hs : Bound s) (h : s.write w = .ok s') : Bound s' := by
  cases w with
  | register hasSchema appName agentName appTitle appDesc appSchema =>
    obtain ⟨r, hr, rfl⟩ := map_eq_ok.mp h
    -- the one write that binds checks its agent first
    obtain ⟨hagent, htables, hbindings⟩ := appRegister_ok hr
    intro b hb
    rw [htables]
    rcases hbindings b hb with hb | rfl
    · exact hs b hb
    · exact hagent
  | scheduleInsert sc =>
    simp only [write, scheduleInsert] at h
    split at h
    · cases h
    · split at h
      · obtain rfl := Except.ok.inj h
        exact hs
      · cases h
  | scheduleUpdate sc =>
    simp only [write, scheduleUpdate] at h
    split at h
    · obtain rfl := Except.ok.inj h
      exact hs
    · cases h
  | scheduleDelete id =>
    obtain rfl := Except.ok.inj h
    exact hs
  | questionSave q =>
    obtain rfl := Except.ok.inj h
    exact hs
  | enqueue q =>
    obtain rfl := Except.ok.inj h
    exact hs

/-- **Runs of writes** from tables without apps bind only agents that are there. -/
theorem bound_of_run {s₀ : AppTables} {writes : List Write} (hfresh : s₀.apps.rows = [])
    (hrun : runActs step s₀ writes = some s) : Bound s := by
  refine runActs_invariant (G := fun _ _ => True) ?_ (along_of_forall (fun _ _ => trivial) s₀) ?_
    hrun
  · intro s w s' _ hs hstep
    exact bound_write hs (toOption_eq_some.mp hstep)
  · intro b hb
    have happ := s₀.boundApps b hb
    rw [Table.keys, hfresh] at happ
    cases happ

/-! ### A drop -/

theorem deleteAgents_ok {names : List String} {t t' : AgentTables}
    (h : t.deleteAgents names = .ok t') : t'.agents = t.agents.keep fun a => a.name ∉ names := by
  unfold AgentTables.deleteAgents at h
  extract_lets agents skills toolHints lessons at h
  split at h
  · obtain rfl := Except.ok.inj h
    rfl
  · cases h

/-- The tables that a drop that returns leaves. -/
theorem appDrop_ok {extensionSchema : Option String} {dropSchema : String → Except String Unit}
    {appName : String} {dropData : Bool} {dropped : Dropped} {left : Option AppTables}
    (h : s.appDrop extensionSchema dropSchema appName dropData = .ok (dropped, left)) :
    ∃ app agentTables, s.apps.get appName = some app ∧
      s.agentTables.deleteAgents (s.agentsOf appName) = .ok agentTables ∧
      left = if dropData = true ∧ app.schemaName.any (takesTables extensionSchema) then none
        else some (s.deleteApp appName agentTables) := by
  unfold appDrop at h
  cases hget : s.apps.get appName with
  | none => rw [hget] at h; cases h
  | some app =>
    rw [hget] at h
    cases hagents : s.agentTables.deleteAgents (s.agentsOf appName) with
    | error e => simp only [hagents] at h; cases h
    | ok agentTables =>
      simp only [hagents] at h
      refine ⟨app, agentTables, rfl, rfl, ?_⟩
      split at h
      case h_1 schema hschema =>
        cases hdrop : dropSchema schema with
        | error e => rw [hdrop] at h; cases h
        | ok _ =>
          rw [hdrop] at h
          rw [← (Prod.mk.inj (Except.ok.inj h)).2, hschema]
          simp
      case h_2 hkeep =>
        rw [← (Prod.mk.inj (Except.ok.inj h)).2, if_neg]
        rintro ⟨hdata, hschema⟩
        obtain ⟨schema, hsome, -⟩ := (Option.any_eq_true _ _).mp hschema
        exact hkeep schema hdata hsome

/-! ### What it touches -/

/-- **A change that touches one app only.**  The jobs of an app are those of its agents, since a row
of the queue names an agent alone. -/
structure TouchesOnly (app : String) (s s' : AppTables) : Prop where
  executions : s'.executions = s.executions
  rowProvenance : s'.rowProvenance = s.rowProvenance
  agents : ∀ b ∈ s.appAgents.rows, b.app ≠ app →
    s'.agentTables.agents.get b.agent = s.agentTables.agents.get b.agent
  appAgents : (s'.appAgents.rows.filter fun b => b.app ≠ app) =
    s.appAgents.rows.filter fun b => b.app ≠ app
  schedules : (s'.schedules.rows.filter fun sc => sc.app ≠ app) =
    s.schedules.rows.filter fun sc => sc.app ≠ app
  questions : (s'.questions.rows.filter fun q => q.app ≠ app) =
    s.questions.rows.filter fun q => q.app ≠ app
  queue : ∀ b ∈ s.appAgents.rows, b.app ≠ app →
    (s'.queue.filter fun q => q.agent = b.agent) = s.queue.filter fun q => q.agent = b.agent

/-- No agent of the app is bound to another app. -/
def OwnsAgents (s : AppTables) (app : String) : Prop :=
  ∀ b ∈ s.appAgents.rows, b.agent ∈ s.agentsOf app → b.app = app

theorem touchesOnly_deleteApp {app : String} {agentTables : AgentTables} (hbound : Bound s)
    (hagents : s.agentTables.deleteAgents (s.agentsOf app) = .ok agentTables) :
    TouchesOnly app s (s.deleteApp app agentTables) ↔ OwnsAgents s app := by
  have hkept := deleteAgents_ok hagents
  constructor
  · intro htouches b hb hshared
    by_contra hother
    -- the drop deletes the shared agent
    have hgone : agentTables.agents.get b.agent = none := by
      rw [hkept]
      apply Table.get_keep_eq_none
      intro a _ ha
      simp [ha, hshared]
    obtain ⟨a, ha⟩ := Table.get_isSome (hbound b hb)
    have hsame := htouches.agents b hb hother
    rw [ha] at hsame
    exact absurd (hgone.symm.trans hsame) (by simp)
  · intro howns
    have hforeign : ∀ b ∈ s.appAgents.rows, b.app ≠ app → b.agent ∉ s.agentsOf app :=
      fun b hb hother hmem => hother (howns b hb hmem)
    refine ⟨rfl, rfl, ?_, Table.filter_keep _ _, Table.filter_keep _ _, Table.filter_keep _ _, ?_⟩
    · intro b hb hother
      show agentTables.agents.get b.agent = _
      rw [hkept]
      apply Table.get_keep
      intro a _ ha
      simp [ha, hforeign b hb hother]
    · intro b hb hother
      show List.filter _ (List.filter _ s.queue) = _
      rw [List.filter_filter]
      apply List.filter_congr
      intro q _
      by_cases hq : q.agent = b.agent
      · simp [hq, hforeign b hb hother]
      · simp [hq]

/-- **Dropping an app**, in a state that writes lead to: the other apps and the audit trail stay as
they are exactly when the app shares no agent and no schema goes that takes the tables with it: `synapse`, and
the one the extension is in. -/
theorem appDrop_touchesOnly {s₀ : AppTables} {writes : List Write} {extensionSchema : Option String}
    {dropSchema : String → Except String Unit} {appName : String} {dropData : Bool}
    {dropped : Dropped} {left : Option AppTables} (hfresh : s₀.apps.rows = [])
    (hrun : runActs step s₀ writes = some s)
    (hdrop : s.appDrop extensionSchema dropSchema appName dropData = .ok (dropped, left)) :
    (∃ s', left = some s' ∧ TouchesOnly appName s s') ↔
      OwnsAgents s appName ∧
        ¬(dropData = true ∧ ∃ app, s.apps.get appName = some app ∧
          app.schemaName.any (takesTables extensionSchema) = true) := by
  obtain ⟨app, agentTables, hget, hagents, rfl⟩ := appDrop_ok hdrop
  have htouches := touchesOnly_deleteApp (bound_of_run hfresh hrun) hagents
  have hschema : (∃ app', s.apps.get appName = some app' ∧
      app'.schemaName.any (takesTables extensionSchema) = true) ↔
        app.schemaName.any (takesTables extensionSchema) = true := by
    simp [hget]
  rw [hschema]
  by_cases hlost : dropData = true ∧ app.schemaName.any (takesTables extensionSchema) = true
  · rw [if_pos hlost]
    simp [hlost]
  · rw [if_neg hlost, ← htouches]
    simp [hlost]

/-! ### Two apps -/

namespace TwoApps

def agent (name : String) : AgentRecord :=
  ⟨name, "You keep the books.", none, "conversation", none, none, none, none, .ofList [], 10, 60000,
    none, none, .large, none, none, none⟩

/-- Two agents, and no app yet. -/
def tables : AppTables where
  apps := .empty
  appAgents := .empty
  schedules := .empty
  questions := .empty
  agentTables :=
    { agents := ⟨[agent "clerk", agent "auditor"], by decide⟩
      skills := .empty
      toolHints := []
      lessons := .empty
      skillAgents := by simp [Table.empty]
      hintAgents := by simp
      lessonAgents := by simp [Table.empty]
      successors := by simp [Table.empty] }
  queue := []
  executions := []
  rowProvenance := []
  boundApps := by simp [Table.empty]
  scheduledApps := by simp [Table.empty]

/-- The apps `sales` and `billing`, with one agent each. -/
def register (sales billing : String) : List Write :=
  [.register (fun _ => true) "sales" sales none none none,
    .register (fun _ => true) "billing" billing none none none]

/-- A drop that leaves the schemas alone, with the extension in `public`. -/
def drop (s : AppTables) : Except String (Dropped × Option AppTables) :=
  s.appDrop (some "public") (fun _ => .ok ()) "sales" false

/-- The registrations and the drop return, with these bindings in between. -/
theorem returns (sales billing : String) (bindings : List AppAgent)
    (h : ((runActs step tables (register sales billing)).bind fun s =>
      (drop s).toOption.map fun _ => s.appAgents.rows) = some bindings) :
    ∃ s dropped left, runActs step tables (register sales billing) = some s ∧
      s.appAgents.rows = bindings ∧ drop s = .ok (dropped, left) := by
  obtain ⟨s, hrun, hrest⟩ := Option.bind_eq_some_iff.mp h
  obtain ⟨⟨dropped, left⟩, hdrop, hbindings⟩ := Option.map_eq_some_iff.mp hrest
  exact ⟨s, dropped, left, hrun, hbindings, toOption_eq_some.mp hdrop⟩

/-- With an agent of its own, `sales` goes alone. -/
theorem own_agent : ∃ s dropped s', runActs step tables (register "clerk" "auditor") = some s ∧
    drop s = .ok (dropped, some s') ∧ TouchesOnly "sales" s s' := by
  obtain ⟨s, dropped, left, hrun, hbindings, hdrop⟩ := returns "clerk" "auditor"
    [⟨"sales", "clerk"⟩, ⟨"billing", "auditor"⟩] (by decide +kernel)
  have howns : OwnsAgents s "sales" := by
    simp [OwnsAgents, agentsOf, hbindings]
  obtain ⟨s', rfl, htouches⟩ :=
    (appDrop_touchesOnly rfl hrun hdrop).mpr ⟨howns, fun h => absurd h.1 (by decide)⟩
  exact ⟨s, dropped, s', hrun, hdrop, htouches⟩

/-- With an agent they share, `billing` loses its agent too. -/
theorem shared_agent : ∃ s dropped left,
    runActs step tables (register "clerk" "clerk") = some s ∧ drop s = .ok (dropped, left) ∧
      ¬∃ s', left = some s' ∧ TouchesOnly "sales" s s' := by
  obtain ⟨s, dropped, left, hrun, hbindings, hdrop⟩ := returns "clerk" "clerk"
    [⟨"sales", "clerk"⟩, ⟨"billing", "clerk"⟩] (by decide +kernel)
  obtain ⟨app, agentTables, -, hagents, hleft⟩ := appDrop_ok hdrop
  refine ⟨s, dropped, left, hrun, hdrop, ?_⟩
  rintro ⟨s', rfl, htouches⟩
  rw [if_neg (by simp), Option.some.injEq] at hleft
  rw [hleft, touchesOnly_deleteApp (bound_of_run rfl hrun) hagents] at htouches
  have hshared : "clerk" ∈ s.agentsOf "sales" := by
    simp [agentsOf, hbindings]
  have hbilling := htouches ⟨"billing", "clerk"⟩ (by simp [hbindings]) hshared
  exact absurd hbilling (by decide)

/-- The schema of the extension can be registered, and where its drop succeeds the tables are gone. -/
example :
    ((tables.appRegister (fun _ => true) "sales" "clerk" none none (some "public")).toOption.bind
      fun r => (r.2.appDrop (some "public") (fun _ => .ok ()) "sales" true).toOption.map
        fun d => d.2.isNone) = some true := by
  decide +kernel

end TwoApps

end AppTables

end PgSynapse

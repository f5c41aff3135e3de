import Mathlib.Algebra.Order.BigOperators.Group.List
import Mathlib.Algebra.Order.Ring.Nat
import PgSynapse.Lib.Transition
import PgSynapse.Pgrx.HarnessTables

/-!
# The cap on always-on text

An agent's total is a sum over its row, its active lessons and its skills, and fewer lessons or
skills make it no larger (`totalOf_le`).  Every call but `agent_create` checks the agent it writes
against the cap or takes something away, and none touches the total of another agent
(`HarnessCall.body_keeps`); a call that raises leaves the tables as they were
(`HarnessCall.call_error`).
-/

namespace PgSynapse

/-- `a` is there only where `b` is, and is then no longer. -/
def Shorter (a b : Option String) : Prop :=
  ∀ s, a = some s → ∃ t, b = some t ∧ s.length ≤ t.length

theorem Shorter.refl (a : Option String) : Shorter a a := fun s h => ⟨s, h, le_rfl⟩

theorem Shorter.none (b : Option String) : Shorter none b := by
  intro s h
  cases h

/-! ### Joined texts -/

/-- Joining fewer lines gives a text with characters left out. -/
theorem intercalate_sublist (sep : String) {lines' lines : List String}
    (h : List.Sublist lines' lines) :
    List.Sublist (sep.intercalate lines').toList (sep.intercalate lines).toList := by
  induction h with
  | slnil => exact List.Sublist.refl _
  | @cons lines' lines line h ih =>
    by_cases hnil : lines = []
    · subst hnil
      rw [List.sublist_nil.mp h, String.intercalate_nil]
      exact List.nil_sublist _
    · rw [String.intercalate_cons_of_ne_nil hnil, String.toList_append]
      exact ih.trans (List.sublist_append_right _ _)
  | @cons_cons lines' lines line h ih =>
    by_cases hnil' : lines' = []
    · subst hnil'
      rw [String.intercalate_singleton]
      by_cases hnil : lines = []
      · rw [hnil, String.intercalate_singleton]
      · rw [String.intercalate_cons_of_ne_nil hnil, String.toList_append, String.toList_append,
          List.append_assoc]
        exact List.sublist_append_left _ _
    · have hnil : lines ≠ [] := by
        rintro rfl
        exact hnil' (List.sublist_nil.mp h)
      rw [String.intercalate_cons_of_ne_nil hnil', String.intercalate_cons_of_ne_nil hnil]
      simp only [String.toList_append]
      exact List.Sublist.append (List.Sublist.refl _) ih

/-- The length of the always-on block of the three parts. -/
def blockChars (guardrails memory triggers : Option String) : Nat :=
  let parts := guardrails.toList ++ memory.toList ++ triggers.toList
  ((if parts.isEmpty then none else some ("\n\n".intercalate parts)).map String.length).getD 0

theorem blockChars_le (guardrails : Option String) {memory' memory triggers' triggers : Option String}
    (hm : Shorter memory' memory) (ht : Shorter triggers' triggers) :
    blockChars guardrails memory' triggers' ≤ blockChars guardrails memory triggers := by
  have hcases : ∀ {a b : Option String}, Shorter a b →
      a = none ∨ ∃ s t, a = some s ∧ b = some t ∧ s.length ≤ t.length := by
    intro a b h
    cases a with
    | none => exact .inl rfl
    | some s =>
      obtain ⟨t, hb, hle⟩ := h s rfl
      exact .inr ⟨s, t, rfl, hb, hle⟩
  rcases hcases hm with rfl | ⟨m', m, rfl, rfl, hm'⟩ <;>
    rcases hcases ht with rfl | ⟨t', t, rfl, rfl, ht'⟩ <;>
    cases guardrails <;> try cases memory
  all_goals try cases triggers
  all_goals
    simp [blockChars, String.intercalate_cons_cons, String.intercalate_singleton]
  all_goals omega

/-! ### The parts of the total -/

theorem nonBlank_shorter {s t : String} (h : (Text.trim s).length ≤ (Text.trim t).length) :
    Shorter (Harness.nonBlank (some s)) (Harness.nonBlank (some t)) := by
  intro r hr
  unfold Harness.nonBlank at hr ⊢
  rw [Option.map_some, Option.filter_eq_some_iff, Option.some.injEq] at hr
  obtain ⟨rfl, hne⟩ := hr
  refine ⟨Text.trim t, ?_, h⟩
  rw [Option.map_some, Option.filter_eq_some_iff]
  refine ⟨rfl, ?_⟩
  -- a text that is longer than one that is not empty is not empty
  simp only [Bool.not_eq_true', ← Bool.not_eq_true, String.isEmpty_iff] at hne ⊢
  intro hempty
  rw [hempty, String.length_empty, Nat.le_zero, String.length_eq_zero_iff] at h
  exact hne h

theorem nonBlank_of_blank {s : String} (h : Text.isBlank s = true) :
    Harness.nonBlank (some s) = none := by
  unfold Harness.nonBlank
  rw [Option.map_some, Option.filter_eq_none_iff]
  rintro t heq
  obtain rfl := Option.some.inj heq
  unfold Text.isBlank at h
  simp [h]

/-- The lessons as they are folded into the memory. -/
def lessonsBlock (lessons : List LessonRecord) : String :=
  lessonsHeader ++ "\n" ++ "\n".intercalate
    (lessons.map fun l => "- When " ++ Text.trim l.cue ++ ": " ++ Text.trim l.lesson)

theorem foldLessons_eq (memory : Option String) {lessons : List LessonRecord} (h : lessons ≠ []) :
    foldLessons memory lessons = some (match memory with
      | some m =>
        if Text.isBlank m then lessonsBlock lessons
        else Text.trimEnd m ++ "\n\n" ++ lessonsBlock lessons
      | none => lessonsBlock lessons) := by
  unfold foldLessons lessonsBlock
  rw [if_neg (by simpa using h)]
  cases memory with
  | none => rfl
  | some m =>
    simp only
    split <;> rfl

theorem lessonsBlock_sublist {lessons' lessons : List LessonRecord}
    (h : List.Sublist lessons' lessons) :
    List.Sublist (lessonsBlock lessons').toList (lessonsBlock lessons).toList := by
  unfold lessonsBlock
  rw [String.toList_append, String.toList_append (t := "\n".intercalate _)]
  exact List.Sublist.append (List.Sublist.refl _) (intercalate_sublist _ (h.map _))

/-- **Fewer lessons** leave no more of the memory. -/
theorem foldLessons_shorter (memory : Option String) {lessons' lessons : List LessonRecord}
    (h : List.Sublist lessons' lessons) :
    Shorter (Harness.nonBlank (foldLessons memory lessons'))
      (Harness.nonBlank (foldLessons memory lessons)) := by
  by_cases hnil' : lessons' = []
  · subst hnil'
    by_cases hnil : lessons = []
    · rw [hnil]
      exact .refl _
    -- the memory alone: a blank one counts for nothing, another stands trimmed in front
    have hmemory : foldLessons memory [] = memory := rfl
    rw [hmemory, foldLessons_eq memory hnil]
    cases memory with
    | none => exact .none _
    | some m =>
      by_cases hblank : Text.isBlank m = true
      · rw [nonBlank_of_blank hblank]
        exact .none _
      · simp only [hblank, Bool.false_eq_true, if_false]
        refine nonBlank_shorter ?_
        rw [← Text.trim_trim m, String.append_assoc]
        refine Text.trim_length_le ?_
        rw [String.toList_append]
        exact (Text.trim_sublist_trimEnd m).trans (List.sublist_append_left _ _)
  · have hnil : lessons ≠ [] := by
      rintro rfl
      exact hnil' (List.sublist_nil.mp h)
    rw [foldLessons_eq memory hnil', foldLessons_eq memory hnil]
    refine nonBlank_shorter (Text.trim_length_le ?_)
    have hblock := lessonsBlock_sublist h
    cases memory with
    | none => exact hblock
    | some m =>
      simp only
      split
      · exact hblock
      · rw [String.toList_append, String.toList_append (t := lessonsBlock lessons)]
        exact List.Sublist.append (List.Sublist.refl _) hblock

theorem skillTriggerBlock_length (h : Harness) (hne : h.skills ≠ []) :
    ∃ block, h.skillTriggerBlock = some block ∧ block.length = Harness.skillTriggerHeader.length +
      (h.skills.map fun s => (Harness.skillTriggerLine s).length).sum := by
  have hfold : ∀ (skills : List Skill) (out : String),
      (skills.foldl (fun out s => out ++ Harness.skillTriggerLine s) out).length =
        out.length + (skills.map fun s => (Harness.skillTriggerLine s).length).sum := by
    intro skills
    induction skills with
    | nil => simp
    | cons s rest ih =>
      intro out
      rw [List.foldl_cons, ih, String.length_append, List.map_cons, List.sum_cons]
      omega
  unfold Harness.skillTriggerBlock
  rw [if_neg (by simpa using hne)]
  exact ⟨_, rfl, hfold h.skills Harness.skillTriggerHeader⟩

theorem skillTriggerBlock_shorter {h' h : Harness} {skills' skills : List Skill}
    (hperm' : h'.skills.Perm skills') (hperm : h.skills.Perm skills)
    (hsub : List.Sublist skills' skills) : Shorter h'.skillTriggerBlock h.skillTriggerBlock := by
  by_cases hnil' : h'.skills = []
  · unfold Harness.skillTriggerBlock
    rw [hnil']
    exact .none _
  have hnil : h.skills ≠ [] := by
    intro hnil
    rw [hnil, List.nil_perm] at hperm
    rw [hperm, List.sublist_nil] at hsub
    rw [hsub, List.perm_nil] at hperm'
    exact hnil' hperm'
  obtain ⟨block', hblock', hlength'⟩ := skillTriggerBlock_length h' hnil'
  obtain ⟨block, hblock, hlength⟩ := skillTriggerBlock_length h hnil
  have hsum := (hsub.map fun s => (Harness.skillTriggerLine s).length).sum_le_sum
    fun _ _ => Nat.zero_le _
  rw [← (hperm'.map _).sum_eq, ← (hperm.map _).sum_eq] at hsum
  rw [hblock', hblock]
  rintro s hs
  obtain rfl := Option.some.inj hs
  exact ⟨block, rfl, by omega⟩

/-! ### The total of an agent -/

/-- The always-on characters of an agent, as `always_on_after` counts them for its stored row. -/
def totalOf (env : PgEnv) (cfg : Config) (a : AgentRecord) : Nat :=
  let row := loadHarnessExtras env cfg (Configure.alwaysOnRow a)
  Configure.totalAlwaysOnChars row.components row.systemPrompt row.soul

/-- The skills of an agent, in the order of the table. -/
def agentSkills (cfg : Config) (agent : String) : List Skill :=
  (cfg.skills.rows.filter fun s => s.agent = agent).map SkillRecord.skill

theorem alwaysOnAfter_of_get {env : PgEnv} {cfg : Config} {agent : String} {a : AgentRecord}
    (h : cfg.agents.get agent = some a) (component value : Option String) :
    Configure.alwaysOnAfter env cfg agent component value =
      .ok (totalOf env cfg (Configure.withComponent a component value)) := by
  unfold Configure.alwaysOnAfter
  rw [h]
  rfl

theorem totalOf_eq (env : PgEnv) (cfg : Config) (a : AgentRecord) :
    totalOf env cfg a = a.systemPrompt.length + (a.soul.map String.length).getD 0 +
      blockChars (Harness.nonBlank a.guardrails)
        (Harness.nonBlank (foldLessons a.memory (configLessons cfg a.name)))
        (loadHarnessExtras env cfg (Configure.alwaysOnRow a)).components.skillTriggerBlock :=
  rfl

/-- **Fewer lessons and skills make no larger total.** -/
theorem totalOf_le (env : PgEnv) {cfg' cfg : Config} (a : AgentRecord)
    (hlessons : List.Sublist (configLessons cfg' a.name) (configLessons cfg a.name))
    (hskills : List.Sublist (agentSkills cfg' a.name) (agentSkills cfg a.name)) :
    totalOf env cfg' a ≤ totalOf env cfg a := by
  rw [totalOf_eq, totalOf_eq]
  refine Nat.add_le_add_left (blockChars_le _ (foldLessons_shorter _ hlessons) ?_) _
  exact skillTriggerBlock_shorter (List.perm_insertionSort _ _) (List.perm_insertionSort _ _)
    hskills

/-- An agent without lessons and skills has its row alone. -/
theorem totalOf_bare (env : PgEnv) {cfg : Config} {a : AgentRecord}
    (hlessons : configLessons cfg a.name = []) (hskills : agentSkills cfg a.name = [])
    (hguardrails : a.guardrails = none) (hmemory : a.memory = none) (hsoul : a.soul = none) :
    totalOf env cfg a = a.systemPrompt.length := by
  have hsorted : configSkills env cfg a.name = [] := by
    unfold configSkills
    rw [show (cfg.skills.rows.filter fun s => s.agent = a.name).map SkillRecord.skill = [] from
      hskills]
    rfl
  have htriggers :
      (loadHarnessExtras env cfg (Configure.alwaysOnRow a)).components.skillTriggerBlock =
        none := by
    unfold Harness.skillTriggerBlock
    rw [show (loadHarnessExtras env cfg (Configure.alwaysOnRow a)).components.skills = [] from
      hsorted]
    rfl
  rw [totalOf_eq, htriggers, hlessons, hguardrails, hmemory, hsoul]
  rfl

/-! ### Bodies and their results

With its writes forgotten, a body is the function on the configuration.
-/

/-- What a body that returns leaves of the configuration, or the error it raises. -/
def HarnessTables.outcome (r : Except String Unit × HarnessTables) : Except String Config :=
  r.1.map fun _ => r.2.cfg

theorem HarnessTables.skillSet_outcome (env : PgEnv) (agent name description body : String)
    (s : HarnessTables) :
    outcome (HarnessTables.skillSet env agent name description body s) =
      Configure.skillSet env agent name description body s.cfg := by
  unfold HarnessTables.skillSet Configure.skillSet
  simp only [bind, Except.bind, pure, Except.pure]
  split
  · rfl
  split
  · rfl
  split
  · rfl
  split
  case h_1 e htotal => rw [htotal]; rfl
  case h_2 total htotal =>
    rw [htotal]
    simp only [Configure.enforceAlwaysOnCap]
    split <;> rfl

theorem HarnessTables.lessonAdd_outcome (env : PgEnv) (agent cue lesson evidence : String)
    (skippedIds : Nat) (s : HarnessTables) :
    outcome (HarnessTables.lessonAdd env agent cue lesson evidence skippedIds s) =
      Configure.lessonAdd env agent cue lesson evidence s.cfg := by
  unfold HarnessTables.lessonAdd Configure.lessonAdd
  simp only [bind, Except.bind, pure, Except.pure]
  split
  · rfl
  split
  · rfl
  split
  case h_1 e htotal => rw [htotal]; rfl
  case h_2 total htotal =>
    rw [htotal]
    simp only [Configure.enforceAlwaysOnCap]
    split <;> rfl

/-! ### The invariant -/

/-- The skills and the lessons belong to agents that are there, and every agent's total is within
the cap. -/
structure CapInv (env : PgEnv) (cfg : Config) : Prop where
  skills : ∀ s ∈ cfg.skills.rows, s.agent ∈ cfg.agents.keys
  lessons : ∀ l ∈ cfg.lessons, l.agent ∈ cfg.agents.keys
  within : ∀ a ∈ cfg.agents.rows, totalOf env cfg a ≤ Configure.alwaysOnMaxChars

/-- `enforce_always_on_cap` lets pass what is within the cap. -/
theorem enforceAlwaysOnCap_ok {agent : String} {total : Nat}
    (h : Configure.enforceAlwaysOnCap agent total = .ok ()) : total ≤ Configure.alwaysOnMaxChars := by
  unfold Configure.enforceAlwaysOnCap at h
  split at h
  · cases h
  · omega

/-- The total that was checked is the one of the agent's row. -/
theorem totalOf_checked {env : PgEnv} {cfg : Config} {agent : String} {component value : Option String}
    {total : Nat} (h : Configure.alwaysOnAfter env cfg agent component value = .ok total)
    {a : AgentRecord} (ha : a ∈ cfg.agents.rows) (hname : a.name = agent) :
    totalOf env cfg (Configure.withComponent a component value) = total := by
  have hget : cfg.agents.get agent = some a := hname ▸ Table.get_of_mem ha
  rw [alwaysOnAfter_of_get hget] at h
  exact Except.ok.inj h

section Calls

variable {env : PgEnv} {cfg cfg' : Config}

/-- **Writes that take away** keep the invariant. -/
theorem CapInv.of_fewer (inv : CapInv env cfg) (hagents : cfg'.agents = cfg.agents)
    (hskills : List.Sublist cfg'.skills.rows cfg.skills.rows)
    (hkept : ∀ l ∈ cfg'.lessons, ∃ l₀ ∈ cfg.lessons, l.agent = l₀.agent)
    (hlessons : ∀ agent, List.Sublist (configLessons cfg' agent) (configLessons cfg agent)) :
    CapInv env cfg' := by
  constructor
  · intro s hs
    rw [hagents]
    exact inv.skills s (hskills.subset hs)
  · intro l hl
    obtain ⟨l₀, hl₀, heq⟩ := hkept l hl
    rw [hagents, heq]
    exact inv.lessons l₀ hl₀
  · intro a ha
    rw [hagents] at ha
    have hfewer := totalOf_le env a (hlessons a.name) ((hskills.filter _).map SkillRecord.skill)
    exact hfewer.trans (inv.within a ha)

/-- **Writes for one agent** that check its total keep the invariant. -/
theorem CapInv.of_checked (inv : CapInv env cfg) {agent : String} (hagent : agent ∈ cfg.agents.keys)
    (hagents : cfg'.agents = cfg.agents)
    (hskills : ∀ s ∈ cfg'.skills.rows, s ∈ cfg.skills.rows ∨ s.agent = agent)
    (hlessons : ∀ l ∈ cfg'.lessons, l ∈ cfg.lessons ∨ l.agent = agent)
    (hothers : ∀ b, b ≠ agent →
      agentSkills cfg' b = agentSkills cfg b ∧ configLessons cfg' b = configLessons cfg b)
    {total : Nat} (hchecked : Configure.alwaysOnAfter env cfg' agent none none = .ok total)
    (htotal : total ≤ Configure.alwaysOnMaxChars) : CapInv env cfg' := by
  constructor
  · intro s hs
    rw [hagents]
    rcases hskills s hs with hold | hnew
    · exact inv.skills s hold
    · exact hnew ▸ hagent
  · intro l hl
    rw [hagents]
    rcases hlessons l hl with hold | hnew
    · exact inv.lessons l hold
    · exact hnew ▸ hagent
  · intro a ha
    by_cases hname : a.name = agent
    · have hown := totalOf_checked hchecked ha hname
      exact hown.le.trans htotal
    · obtain ⟨hskills', hlessons'⟩ := hothers a.name hname
      have hsame : totalOf env cfg' a ≤ totalOf env cfg a :=
        totalOf_le env a (hlessons' ▸ List.Sublist.refl _) (hskills' ▸ List.Sublist.refl _)
      exact hsame.trans (inv.within a (hagents ▸ ha))

/-- **Writes to the agents** keep the invariant where they leave every row they touch within the
cap. -/
theorem CapInv.of_agents (inv : CapInv env cfg) (hskills : cfg'.skills = cfg.skills)
    (hlessons : cfg'.lessons = cfg.lessons)
    (hkeys : ∀ k ∈ cfg.agents.keys, k ∈ cfg'.agents.keys)
    (hrows : ∀ a ∈ cfg'.agents.rows,
      a ∈ cfg.agents.rows ∨ totalOf env cfg a ≤ Configure.alwaysOnMaxChars) :
    CapInv env cfg' := by
  constructor
  · intro s hs
    exact hkeys _ (inv.skills s (hskills ▸ hs))
  · intro l hl
    exact hkeys _ (inv.lessons l (hlessons ▸ hl))
  · intro a ha
    have hsame : totalOf env cfg' a ≤ totalOf env cfg a := by
      refine totalOf_le env a ?_ ?_
      · unfold configLessons
        rw [hlessons]
      · unfold agentSkills
        rw [hskills]
    refine hsame.trans ?_
    rcases hrows a ha with hold | hwithin
    · exact inv.within a hold
    · exact hwithin

/-! ### The calls -/

/-- The condition on `agent_create`, which checks nothing: with the new prompt the agent stays
within the cap. -/
def CreateWithinCap (env : PgEnv) (cfg : Config) (name systemPrompt : String) : Prop :=
  match cfg.agents.get name with
  | none => systemPrompt.length ≤ Configure.alwaysOnMaxChars
  | some a => totalOf env cfg { a with systemPrompt := systemPrompt } ≤ Configure.alwaysOnMaxChars

/-- An agent that is not there has no lessons and no skills. -/
theorem CapInv.absent (inv : CapInv env cfg) {name : String} (h : name ∉ cfg.agents.keys) :
    configLessons cfg name = [] ∧ agentSkills cfg name = [] := by
  constructor
  · unfold configLessons
    rw [List.filter_eq_nil_iff]
    intro l hl hmatch
    simp only [Bool.and_eq_true, decide_eq_true_eq] at hmatch
    exact h (hmatch.1 ▸ inv.lessons l hl)
  · unfold agentSkills
    rw [List.map_eq_nil_iff, List.filter_eq_nil_iff]
    intro s hs hmatch
    rw [decide_eq_true_eq] at hmatch
    exact h (hmatch ▸ inv.skills s hs)

theorem CapInv.agentCreate (inv : CapInv env cfg) {name systemPrompt executorName : String}
    {llmProfileMain : Option String} {tools : List String} {maxIterations timeoutMs : Int}
    (hwithin : CreateWithinCap env cfg name systemPrompt)
    (h : Configure.agentCreate name systemPrompt executorName llmProfileMain tools maxIterations
      timeoutMs cfg = .ok cfg') : CapInv env cfg' := by
  obtain rfl := Except.ok.inj h
  refine inv.of_agents rfl rfl ?_ ?_
  · intro k hk
    exact Table.mem_keys_upsert.mpr (.inl hk)
  · intro a ha
    unfold CreateWithinCap at hwithin
    rcases Table.mem_upsert ha with ⟨hold, -⟩ | ⟨hnew, rfl⟩ | ⟨a₀, ha₀, hname, rfl⟩
    · exact .inl hold
    · -- a new agent has its prompt alone
      obtain ⟨hlessons, hskills⟩ := inv.absent hnew
      rw [Table.get_of_notMem hnew] at hwithin
      exact .inr ((totalOf_bare env hlessons hskills rfl rfl rfl).le.trans hwithin)
    · have hget : cfg.agents.get name = some a₀ := by
        have := Table.get_of_mem ha₀
        rwa [hname] at this
      rw [hget] at hwithin
      exact .inr hwithin

theorem agentSetComponent_ok {agent component : String} {value : Option String}
    (h : Configure.agentSetComponent env agent component value cfg = .ok cfg') :
    cfg' = { cfg with
      agents := cfg.agents.update agent (fun a => Configure.setColumn a component value)
        (Configure.setColumn_name component value) } ∧
    (component ≠ "critique" → ∃ total,
      Configure.alwaysOnAfter env cfg agent (some component) value = .ok total ∧
        total ≤ Configure.alwaysOnMaxChars) := by
  unfold Configure.agentSetComponent at h
  simp only [bind, Except.bind, pure, Except.pure] at h
  split at h
  · cases h
  split at h
  · cases h
  split at h
  case isTrue hc =>
    cases htotal : Configure.alwaysOnAfter env cfg agent (some component) value with
    | error e => rw [htotal] at h; cases h
    | ok total =>
      rw [htotal] at h
      cases hcap : Configure.enforceAlwaysOnCap agent total with
      | error e => simp only [hcap] at h; cases h
      | ok u =>
        simp only [hcap] at h
        split at h
        · exact ⟨(Except.ok.inj h).symm, fun _ => ⟨total, rfl, enforceAlwaysOnCap_ok hcap⟩⟩
        · cases h
  case isFalse hc =>
    split at h
    · exact ⟨(Except.ok.inj h).symm, fun hne => absurd hne hc⟩
    · cases h

/-- The critique prompt is not always-on. -/
theorem totalOf_setColumn (env : PgEnv) (cfg : Config) (a : AgentRecord) (component : String)
    (value : Option String) : totalOf env cfg (Configure.setColumn a component value) =
      if component = "critique" then totalOf env cfg a
      else totalOf env cfg (Configure.withComponent a (some component) value) := by
  unfold Configure.setColumn
  split <;> rfl

theorem CapInv.agentSetComponent (inv : CapInv env cfg) {agent component : String}
    {value : Option String}
    (h : Configure.agentSetComponent env agent component value cfg = .ok cfg') :
    CapInv env cfg' := by
  obtain ⟨rfl, hchecked⟩ := agentSetComponent_ok h
  refine inv.of_agents rfl rfl ?_ ?_
  · intro k hk
    rwa [Table.keys_update]
  · intro a ha
    rcases (Table.mem_update (Configure.setColumn_name component value)).mp ha with ⟨hold, -⟩ | ⟨a₀, ha₀, hname, rfl⟩
    · exact .inl hold
    · right
      rw [totalOf_setColumn]
      split
      · exact inv.within a₀ ha₀
      case isFalse hc =>
        obtain ⟨total, htotal, hle⟩ := hchecked hc
        exact (totalOf_checked htotal ha₀ hname).le.trans hle

theorem CapInv.skillDrop (inv : CapInv env cfg) {agent name : String}
    (h : Configure.skillDrop agent name cfg = .ok cfg') : CapInv env cfg' := by
  obtain rfl := Except.ok.inj h
  exact inv.of_fewer rfl List.filter_sublist (fun l hl => ⟨l, hl, rfl⟩)
    fun _ => List.Sublist.refl _

/-- `skill_set`, when it does not raise: the row is written and the agent is within the cap. -/
theorem HarnessTables.skillSet_ok {agent name description body : String} {s s' : HarnessTables}
    (h : HarnessTables.skillSet env agent name description body s = (.ok (), s')) :
    agent ∈ s.cfg.agents.keys ∧
    (∃ (set : SkillRecord → SkillRecord) (hset : ∀ r, (set r).key = r.key),
      s'.cfg = { s.cfg with
        skills := s.cfg.skills.upsert ⟨agent, name, description, body⟩ set hset }) ∧
    ∃ total, Configure.alwaysOnAfter env s'.cfg agent none none = .ok total ∧
      total ≤ Configure.alwaysOnMaxChars := by
  unfold HarnessTables.skillSet at h
  split at h
  · cases h
  split at h
  · cases h
  split at h
  · cases h
  case isFalse hagent =>
    simp only at h
    split at h
    · cases h
    case h_2 total htotal =>
      split at h
      case isTrue hover =>
        -- the cap is enforced on the total that is over it
        have hraised := enforceAlwaysOnCap_ok (Prod.mk.inj h).1
        omega
      case isFalse hwithin =>
        obtain rfl := (Prod.mk.inj h).2
        let set (r : SkillRecord) : SkillRecord :=
          { r with skill := { r.skill with description := description, body := body } }
        exact ⟨not_not.mp hagent, ⟨set, fun _ => rfl, rfl⟩, total, htotal,
          Nat.le_of_not_gt hwithin⟩

theorem CapInv.skillSet {agent name description body : String} {s s' : HarnessTables}
    (inv : CapInv env s.cfg)
    (h : HarnessTables.skillSet env agent name description body s = (.ok (), s')) :
    CapInv env s'.cfg := by
  obtain ⟨hagent, ⟨set, hset, hcfg⟩, total, htotal, hle⟩ := HarnessTables.skillSet_ok h
  rw [hcfg] at htotal ⊢
  have hother : ∀ (b : String) (r : SkillRecord), b ≠ agent → r.key = (agent, name) →
      decide (r.agent = b) = false := by
    intro b r hb hkey
    have hr : r.agent = agent := congrArg Prod.fst hkey
    rw [hr, decide_eq_false_iff_not]
    exact Ne.symm hb
  refine inv.of_checked hagent rfl ?_ (fun l hl => .inl hl) ?_ htotal hle
  · intro r hr
    rcases Table.mem_upsert hr with ⟨hold, -⟩ | ⟨-, rfl⟩ | ⟨r₀, -, hkey, rfl⟩
    · exact .inl hold
    · exact .inr rfl
    · exact .inr (congrArg Prod.fst ((hset r₀).trans hkey))
  · intro b hb
    refine ⟨?_, rfl⟩
    unfold agentSkills
    rw [Table.filter_upsert fun r hkey => hother b r hb hkey]

/-- `lesson_add`, when it does not raise: the row is written and the agent is within the cap. -/
theorem HarnessTables.lessonAdd_ok {agent cue lesson evidence : String} {skippedIds : Nat}
    {s s' : HarnessTables}
    (h : HarnessTables.lessonAdd env agent cue lesson evidence skippedIds s = (.ok (), s')) :
    agent ∈ s.cfg.agents.keys ∧
    s'.cfg = { s.cfg with
      lessons := s.cfg.lessons ++ [⟨agent, cue, lesson, evidence, true⟩] } ∧
    ∃ total, Configure.alwaysOnAfter env s'.cfg agent none none = .ok total ∧
      total ≤ Configure.alwaysOnMaxChars := by
  unfold HarnessTables.lessonAdd at h
  split at h
  · cases h
  split at h
  · cases h
  case isFalse hagent =>
    simp only at h
    split at h
    · cases h
    case h_2 total htotal =>
      obtain ⟨hcap, rfl⟩ := Prod.mk.inj h
      exact ⟨not_not.mp hagent, rfl, total, htotal, enforceAlwaysOnCap_ok hcap⟩

theorem CapInv.lessonAdd {agent cue lesson evidence : String} {skippedIds : Nat}
    {s s' : HarnessTables} (inv : CapInv env s.cfg)
    (h : HarnessTables.lessonAdd env agent cue lesson evidence skippedIds s = (.ok (), s')) :
    CapInv env s'.cfg := by
  obtain ⟨hagent, hcfg, total, htotal, hle⟩ := HarnessTables.lessonAdd_ok h
  rw [hcfg] at htotal ⊢
  refine inv.of_checked hagent rfl (fun r hr => .inl hr) ?_ ?_ htotal hle
  · intro l hl
    rcases List.mem_append.mp hl with hold | hnew
    · exact .inl hold
    · rw [List.mem_singleton.mp hnew]
      exact .inr rfl
  · intro b hb
    refine ⟨rfl, ?_⟩
    unfold configLessons
    rw [List.filter_append, List.filter_cons_of_neg (by simp [Ne.symm hb]), List.filter_nil,
      List.append_nil]

/-- Retiring rows leaves fewer that meet a condition on active rows. -/
theorem filter_mapIdx_sublist {ρ : Type} {p : ρ → Bool} {f : Nat → ρ → ρ}
    (hf : ∀ i r, f i r = r ∨ p (f i r) = false) (rows : List ρ) :
    List.Sublist ((rows.mapIdx f).filter p) (rows.filter p) := by
  induction rows generalizing f with
  | nil => exact List.Sublist.refl _
  | cons r rest ih =>
    rw [List.mapIdx_cons, List.filter_cons, List.filter_cons]
    have hrest := ih fun i r => hf (i + 1) r
    rcases hf 0 r with hsame | hgone
    · rw [hsame]
      split
      · exact hrest.cons_cons r
      · exact hrest
    · rw [if_neg (by simp [hgone])]
      split
      · exact hrest.cons r
      · exact hrest

theorem CapInv.lessonRetire {lessonId : Int} {supersededBy : Option Int} {s s' : HarnessTables}
    (inv : CapInv env s.cfg)
    (h : HarnessTables.lessonRetire lessonId supersededBy s = (.ok (), s')) :
    CapInv env s'.cfg := by
  unfold HarnessTables.lessonRetire at h
  simp only at h
  split at h
  · cases h
  split at h
  · cases h
  obtain rfl := (Prod.mk.inj h).2
  refine inv.of_fewer rfl (List.Sublist.refl _) ?_ ?_
  · intro l hl
    obtain ⟨i, hi, rfl⟩ := List.mem_mapIdx.mp hl
    refine ⟨s.cfg.lessons[i], List.getElem_mem hi, ?_⟩
    split <;> rfl
  · intro agent
    refine filter_mapIdx_sublist ?_ s.cfg.lessons
    intro i l
    split
    · exact .inr (by simp)
    · exact .inl rfl

end Calls

/-! ### Calls and runs -/

namespace HarnessCall

theorem call_ok {env : PgEnv} {c : HarnessCall} {b b' : Backend HarnessTables}
    (h : c.call env b = (.ok (), b')) :
    c.body env b.cur = (.ok (), b'.cur) ∧ b'.saved = b.saved := by
  unfold call at h
  rcases hbody : c.body env b.cur with ⟨result, s'⟩
  have hrun : b.beginSub.run (c.body env) = (result, ⟨s', b.beginSub.saved⟩) := by
    unfold Backend.run
    rw [show b.beginSub.cur = b.cur from rfl, hbody]
  rw [hrun] at h
  cases result with
  | error e => cases h
  | ok u =>
    obtain rfl := (Prod.mk.inj h).2
    exact ⟨rfl, rfl⟩

/-- **A call that raises** leaves the tables as they were, whatever it had written. -/
theorem call_error {env : PgEnv} {c : HarnessCall} {b : Backend HarnessTables} {e : String}
    (h : (c.call env b).1 = .error e) : (c.call env b).2 = b := by
  unfold call at h ⊢
  rcases hrun : b.beginSub.run (c.body env) with ⟨result, b'⟩
  rw [hrun] at h
  cases result with
  | ok u => cases h
  | error e' =>
    have hsaved : b'.saved = b.beginSub.saved := by
      unfold Backend.run at hrun
      obtain rfl := (Prod.mk.inj hrun).2
      rfl
    exact Backend.rollback_of_saved hsaved

/-- A call that returns, as a step of the tables. -/
def step (env : PgEnv) (s : HarnessTables) (c : HarnessCall) : Option HarnessTables :=
  match c.call env ⟨s, []⟩ with
  | (.ok (), b) => some b.cur
  | (.error _, _) => none

/-- The condition on the calls of `agent_create`. -/
def Checked (env : PgEnv) (s : HarnessTables) : HarnessCall → Prop
  | agentCreate name systemPrompt _ _ _ _ _ => CreateWithinCap env s.cfg name systemPrompt
  | _ => True

theorem ofConfig_ok {write : Config → Except String Config} {s s' : HarnessTables}
    (h : HarnessTables.ofConfig write s = (.ok (), s')) : write s.cfg = .ok s'.cfg := by
  unfold HarnessTables.ofConfig at h
  split at h
  case h_1 cfg hcfg =>
    obtain rfl := (Prod.mk.inj h).2
    exact hcfg
  case h_2 => cases h

/-- **One call** keeps the invariant. -/
theorem body_keeps {env : PgEnv} {c : HarnessCall} {s s' : HarnessTables}
    (hchecked : Checked env s c) (inv : CapInv env s.cfg) (h : c.body env s = (.ok (), s')) :
    CapInv env s'.cfg := by
  cases c with
  | agentCreate name systemPrompt executorName llmProfileMain tools maxIterations timeoutMs =>
    exact inv.agentCreate hchecked (ofConfig_ok h)
  | agentSetComponent agent component value => exact inv.agentSetComponent (ofConfig_ok h)
  | skillSet agent name description body => exact inv.skillSet h
  | skillDrop agent name => exact inv.skillDrop (ofConfig_ok h)
  | lessonAdd agent cue lesson evidence skippedIds => exact inv.lessonAdd h
  | lessonRetire lessonId supersededBy => exact inv.lessonRetire h

theorem step_keeps {env : PgEnv} (s : HarnessTables) (c : HarnessCall) (s' : HarnessTables)
    (hchecked : Checked env s c) (inv : CapInv env s.cfg) (h : step env s c = some s') :
    CapInv env s'.cfg := by
  unfold step at h
  rcases hcall : c.call env ⟨s, []⟩ with ⟨result, b⟩
  rw [hcall] at h
  cases result with
  | error e => cases h
  | ok u =>
    obtain rfl := Option.some.inj h
    exact body_keeps hchecked inv (call_ok hcall).1

end HarnessCall

/-- Tables without agents: skills and lessons belong to an agent, so there are none either. -/
structure NoAgents (s : HarnessTables) : Prop where
  agents : s.cfg.agents.rows = []
  skills : s.cfg.skills.rows = []
  lessons : s.cfg.lessons = []

theorem NoAgents.capInv {s : HarnessTables} (h : NoAgents s) (env : PgEnv) : CapInv env s.cfg := by
  constructor
  · simp [h.skills]
  · simp [h.lessons]
  · simp [h.agents]

/-- **The always-on cap**: from no agents, every agent's total stays within the cap through every
run of successful calls in which `agent_create` is called within it; and a call that raises leaves
the tables as they were. -/
theorem always_on_cap (env : PgEnv) :
    (∀ calls s s', NoAgents s → Along (HarnessCall.step env) (HarnessCall.Checked env) s calls →
      runActs (HarnessCall.step env) s calls = some s' →
      ∀ a ∈ s'.cfg.agents.rows, totalOf env s'.cfg a ≤ Configure.alwaysOnMaxChars) ∧
    ∀ (c : HarnessCall) (b : Backend HarnessTables) (e : String),
      (c.call env b).1 = .error e → (c.call env b).2 = b := by
  constructor
  · intro calls s s' hs hchecked hrun
    have inv := @runActs_invariant _ _ _ _ (fun s => CapInv env s.cfg)
      HarnessCall.step_keeps _ _ _ hchecked (hs.capInv env) hrun
    exact inv.within
  · intro c b e h
    exact HarnessCall.call_error h

/-! ### A prompt over the cap -/

namespace LongPrompt

def env : PgEnv where
  gucs := ⟨none, none, none, none, 0, 0, 0, none, none, none⟩
  crypto := ⟨fun value _ _ => value, fun text _ => .ok text⟩
  collate a b := a ≤ b
  parseF64 _ := none

/-- A fresh installation. -/
def tables : HarnessTables := ⟨.empty, [], 1⟩

theorem tables_noAgents : NoAgents tables := ⟨rfl, rfl, rfl⟩

/-- A prompt of `n` characters. -/
def prompt (n : Nat) : String := String.ofList (List.replicate n 'x')

theorem prompt_length (n : Nat) : (prompt n).length = n := by
  rw [prompt, String.length_ofList, List.length_replicate]

def create (systemPrompt : String) : HarnessCall :=
  .agentCreate "scout" systemPrompt "conversation" none [] 10 60000

/-- A first agent has its prompt alone. -/
theorem create_total (systemPrompt : String) :
    ∃ s', runActs (HarnessCall.step env) tables [create systemPrompt] = some s' ∧
      ∃ a ∈ s'.cfg.agents.rows, totalOf env s'.cfg a = systemPrompt.length := by
  refine ⟨_, rfl, ?_⟩
  refine ⟨_, List.mem_cons_self, ?_⟩
  exact totalOf_bare env rfl rfl rfl rfl rfl

/-- `agent_create` takes a prompt of one character more than the cap. -/
theorem create_over_cap :
    ∃ s', runActs (HarnessCall.step env) tables [create (prompt 24001)] = some s' ∧
      ∃ a ∈ s'.cfg.agents.rows, ¬ totalOf env s'.cfg a ≤ Configure.alwaysOnMaxChars := by
  obtain ⟨s', hrun, a, ha, htotal⟩ := create_total (prompt 24001)
  refine ⟨s', hrun, a, ha, ?_⟩
  rw [htotal, prompt_length, Configure.alwaysOnMaxChars]
  omega

/-- A short prompt and guardrails stay within the cap. -/
theorem short_within_cap :
    ∃ s', runActs (HarnessCall.step env) tables
        [create "Hi.", .agentSetComponent "scout" "guardrails" (some "Be brief.")] = some s' ∧
      ∀ a ∈ s'.cfg.agents.rows, totalOf env s'.cfg a ≤ Configure.alwaysOnMaxChars := by
  obtain ⟨s', hrun⟩ : ∃ s', runActs (HarnessCall.step env) tables
      [create "Hi.", .agentSetComponent "scout" "guardrails" (some "Be brief.")] = some s' :=
    ⟨_, rfl⟩
  refine ⟨s', hrun, (always_on_cap env).1 _ _ _ tables_noAgents ?_ hrun⟩
  have hcreate : HarnessCall.Checked env tables (create "Hi.") := by
    show "Hi.".length ≤ 24000
    decide
  exact ⟨hcreate, fun _ _ => ⟨trivial, fun _ _ => trivial⟩⟩

end LongPrompt

end PgSynapse

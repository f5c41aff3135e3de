import PgSynapse.Lib.Except
import PgSynapse.Lib.Transition
import PgSynapse.Pgrx.AgentTriggers
import PgSynapse.Std.Text

/-!
# Triggers on different tables

Names of functions and triggers are derived from the text a table is named by.  A run of calls in
which the derived names keep the tables apart (`Apart`) leaves on every table the last attached
trigger that was not detached, with its own body (`Tracks`), and so a write fires that one alone
(`fires_last_attach`).
-/

namespace PgSynapse

namespace AgentTriggers

variable {τ ω : Type} [DecidableEq τ] {pg : Postgres τ ω}

/-- What an attach asks for. -/
structure Attachment where
  events : String
  whenSql : Option String
  body : TriggerBody
  deriving DecidableEq, Repr

/-- One more call: the attachment of a table after it. -/
def attachedAfter (pg : Postgres τ ω) (table : τ) (last : Option Attachment) :
    TriggerCall → Option Attachment
  | .attach targetTable agent mode events whenSql inputExpr =>
    if pg.regclass targetTable = some table then
      some ⟨events, whenSql, body targetTable agent mode inputExpr⟩
    else last
  | .detach targetTable => if pg.regclass targetTable = some table then none else last

/-- The last attach on a table that no detach of the table follows. -/
def lastAttach (pg : Postgres τ ω) (calls : List TriggerCall) (table : τ) : Option Attachment :=
  calls.foldl (attachedAfter pg table) none

/-- What a write is to fire: the body of the attachment, if the write qualifies. -/
def expected (pg : Postgres τ ω) (last : Option Attachment) (write : ω) : List TriggerBody :=
  match last with
  | none => []
  | some a => if pg.qualifies a.events a.whenSql write then [a.body] else []

/-- **Names that keep the tables apart**: the triggers on the table of the call have the name the
call derives, and an attach derives a function that no other table's trigger uses. -/
def Apart (pg : Postgres τ ω) (s : TriggerCatalog τ) : TriggerCall → Prop
  | .attach targetTable _ _ _ _ _ => ∀ table, pg.regclass targetTable = some table →
    ∀ t ∈ s.triggers,
      (t.table = table → t.name = pg.triggerName (trigName targetTable)) ∧
      (t.table ≠ table → pg.functionName (fnName targetTable) ≠ some t.function)
  | .detach targetTable => ∀ table, pg.regclass targetTable = some table →
    ∀ t ∈ s.triggers, t.table = table → t.name = pg.triggerName (trigName targetTable)

/-- The triggers on a table. -/
def triggersOn (s : TriggerCatalog τ) (table : τ) : List (TriggerRow τ) :=
  s.triggers.filter fun t => t.table = table

theorem fires_eq (pg : Postgres τ ω) (s : TriggerCatalog τ) (table : τ) (write : ω) :
    fires pg s table write =
      ((triggersOn s table).filter fun t => pg.qualifies t.events t.whenSql write).filterMap
        fun t => s.functions t.function := by
  unfold fires triggersOn
  rw [List.filter_filter]
  congr 2
  funext t
  rw [Bool.and_comm]

/-- What the catalog does for a table: nothing, or what one attachment asks for. -/
def Does (s : TriggerCatalog τ) (table : τ) : Option Attachment → Prop
  | none => triggersOn s table = []
  | some a => ∃ t, triggersOn s table = [t] ∧ t.events = a.events ∧ t.whenSql = a.whenSql ∧
      s.functions t.function = some a.body

/-- The catalog does for every table what `last` says. -/
def Tracks (s : TriggerCatalog τ) (last : τ → Option Attachment) : Prop :=
  ∀ table, Does s table (last table)

/-- A catalog that tracks the attachments fires them. -/
theorem Does.fires {s : TriggerCatalog τ} {table : τ} {last : Option Attachment}
    (h : Does s table last) (pg : Postgres τ ω) (write : ω) :
    fires pg s table write = expected pg last write := by
  rw [fires_eq]
  cases last with
  | none =>
    rw [show triggersOn s table = [] from h]
    rfl
  | some a =>
    obtain ⟨t, hon, hevents, hwhen, hbody⟩ := h
    rw [hon, List.filter_cons, List.filter_nil, hevents, hwhen]
    by_cases hq : pg.qualifies a.events a.whenSql write = true
    · simp [expected, hq, hbody]
    · simp [expected, hq]

/-! ### One table after a call -/

/-- Another table keeps its triggers. -/
theorem triggersOn_dropTrigger_of_ne {table other : τ} (h : other ≠ table) (name : String)
    (s : TriggerCatalog τ) : triggersOn (dropTrigger table name s) other = triggersOn s other := by
  unfold triggersOn dropTrigger
  rw [List.filter_filter]
  refine List.filter_congr fun t _ => ?_
  by_cases ht : t.table = other
  · simp [ht, h]
  · simp [ht]

/-- The table loses every trigger if all have the name. -/
theorem triggersOn_dropTrigger_self {table : τ} {name : String} {s : TriggerCatalog τ}
    (h : ∀ t ∈ s.triggers, t.table = table → t.name = name) :
    triggersOn (dropTrigger table name s) table = [] := by
  unfold triggersOn dropTrigger
  rw [List.filter_filter, List.filter_eq_nil_iff]
  intro t ht hboth
  simp only [Bool.and_eq_true, decide_eq_true_eq, Bool.not_eq_true', Bool.and_eq_false_iff,
    decide_eq_false_iff_not] at hboth
  obtain ⟨htable, hne | hne⟩ := hboth
  · exact hne htable
  · exact hne (h t ht htable)

/-- A table whose triggers and whose functions a step leaves alone does what it did. -/
theorem Does.same {s s' : TriggerCatalog τ} {table : τ} {last : Option Attachment}
    (h : Does s table last) (hon : triggersOn s' table = triggersOn s table)
    (hfn : ∀ t ∈ triggersOn s table, s'.functions t.function = s.functions t.function) :
    Does s' table last := by
  cases last with
  | none => exact hon.trans h
  | some a =>
    obtain ⟨t, ht, hevents, hwhen, hbody⟩ := h
    refine ⟨t, hon.trans ht, hevents, hwhen, ?_⟩
    rw [hfn t (by rw [ht]; exact List.mem_singleton.mpr rfl), hbody]

theorem attach_ok {targetTable agent mode events inputExpr : String} {whenSql : Option String}
    {s s' : TriggerCatalog τ}
    (h : attachAgentTrigger pg targetTable agent mode events whenSql inputExpr s = .ok s') :
    ∃ fn table, pg.functionName (fnName targetTable) = some fn ∧
      pg.regclass targetTable = some table ∧
      s'.functions =
        Function.update s.functions fn (some (body targetTable agent mode inputExpr)) ∧
      s'.triggers = (dropTrigger table (pg.triggerName (trigName targetTable)) s).triggers ++
        [⟨table, pg.triggerName (trigName targetTable), fn, events, whenSql⟩] := by
  unfold attachAgentTrigger at h
  cases hfn : pg.functionName (fnName targetTable) with
  | none => rw [hfn] at h; cases h
  | some fn =>
    simp only [hfn] at h
    split at h
    · cases h
    cases htable : pg.regclass targetTable with
    | none => rw [htable] at h; cases h
    | some table =>
      simp only [htable] at h
      split at h
      · cases h
      obtain rfl := Except.ok.inj h
      exact ⟨fn, table, rfl, rfl, rfl, rfl⟩

theorem detach_ok {targetTable : String} {s s' : TriggerCatalog τ}
    (h : detachAgentTrigger pg targetTable s = .ok s') :
    ∃ fn table, pg.functionName (fnName targetTable) = some fn ∧
      pg.regclass targetTable = some table ∧
      s'.functions = Function.update s.functions fn none ∧
      s'.triggers = (dropTrigger table (pg.triggerName (trigName targetTable)) s).triggers ∧
      ∀ t ∈ s'.triggers, t.function ≠ fn := by
  unfold detachAgentTrigger at h
  cases htable : pg.regclass targetTable with
  | none => rw [htable] at h; cases h
  | some table =>
    simp only [htable] at h
    cases hfn : pg.functionName (fnName targetTable) with
    | none => rw [hfn] at h; cases h
    | some fn =>
      simp only [hfn] at h
      split at h
      · cases h
      case isFalse hunused =>
        obtain rfl := Except.ok.inj h
        refine ⟨fn, table, rfl, rfl, rfl, rfl, ?_⟩
        intro t ht heq
        exact hunused (List.any_eq_true.mpr ⟨t, ht, by rw [heq, decide_eq_true_eq]⟩)

/-! ### Calls and runs -/

theorem mem_triggersOn {s : TriggerCatalog τ} {table : τ} {t : TriggerRow τ} :
    t ∈ triggersOn s table ↔ t ∈ s.triggers ∧ t.table = table := by
  rw [triggersOn, List.mem_filter, decide_eq_true_eq]

/-- **One attach** whose names keep the tables apart. -/
theorem Tracks.attach {s s' : TriggerCatalog τ} {last : τ → Option Attachment} (h : Tracks s last)
    {targetTable agent mode events inputExpr : String} {whenSql : Option String}
    (hapart : Apart pg s (.attach targetTable agent mode events whenSql inputExpr))
    (hok : attachAgentTrigger pg targetTable agent mode events whenSql inputExpr s = .ok s') :
    Tracks s' fun table => attachedAfter pg table (last table)
      (.attach targetTable agent mode events whenSql inputExpr) := by
  obtain ⟨fn, table, hfn, htable, hfunctions, htriggers⟩ := attach_ok hok
  have hnames := hapart table htable
  intro other
  simp only [attachedAfter]
  by_cases hother : other = table
  · -- the table of the call: its triggers go, and the new one comes
    subst hother
    rw [if_pos htable]
    refine ⟨⟨other, pg.triggerName (trigName targetTable), fn, events, whenSql⟩, ?_, rfl, rfl, ?_⟩
    · have hgone := triggersOn_dropTrigger_self fun t ht hon => (hnames t ht).1 hon
      unfold triggersOn at hgone ⊢
      rw [htriggers, List.filter_append, hgone, List.nil_append, List.filter_cons_of_pos (by simp),
        List.filter_nil]
    · rw [hfunctions, Function.update_self]
  · have hne : pg.regclass targetTable ≠ some other := by
      rw [htable]
      exact fun heq => hother (Option.some.inj heq).symm
    rw [if_neg hne]
    refine (h other).same ?_ ?_
    · have hkept := triggersOn_dropTrigger_of_ne hother
        (pg.triggerName (trigName targetTable)) s
      unfold triggersOn at hkept ⊢
      rw [htriggers, List.filter_append, hkept, List.filter_cons_of_neg (by simpa using Ne.symm hother),
        List.filter_nil, List.append_nil]
    · intro t ht
      obtain ⟨hmem, hon⟩ := mem_triggersOn.mp ht
      have hunused := (hnames t hmem).2 (hon ▸ hother)
      rw [hfunctions, Function.update_of_ne]
      rintro rfl
      exact hunused hfn

/-- **One detach**: a function that is dropped has no trigger left that uses it. -/
theorem Tracks.detach {s s' : TriggerCatalog τ} {last : τ → Option Attachment} (h : Tracks s last)
    {targetTable : String} (hapart : Apart pg s (.detach targetTable))
    (hok : detachAgentTrigger pg targetTable s = .ok s') :
    Tracks s' fun table => attachedAfter pg table (last table) (.detach targetTable) := by
  obtain ⟨fn, table, hfn, htable, hfunctions, htriggers, hunused⟩ := detach_ok hok
  intro other
  simp only [attachedAfter]
  by_cases hother : other = table
  · subst hother
    rw [if_pos htable]
    have hgone := triggersOn_dropTrigger_self (hapart other htable)
    unfold triggersOn at hgone
    show triggersOn s' other = []
    rw [triggersOn, htriggers, hgone]
  · have hne : pg.regclass targetTable ≠ some other := by
      rw [htable]
      exact fun heq => hother (Option.some.inj heq).symm
    rw [if_neg hne]
    have hkept : triggersOn s' other = triggersOn s other := by
      have hdrop := triggersOn_dropTrigger_of_ne hother (pg.triggerName (trigName targetTable)) s
      rw [← hdrop, triggersOn, triggersOn, htriggers]
    refine (h other).same hkept ?_
    intro t ht
    rw [← hkept] at ht
    rw [hfunctions, Function.update_of_ne (hunused t (mem_triggersOn.mp ht).1)]

theorem Tracks.step {s s' : TriggerCatalog τ} {last : τ → Option Attachment} (h : Tracks s last)
    {c : TriggerCall} (hapart : Apart pg s c) (hstep : c.step pg s = some s') :
    Tracks s' fun table => attachedAfter pg table (last table) c := by
  cases c with
  | attach targetTable agent mode events whenSql inputExpr =>
    exact h.attach hapart (toOption_eq_some.mp hstep)
  | detach targetTable => exact h.detach hapart (toOption_eq_some.mp hstep)

theorem Tracks.run {s s' : TriggerCatalog τ} {last : τ → Option Attachment} (h : Tracks s last)
    {calls : List TriggerCall} (hapart : Along (TriggerCall.step pg) (Apart pg) s calls)
    (hrun : runActs (TriggerCall.step pg) s calls = some s') :
    Tracks s' fun table => calls.foldl (attachedAfter pg table) (last table) := by
  induction calls generalizing s last with
  | nil =>
    obtain rfl := Option.some.inj hrun
    exact h
  | cons c calls ih =>
    obtain ⟨s₁, hstep, hrest⟩ := runActs_cons.mp hrun
    exact ih (h.step hapart.1 hstep) (hapart.2 s₁ hstep) hrest

/-- Triggers on different tables use different functions. -/
def FunctionsApart (s : TriggerCatalog τ) : Prop :=
  ∀ t ∈ s.triggers, ∀ t' ∈ s.triggers, t.table ≠ t'.table → t.function ≠ t'.function

theorem mem_dropTrigger {table : τ} {name : String} {s : TriggerCatalog τ} {t : TriggerRow τ}
    (h : t ∈ (dropTrigger table name s).triggers) :
    t ∈ s.triggers ∧ ¬ (t.table = table ∧ t.name = name) := by
  unfold dropTrigger at h
  rw [List.mem_filter] at h
  refine ⟨h.1, ?_⟩
  rintro ⟨htable, hname⟩
  simp [htable, hname] at h

theorem FunctionsApart.step {s s' : TriggerCatalog τ} (h : FunctionsApart s) (c : TriggerCall)
    (hapart : Apart pg s c) (hstep : c.step pg s = some s') : FunctionsApart s' := by
  cases c with
  | attach targetTable agent mode events whenSql inputExpr =>
    obtain ⟨fn, table, hfn, htable, -, htriggers⟩ := attach_ok (toOption_eq_some.mp hstep)
    -- the new trigger's function is no other table's
    have hnew : ∀ t ∈ s.triggers, t.table ≠ table → t.function ≠ fn := by
      intro t ht hne heq
      exact (hapart table htable t ht).2 hne (heq ▸ hfn)
    intro t ht t' ht' hne
    rw [htriggers, List.mem_append, List.mem_singleton] at ht ht'
    rcases ht with ht | rfl <;> rcases ht' with ht' | rfl
    · exact h t (mem_dropTrigger ht).1 t' (mem_dropTrigger ht').1 hne
    · exact hnew t (mem_dropTrigger ht).1 hne
    · exact (hnew t' (mem_dropTrigger ht').1 (Ne.symm hne)).symm
    · exact absurd rfl hne
  | detach targetTable =>
    obtain ⟨fn, table, -, -, -, htriggers, -⟩ := detach_ok (toOption_eq_some.mp hstep)
    intro t ht t' ht' hne
    rw [htriggers] at ht ht'
    exact h t (mem_dropTrigger ht).1 t' (mem_dropTrigger ht').1 hne

/-- A detach returns where the function it drops is the one of the table's trigger. -/
theorem FunctionsApart.detach_returns {s : TriggerCatalog τ} (h : FunctionsApart s)
    {targetTable : String} (hapart : Apart pg s (.detach targetTable)) {table : τ}
    (htable : pg.regclass targetTable = some table) {t : TriggerRow τ} (ht : t ∈ triggersOn s table)
    (hfn : pg.functionName (fnName targetTable) = some t.function) :
    ∃ s', TriggerCall.step pg s (.detach targetTable) = some s' := by
  obtain ⟨hmem, hon⟩ := mem_triggersOn.mp ht
  have hunused : ¬ ((dropTrigger table (pg.triggerName (trigName targetTable)) s).triggers.any
      fun t' => t'.function = t.function) = true := by
    rw [List.any_eq_true]
    rintro ⟨t', ht', heq⟩
    obtain ⟨hmem', hkept⟩ := mem_dropTrigger ht'
    by_cases hon' : t'.table = table
    · exact hkept ⟨hon', hapart table htable t' hmem' hon'⟩
    · exact h t' hmem' t hmem (hon ▸ hon') (of_decide_eq_true heq)
  have hok : ∃ s', detachAgentTrigger pg targetTable s = .ok s' := by
    unfold detachAgentTrigger
    simp only [htable, hfn]
    rw [if_neg hunused]
    exact ⟨_, rfl⟩
  obtain ⟨s', hok⟩ := hok
  exact ⟨s', toOption_eq_some.mpr hok⟩

/-- **Triggers on different tables do not interfere**, in a run whose derived names keep the tables
apart: a write to a table fires what its last attach asks for, and nothing after a detach; and the
table's trigger can be detached under every name that derives its function. -/
theorem fires_last_attach (pg : Postgres τ ω) {calls : List TriggerCall} {s : TriggerCatalog τ}
    (hapart : Along (TriggerCall.step pg) (Apart pg) .empty calls)
    (hrun : runActs (TriggerCall.step pg) .empty calls = some s) :
    (∀ table write, fires pg s table write = expected pg (lastAttach pg calls table) write) ∧
    ∀ targetTable table, pg.regclass targetTable = some table →
      Apart pg s (.detach targetTable) →
      (∃ t ∈ triggersOn s table, pg.functionName (fnName targetTable) = some t.function) →
      ∃ s', TriggerCall.step pg s (.detach targetTable) = some s' := by
  constructor
  · intro table write
    have hstart : Tracks (.empty : TriggerCatalog τ) fun _ => none := fun _ => rfl
    exact (hstart.run hapart hrun table).fires pg write
  · rintro targetTable table htable hdetach ⟨t, ht, hfn⟩
    have hstart : FunctionsApart (.empty : TriggerCatalog τ) := fun t ht => nomatch ht
    have hfunctions : FunctionsApart s :=
      runActs_invariant (fun _ c _ hc hinv hstep => FunctionsApart.step hinv c hc hstep) hapart
        hstart hrun
    exact hfunctions.detach_returns hdetach htable ht hfn

/-! ### Two tables of one derived name -/

namespace SharedName

/-- At most `left` bytes of a text, cut at a character. -/
def clip : Nat → List Char → List Char
  | _, [] => []
  | left, c :: rest => if c.utf8Size ≤ left then c :: clip (left - c.utf8Size) rest else []

/-- A character of an unquoted identifier. -/
def isIdentChar (c : Char) : Bool :=
  c.isAlphanum || c == '_' || c == '$' || 128 ≤ c.toNat

/-- A database with three tables.  Unquoted names are folded, and all names cut to 63 bytes. -/
def database : Postgres Nat Unit where
  regclass text :=
    if text = "a.b_c" then some 1 else if text = "a_b.c" then some 2
    else if text = "orders" then some 3 else none
  functionName text :=
    if text.toList.all isIdentChar then
      some (String.ofList (clip 63 (Text.toAsciiLowercase text).toList))
    else none
  triggerName text := String.ofList (clip 63 text.toList)
  acceptsBody _ := true
  acceptsTrigger _ _ _ := true
  qualifies _ _ _ := true

def attach (targetTable agent : String) : TriggerCall :=
  .attach targetTable agent "queue" "INSERT" none "NEW::text"

/-- Attachments to two tables whose names derive the same function. -/
def sharing : List TriggerCall := [attach "a.b_c" "alice", attach "a_b.c" "bob"]

/-- Attaching to the second table gives the function of the first another body. -/
theorem attach_replaces_other :
    ∃ s, runActs (TriggerCall.step database) .empty sharing = some s ∧
      fires database s 1 () = [.queue "bob" "NEW::text" "trigger:a_b.c"] ∧
      fires database s 1 () ≠ expected database (lastAttach database sharing 1) () := by
  refine ⟨_, rfl, ?_, ?_⟩
  · decide +kernel
  · decide +kernel

/-- On tables of different derived names each write fires its own agent. -/
theorem attach_keeps_other :
    ∃ s, runActs (TriggerCall.step database) .empty
        [attach "a.b_c" "alice", attach "orders" "bob"] = some s ∧
      fires database s 1 () = [.queue "alice" "NEW::text" "trigger:a.b_c"] := by
  obtain ⟨s₁, hstep, hrows⟩ : ∃ s₁,
      TriggerCall.step database .empty (attach "a.b_c" "alice") = some s₁ ∧
      s₁.triggers = [⟨1, "synapse_agent_a_b_c", "synapse_trig_a_b_c", "INSERT", none⟩] :=
    ⟨_, rfl, by decide⟩
  have hapart : Along (TriggerCall.step database) (Apart database) .empty
      [attach "a.b_c" "alice", attach "orders" "bob"] := by
    refine Along.cons ?_ hstep ⟨?_, fun _ _ => trivial⟩
    · intro table htable t ht
      exact absurd ht (List.not_mem_nil)
    · intro table htable t ht
      obtain rfl : 3 = table := Option.some.inj htable
      rw [hrows, List.mem_singleton] at ht
      subst ht
      exact ⟨fun h => absurd h (by decide), fun _ => by decide⟩
  obtain ⟨s, hrun⟩ : ∃ s, runActs (TriggerCall.step database) .empty
      [attach "a.b_c" "alice", attach "orders" "bob"] = some s := ⟨_, rfl⟩
  refine ⟨s, hrun, ?_⟩
  rw [(fires_last_attach database hapart hrun).1 1 ()]
  decide

end SharedName

end AgentTriggers

end PgSynapse

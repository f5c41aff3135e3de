import Mathlib.Data.List.Basic
import PgSynapse.LoadFile.Equiv.Batches

/-!
# A load into a table that is not there

The `CREATE` of a load makes the table, unless two of its columns have one name, and the batches put
the rows into it, whatever the number of batches (`freshLoad_accepted`, `freshLoad_accepts`).
-/

namespace PgSynapse

/-! ### Columns and their values -/

/-- Each column of a row has its own value. -/
theorem map_lookup_zip {α : Type} (columns : List String) (hnodup : columns.Nodup) (vs : List α)
    (hlen : vs.length = columns.length) :
    (columns.map fun c => (columns.zip vs).lookup c) = vs.map some := by
  induction columns generalizing vs with
  | nil =>
    rw [List.length_eq_zero_iff.mp hlen]
    rfl
  | cons c columns ih =>
    obtain ⟨v, vs, rfl⟩ := List.exists_cons_of_length_eq_add_one hlen
    obtain ⟨hc, hnodup⟩ := List.nodup_cons.mp hnodup
    have hrest : (columns.map fun d => ((c, v) :: columns.zip vs).lookup d) =
        columns.map fun d => (columns.zip vs).lookup d := by
      apply List.map_congr_left
      intro d hd
      have hne : (d == c) = false := beq_eq_false_iff_ne.mpr fun h => hc (h ▸ hd)
      rw [List.lookup_cons, hne]
    rw [List.zip_cons_cons, List.map_cons, List.lookup_cons_self, hrest,
      ih hnodup vs (Nat.succ.inj hlen), List.map_cons]

/-! ### The table -/

/-- The table a load makes. -/
def LoadPlan.staged (store : Value → Option String) (plan : LoadPlan) : StagedTable where
  columns := plan.columns.map fun c => (c, none)
  rows := plan.rows.map fun row => (rowParams plan.columns.length row).map store

/-- Postgres takes no table with two columns of one name. -/
def duplicateColumn : Fault Tables := ⟨id, true, "column specified more than once"⟩

/-- The statements that fail on a table that is not there. -/
def createFaults (columns : List String) (faults : Nat → Option (Fault Tables)) (i : Nat) :
    Option (Fault Tables) :=
  if i = 0 ∧ ¬ columns.Nodup then some duplicateColumn else faults i

/-- The statements of a load into a table that is not there. -/
def freshTables (store : Value → Option String) (faults : Nat → Option (Fault Tables)) :
    String → List String → Nat → StageOp → SpiUpdate Tables :=
  fun qualified columns => tablesUpdate store (createFaults columns faults) qualified columns

section FreshLoad

variable {store : Value → Option String} {faults : Nat → Option (Fault Tables)} {plan : LoadPlan}
  {qualified : String}

theorem length_rowParams (columns : Nat) (row : List (Option String)) :
    (rowParams columns row).length = columns := by
  rw [rowParams_eq, List.length_map, List.length_range]

theorem tablesUpdate_eq (store : Value → Option String) (faults : Nat → Option (Fault Tables))
    (qualified : String) (columns : List String) : tablesUpdate store faults qualified columns =
      stageUpdate (StageOp.apply store qualified columns) (StageOp.affected qualified) faults := rfl

/-- A row of the new table. -/
theorem newRow_fresh (hnodup : plan.columns.Nodup) (rows : List (List (Option String)))
    (row : List (Option String)) :
    StagedTable.newRow store ⟨plan.columns.map fun c => (c, none), rows⟩ plan.columns row =
      (rowParams plan.columns.length row).map store := by
  have hvalues := map_lookup_zip plan.columns hnodup (rowParams plan.columns.length row)
    (length_rowParams _ row)
  have hstored := congrArg (List.map fun v => Option.elim v none store) hvalues
  rw [List.map_map, List.map_map] at hstored
  unfold StagedTable.newRow
  rw [List.map_map]
  exact hstored

/-- **The statements of a load**, one after the other, make its table. -/
theorem applyAll_fresh (hnodup : plan.columns.Nodup) {db : Tables} (hdb : db qualified = none) :
    applyAll store qualified plan.columns plan.ops db =
      Function.update db qualified (some (plan.staged store)) := by
  let empty : StagedTable := ⟨plan.columns.map fun c => (c, none), []⟩
  have hcreated : applyAll store qualified plan.columns
      (.create :: if plan.replace then [.delete] else []) db =
      Function.update db qualified (some empty) := by
    unfold applyAll
    rw [List.foldl_cons, show StageOp.apply store qualified plan.columns db .create =
      Function.update db qualified (some empty) by simp only [StageOp.apply, hdb, empty]]
    cases plan.replace with
    | false => rfl
    | true => simp [StageOp.apply, empty]
  have hrows : plan.batches.flatMap (empty.newRows store plan.columns) =
      (plan.staged store).rows := by
    have hbatch : ∀ batch ∈ plan.batches, empty.newRows store plan.columns batch =
        batch.map fun row => (rowParams plan.columns.length row).map store := by
      intro batch _
      exact List.map_congr_left fun row _ => newRow_fresh hnodup [] row
    rw [List.flatMap_congr hbatch, List.flatMap_def, ← List.map_flatten]
    unfold LoadPlan.batches LoadPlan.staged
    rw [flatten_chunks (rowsPerBatch_pos _)]
  unfold LoadPlan.ops applyAll
  rw [List.foldl_append, ← applyAll, ← applyAll, hcreated,
    applyAll_inserts store qualified plan.columns plan.batches _ empty (by simp),
    Function.update_idem, List.nil_append, hrows]
  rfl

variable {ctx : ToolCtx} {b : Backend (Session Tables)}

/-- **A load that is accepted** made its table, with columns of different names. -/
theorem freshLoad_accepted (hq : quoteTable plan.table plan.tool = .ok qualified)
    (hdb : b.cur.db qualified = none) {out : ToolOutput} {b' : Backend (Session Tables)}
    (hrun : LoadTool.run (freshTables store faults) false (.ok plan) ctx b = (.ok out, b')) :
    plan.columns.Nodup ∧
      b'.cur.db = Function.update b.cur.db qualified (some (plan.staged store)) := by
  have hspec := stageLoop_spec (StageOp.apply store qualified plan.columns)
    (StageOp.affected qualified) (createFaults plan.columns faults) qualified plan.columns
    ctx.executionId.text plan.ops 0 0 b
  unfold LoadTool.run stageRows freshTables at hrun
  simp only [hq, tablesUpdate_eq] at hrun
  rcases hfault : firstFault (createFaults plan.columns faults) 0 plan.ops.length with _ | k
  · rw [hfault] at hspec
    obtain ⟨n, b₁, hloop, hfinal⟩ := hspec
    rw [hloop] at hrun
    obtain rfl : b₁ = b' := (Prod.mk.inj hrun).2
    have hnodup : plan.columns.Nodup := by
      by_contra hdup
      have hnone := List.find?_eq_none.mp hfault 0 (List.mem_range.mpr (by simp [LoadPlan.ops]))
      exact hnone (by simp [createFaults, hdup])
    exact ⟨hnodup, hfinal.trans (applyAll_fresh hnodup hdb)⟩
  · rw [hfault] at hspec
    obtain ⟨e, b₁, hloop, -⟩ := hspec
    rw [hloop] at hrun
    exact absurd (Prod.mk.inj hrun).1 (by simp [Except.map])

/-- **A load is accepted** if its columns have different names and no statement fails. -/
theorem freshLoad_accepts (hq : quoteTable plan.table plan.tool = .ok qualified)
    (hnodup : plan.columns.Nodup) (ctx : ToolCtx) (b : Backend (Session Tables)) :
    ∃ out b', LoadTool.run (freshTables store fun _ => none) false (.ok plan) ctx b =
      (.ok out, b') := by
  have hspec := stageLoop_spec (StageOp.apply store qualified plan.columns)
    (StageOp.affected qualified) (createFaults plan.columns fun _ => none) qualified plan.columns
    ctx.executionId.text plan.ops 0 0 b
  have hnone : firstFault (createFaults plan.columns fun _ => none) 0 plan.ops.length = none := by
    unfold firstFault
    rw [List.find?_eq_none]
    intro i _
    simp [createFaults, hnodup]
  rw [hnone] at hspec
  obtain ⟨n, b', hloop, -⟩ := hspec
  unfold LoadTool.run stageRows freshTables
  simp only [hq, tablesUpdate_eq, hloop]
  exact ⟨_, b', rfl⟩

end FreshLoad

end PgSynapse

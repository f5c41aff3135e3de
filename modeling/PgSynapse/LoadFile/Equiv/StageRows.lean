import PgSynapse.LoadFile.StageRows
import PgSynapse.Pgrx.Equiv.SpiExecutor

/-!
# Which tool calls are all or nothing

The savepoint is opened for each statement.  `sql_exec` and `sql_query` are one statement each, so a
failed call leaves nothing behind.  A load is many: the statements before the failing one stay.
-/

namespace PgSynapse

variable {δ : Type}

/-! ### One statement -/

theorem firstFault_succ (faults : Nat → Option (Fault δ)) (i n : Nat) :
    firstFault faults i (n + 1) =
      if (faults i).isSome then some 0 else (firstFault faults (i + 1) n).map (· + 1) := by
  have hcomp : (fun k => (faults (i + (k + 1))).isSome) = fun k => (faults (i + 1 + k)).isSome := by
    funext k
    rw [show i + (k + 1) = i + 1 + k by omega]
  rw [firstFault, List.range_succ_eq_map, List.find?_cons]
  by_cases hf : (faults i).isSome
  · simp [hf]
  · rw [firstFault, List.find?_map]
    simp only [Nat.add_zero, hf, Function.comp_def, Nat.succ_eq_add_one, hcomp]
    rfl

/-- **A run of statements**: up to the first fault they all take effect, and the rest do not. -/
theorem stageLoop_spec (effect : δ → StageOp → δ) (affected : δ → StageOp → Nat)
    (faults : Nat → Option (Fault δ)) (qualified : String) (columns : List String)
    (executionId : String) (ops : List StageOp) (i total : Nat) (b : Backend (Session δ)) :
    match firstFault faults i ops.length with
    | none => ∃ n b', stageLoop (stageUpdate effect affected faults) false qualified
        columns executionId i ops total b = (.ok n, b') ∧
        b'.cur.db = ops.foldl effect b.cur.db
    | some k => ∃ e b', stageLoop (stageUpdate effect affected faults) false qualified
        columns executionId i ops total b = (.error e, b') ∧
        b'.cur.db = (ops.take k).foldl effect b.cur.db := by
  induction ops generalizing i total b with
  | nil => exact ⟨total, b, rfl, rfl⟩
  | cons op ops ih =>
    rw [List.length_cons, firstFault_succ]
    unfold stageLoop
    rw [SpiSqlExecutor.execute_eq]
    cases hf : faults i with
    | some f =>
      cases hhard : f.hard <;>
        simp only [Option.isSome_some, if_true, Bool.false_eq_true, if_false, stageUpdate, hf,
          hhard] <;>
        exact ⟨_, b, rfl, rfl⟩
    | none =>
      simp only [Option.isSome_none, Bool.false_eq_true, if_false, stageUpdate, hf]
      generalize (if op.isInsert = true then total + _ else total) = total'
      have hrest := ih (i + 1) total' ⟨⟨effect b.cur.db op, some executionId⟩, b.saved⟩
      cases hff : firstFault faults (i + 1) ops.length with
      | none => simpa [hff, publishExecutionId] using hrest
      | some k => simpa [hff, publishExecutionId] using hrest

section Load

variable (store : Value → Option String) (qualified : String) (columns : List String)

/-- The tables after a stretch of statements that all succeed and set nothing off. -/
def applyAll (ops : List StageOp) (db : Tables) : Tables :=
  ops.foldl (StageOp.apply store qualified columns) db

/-- The batches of a load add their rows to the table. -/
theorem applyAll_inserts (batches : List (List (List (Option String)))) (db : Tables)
    (t : StagedTable) (ht : db qualified = some t) :
    applyAll store qualified columns (batches.map .insert) db =
      Function.update db qualified
        (some { t with rows := t.rows ++ batches.flatMap (t.newRows store columns) }) := by
  induction batches generalizing db t with
  | nil =>
    simp [applyAll, ← ht]
  | cons batch batches ih =>
    have hstep : StageOp.apply store qualified columns db (.insert batch) =
        Function.update db qualified
          (some { t with rows := t.rows ++ t.newRows store columns batch }) := by
      simp only [StageOp.apply, ht]
    rw [List.map_cons, applyAll, List.foldl_cons, hstep, ← applyAll,
      ih _ { t with rows := t.rows ++ t.newRows store columns batch } (by simp)]
    rw [Function.update_idem, List.flatMap_cons, ← List.append_assoc]
    rfl

theorem update_eq_self_iff (db : Tables) (t t' : StagedTable) (ht : db qualified = some t) :
    Function.update db qualified (some t') = db ↔ t' = t := by
  rw [Function.update_eq_self_iff, ht, Option.some.injEq]

end Load

/-! ### Batches -/

theorem rowsPerBatch_pos (columns : Nat) : 0 < rowsPerBatch columns := by
  unfold rowsPerBatch batchRows
  split <;> omega

theorem chunksUpTo_ne_nil {α : Type} {n : Nat} (hn : 0 < n) (bound : Nat) (xs : List α) :
    ∀ c ∈ chunksUpTo n bound xs, c ≠ [] := by
  induction bound generalizing xs with
  | zero => simp [chunksUpTo]
  | succ bound ih =>
    cases xs with
    | nil => simp [chunksUpTo]
    | cons x xs =>
      intro c hc
      rcases List.mem_cons.mp hc with rfl | hc
      · rw [List.take_cons hn]
        simp
      · exact ih _ c hc

/-- Batches that were inserted leave rows behind. -/
theorem newRows_batches_eq_nil {store : Value → Option String} {t : StagedTable} {plan : LoadPlan}
    {k : Nat} (hk : k ≤ plan.batches.length)
    (h : (plan.batches.take k).flatMap (t.newRows store plan.columns) = []) : k = 0 := by
  by_contra hne
  obtain ⟨j, rfl⟩ := Nat.exists_eq_succ_of_ne_zero hne
  obtain ⟨c, cs, hcs⟩ := List.exists_cons_of_ne_nil
    (List.ne_nil_of_length_pos (show 0 < plan.batches.length by omega))
  have hc : c ≠ [] :=
    chunksUpTo_ne_nil (rowsPerBatch_pos _) _ _ c (by
      have : c ∈ plan.batches := by rw [hcs]; exact List.mem_cons_self
      exact this)
  rw [hcs, List.take_succ_cons, List.flatMap_cons] at h
  have hnil := (List.append_eq_nil_iff.mp h).1
  exact hc (List.map_eq_nil_iff.mp hnil)

/-! ### Loads -/

section Loads

variable {ρ : Type} {store : Value → Option String} {reactions : Reactions ρ} {qualified : String}
  {plan : LoadPlan} {db : LoadDb ρ}

/-- The rows a batch adds do not depend on those there. -/
theorem newRows_emptied (store : Value → Option String) (t : StagedTable) :
    StagedTable.newRows store { t with rows := [] } = t.newRows store :=
  rfl

/-- Where nothing reacts, the other tables and the rest stay as they are. -/
theorem foldl_perform_quiet {columns : List String} {ops : List StageOp} (h : .create ∉ ops)
    (db : LoadDb ρ) :
    ops.foldl (StageOp.perform store (.quiet ρ) qualified columns) db =
      { db with tables := applyAll store qualified columns ops db.tables } := by
  induction ops generalizing db with
  | nil => rfl
  | cons op ops ih =>
    rw [List.mem_cons, not_or] at h
    have hop : op.perform store (.quiet ρ) qualified columns db =
        { db with tables := op.apply store qualified columns db.tables } :=
      if_neg fun hcreate => h.1 hcreate.1.symm
    rw [List.foldl_cons, hop, ih h.2]
    rfl

/-- **Where nothing reacts**, the statements after the CREATE restore the table if there are none of
them, or if the rows deleted and inserted make up the rows it had. -/
theorem restored_quiet_iff {t : StagedTable} (ht : db.tables qualified = some t) {k : Nat}
    (hk : k + 1 < plan.ops.length) :
    plan.Restored store (.quiet ρ) qualified db k ↔ k = 0 ∨ (plan.replace = true ∧
      t.rows = ((plan.batches.take (k - 1)).flatMap (t.newRows store plan.columns))) := by
  have hcreate : StageOp.create ∉ plan.ops.tail.take k := by
    intro hmem
    have hmem := List.mem_of_mem_take hmem
    unfold LoadPlan.ops at hmem
    cases hrep : plan.replace <;> simp [hrep] at hmem
  have htables : plan.Restored store (.quiet ρ) qualified db k ↔
      applyAll store qualified plan.columns (plan.ops.tail.take k) db.tables = db.tables := by
    rw [LoadPlan.Restored, foldl_perform_quiet hcreate]
    exact ⟨fun h => congrArg LoadDb.tables h, fun h => by rw [h]⟩
  have hlen : plan.ops.length = 1 + (if plan.replace then 1 else 0) + plan.batches.length := by
    unfold LoadPlan.ops
    split <;> simp <;> omega
  rw [hlen] at hk
  rw [htables]
  unfold LoadPlan.ops
  rw [List.cons_append, List.tail_cons]
  cases hrep : plan.replace with
  | false =>
    rw [hrep] at hk
    simp only [Bool.false_eq_true, if_false, List.nil_append, false_and, or_false]
    rw [← List.map_take, applyAll_inserts store qualified plan.columns _ _ t ht,
      update_eq_self_iff qualified db.tables t _ ht]
    constructor
    · intro h
      have hrows := congrArg StagedTable.rows h
      have hnil : (plan.batches.take k).flatMap (t.newRows store plan.columns) = [] := by
        simpa using hrows
      exact newRows_batches_eq_nil (by simp at hk; omega) hnil
    · rintro rfl
      simp
  | true =>
    simp only [if_true, List.cons_append, List.nil_append, true_and]
    cases k with
    | zero => simp [applyAll]
    | succ k =>
      have hdelete : StageOp.apply store qualified plan.columns db.tables .delete =
          Function.update db.tables qualified (some { t with rows := [] }) := by
        simp only [StageOp.apply, ht]
      -- the table is emptied, and the batches must bring its own rows back
      rw [List.take_succ_cons, ← List.map_take, applyAll, List.foldl_cons, hdelete, ← applyAll,
        applyAll_inserts store qualified plan.columns _ _ { t with rows := [] } (by simp),
        Function.update_idem, update_eq_self_iff qualified db.tables t _ ht]
      constructor
      · intro h
        right
        have hrows := congrArg StagedTable.rows h
        rw [List.nil_append, newRows_emptied] at hrows
        simpa using hrows.symm
      · rintro (h | h)
        · exact absurd h (by simp)
        · rw [Nat.add_sub_cancel] at h
          rw [List.nil_append, newRows_emptied, ← h]

end Loads

end PgSynapse

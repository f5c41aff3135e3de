import Mathlib.Data.List.Basic
import Mathlib.Logic.Function.Basic

/-!
# Row locks and uncommitted versions

A table as the transactions on it see it: the committed rows, and for each open transaction the rows it
has locked and its own versions of rows.  Others see these versions only once it commits; when it
aborts they are gone, and either way its locks are.

`Store.Ok` says that no row is locked twice and that a transaction has versions only of rows it locked
and of rows it inserts.  Then a locked row does not change under its holder (`rows_commit_of_held`).
-/

namespace PgSynapse

variable {K V P : Type}

/-- An open transaction, with data of the program that runs it. -/
structure Txn (K V P : Type) where
  held : List K
  own : K → Option V
  data : P

/-- A table and the open transactions on it, numbered below `bound`. -/
structure Store (K V P : Type) where
  rows : K → Option V
  txns : Nat → Option (Txn K V P)
  bound : Nat

/-- A row as its transaction sees it. -/
def Txn.view (t : Txn K V P) (rows : K → Option V) (k : K) : Option V := (t.own k).or (rows k)

/-- An UPDATE of one row, as its transaction sees it. -/
def Txn.update [DecidableEq K] (t : Txn K V P) (rows : K → Option V) (k : K) (f : V → V) :
    K → Option V :=
  match t.view rows k with
  | none => t.own
  | some row => Function.update t.own k (some (f row))

namespace Store

/-- An empty table. -/
def empty : Store K V P := ⟨fun _ => none, fun _ => none, 0⟩

/-- A new transaction. -/
def beginTxn (s : Store K V P) (data : P) : Store K V P :=
  { s with
    txns := Function.update s.txns s.bound (some ⟨[], fun _ => none, data⟩)
    bound := s.bound + 1 }

/-- A transaction goes on. -/
def set (s : Store K V P) (i : Nat) (t : Txn K V P) : Store K V P :=
  { s with txns := Function.update s.txns i (some t) }

/-- A transaction commits: its versions become the rows. -/
def commit (s : Store K V P) (i : Nat) (t : Txn K V P) : Store K V P :=
  { s with rows := t.view s.rows, txns := Function.update s.txns i none }

/-- A transaction aborts. -/
def abort (s : Store K V P) (i : Nat) : Store K V P :=
  { s with txns := Function.update s.txns i none }

/-- A row inserted and committed at once. -/
def insertRow [DecidableEq K] (s : Store K V P) (k : K) (v : V) : Store K V P :=
  { s with rows := Function.update s.rows k (some v) }

/-- A row written or deleted, and committed at once. -/
def setRow [DecidableEq K] (s : Store K V P) (k : K) (v : Option V) : Store K V P :=
  { s with rows := Function.update s.rows k v }

/-- Whether a transaction has locked a row. -/
def isHeld [DecidableEq K] (s : Store K V P) (k : K) : Bool :=
  (List.range s.bound).any fun j => (s.txns j).any fun t => t.held.contains k

/-- Whether a transaction other than `i` has locked a row. -/
def heldByOther [DecidableEq K] (s : Store K V P) (i : Nat) (k : K) : Bool :=
  (List.range s.bound).any fun j => j != i && (s.txns j).any fun t => t.held.contains k

/-- No transaction has a version of the row, and it is not in the table. -/
def Unused (s : Store K V P) (k : K) : Prop :=
  s.rows k = none ∧ ∀ i t, s.txns i = some t → t.own k = none

/-- The discipline the locks enforce. -/
structure Ok (s : Store K V P) : Prop where
  bounded : ∀ i t, s.txns i = some t → i < s.bound
  exclusive : ∀ i j t u k, i ≠ j → s.txns i = some t → s.txns j = some u → k ∈ t.held → k ∉ u.held
  owned : ∀ i t k, s.txns i = some t → t.own k ≠ none → k ∈ t.held ∨ s.rows k = none
  separate : ∀ i j t u k, i ≠ j → s.txns i = some t → s.txns j = some u → t.own k ≠ none →
    u.own k = none

variable {s : Store K V P} {i : Nat} {t t' : Txn K V P} {data : P}

theorem ok_empty : (empty : Store K V P).Ok :=
  ⟨fun _ _ h => (by cases h), fun _ _ _ _ _ _ h => (by cases h), fun _ _ _ h => (by cases h),
    fun _ _ _ _ _ _ h => (by cases h)⟩

/-! ### The transactions after a step -/

theorem txns_set (s : Store K V P) (i : Nat) (t : Txn K V P) {j : Nat} {u : Txn K V P}
    (h : (s.set i t).txns j = some u) : (j = i ∧ u = t) ∨ (j ≠ i ∧ s.txns j = some u) := by
  by_cases hj : j = i
  · subst hj
    simp only [set, Function.update_self] at h
    exact .inl ⟨rfl, (Option.some.inj h).symm⟩
  · simp only [set, Function.update_of_ne hj] at h
    exact .inr ⟨hj, h⟩

theorem txns_abort (s : Store K V P) (i : Nat) {j : Nat} {u : Txn K V P}
    (h : (s.abort i).txns j = some u) : j ≠ i ∧ s.txns j = some u := by
  by_cases hj : j = i
  · subst hj
    simp only [abort, Function.update_self] at h
    cases h
  · simp only [abort, Function.update_of_ne hj] at h
    exact ⟨hj, h⟩

theorem txns_beginTxn (s : Store K V P) (data : P) {j : Nat} {u : Txn K V P}
    (h : (s.beginTxn data).txns j = some u) :
    u = ⟨[], fun _ => none, data⟩ ∨ s.txns j = some u := by
  by_cases hj : j = s.bound
  · subst hj
    simp only [beginTxn, Function.update_self] at h
    exact .inl (Option.some.inj h).symm
  · simp only [beginTxn, Function.update_of_ne hj] at h
    exact .inr h

/-- A row that no other transaction was found to hold. -/
theorem not_held_of_heldByOther [DecidableEq K] {k : K} (hok : s.Ok)
    (h : s.heldByOther i k = false) {j : Nat} {u : Txn K V P} (hj : j ≠ i)
    (hu : s.txns j = some u) : k ∉ u.held := by
  intro hk
  rw [heldByOther, List.any_eq_false] at h
  exact h j (List.mem_range.mpr (hok.bounded j u hu)) (by simp [hj, hu, hk])

/-- A row that was found to be locked by nobody. -/
theorem not_held_of_isHeld [DecidableEq K] {k : K} (hok : s.Ok) (h : s.isHeld k = false) {j : Nat}
    {u : Txn K V P} (hu : s.txns j = some u) : k ∉ u.held := by
  intro hk
  rw [isHeld, List.any_eq_false] at h
  exact h j (List.mem_range.mpr (hok.bounded j u hu)) (by simp [hu, hk])

/-! ### The discipline is kept -/

/-- **A transaction goes on**: the rows it locks now are locked by no other, and its new versions are of
rows it has locked or of unused ones. -/
theorem Ok.set (hok : s.Ok) (ht : s.txns i = some t)
    (hheld : ∀ k ∈ t'.held, ∀ j u, j ≠ i → s.txns j = some u → k ∉ u.held)
    (hown : ∀ k, t'.own k ≠ none →
      t.own k ≠ none ∧ (k ∈ t.held → k ∈ t'.held) ∨ (k ∈ t'.held ∧ s.rows k ≠ none) ∨ s.Unused k) :
    (s.set i t').Ok where
  bounded j u h := by
    rcases txns_set s i t' h with ⟨rfl, rfl⟩ | ⟨-, h⟩
    · exact hok.bounded _ t ht
    · exact hok.bounded j u h
  exclusive a b u v k hab hu hv hk := by
    rcases txns_set s i t' hu with ⟨rfl, rfl⟩ | ⟨ha, hu'⟩
    · rcases txns_set s a u hv with ⟨rfl, rfl⟩ | ⟨hb, hv'⟩
      · exact absurd rfl hab
      · exact hheld k hk b v hb hv'
    · rcases txns_set s i t' hv with ⟨rfl, rfl⟩ | ⟨hb, hv'⟩
      · exact fun hk' => hheld k hk' a u ha hu' hk
      · exact hok.exclusive a b u v k hab hu' hv' hk
  owned j u k hu hk := by
    rcases txns_set s i t' hu with ⟨rfl, rfl⟩ | ⟨-, hu⟩
    · rcases hown k hk with ⟨hold, hkeep⟩ | ⟨hlock, -⟩ | hunused
      · exact (hok.owned _ t k ht hold).imp_left hkeep
      · exact .inl hlock
      · exact .inr hunused.1
    · exact hok.owned j u k hu hk
  separate a b u v k hab hu hv hk := by
    -- a new version of a row cannot meet another transaction's version of it
    have hnew : ∀ j w, j ≠ i → s.txns j = some w → t'.own k ≠ none → w.own k = none := by
      intro j w hj hw hk
      rcases hown k hk with ⟨hold, -⟩ | ⟨hlock, hrow⟩ | hunused
      · exact hok.separate i j t w k (Ne.symm hj) ht hw hold
      · by_contra hne
        rcases hok.owned j w k hw hne with h | h
        · exact hheld k hlock j w hj hw h
        · exact hrow h
      · exact hunused.2 j w hw
    rcases txns_set s i t' hu with ⟨rfl, rfl⟩ | ⟨ha, hu'⟩
    · rcases txns_set s a u hv with ⟨rfl, rfl⟩ | ⟨hb, hv'⟩
      · exact absurd rfl hab
      · exact hnew b v hb hv' hk
    · rcases txns_set s i t' hv with ⟨rfl, rfl⟩ | ⟨hb, hv'⟩
      · by_contra hne
        exact hk (hnew a u ha hu' hne)
      · exact hok.separate a b u v k hab hu' hv' hk

theorem Ok.beginTxn (hok : s.Ok) (data : P) : (s.beginTxn data).Ok where
  bounded j u h := by
    by_cases hj : j = s.bound
    · subst hj
      exact Nat.lt_succ_self _
    · simp only [Store.beginTxn, Function.update_of_ne hj] at h
      exact Nat.lt_succ_of_lt (hok.bounded j u h)
  exclusive a b u v k hab hu hv hk := by
    rcases txns_beginTxn s data hu with rfl | hu
    · cases hk
    · rcases txns_beginTxn s data hv with rfl | hv
      · simp
      · exact hok.exclusive a b u v k hab hu hv hk
  owned j u k hu hk := by
    rcases txns_beginTxn s data hu with rfl | hu
    · exact absurd rfl hk
    · exact hok.owned j u k hu hk
  separate a b u v k hab hu hv hk := by
    rcases txns_beginTxn s data hu with rfl | hu
    · exact absurd rfl hk
    · rcases txns_beginTxn s data hv with rfl | hv
      · rfl
      · exact hok.separate a b u v k hab hu hv hk

theorem Ok.abort (hok : s.Ok) (i : Nat) : (s.abort i).Ok where
  bounded j u h := hok.bounded j u (txns_abort s i h).2
  exclusive a b u v k hab hu hv :=
    hok.exclusive a b u v k hab (txns_abort s i hu).2 (txns_abort s i hv).2
  owned j u k hu := hok.owned j u k (txns_abort s i hu).2
  separate a b u v k hab hu hv :=
    hok.separate a b u v k hab (txns_abort s i hu).2 (txns_abort s i hv).2

/-- A row that a transaction has no version of is the same after its commit. -/
theorem rows_commit_of_own {k : K} (h : t.own k = none) : (s.commit i t).rows k = s.rows k := by
  simp [commit, Txn.view, h]

/-- **A locked row** does not change when another transaction commits. -/
theorem rows_commit_of_held (hok : s.Ok) (ht : s.txns i = some t) {j : Nat} {u : Txn K V P}
    (hj : j ≠ i) (hu : s.txns j = some u) {k : K} (hk : k ∈ u.held) (hrow : s.rows k ≠ none) :
    (s.commit i t).rows k = s.rows k := by
  refine rows_commit_of_own ?_
  by_contra hne
  rcases hok.owned i t k ht hne with h | h
  · exact hok.exclusive i j t u k (Ne.symm hj) ht hu h hk
  · exact hrow h

theorem Ok.commit (hok : s.Ok) (ht : s.txns i = some t) : (s.commit i t).Ok where
  bounded j u h := hok.bounded j u (txns_abort s i h).2
  exclusive a b u v k hab hu hv :=
    hok.exclusive a b u v k hab (txns_abort s i hu).2 (txns_abort s i hv).2
  owned j u k hu hk := by
    obtain ⟨hj, hu⟩ := txns_abort s i hu
    -- the one that commits has no version of a row another has a version of
    have hnone : t.own k = none := hok.separate j i u t k hj hu ht hk
    rw [rows_commit_of_own hnone]
    exact hok.owned j u k hu hk
  separate a b u v k hab hu hv :=
    hok.separate a b u v k hab (txns_abort s i hu).2 (txns_abort s i hv).2

/-- A row that no transaction has a version of is written or deleted. -/
theorem Ok.setRow [DecidableEq K] (hok : s.Ok) {k : K} (v : Option V)
    (hk : ∀ j u, s.txns j = some u → u.own k = none) : (s.setRow k v).Ok where
  bounded := hok.bounded
  exclusive := hok.exclusive
  owned j u k' hu hk' := by
    have hne : k' ≠ k := by
      rintro rfl
      exact hk' (hk j u hu)
    simp only [Store.setRow, Function.update_of_ne hne]
    exact hok.owned j u k' hu hk'
  separate := hok.separate

theorem Ok.insertRow [DecidableEq K] (hok : s.Ok) {k : K} (v : V) (hk : s.Unused k) :
    (s.insertRow k v).Ok :=
  hok.setRow (some v) hk.2

end Store

end PgSynapse

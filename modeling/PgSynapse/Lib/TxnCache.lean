/-!
# A cache beside a transactional store

A process works on a store in transactions and keeps a value it has built from what it sees of the
store.  The store comes back on a rollback, and the cached value does not: it is dropped by a write
and by nothing else.  Such a cache is coherent when what it holds is what would be built now.
-/

namespace PgSynapse

/-- The committed store, what the transaction sees, whether the transaction has failed, and the cached
value. -/
structure TxnCache (γ κ : Type) where
  committed : γ
  visible : γ
  aborted : Bool
  cache : Option κ

namespace TxnCache

variable {γ κ ε : Type}

/-- No transaction is open, and nothing is cached. -/
def init (store : γ) : TxnCache γ κ := ⟨store, store, false, none⟩

/-- The transaction fails. -/
def fail (s : TxnCache γ κ) : TxnCache γ κ := { s with aborted := true }

/-- A write that drops the cached value, or fails. -/
def write (s : TxnCache γ κ) (f : γ → Except ε γ) : TxnCache γ κ :=
  match f s.visible with
  | .ok store => { s with visible := store, cache := none }
  | .error _ => s.fail

/-- The value a reader gets: the cached one, or one that is built. -/
def handle (build : γ → Except ε κ) (s : TxnCache γ κ) : Except ε κ :=
  match s.cache with
  | some value => .ok value
  | none => build s.visible

/-- A read fills the cache, or fails. -/
def read (build : γ → Except ε κ) (s : TxnCache γ κ) : TxnCache γ κ :=
  match s.handle build with
  | .ok value => { s with cache := some value }
  | .error _ => s.fail

/-- The transaction is rolled back. -/
def rollback (s : TxnCache γ κ) : TxnCache γ κ :=
  { s with visible := s.committed, aborted := false }

/-- The transaction ends with COMMIT, which is a rollback where it has failed. -/
def commit (s : TxnCache γ κ) : TxnCache γ κ :=
  if s.aborted then s.rollback else { s with committed := s.visible }

/-! ### Coherence -/

/-- The cached value is what would be built now. -/
def Coherent (build : γ → Except ε κ) (s : TxnCache γ κ) : Prop :=
  ∀ value, s.cache = some value → build s.visible = .ok value

/-- A rollback does not take the store away from under the cache. -/
def RollbackSafe (s : TxnCache γ κ) : Prop := s.cache = none ∨ s.visible = s.committed

variable {build : γ → Except ε κ} {s : TxnCache γ κ}

theorem coherent_init (store : γ) : Coherent build (init store) := by
  intro value h
  cases h

theorem Coherent.fail (hs : Coherent build s) : Coherent build s.fail := hs

theorem Coherent.write {ε' : Type} (hs : Coherent build s) (f : γ → Except ε' γ) :
    Coherent build (s.write f) := by
  unfold TxnCache.write
  split
  · intro value h
    cases h
  · exact hs.fail

/-- **Reading a coherent cache** gives what would be built now. -/
theorem Coherent.handle_eq (hs : Coherent build s) : s.handle build = build s.visible := by
  unfold handle
  split
  · next value h => exact (hs value h).symm
  · rfl

theorem Coherent.read (hs : Coherent build s) : Coherent build (s.read build) := by
  unfold TxnCache.read
  split
  · next value h =>
    intro value' h'
    obtain rfl : value = value' := Option.some.inj h'
    exact hs.handle_eq.symm.trans h
  · exact hs.fail

theorem Coherent.rollback (hs : Coherent build s) (hsafe : s.RollbackSafe) :
    Coherent build s.rollback := by
  intro value h
  rcases hsafe with hnone | hsame
  · have hcache : s.cache = some value := h
    rw [hnone] at hcache
    cases hcache
  · -- the store that comes back is the one the value was built from
    show build s.committed = _
    rw [← hsame]
    exact hs value h

theorem Coherent.commit (hs : Coherent build s) (hsafe : s.aborted = true → s.RollbackSafe) :
    Coherent build s.commit := by
  unfold TxnCache.commit
  split
  · next h => exact hs.rollback (hsafe h)
  · exact hs

end TxnCache

end PgSynapse

import Mathlib.Data.List.Nodup

/-!
# Tables with a primary key

A table is a list of rows, in the order they were inserted, no two of which have the same key.  The
operations are the statements a program runs on such a table: INSERT, UPDATE and DELETE by key, and
INSERT with ON CONFLICT DO UPDATE.
-/

namespace PgSynapse

variable {ρ κ : Type}

/-- A table with a primary key. -/
structure Table (key : ρ → κ) where
  rows : List ρ
  nodup : (rows.map key).Nodup

namespace Table

variable {key : ρ → κ}

/-- The table without rows. -/
def empty : Table key := ⟨[], List.nodup_nil⟩

/-- The keys of the table. -/
def keys (t : Table key) : List κ := t.rows.map key

/-- INSERT of a row whose key is not taken. -/
def insert (t : Table key) (row : ρ) (h : key row ∉ t.keys) : Table key where
  rows := t.rows ++ [row]
  nodup := by
    rw [List.map_append]
    refine List.nodup_append.mpr ⟨t.nodup, by simp, ?_⟩
    intro a ha b hb heq
    have hb' : b = key row := by simpa using hb
    exact h (hb' ▸ heq ▸ ha)

/-- DELETE of the rows that do not meet a condition. -/
def keep (t : Table key) (p : ρ → Bool) : Table key where
  rows := t.rows.filter p
  nodup := t.nodup.sublist (List.filter_sublist.map key)

variable [DecidableEq κ]

/-- UPDATE of the row with a given key; the key itself is not changed. -/
def update (t : Table key) (k : κ) (f : ρ → ρ) (hf : ∀ r, key (f r) = key r) : Table key where
  rows := t.rows.map fun r => if key r = k then f r else r
  nodup := by
    have hkeys : (key ∘ fun r => if key r = k then f r else r) = key := by
      funext r
      rw [Function.comp_apply]
      split
      · exact hf r
      · rfl
    rw [List.map_map, hkeys]
    exact t.nodup

/-- INSERT with ON CONFLICT DO UPDATE. -/
def upsert (t : Table key) (row : ρ) (f : ρ → ρ) (hf : ∀ r, key (f r) = key r) : Table key :=
  if h : key row ∈ t.keys then t.update (key row) f hf else t.insert row h

/-- The rows with a given key. -/
def withKey (t : Table key) (k : κ) : List ρ := t.rows.filter fun r => key r = k

/-- The row with a given key. -/
def get (t : Table key) (k : κ) : Option ρ := (t.withKey k).head?

/-! ### Reading -/

omit [DecidableEq κ] in
/-- Tables with the same rows are equal. -/
theorem eq_of_rows {t t' : Table key} (h : t.rows = t'.rows) : t = t' := by
  obtain ⟨rows, _⟩ := t
  obtain ⟨rows', _⟩ := t'
  cases h
  rfl

omit [DecidableEq κ] in
@[simp] theorem insert_rows (t : Table key) (row : ρ) (h : key row ∉ t.keys) :
    (t.insert row h).rows = t.rows ++ [row] := rfl

omit [DecidableEq κ] in
@[simp] theorem insert_keys (t : Table key) (row : ρ) (h : key row ∉ t.keys) :
    (t.insert row h).keys = t.keys ++ [key row] := by
  rw [keys, insert_rows, List.map_append]
  rfl

omit [DecidableEq κ] in
/-- A condition that every row meets deletes nothing. -/
theorem keep_eq_self {t : Table key} {p : ρ → Bool} (h : ∀ r ∈ t.rows, p r = true) :
    t.keep p = t := by
  have hrows : (t.keep p).rows = t.rows := List.filter_eq_self.mpr h
  cases t
  simp only [keep, mk.injEq] at hrows ⊢
  exact hrows

omit [DecidableEq κ] in
/-- A DELETE keeps the rows that meet its condition. -/
theorem filter_keep (t : Table key) (p : ρ → Bool) : (t.keep p).rows.filter p = t.rows.filter p := by
  rw [keep, List.filter_filter]
  simp only [Bool.and_self]

omit [DecidableEq κ] in
/-- DELETE adds no key. -/
theorem mem_keys_of_keep {t : Table key} {p : ρ → Bool} {k : κ} (h : k ∈ (t.keep p).keys) :
    k ∈ t.keys := by
  obtain ⟨r, hr, rfl⟩ := List.mem_map.mp h
  exact List.mem_map_of_mem (List.mem_filter.mp hr).1

omit [DecidableEq κ] in
/-- The keys of the rows that a DELETE keeps. -/
theorem mem_keys_keep {t : Table key} {p : ρ → Bool} {k : κ}
    (h : k ∈ t.keys) (hp : ∀ r ∈ t.rows, key r = k → p r = true) : k ∈ (t.keep p).keys := by
  obtain ⟨r, hr, rfl⟩ := List.mem_map.mp h
  exact List.mem_map_of_mem (List.mem_filter.mpr ⟨hr, hp r hr rfl⟩)

/-- No row has a key that is not in the table. -/
theorem withKey_of_notMem {t : Table key} {k : κ} (h : k ∉ t.keys) : t.withKey k = [] := by
  rw [withKey, List.filter_eq_nil_iff]
  intro r hr
  rw [decide_eq_true_eq]
  rintro rfl
  exact h (List.mem_map_of_mem hr)

/-- One row has a key of the table. -/
theorem exists_withKey {t : Table key} {k : κ} (h : k ∈ t.keys) : ∃ row, t.withKey k = [row] := by
  obtain ⟨rows, hnodup⟩ := t
  simp only [keys, withKey] at h ⊢
  induction rows with
  | nil => exact absurd h (by simp)
  | cons r rest ih =>
    rw [List.map_cons, List.nodup_cons] at hnodup
    by_cases hr : key r = k
    · -- the key of `r` is not in the rest
      subst hr
      have hrest := withKey_of_notMem (t := ⟨rest, hnodup.2⟩) hnodup.1
      refine ⟨r, ?_⟩
      rw [List.filter_cons_of_pos (by simp)]
      exact congrArg _ hrest
    · rw [List.filter_cons_of_neg (by simpa using hr)]
      rw [List.map_cons, List.mem_cons] at h
      exact ih hnodup.2 (h.resolve_left (Ne.symm hr))

theorem withKey_insert (t : Table key) (row : ρ) (h : key row ∉ t.keys) :
    (t.insert row h).withKey (key row) = [row] := by
  have hnone := withKey_of_notMem h
  rw [withKey] at hnone ⊢
  rw [insert_rows, List.filter_append, hnone]
  simp

theorem withKey_update (t : Table key) (k : κ) (f : ρ → ρ) (hf : ∀ r, key (f r) = key r) :
    (t.update k f hf).withKey k = (t.withKey k).map f := by
  obtain ⟨rows, hnodup⟩ := t
  simp only [withKey, update]
  clear hnodup
  induction rows with
  | nil => rfl
  | cons r rest ih =>
    by_cases hr : key r = k
    · simp [hr, hf, ih]
    · simp [hr, ih]

/-- INSERT leaves the rows of other keys alone. -/
theorem withKey_insert_of_ne (t : Table key) (row : ρ) (h : key row ∉ t.keys) {k : κ}
    (hk : k ≠ key row) : (t.insert row h).withKey k = t.withKey k := by
  rw [withKey, withKey, insert_rows, List.filter_append]
  simp [Ne.symm hk]

/-- UPDATE leaves the rows of other keys alone. -/
theorem withKey_update_of_ne (t : Table key) (k' : κ) (f : ρ → ρ) (hf : ∀ r, key (f r) = key r)
    {k : κ} (hk : k ≠ k') : (t.update k' f hf).withKey k = t.withKey k := by
  obtain ⟨rows, hnodup⟩ := t
  simp only [withKey, update]
  clear hnodup
  induction rows with
  | nil => rfl
  | cons r rest ih =>
    by_cases hr : key r = k'
    · have hne : k' ≠ k := Ne.symm hk
      simp [hr, hf, hne, ih]
    · simp [hr, List.filter_cons, ih]

/-- A row of the table is the row with its key. -/
theorem get_of_mem {t : Table key} {row : ρ} (h : row ∈ t.rows) : t.get (key row) = some row := by
  have hmem : row ∈ t.withKey (key row) := List.mem_filter.mpr ⟨h, by simp⟩
  obtain ⟨r, hr⟩ := exists_withKey (t := t) (List.mem_map_of_mem h : key row ∈ t.keys)
  rw [hr, List.mem_singleton] at hmem
  rw [get, hr, hmem]
  rfl

/-- The row with a key has that key. -/
theorem key_of_get {t : Table key} {k : κ} {row : ρ} (h : t.get k = some row) : key row = k := by
  have hmem : row ∈ t.withKey k := List.mem_of_head? h
  simpa using (List.mem_filter.mp hmem).2

theorem mem_of_get {t : Table key} {k : κ} {row : ρ} (h : t.get k = some row) : row ∈ t.rows :=
  (List.mem_filter.mp (List.mem_of_head? h)).1

theorem withKey_of_get {t : Table key} {k : κ} {row : ρ} (h : t.get k = some row) :
    t.withKey k = [row] := by
  have hkey : k ∈ t.keys := key_of_get h ▸ List.mem_map_of_mem (mem_of_get h)
  obtain ⟨r, hr⟩ := exists_withKey hkey
  rw [get, hr, List.head?_cons] at h
  rw [hr, Option.some.inj h]

theorem get_of_notMem {t : Table key} {k : κ} (h : k ∉ t.keys) : t.get k = none := by
  rw [get, withKey_of_notMem h]
  rfl

theorem get_insert_self (t : Table key) (row : ρ) (h : key row ∉ t.keys) :
    (t.insert row h).get (key row) = some row := by
  rw [get, withKey_insert]
  rfl

theorem get_insert_of_ne (t : Table key) (row : ρ) (h : key row ∉ t.keys) {k : κ}
    (hk : k ≠ key row) : (t.insert row h).get k = t.get k := by
  rw [get, get, withKey_insert_of_ne t row h hk]

theorem get_update_self (t : Table key) (k : κ) (f : ρ → ρ) (hf : ∀ r, key (f r) = key r) :
    (t.update k f hf).get k = (t.get k).map f := by
  rw [get, get, withKey_update, List.head?_map]

theorem get_update_of_ne (t : Table key) (k' : κ) (f : ρ → ρ) (hf : ∀ r, key (f r) = key r)
    {k : κ} (hk : k ≠ k') : (t.update k' f hf).get k = t.get k := by
  rw [get, get, withKey_update_of_ne t k' f hf hk]

/-- A DELETE that keeps the row with a key. -/
theorem get_keep {t : Table key} {p : ρ → Bool} {k : κ}
    (h : ∀ r ∈ t.rows, key r = k → p r = true) : (t.keep p).get k = t.get k := by
  have hrows : (t.keep p).withKey k = t.withKey k := by
    rw [withKey, withKey, keep, List.filter_filter]
    apply List.filter_congr
    intro r hr
    by_cases hk : key r = k
    · rw [h r hr hk, Bool.and_true]
    · simp [hk]
  rw [get, get, hrows]

/-- A DELETE of the row with a key. -/
theorem get_keep_eq_none {t : Table key} {p : ρ → Bool} {k : κ}
    (h : ∀ r ∈ t.rows, key r = k → p r = false) : (t.keep p).get k = none := by
  apply get_of_notMem
  intro hk
  obtain ⟨r, hr, hrk⟩ := List.mem_map.mp hk
  obtain ⟨hr, hp⟩ := List.mem_filter.mp hr
  rw [h r hr hrk] at hp
  cases hp

theorem get_isSome {t : Table key} {k : κ} (h : k ∈ t.keys) : ∃ row, t.get k = some row := by
  obtain ⟨row, hrow⟩ := exists_withKey h
  exact ⟨row, by rw [get, hrow, List.head?_cons]⟩

theorem mem_update {t : Table key} {k : κ} {f : ρ → ρ} (hf : ∀ r, key (f r) = key r) {r : ρ} :
    r ∈ (t.update k f hf).rows ↔
      (r ∈ t.rows ∧ key r ≠ k) ∨ ∃ r₀ ∈ t.rows, key r₀ = k ∧ r = f r₀ := by
  rw [update, List.mem_map]
  constructor
  · rintro ⟨r₀, hr₀, rfl⟩
    by_cases hk : key r₀ = k
    · rw [if_pos hk]
      exact .inr ⟨r₀, hr₀, hk, rfl⟩
    · rw [if_neg hk]
      exact .inl ⟨hr₀, hk⟩
  · rintro (⟨hr, hk⟩ | ⟨r₀, hr₀, hk, rfl⟩)
    · exact ⟨r, hr, if_neg hk⟩
    · exact ⟨r₀, hr₀, if_pos hk⟩

/-- The rows after an upsert: those of other keys, and the new row or the changed one. -/
theorem mem_upsert {t : Table key} {row : ρ} {f : ρ → ρ} {hf : ∀ r, key (f r) = key r} {r : ρ}
    (h : r ∈ (t.upsert row f hf).rows) :
    (r ∈ t.rows ∧ key r ≠ key row) ∨ (key row ∉ t.keys ∧ r = row) ∨
      ∃ r₀ ∈ t.rows, key r₀ = key row ∧ r = f r₀ := by
  unfold upsert at h
  split at h
  case isTrue hk =>
    rcases (mem_update hf).mp h with hother | hchanged
    · exact .inl hother
    · exact .inr (.inr hchanged)
  case isFalse hk =>
    rw [insert_rows, List.mem_append, List.mem_singleton] at h
    rcases h with hr | rfl
    · exact .inl ⟨hr, fun heq => hk (heq ▸ List.mem_map_of_mem hr)⟩
    · exact .inr (.inl ⟨hk, rfl⟩)

/-- UPDATE changes no key. -/
theorem keys_update (t : Table key) (k : κ) (f : ρ → ρ) (hf : ∀ r, key (f r) = key r) :
    (t.update k f hf).keys = t.keys := by
  rw [keys, keys, update, List.map_map]
  refine List.map_congr_left fun r _ => ?_
  rw [Function.comp_apply]
  split
  · exact hf r
  · rfl

theorem mem_keys_upsert {t : Table key} {row : ρ} {f : ρ → ρ} {hf : ∀ r, key (f r) = key r}
    {k : κ} : k ∈ (t.upsert row f hf).keys ↔ k ∈ t.keys ∨ k = key row := by
  unfold upsert
  split
  case isTrue hk =>
    rw [keys_update]
    exact ⟨.inl, fun h => h.elim id fun heq => heq ▸ hk⟩
  case isFalse => rw [insert_keys, List.mem_append, List.mem_singleton]

/-- A query that reads no row with the key does not see the upsert. -/
theorem filter_upsert {t : Table key} {row : ρ} {f : ρ → ρ} {hf : ∀ r, key (f r) = key r}
    {p : ρ → Bool} (hp : ∀ r, key r = key row → p r = false) :
    (t.upsert row f hf).rows.filter p = t.rows.filter p := by
  have hmap : ∀ rows : List ρ,
      (rows.map fun r => if key r = key row then f r else r).filter p = rows.filter p := by
    intro rows
    induction rows with
    | nil => rfl
    | cons r rest ih =>
      rw [List.map_cons, List.filter_cons, List.filter_cons, ih]
      by_cases hk : key r = key row
      · rw [if_pos hk, hp r hk, hp (f r) ((hf r).trans hk), if_neg (by decide), if_neg (by decide)]
      · rw [if_neg hk]
  unfold upsert
  split
  · exact hmap t.rows
  · rw [insert_rows, List.filter_append, List.filter_cons_of_neg (by simp [hp row rfl]),
      List.filter_nil, List.append_nil]

/-- An upsert on some columns of a table. -/
theorem upsert_rows_map {ρ' : Type} {key' : ρ' → κ} {t : Table key} {t' : Table key'} {g : ρ → ρ'}
    (hrows : t'.rows = t.rows.map g) (hkey : ∀ r, key' (g r) = key r) {f : ρ → ρ} {f' : ρ' → ρ'}
    {hf : ∀ r, key (f r) = key r} {hf' : ∀ r, key' (f' r) = key' r}
    (hfg : ∀ r, f' (g r) = g (f r)) (row : ρ) :
    (t'.upsert (g row) f' hf').rows = (t.upsert row f hf).rows.map g := by
  have hkeys : t'.keys = t.keys := by
    rw [keys, keys, hrows, List.map_map]
    exact List.map_congr_left fun r _ => hkey r
  have hmem : key' (g row) ∈ t'.keys ↔ key row ∈ t.keys := by rw [hkey, hkeys]
  unfold upsert
  by_cases h : key row ∈ t.keys
  · rw [dif_pos h, dif_pos (hmem.mpr h)]
    show t'.rows.map _ = (t.rows.map _).map g
    rw [hrows, List.map_map, List.map_map]
    refine List.map_congr_left fun r _ => ?_
    rw [Function.comp_apply, Function.comp_apply, hkey, hkey, hfg, apply_ite g]
  · rw [dif_neg h, dif_neg fun hk => h (hmem.mp hk), insert_rows, insert_rows, hrows,
      List.map_append]
    rfl

/-- An upsert leaves the rows of other keys alone. -/
theorem get_upsert_of_ne (t : Table key) (row : ρ) (f : ρ → ρ) (hf : ∀ r, key (f r) = key r)
    {k : κ} (hk : k ≠ key row) : (t.upsert row f hf).get k = t.get k := by
  unfold upsert
  split
  · exact get_update_of_ne t _ f hf hk
  · exact get_insert_of_ne t row _ hk

end Table

end PgSynapse

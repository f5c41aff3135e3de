import Mathlib.Data.List.Chain

/-!
# Merging neighbours of one key

`mergeRuns` joins neighbouring entries of a keyed list that have the same key.  Afterwards no two
neighbours have the same key, and a run of entries of one key has become one entry.
-/

namespace PgSynapse

variable {κ β : Type} [DecidableEq κ]

/-- Join an entry with the one after it when they have the same key. -/
def mergeOne (entry : κ × List β) : List (κ × List β) → List (κ × List β)
  | [] => [entry]
  | next :: rest =>
    if entry.1 = next.1 then (entry.1, entry.2 ++ next.2) :: rest else entry :: next :: rest

/-- Join all neighbours of one key. -/
def mergeRuns (entries : List (κ × List β)) : List (κ × List β) := entries.foldr mergeOne []

@[simp] theorem mergeRuns_nil : mergeRuns ([] : List (κ × List β)) = [] := rfl

@[simp] theorem mergeRuns_cons (entry : κ × List β) (entries : List (κ × List β)) :
    mergeRuns (entry :: entries) = mergeOne entry (mergeRuns entries) := rfl

theorem mergeOne_head (entry : κ × List β) (entries : List (κ × List β)) :
    ∃ blocks rest, mergeOne entry entries = (entry.1, blocks) :: rest := by
  cases entries with
  | nil => exact ⟨_, _, rfl⟩
  | cons next rest =>
    rw [mergeOne]
    split <;> exact ⟨_, _, rfl⟩

/-- No two neighbours of the merged list have the same key. -/
theorem mergeRuns_alternates (entries : List (κ × List β)) :
    (mergeRuns entries).IsChain fun a b => a.1 ≠ b.1 := by
  induction entries with
  | nil => exact .nil
  | cons entry entries ih =>
    rw [mergeRuns_cons]
    cases hrest : mergeRuns entries with
    | nil => exact .singleton _
    | cons next rest =>
      rw [hrest] at ih
      rw [mergeOne]
      split
      · rename_i hkey
        -- the joined entry has the key of the one it was joined with
        cases rest with
        | nil => exact .singleton _
        | cons after rest =>
          obtain ⟨hne, hchain⟩ := List.isChain_cons_cons.mp ih
          exact List.isChain_cons_cons.mpr ⟨by rw [hkey]; exact hne, hchain⟩
      · exact List.isChain_cons_cons.mpr ⟨‹_›, ih⟩

/-- **A run of one key** becomes one entry, if another key follows it or nothing does. -/
theorem mergeRuns_run {k : κ} {run rest : List (κ × List β)} (hne : run ≠ [])
    (hrun : ∀ entry ∈ run, entry.1 = k) (hrest : ∀ entry ∈ rest.head?, entry.1 ≠ k) :
    mergeRuns (run ++ rest) = (k, run.flatMap Prod.snd) :: mergeRuns rest := by
  induction run with
  | nil => exact absurd rfl hne
  | cons entry run ih =>
    obtain ⟨rfl, hrun⟩ := List.forall_mem_cons.mp hrun
    rw [List.cons_append, mergeRuns_cons]
    by_cases hlast : run = []
    · subst hlast
      rw [List.nil_append, List.flatMap_cons, List.flatMap_nil, List.append_nil]
      cases rest with
      | nil => rfl
      | cons next rest =>
        obtain ⟨blocks, more, hmerged⟩ := mergeOne_head next (mergeRuns rest)
        have hkey : entry.1 ≠ next.1 := (hrest next (by simp)).symm
        rw [mergeRuns_cons, hmerged, mergeOne, if_neg hkey]
    · rw [ih hlast hrun, mergeOne, if_pos rfl, List.flatMap_cons]

end PgSynapse

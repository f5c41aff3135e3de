import PgSynapse.Llm.RecoveryLayer

/-!
# Rebuilt lists

What `rebuild_messages` makes of a list: the rows that are not collapsed, in their order, and at
most one digest between them (`rebuildMessages_eq`).
-/

namespace PgSynapse

/-- The positions among the `n` from `i` on whose row stays. -/
def stayingFrom (collapsed : List UInt32) (i n : Nat) : List Nat :=
  (List.range' i n).filter (UInt32.ofNat · ∉ collapsed)

/-- The positions of the rows that stay. -/
def staying (messages : List Message) (collapsed : List UInt32) : List Nat :=
  stayingFrom collapsed 0 messages.length

theorem mem_staying {messages : List Message} {collapsed : List UInt32} {i : Nat} :
    i ∈ staying messages collapsed ↔ i < messages.length ∧ UInt32.ofNat i ∉ collapsed := by
  unfold staying stayingFrom
  rw [List.mem_filter, List.mem_range'_1]
  simp

/-- The rows at some positions of a list. -/
def rowsAt (messages : List Message) (positions : List Nat) : List Message :=
  positions.filterMap (messages[·]?)

theorem stayingFrom_collapsed {collapsed : List UInt32} {i : Nat} (n : Nat)
    (h : UInt32.ofNat i ∈ collapsed) :
    stayingFrom collapsed i (n + 1) = stayingFrom collapsed (i + 1) n := by
  unfold stayingFrom
  rw [List.range'_succ, List.filter_cons_of_neg (by simpa using h)]

theorem rowsAt_stays {messages : List Message} {collapsed : List UInt32} {i : Nat} {m : Message}
    (n : Nat) (h : UInt32.ofNat i ∉ collapsed) (hm : messages[i]? = some m) :
    rowsAt messages (stayingFrom collapsed i (n + 1)) =
      m :: rowsAt messages (stayingFrom collapsed (i + 1) n) := by
  unfold stayingFrom rowsAt
  rw [List.range'_succ, List.filter_cons_of_pos (by simpa using h), List.filterMap_cons_some hm]

theorem drop_eq_cons {messages rest : List Message} {i : Nat} {m : Message}
    (h : messages.drop i = m :: rest) :
    messages[i]? = some m ∧ messages.drop (i + 1) = rest := by
  constructor
  · rw [← List.head?_drop, h]
    rfl
  · rw [← List.tail_drop, h]
    rfl

/-- Once the digest stands, only the rows that stay are added. -/
theorem rebuildFrom_inserted (messages : List Message) (summary : String)
    (collapsed : List UInt32) {rest : List Message} {i : Nat} (h : messages.drop i = rest) :
    rebuildFrom messages summary collapsed i true rest =
      some (rowsAt messages (stayingFrom collapsed i rest.length)) := by
  induction rest generalizing i with
  | nil => rfl
  | cons m rest ih =>
    obtain ⟨hm, hrest⟩ := drop_eq_cons h
    rw [rebuildFrom, ih hrest, List.length_cons]
    by_cases hc : UInt32.ofNat i ∈ collapsed
    · rw [if_pos hc, if_pos rfl, stayingFrom_collapsed _ hc]
    · rw [if_neg hc, rowsAt_stays _ hc hm]
      rfl

/-- Before the digest stands: the rows that stay, and a digest in front of those after the first
collapsed one. -/
theorem rebuildFrom_fresh {messages : List Message} (summary : String) {collapsed : List UInt32}
    (hrange : ∀ c ∈ collapsed, c.toNat < messages.length) {rest : List Message} {i : Nat}
    (h : messages.drop i = rest) :
    ∃ before digest after,
      rebuildFrom messages summary collapsed i false rest = some (before ++ digest ++ after) ∧
      before ++ after = rowsAt messages (stayingFrom collapsed i rest.length) ∧
      (digest = [] ∧ (∀ j, i ≤ j → j < i + rest.length → UInt32.ofNat j ∉ collapsed) ∨
        ∃ t ∈ messages, digest = [summaryMessage t summary]) := by
  induction rest generalizing i with
  | nil => exact ⟨[], [], [], rfl, rfl, .inl ⟨rfl, fun j hle hlt => absurd hlt (by simp; omega)⟩⟩
  | cons m rest ih =>
    obtain ⟨hm, hrest⟩ := drop_eq_cons h
    rw [rebuildFrom, List.length_cons]
    by_cases hc : UInt32.ofNat i ∈ collapsed
    · -- the first collapsed row is there to lend the digest its execution and time
      have hfirst : ∃ first ∈ collapsed, collapsed.min? = some first := by
        cases hmin : collapsed.min? with
        | none => rw [List.min?_eq_none_iff.mp hmin] at hc; exact absurd hc (List.not_mem_nil)
        | some first => exact ⟨first, List.min?_mem hmin, rfl⟩
      obtain ⟨first, hmem, hmin⟩ := hfirst
      have hlt := hrange first hmem
      have hget : messages[first.toNat]? = some messages[first.toNat] :=
        List.getElem?_eq_getElem hlt
      rw [if_pos hc, if_neg (by decide), hmin, Option.bind_some, hget,
        rebuildFrom_inserted messages summary collapsed hrest, stayingFrom_collapsed _ hc]
      exact ⟨[], [summaryMessage messages[first.toNat] summary], _, rfl, rfl,
        .inr ⟨_, List.getElem_mem _, rfl⟩⟩
    · obtain ⟨before, digest, after, heq, hrows, hdigest⟩ := ih hrest
      rw [if_neg hc, heq, rowsAt_stays _ hc hm, ← hrows]
      refine ⟨m :: before, digest, after, rfl, rfl, hdigest.imp_left ?_⟩
      rintro ⟨hempty, hnone⟩
      refine ⟨hempty, fun j hle hlt => ?_⟩
      rcases Nat.eq_or_lt_of_le hle with rfl | hij
      · exact hc
      · exact hnone j hij (by omega)

/-- **The rebuilt list** of collapsed rows in bounds: the rows that stay, in their order, and one
digest between them, unless they all stay. -/
theorem rebuildMessages_eq {messages : List Message} (summary : String) {collapsed : List UInt32}
    (hrange : ∀ c ∈ collapsed, c.toNat < messages.length) :
    ∃ before digest after,
      rebuildMessages messages summary collapsed = some (before ++ digest ++ after) ∧
      before ++ after = rowsAt messages (staying messages collapsed) ∧
      (digest = [] ∧ (∀ i < messages.length, UInt32.ofNat i ∉ collapsed) ∨
        ∃ t ∈ messages, digest = [summaryMessage t summary]) := by
  obtain ⟨before, digest, after, heq, hrows, hdigest⟩ :=
    rebuildFrom_fresh summary hrange (i := 0) List.drop_zero
  refine ⟨before, digest, after, heq, hrows, hdigest.imp_left ?_⟩
  rintro ⟨hempty, hnone⟩
  exact ⟨hempty, fun i hi => hnone i (Nat.zero_le i) (by omega)⟩

end PgSynapse

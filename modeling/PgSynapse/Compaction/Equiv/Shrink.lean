import PgSynapse.Compaction.Equiv.Suffix

/-!
# When a compaction shrinks the list

The digest has a header, and a label and up to 203 characters for each collapsed row, and nothing
compares it with the rows it stands for.  The rebuilt list costs less exactly when the digest does
(`shrinks_iff`).
-/

namespace PgSynapse

namespace DefaultCompressor

/-- The estimated cost of a list. -/
def listCost (messages : List Message) : Nat := (messages.map cost).sum

instance (messages : List Message) (target : UInt32) (i : Nat) :
    Decidable (Kept messages target i) :=
  inferInstanceAs (Decidable (_ ∨ _ ∨ _ ∧ _))

/-- The positions that are not kept. -/
def notKept (messages : List Message) (target : UInt32) : List Nat :=
  (List.range messages.length).filter (¬ Kept messages target ·)

/-- The rows the digest is made of.  A position is held as a `u32`. -/
def foldedRows (messages : List Message) (target : UInt32) : List Message :=
  rowsAt messages ((notKept messages target).map (· % 2 ^ 32))

/-- The rows the rebuilt list does without: those whose position as a `u32` is that of a row that is
not kept. -/
def lostRows (messages : List Message) (target : UInt32) : List Message :=
  rowsAt messages ((List.range messages.length).filter
    (· % 2 ^ 32 ∈ (notKept messages target).map (· % 2 ^ 32)))

/-- The characters of a row in the digest. -/
def snippetChars (m : Message) : Nat :=
  if (messageText m).length ≤ 200 then (messageText m).length else 203

/-- The characters of the digest of some rows: the header, and a line for each row. -/
def digestChars (rows : List Message) : Nat :=
  31 + (toString rows.length).length +
    (rows.map fun m => 5 + (roleStr m.role).length + snippetChars m).sum

/-- The estimate of the digest of some rows, as a `u32`. -/
def digestTokens (rows : List Message) : Nat := (digestChars rows + 3) / 4 % 2 ^ 32

/-! ### The digest -/

theorem length_intercalate_cons (sep first : String) (rest : List String) :
    (sep.intercalate (first :: rest)).length =
      first.length + (rest.map fun part => sep.length + part.length).sum := by
  induction rest generalizing first with
  | nil => simp
  | cons next rest ih =>
    rw [String.intercalate_cons_cons, String.length_append, String.length_append, ih,
      List.map_cons, List.sum_cons]
    omega

theorem length_truncateChars (s : String) (max : Nat) :
    (truncateChars s max).length = if s.length ≤ max then s.length else max + 3 := by
  unfold truncateChars
  split
  · rfl
  · have htake : (s.take max).toString.length = max := by
      rw [← String.length_toList]
      show ((s.take max).copy.toList).length = max
      rw [String.toList_copy_take, List.length_take, String.length_toList]
      omega
    rw [String.length_append, htake]
    rfl

theorem collapsedIndices_eq_map (messages : List Message) (target : UInt32) :
    collapsedIndices messages target = (notKept messages target).map UInt32.ofNat := by
  unfold collapsedIndices notKept
  simp only
  congr 1
  apply List.filter_congr
  intro i hi
  have hlt := List.mem_range.mp hi
  apply decide_eq_decide.mpr
  rw [not_iff_not, List.mem_append, mem_keptRecent, Option.mem_toList]
  constructor
  · rintro (⟨-, -, hkept⟩ | hsys)
    · exact hkept
    · exact .inl hsys.symm
  · intro hkept
    by_cases hsys : systemIdx messages = some i
    · exact .inr hsys
    · exact .inl ⟨hlt, fun h => hsys h.symm, hkept⟩

theorem foldedRows_eq (messages : List Message) (target : UInt32) :
    (collapsedIndices messages target).filterMap (messages[·.toNat]?) =
      foldedRows messages target := by
  unfold foldedRows rowsAt
  rw [collapsedIndices_eq_map, List.filterMap_map, List.filterMap_map]
  rfl

/-- Every collapsed index finds its row. -/
theorem length_foldedRows (messages : List Message) (target : UInt32) :
    (foldedRows messages target).length = (collapsedIndices messages target).length := by
  rw [← foldedRows_eq, List.length_filterMap_eq_countP, List.countP_eq_length]
  intro c hc
  obtain ⟨k, hk, -, rfl⟩ := (mem_collapsedIndices messages target c).mp hc
  have hlt : (UInt32.ofNat k).toNat < messages.length := by
    rw [UInt32.toNat_ofNat']
    exact (Nat.mod_le _ _).trans_lt hk
  rw [List.getElem?_eq_getElem hlt]
  rfl

theorem length_digest (messages : List Message) (target : UInt32) :
    (digest messages (collapsedIndices messages target)).length =
      digestChars (foldedRows messages target) := by
  have hhead : ("[compacted " ++ toString (foldedRows messages target).length ++
      " earlier message(s)]").length = 31 + (toString (foldedRows messages target).length).length := by
    have hleft : "[compacted ".length = 11 := by decide
    have hright : " earlier message(s)]".length = 20 := by decide
    rw [String.length_append, String.length_append]
    omega
  -- a line is a line break, a dash, the role, a colon and the snippet
  have hline (m : Message) : "\n".length +
      ("- " ++ roleStr m.role ++ ": " ++ truncateChars (messageText m) digestSnippetChars).length =
        5 + (roleStr m.role).length + snippetChars m := by
    have hbreak : "\n".length = 1 := by decide
    have hdash : "- ".length = 2 := by decide
    have hcolon : ": ".length = 2 := by decide
    rw [String.length_append, String.length_append, String.length_append, length_truncateChars]
    unfold digestSnippetChars snippetChars
    split <;> omega
  unfold digest digestChars
  simp only
  rw [length_intercalate_cons, foldedRows_eq, ← length_foldedRows, List.map_map, hhead]
  congr 2
  exact List.map_congr_left fun m _ => hline m

/-- The digest's row costs what the digest does. -/
theorem cost_summaryMessage (t : Message) (messages : List Message) (target : UInt32) :
    cost (summaryMessage t (digest messages (collapsedIndices messages target))) =
      digestTokens (foldedRows messages target) := by
  have htext (summary : String) : messageText (summaryMessage t summary) = summary := by
    unfold messageText summaryMessage
    by_cases hempty : summary.isEmpty = true
    · simp [String.isEmpty_iff.mp hempty]
    · simp [hempty]
  unfold cost estimateTokens digestTokens
  rw [htext, UInt32.toNat_ofNat', length_digest, max_eq_left]
  unfold digestChars
  omega

/-! ### The rows that go -/

theorem rowsAt_range' {messages rest : List Message} {i : Nat} (h : messages.drop i = rest) :
    rowsAt messages (List.range' i rest.length) = rest := by
  induction rest generalizing i with
  | nil => rfl
  | cons m rest ih =>
    obtain ⟨hm, hrest⟩ := drop_eq_cons h
    unfold rowsAt at ih ⊢
    rw [List.length_cons, List.range'_succ, List.filterMap_cons_some hm, ih hrest]

/-- The rows that stay and the rows that go cost what all rows cost. -/
theorem staying_add_lost (messages : List Message) (target : UInt32) :
    listCost (rowsAt messages (staying messages (collapsedIndices messages target))) +
      listCost (lostRows messages target) = listCost messages := by
  have hlost (i : Nat) : UInt32.ofNat i ∈ collapsedIndices messages target ↔
      i % 2 ^ 32 ∈ (notKept messages target).map (· % 2 ^ 32) := by
    rw [collapsedIndices_eq_map, List.mem_map, List.mem_map]
    simp only [← UInt32.toNat_inj, UInt32.toNat_ofNat']
  have hstay : staying messages (collapsedIndices messages target) =
      (List.range messages.length).filter
        (fun i => !decide (i % 2 ^ 32 ∈ (notKept messages target).map (· % 2 ^ 32))) := by
    unfold staying stayingFrom
    rw [← List.range_eq_range']
    apply List.filter_congr
    intro i _
    rw [← decide_not]
    exact decide_eq_decide.mpr (not_congr (hlost i))
  have hall : rowsAt messages (List.range messages.length) = messages := by
    rw [List.range_eq_range']
    exact rowsAt_range' List.drop_zero
  have hperm := List.filter_append_perm
    (fun i => decide (i % 2 ^ 32 ∈ (notKept messages target).map (· % 2 ^ 32)))
    (List.range messages.length)
  have hcosts := ((hperm.filterMap (messages[·]?)).map cost).sum_eq
  rw [List.filterMap_append, List.map_append, List.sum_append] at hcosts
  unfold rowsAt at hall
  rw [hall] at hcosts
  unfold listCost lostRows rowsAt
  rw [hstay]
  omega

/-- In a list of up to 2^32 rows the rows that go are those the digest is made of. -/
theorem lostRows_eq_foldedRows {messages : List Message} (hlen : messages.length ≤ 2 ^ 32)
    (target : UInt32) : lostRows messages target = foldedRows messages target := by
  have hmod : ∀ i < messages.length, i % 2 ^ 32 = i := fun i hi => Nat.mod_eq_of_lt (by omega)
  have hcast : (notKept messages target).map (· % 2 ^ 32) = notKept messages target := by
    have hid : ∀ i ∈ notKept messages target, i % 2 ^ 32 = id i := by
      intro i hi
      exact hmod i (List.mem_range.mp (List.mem_filter.mp hi).1)
    rw [List.map_congr_left hid, List.map_id]
  have hsame : (List.range messages.length).filter (· % 2 ^ 32 ∈ notKept messages target) =
      notKept messages target := by
    apply List.filter_congr
    intro i hi
    apply decide_eq_decide.mpr
    rw [hmod i (List.mem_range.mp hi)]
    unfold notKept
    rw [List.mem_filter, decide_eq_true_eq]
    exact and_iff_right hi
  unfold lostRows foldedRows
  rw [hcast, hsame]

/-! ### The rebuilt list -/

theorem compress_summary {messages : List Message} {budget : CompressionBudget} {c : Compressed}
    (h : compress messages budget = .ok c) (hne : c.collapsedIndices ≠ []) :
    c = ⟨digest messages (collapsedIndices messages budget.targetTokens),
      collapsedIndices messages budget.targetTokens⟩ := by
  have hindices := compress_collapsedIndices h
  have hsome : collapsedIndices messages budget.targetTokens ≠ [] := hindices ▸ hne
  have hnonempty : messages.isEmpty = false := by
    cases messages with
    | nil => exact absurd rfl hsome
    | cons _ _ => rfl
  unfold compress at h
  simp only [hnonempty, List.isEmpty_eq_false_iff.mpr hsome, Bool.false_eq_true, if_false] at h
  split at h
  · cases h
  · exact (Except.ok.inj h).symm

/-- **A compaction shrinks the list** exactly when its digest costs less than the rows that go. -/
theorem shrinks_iff {messages : List Message} {budget : CompressionBudget} {c : Compressed}
    (h : compress messages budget = .ok c) (hne : c.collapsedIndices ≠ []) :
    (∃ rebuilt, rebuildMessages messages c.summary c.collapsedIndices = some rebuilt ∧
        listCost rebuilt < listCost messages) ↔
      digestTokens (foldedRows messages budget.targetTokens) <
        listCost (lostRows messages budget.targetTokens) := by
  obtain ⟨before, digest, after, hrebuilt, hrows, hdigest⟩ :=
    rebuildMessages_eq c.summary (collapsed_in_bounds h)
  have hindices := compress_collapsedIndices h
  -- some row is collapsed, so the digest stands
  have hstands : ∃ t ∈ messages, digest = [summaryMessage t c.summary] := by
    rcases hdigest with ⟨-, hnone⟩ | hstands
    · obtain ⟨i, hi⟩ := List.exists_mem_of_ne_nil _ hne
      have hmem := hi
      rw [hindices, mem_collapsedIndices] at hmem
      obtain ⟨k, hk, -, rfl⟩ := hmem
      exact absurd hi (hnone k hk)
    · exact hstands
  obtain ⟨t, -, rfl⟩ := hstands
  have hcost : listCost (before ++ [summaryMessage t c.summary] ++ after) =
      listCost (rowsAt messages (staying messages c.collapsedIndices)) +
        digestTokens (foldedRows messages budget.targetTokens) := by
    rw [← hrows, ← cost_summaryMessage t, compress_summary h hne]
    unfold listCost
    simp only [List.map_append, List.sum_append, List.map_cons, List.map_nil, List.sum_cons,
      List.sum_nil]
    omega
  have htotal := staying_add_lost messages budget.targetTokens
  rw [← hindices] at htotal
  constructor
  · rintro ⟨rebuilt, heq, hlt⟩
    obtain rfl := Option.some.inj (hrebuilt.symm.trans heq)
    omega
  · intro hlt
    exact ⟨_, hrebuilt, by omega⟩

/-! ### A digest that costs more -/

/-- A row of the user. -/
def userRow (content : String) : Message :=
  ⟨⟨0⟩, 0, .user, some content, none, none, none, none, "t"⟩

/-- Two short rows: the digest of the first is eleven tokens for one. -/
theorem greeting_grows :
    ∃ c rebuilt, compress [userRow "hi", userRow "hello"] ⟨1, 100⟩ = .ok c ∧
      c.collapsedIndices ≠ [] ∧
      rebuildMessages [userRow "hi", userRow "hello"] c.summary c.collapsedIndices = some rebuilt ∧
      listCost [userRow "hi", userRow "hello"] < listCost rebuilt := by
  refine ⟨⟨"[compacted 1 earlier message(s)]\n- user: hi", [0]⟩,
    [summaryMessage (userRow "hi") "[compacted 1 earlier message(s)]\n- user: hi",
      userRow "hello"], ?_, List.cons_ne_nil _ _, ?_, ?_⟩ <;> decide +kernel

theorem messageText_userRow {content : String} (h : content ≠ "") :
    messageText (userRow content) = content := by
  simp [messageText, userRow, h]

/-- A row of 248 characters costs 62 tokens, and its digest 61. -/
theorem long_row_costs {content : String} (hlen : content.length = 248) :
    perMsg [userRow content, userRow "hello"] = [62, 2] ∧
      digestTokens [userRow content] < listCost [userRow content] := by
  have hne : content ≠ "" := by
    rintro rfl
    exact absurd hlen (by decide)
  have htext := messageText_userRow hne
  have hsnippet : snippetChars (userRow content) = 203 := by
    unfold snippetChars
    rw [htext, hlen]
    rfl
  constructor
  · unfold perMsg
    rw [List.map_cons, htext, estimateTokens, hlen]
    decide
  · unfold digestTokens digestChars listCost cost estimateTokens
    simp only [List.map_cons, List.map_nil, htext, hlen, hsnippet]
    show (31 + (toString 1).length + [5 + "user".length + 203].sum + 3) / 4 % 2 ^ 32 <
      [(UInt32.ofNat (max ((248 + 3) / 4) 1)).toNat].sum
    decide

/-- A text of 248 characters. -/
def essay : String := String.ofList (List.replicate 248 'a')

theorem essay_shrinks :
    ∃ c rebuilt, compress [userRow essay, userRow "hello"] ⟨1, 4294967295⟩ = .ok c ∧
      c.collapsedIndices ≠ [] ∧
      rebuildMessages [userRow essay, userRow "hello"] c.summary c.collapsedIndices = some rebuilt ∧
      listCost rebuilt < listCost [userRow essay, userRow "hello"] := by
  have hlen : essay.length = 248 := by
    unfold essay
    rw [String.length_ofList, List.length_replicate]
  obtain ⟨hcosts, hcheaper⟩ := long_row_costs hlen
  have hindices : collapsedIndices [userRow essay, userRow "hello"] 1 = [0] := by
    unfold collapsedIndices keptRecent systemCost
    rw [hcosts]
    decide
  have hlimit (n : UInt32) : ¬ n > 4294967295 := by
    have hlt := n.toNat_lt
    rw [gt_iff_lt, UInt32.lt_iff_toNat_lt, show (4294967295 : UInt32).toNat = 4294967295 from rfl]
    omega
  have hc : compress [userRow essay, userRow "hello"] ⟨1, 4294967295⟩ =
      .ok ⟨digest [userRow essay, userRow "hello"] [0], [0]⟩ := by
    unfold compress
    simp only [hindices, hlimit, List.isEmpty_cons, Bool.false_eq_true, if_false]
  have hfolded : foldedRows [userRow essay, userRow "hello"] 1 = [userRow essay] := by
    rw [← foldedRows_eq, hindices]
    rfl
  have hlost : lostRows [userRow essay, userRow "hello"] 1 = [userRow essay] := by
    rw [lostRows_eq_foldedRows (by decide), hfolded]
  obtain ⟨rebuilt, heq, hlt⟩ := (shrinks_iff hc (List.cons_ne_nil _ _)).mpr
    (by rw [hfolded, hlost]; exact hcheaper)
  exact ⟨_, rebuilt, hc, List.cons_ne_nil _ _, heq, hlt⟩

end DefaultCompressor

end PgSynapse

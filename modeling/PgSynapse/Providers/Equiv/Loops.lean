import PgSynapse.Providers.Loops

/-!
# The extraction's loops end

Every iteration that goes on leaves a shorter text to scan, so each loop ends, and ends as the
bounded loop of the model does (`extraction_loops_end`).  The items of an array end as well because no
closing bracket is among them: a bare item that starts with one would be scanned again and again.
-/

namespace PgSynapse

/-! ### Shorter texts -/

/-- A slice has the bytes after its offset. -/
theorem byteLen_sliceFrom {s t : List Char} {n : Nat} (h : sliceFrom s n = some t) :
    byteLen t + n = byteLen s := by
  induction s generalizing n with
  | nil =>
    cases n with
    | zero =>
      cases h
      rfl
    | succ n => cases h
  | cons c s ih =>
    cases n with
    | zero =>
      cases h
      rfl
    | succ n =>
      rw [sliceFrom] at h
      split at h
      · have hrest := ih h
        rw [byteLen_cons]
        omega
      · cases h

/-- An end of a text, with fewer bytes. -/
def ProperEnd (t s : List Char) : Prop := t <:+ s ∧ byteLen t < byteLen s

namespace ProperEnd

variable {s t u : List Char}

theorem trans_suffix (h : ProperEnd t s) (hu : u <:+ t) : ProperEnd u s := by
  refine ⟨hu.trans h.1, ?_⟩
  obtain ⟨pre, rfl⟩ := hu
  have hlt := h.2
  rw [byteLen_append] at hlt
  omega

theorem of_suffix (hs : t <:+ s) (h : ProperEnd u t) : ProperEnd u s := by
  refine ⟨h.1.trans hs, ?_⟩
  obtain ⟨pre, rfl⟩ := hs
  have hlt := h.2
  rw [byteLen_append]
  omega

theorem trans (h : ProperEnd t s) (hu : ProperEnd u t) : ProperEnd u s := h.trans_suffix hu.1

/-- A text with fewer bytes at the end of another has fewer characters. -/
theorem length_lt (h : ProperEnd t s) : t.length < s.length := by
  obtain ⟨⟨pre, rfl⟩, hlt⟩ := h
  rw [byteLen_append] at hlt
  have hne : pre ≠ [] := by
    rintro rfl
    rw [byteLen_nil] at hlt
    omega
  have hpos := List.length_pos_iff.mpr hne
  rw [List.length_append]
  omega

/-- A slice after the start of a text. -/
theorem of_sliceFrom {n : Nat} (h : sliceFrom s n = some t) (hn : 0 < n) : ProperEnd t s := by
  have hlen := byteLen_sliceFrom h
  exact ⟨suffix_of_sliceFrom h, by omega⟩

end ProperEnd

namespace Extraction

/-! ### One iteration -/

/-- An iteration on a text that satisfies `Inv` exits, fails or leaves a shorter one that does. -/
def Shortens {α ρ : Type} (body : Scan α → Option (Iteration (Scan α) ρ))
    (Inv : List Char → Prop) : Prop :=
  ∀ s s', Inv s.1 → body s = some (.next s') → ProperEnd s'.1 s.1 ∧ Inv s'.1

/-- A loop with such iterations ends as the bounded one does. -/
theorem Shortens.loopEnds {α ρ : Type} {body : Scan α → Option (Iteration (Scan α) ρ)}
    {Inv : List Char → Prop} (h : Shortens body Inv) {s : Scan α} (hs : Inv s.1) :
    LoopEnds body s (iterate body (s.1.length + 1) s) := by
  have hdescends : Descending body (fun s => Inv s.1) fun s => s.1.length := by
    intro s s' hs hbody
    obtain ⟨hshort, hs'⟩ := h s s' hs hbody
    exact ⟨hshort.length_lt, hs'⟩
  exact hdescends.loopEnds (Nat.lt_succ_self _) hs

variable (ext : Extraction) (toolNames : List String)

theorem parameterBody_shortens : Shortens ext.parameterBody fun _ => True := by
  rintro ⟨search, args⟩ s' - h
  rw [parameterBody] at h
  split at h
  · cases h
  simp only [Option.bind_eq_bind, Option.bind_eq_some_iff] at h
  obtain ⟨afterP, hafter, h⟩ := h
  split at h
  · cases h
  simp only [Option.bind_eq_some_iff] at h
  obtain ⟨key, -, valStr, hval, val, -, rest, hrest, h⟩ := h
  cases h
  have hkey : ProperEnd valStr afterP := .of_sliceFrom hval (Nat.succ_pos _)
  exact ⟨((hkey.of_suffix (suffix_of_sliceFrom hafter)).trans_suffix (suffix_of_sliceFrom hrest)),
    trivial⟩

theorem blockBody_shortens : Shortens (ext.blockBody toolNames) fun _ => True := by
  rintro ⟨search, results⟩ s' - h
  rw [blockBody] at h
  split at h
  · cases h
  simp only [Option.bind_eq_bind, Option.bind_eq_some_iff] at h
  obtain ⟨afterOpen, hafter, h⟩ := h
  split at h
  · cases h
  simp only [Option.bind_eq_some_iff] at h
  obtain ⟨inner, -, call, -, rest, hrest, h⟩ := h
  cases h
  have hopen : ProperEnd afterOpen search :=
    .of_sliceFrom hafter (Nat.lt_of_lt_of_le (by decide) (Nat.le_add_left _ _))
  exact ⟨hopen.trans_suffix (suffix_of_sliceFrom hrest), trivial⟩

/-- The items of an array, when no closing bracket is among them. -/
theorem gemmaArrayBody_shortens : Shortens ext.gemmaArrayBody fun a => ']' ∉ a := by
  rintro ⟨a, items⟩ s' hend h
  rw [gemmaArrayBody] at h
  split at h
  · cases h
  have hsuffix := List.dropWhile_suffix (l := a) isItemGap
  have hgap : ∀ c t, a.dropWhile isItemGap = c :: t → isItemGap c = false := by
    intro c t ha
    have hhead := List.head_dropWhile_not isItemGap (l := a) (by rw [ha]; exact nofun)
    simpa only [ha, List.head_cons] using hhead
  generalize a.dropWhile isItemGap = b at h hsuffix hgap
  simp only at h
  split at h
  · cases h
  rename_i hb
  split at h
  · simp only [Option.bind_eq_bind, Option.bind_eq_some_iff] at h
    obtain ⟨inner, hinner, text, -, rest, hrest, h⟩ := h
    cases h
    have hquote : ProperEnd inner b := .of_sliceFrom hinner (by decide)
    have hshort := (hquote.trans_suffix (suffix_of_sliceFrom hrest)).of_suffix hsuffix
    exact ⟨hshort, fun hmem => hend (hshort.1.subset hmem)⟩
  · simp only [Option.bind_eq_bind, Option.bind_eq_some_iff] at h
    obtain ⟨text, -, rest, hrest, h⟩ := h
    cases h
    obtain ⟨c, t, rfl⟩ := List.exists_cons_of_ne_nil hb
    -- neither a separator nor the closing bracket starts the item
    have hitem : isItemEnd c = false := by
      have hcomma := hgap c t rfl
      simp only [isItemGap, List.mem_cons, List.not_mem_nil, or_false, decide_eq_false_iff_not,
        not_or] at hcomma
      have hclose : c ≠ ']' := by
        rintro rfl
        exact hend (hsuffix.subset List.mem_cons_self)
      simp [isItemEnd, hcomma.1, hclose]
    have hpos : 0 < (findChar (c :: t) isItemEnd).getD (byteLen (c :: t)) := by
      rw [findChar_getD, List.takeWhile_cons_of_pos (by rw [hitem]; rfl)]
      exact byteLen_pos (List.cons_ne_nil _ _)
    have hshort := (ProperEnd.of_sliceFrom hrest hpos).of_suffix hsuffix
    exact ⟨hshort, fun hmem => hend (hshort.1.subset hmem)⟩

theorem gemmaArgsBody_shortens : Shortens ext.gemmaArgsBody fun _ => True := by
  rintro ⟨rem, map⟩ s' - h
  refine ⟨?_, trivial⟩
  rw [gemmaArgsBody] at h
  split at h
  · cases h
  have hsuffix := List.dropWhile_suffix (l := rem) isArgGap
  generalize rem.dropWhile isArgGap = b at h hsuffix
  simp only at h
  split at h
  · cases h
  split at h
  · cases h
  simp only [Option.bind_eq_bind, Option.bind_eq_some_iff] at h
  obtain ⟨key, -, value, hvalue, h⟩ := h
  -- the key and its colon are gone, whatever the value is
  have hcolon : ProperEnd value rem :=
    (ProperEnd.of_sliceFrom hvalue (Nat.succ_pos _)).of_suffix hsuffix
  split at h
  · simp only [Option.bind_eq_some_iff] at h
    obtain ⟨inner, hinner, text, -, rest, hrest, h⟩ := h
    cases h
    exact hcolon.trans_suffix ((suffix_of_sliceFrom hrest).trans (suffix_of_sliceFrom hinner))
  split at h
  · split at h
    · cases h
    simp only [Option.bind_eq_some_iff] at h
    obtain ⟨arr, -, items, -, rest, hrest, h⟩ := h
    cases h
    exact hcolon.trans_suffix (suffix_of_sliceFrom hrest)
  · simp only [Option.bind_eq_some_iff] at h
    obtain ⟨text, -, rest, hrest, h⟩ := h
    cases h
    exact hcolon.trans_suffix (suffix_of_sliceFrom hrest)

theorem gemmaBody_shortens : Shortens (ext.gemmaBody toolNames) fun _ => True := by
  rintro ⟨search, results⟩ s' - h
  refine ⟨?_, trivial⟩
  rw [gemmaBody] at h
  split at h
  · cases h
  simp only [Option.bind_eq_bind, Option.bind_eq_some_iff] at h
  obtain ⟨after, hafter, h⟩ := h
  have hopen : ProperEnd after search :=
    .of_sliceFrom hafter (Nat.lt_of_lt_of_le (by decide) (Nat.le_add_left _ _))
  split at h
  · cases h
  simp only [Option.bind_eq_some_iff] at h
  obtain ⟨name, -, rest, hrest, h⟩ := h
  have hbrace := hopen.trans_suffix (suffix_of_sliceFrom hrest)
  split at h
  · simp only [Option.bind_eq_some_iff] at h
    obtain ⟨blob, -, args, -, h⟩ := h
    split at h
    · simp only [Option.bind_eq_some_iff] at h
      obtain ⟨next, hnext, h⟩ := h
      cases h
      exact hbrace.trans_suffix (suffix_of_sliceFrom hnext)
    · cases h
  · cases h
    exact hbrace

theorem fencedLinesBody_shortens : Shortens fencedLinesBody fun _ => True := by
  rintro ⟨s, lines⟩ s' - h
  refine ⟨?_, trivial⟩
  rw [fencedLinesBody] at h
  split at h
  · cases h
  simp only [Option.bind_eq_bind, Option.bind_eq_some_iff] at h
  obtain ⟨after, hafter, lang, -, h⟩ := h
  split at h
  · cases h
  simp only [Option.bind_eq_some_iff] at h
  obtain ⟨body, hbody, h⟩ := h
  split at h
  · cases h
  simp only [Option.bind_eq_some_iff] at h
  obtain ⟨block, -, rest, hrest, h⟩ := h
  cases h
  have hfence : ProperEnd after s := .of_sliceFrom hafter (Nat.succ_pos _)
  exact hfence.trans_suffix ((suffix_of_sliceFrom hrest).trans (suffix_of_sliceFrom hbody))

theorem fencedBodiesBody_shortens : Shortens fencedBodiesBody fun _ => True := by
  rintro ⟨s, bodies⟩ s' - h
  refine ⟨?_, trivial⟩
  rw [fencedBodiesBody] at h
  split at h
  · cases h
  simp only [Option.bind_eq_bind, Option.bind_eq_some_iff] at h
  obtain ⟨after, hafter, body, hbody, h⟩ := h
  split at h
  · cases h
  simp only [Option.bind_eq_some_iff] at h
  obtain ⟨block, -, rest, hrest, h⟩ := h
  cases h
  have hfence : ProperEnd after s := .of_sliceFrom hafter (Nat.succ_pos _)
  exact hfence.trans_suffix ((suffix_of_sliceFrom hrest).trans (suffix_of_sliceFrom hbody))

/-! ### The bounded loops -/

theorem parameterLoop_iterate (fuel : Nat) (search : List Char) (args : List (String × Value)) :
    ext.parameterLoop fuel search args = iterate ext.parameterBody fuel (search, args) := by
  induction fuel generalizing search args with
  | zero => rfl
  | succ fuel ih =>
    rw [parameterLoop, iterate, parameterBody]
    cases find search "<parameter=".toList with
    | none => rfl
    | some pStart =>
      simp only [Option.bind_eq_bind, Option.bind_assoc]
      refine congrArg (Option.bind _) (funext fun afterP => ?_)
      cases find afterP ">".toList with
      | none => rfl
      | some keyEnd => simp only [Option.bind_assoc, Option.pure_def, Option.bind_some, ih]

theorem blockLoop_iterate (fuel : Nat) (search : List Char) (results : List ToolCall) :
    ext.blockLoop toolNames fuel search results =
      iterate (ext.blockBody toolNames) fuel (search, results) := by
  induction fuel generalizing search results with
  | zero => rfl
  | succ fuel ih =>
    rw [blockLoop, iterate, blockBody]
    cases find search "<tool_call>".toList with
    | none => rfl
    | some start =>
      simp only [Option.bind_eq_bind, Option.bind_assoc]
      refine congrArg (Option.bind _) (funext fun afterOpen => ?_)
      cases find afterOpen "</tool_call>".toList with
      | none => rfl
      | some close => simp only [Option.bind_assoc, Option.pure_def, Option.bind_some, ih]

/-- The bounded loop gives the items one by one, and the loop collects them. -/
theorem gemmaArray_iterate (fuel : Nat) (a : List Char) (items : List Value) :
    (ext.gemmaArray fuel a).map (items ++ ·) = iterate ext.gemmaArrayBody fuel (a, items) := by
  induction fuel generalizing a items with
  | zero => rfl
  | succ fuel ih =>
    rw [gemmaArray, iterate, gemmaArrayBody]
    by_cases hnil : a = []
    · subst hnil
      simp
    rw [if_neg hnil]
    generalize a.dropWhile isItemGap = b
    simp only
    by_cases hb : b = []
    · rw [if_pos hb, if_pos hb]
      simp
    rw [if_neg hb, if_neg hb]
    by_cases hq : qmark <+: b
    · rw [if_pos hq, if_pos hq]
      simp only [Option.bind_eq_bind, Option.bind_assoc, Option.pure_def, Option.bind_some,
        ← ih, Option.map_eq_bind, List.append_assoc, List.singleton_append, Function.comp_def]
    · rw [if_neg hq, if_neg hq]
      simp only [Option.bind_eq_bind, Option.bind_assoc, Option.pure_def, Option.bind_some,
        ← ih, Option.map_eq_bind, List.append_assoc, List.singleton_append, Function.comp_def]

theorem gemmaArgs_iterate (fuel : Nat) (rem : List Char) (map : List (String × Value)) :
    ext.gemmaArgs fuel rem map = iterate ext.gemmaArgsBody fuel (rem, map) := by
  induction fuel generalizing rem map with
  | zero => rfl
  | succ fuel ih =>
    rw [gemmaArgs, iterate, gemmaArgsBody]
    by_cases hnil : rem = []
    · subst hnil
      simp
    rw [if_neg hnil]
    generalize rem.dropWhile isArgGap = b
    simp only
    by_cases hb : b = []
    · rw [if_pos hb, if_pos hb]
      rfl
    rw [if_neg hb, if_neg hb]
    cases find b ":".toList with
    | none => rfl
    | some colon =>
      simp only [Option.bind_eq_bind, Option.bind_assoc]
      refine congrArg (Option.bind _) (funext fun key => congrArg (Option.bind _)
        (funext fun value => ?_))
      by_cases hq : qmark <+: value
      · rw [if_pos hq, if_pos hq]
        simp only [Option.bind_assoc, Option.pure_def, Option.bind_some, ih]
      rw [if_neg hq, if_neg hq]
      by_cases harr : "[".toList <+: value
      · rw [if_pos harr, if_pos harr]
        cases find value "]".toList with
        | none => rfl
        | some arrEnd => simp only [Option.bind_assoc, Option.pure_def, Option.bind_some, ih]
      · rw [if_neg harr, if_neg harr]
        simp only [Option.bind_assoc, Option.pure_def, Option.bind_some, ih]

theorem gemmaLoop_iterate (fuel : Nat) (search : List Char) (results : List ToolCall) :
    ext.gemmaLoop toolNames fuel search results =
      iterate (ext.gemmaBody toolNames) fuel (search, results) := by
  induction fuel generalizing search results with
  | zero => rfl
  | succ fuel ih =>
    rw [gemmaLoop, iterate, gemmaBody]
    cases find search "<|tool_call>call:".toList with
    | none => rfl
    | some start =>
      simp only [Option.bind_eq_bind, Option.bind_assoc]
      refine congrArg (Option.bind _) (funext fun after => ?_)
      cases find after "\x7b".toList with
      | none => rfl
      | some brace =>
        simp only [Option.bind_assoc]
        refine congrArg (Option.bind _) (funext fun name => congrArg (Option.bind _)
          (funext fun rest => ?_))
        by_cases hname : String.ofList (trim name) ∈ toolNames
        · rw [if_pos hname, if_pos hname]
          simp only [Option.bind_assoc]
          refine congrArg (Option.bind _) (funext fun blob => congrArg (Option.bind _)
            (funext fun args => ?_))
          split
          · simp only [Option.bind_assoc, Option.pure_def, Option.bind_some, ih]
          · rfl
        · rw [if_neg hname, if_neg hname]
          exact ih rest results

theorem fencedLines_iterate (fuel : Nat) (s : List Char) (lines : List (List Char)) :
    (fencedLines fuel s).map (lines ++ ·) = iterate fencedLinesBody fuel (s, lines) := by
  induction fuel generalizing s lines with
  | zero => rfl
  | succ fuel ih =>
    rw [fencedLines, iterate, fencedLinesBody]
    cases find s "```".toList with
    | none => simp
    | some start =>
      simp only [Option.bind_eq_bind, Option.bind_assoc, Option.map_bind, Function.comp_def]
      refine congrArg (Option.bind _) (funext fun after => congrArg (Option.bind _)
        (funext fun lang => ?_))
      split
      · simp
      simp only [Option.bind_assoc, Option.map_bind, Function.comp_def]
      refine congrArg (Option.bind _) (funext fun body => ?_)
      cases find body "```".toList with
      | none => simp
      | some close =>
        simp only [Option.bind_assoc, Option.pure_def, Option.bind_some, ← ih, Option.map_eq_bind,
          List.append_assoc, Function.comp_def]

theorem fencedBodies_iterate (fuel : Nat) (s : List Char) (bodies : List (List Char)) :
    (fencedBodies fuel s).map (bodies ++ ·) = iterate fencedBodiesBody fuel (s, bodies) := by
  induction fuel generalizing s bodies with
  | zero => rfl
  | succ fuel ih =>
    rw [fencedBodies, iterate, fencedBodiesBody]
    cases find s "```".toList with
    | none => simp
    | some start =>
      simp only [Option.bind_eq_bind, Option.bind_assoc, Option.map_bind, Function.comp_def]
      refine congrArg (Option.bind _) (funext fun after => congrArg (Option.bind _)
        (funext fun body => ?_))
      cases find body "```".toList with
      | none => simp
      | some close =>
        simp only [Option.bind_assoc, Option.pure_def, Option.bind_some, ← ih, Option.map_eq_bind,
          List.append_assoc, List.singleton_append, Function.comp_def]

/-! ### The loops of an extraction -/

/-- No closing bracket is among the items of an array. -/
theorem not_mem_array {rem arr : List Char} {arrEnd : Nat} (hend : find rem "]".toList = some arrEnd)
    (harr : slice rem 1 arrEnd = some arr) : ']' ∉ arr := by
  obtain ⟨⟨before, rest⟩, hsplit, rfl⟩ := Option.map_eq_some_iff.mp hend
  rw [slice] at harr
  split at harr
  · rw [sliceTo_before hsplit, Option.bind_some] at harr
    exact fun hmem => not_mem_of_splitOnce hsplit ((suffix_of_sliceFrom harr).subset hmem)
  · cases harr

/-- Every iteration of a loop exits, fails or leaves a shorter text, and from every text it can be
started on the loop ends as `run` does. -/
structure ScanEnds {α ρ : Type} (body : Scan (List α) → Option (Iteration (Scan (List α)) ρ))
    (Inv : List Char → Prop) (run : List Char → Option ρ) : Prop where
  shortens : Shortens body Inv
  ends : ∀ text, Inv text → LoopEnds body (text, []) (run text)

/-- A loop whose iterations shorten the text, and the bounded loop it is the body of. -/
theorem Shortens.scanEnds {α ρ : Type} {body : Scan (List α) → Option (Iteration (Scan (List α)) ρ)}
    {Inv : List Char → Prop} (h : Shortens body Inv) {run : List Char → Option ρ}
    (hrun : ∀ text, run text = iterate body (text.length + 1) (text, [])) :
    ScanEnds body Inv run := by
  refine ⟨h, fun text htext => ?_⟩
  rw [hrun]
  exact h.loopEnds htext

/-- **The extraction ends**: each of its loops does, with the outcome of the bounded one, and the
loop over an array is only started on a text without a closing bracket. -/
theorem extraction_loops_end :
    ScanEnds (ext.blockBody toolNames) (fun _ => True)
      (fun text => ext.blockLoop toolNames (text.length + 1) text []) ∧
    ScanEnds ext.parameterBody (fun _ => True)
      (fun text => ext.parameterLoop (text.length + 1) text []) ∧
    ScanEnds fencedLinesBody (fun _ => True) (fun text => fencedLines (text.length + 1) text) ∧
    ScanEnds fencedBodiesBody (fun _ => True) (fun text => fencedBodies (text.length + 1) text) ∧
    ScanEnds (ext.gemmaBody toolNames) (fun _ => True)
      (fun text => ext.gemmaLoop toolNames (text.length + 1) text []) ∧
    ScanEnds ext.gemmaArgsBody (fun _ => True)
      (fun text => ext.gemmaArgs (text.length + 1) text []) ∧
    ScanEnds ext.gemmaArrayBody (fun a => ']' ∉ a)
      (fun text => ext.gemmaArray (text.length + 1) text) ∧
    ∀ rem arrEnd arr, find rem "]".toList = some arrEnd → slice rem 1 arrEnd = some arr →
      ']' ∉ arr := by
  refine ⟨(ext.blockBody_shortens toolNames).scanEnds fun text => ?_,
    ext.parameterBody_shortens.scanEnds fun text => ?_,
    fencedLinesBody_shortens.scanEnds fun text => ?_,
    fencedBodiesBody_shortens.scanEnds fun text => ?_,
    (ext.gemmaBody_shortens toolNames).scanEnds fun text => ?_,
    ext.gemmaArgsBody_shortens.scanEnds fun text => ?_,
    ext.gemmaArrayBody_shortens.scanEnds fun text => ?_,
    fun rem arrEnd arr => not_mem_array⟩
  · exact ext.blockLoop_iterate toolNames _ text []
  · exact ext.parameterLoop_iterate _ text []
  · rw [← fencedLines_iterate]
    exact Option.map_id'.symm
  · rw [← fencedBodies_iterate]
    exact Option.map_id'.symm
  · exact ext.gemmaLoop_iterate toolNames _ text []
  · exact ext.gemmaArgs_iterate _ text []
  · rw [← gemmaArray_iterate]
    exact Option.map_id'.symm

end Extraction

end PgSynapse

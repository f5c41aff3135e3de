import Mathlib.Data.List.Induction
import PgSynapse.Lib.Panics
import PgSynapse.Providers.Extraction

/-!
# When the extraction does not panic

The texts each scanner comes to, as splits at its delimiters, and for each scanner which of them
make it slice outside a text.
-/

namespace PgSynapse.Extraction

variable (ext : Extraction) (toolNames : List String)

/-! ### `<tool_call>` blocks -/

/-- The parameters `parse_xml_function_block` comes to, each with all that follows its key; `none`
when it comes to a key that does not end. -/
def parameters (search : List Char) : Option (List (List Char × List Char)) :=
  match _ : splitOnce "<parameter=".toList search with
  | none => some []
  | some (_, afterP) =>
    match _ : splitOnce ">".toList afterP with
    | none => none
    | some (key, val) =>
      match _ : splitOnce "</parameter>".toList val with
      | none => some [(key, val)]
      | some (_, rest) => (parameters rest).map fun ps => (key, val) :: ps
termination_by search.length
decreasing_by
  rename_i _ h h₁ _ h₂
  have hafter := splitOnce_length (by decide) h
  have hval := splitOnce_length (by decide) h₁
  have hrest := splitOnce_length (by decide) h₂
  omega

/-- A value with its closing tag, or nothing at all. -/
def Closed (val : List Char) : Prop := val = [] ∨ "</parameter>".toList <:+: val

section Parameters

variable {search before afterP key val rest : List Char}

theorem parameters_nil (h : splitOnce "<parameter=".toList search = none) :
    parameters search = some [] := by
  rw [parameters]
  split
  · rfl
  · simp_all

theorem parameters_unkeyed (h : splitOnce "<parameter=".toList search = some (before, afterP))
    (h₁ : splitOnce ">".toList afterP = none) : parameters search = none := by
  rw [parameters]
  split
  · simp_all
  · split <;> simp_all

theorem parameters_last (h : splitOnce "<parameter=".toList search = some (before, afterP))
    (h₁ : splitOnce ">".toList afterP = some (key, val))
    (h₂ : splitOnce "</parameter>".toList val = none) :
    parameters search = some [(key, val)] := by
  rw [parameters]
  split
  · simp_all
  · split
    · simp_all
    · split <;> simp_all

theorem parameters_cons (h : splitOnce "<parameter=".toList search = some (before, afterP))
    (h₁ : splitOnce ">".toList afterP = some (key, val)) {v : List Char}
    (h₂ : splitOnce "</parameter>".toList val = some (v, rest)) :
    parameters search = (parameters rest).map fun ps => (key, val) :: ps := by
  rw [parameters]
  split
  · simp_all
  · split
    · simp_all
    · split <;> simp_all

end Parameters

/-- There are no parameters in an empty text. -/
theorem parameters_of_empty : parameters [] = some [] := parameters_nil rfl

/-- A value the scan comes to is not closed. -/
def OpenParameter (search : List Char) : Prop :=
  ∃ ps, parameters search = some ps ∧ ∃ p ∈ ps, ¬ Closed p.2

/-- How a run of the parameter loop ends: it panics at a value that is not closed, and gives up at a
key that does not end. -/
abbrev ParametersEnd (search : List Char) (result : Option (Option (List (String × Value)))) :
    Prop :=
  Ends (OpenParameter search) (fun out => out.isSome ↔ (parameters search).isSome) result

/-- One more parameter with a closed value does not change how the loop ends. -/
theorem parametersEnd_cons {search rest : List Char} {p : List Char × List Char}
    {result : Option (Option (List (String × Value)))} (h : ParametersEnd rest result)
    (hps : parameters search = (parameters rest).map fun ps => p :: ps) (hp : Closed p.2) :
    ParametersEnd search result := by
  refine h.mono ?_ fun out hout => by rw [hout, hps, Option.isSome_map]
  rw [OpenParameter, OpenParameter, hps]
  constructor
  · rintro ⟨ps, hps, q, hq, hopen⟩
    exact ⟨p :: ps, by rw [hps, Option.map_some], q, List.mem_cons_of_mem _ hq, hopen⟩
  · rintro ⟨ps, hps, q, hq, hopen⟩
    obtain ⟨ps, hrest, rfl⟩ := Option.map_eq_some_iff.mp hps
    obtain rfl | hq := List.mem_cons.mp hq
    · exact absurd hp hopen
    · exact ⟨ps, hrest, q, hq, hopen⟩

/-- **The parameter loop** panics exactly at a value that is not closed. -/
theorem parameterLoop_end {fuel : Nat} {search : List Char} (hfuel : search.length < fuel)
    (args : List (String × Value)) :
    ParametersEnd search (ext.parameterLoop fuel search args) := by
  induction fuel generalizing search args with
  | zero => omega
  | succ fuel ih =>
    rw [parameterLoop]
    cases h : splitOnce "<parameter=".toList search with
    | none =>
      rw [find_eq_none h]
      have hps := parameters_nil h
      exact .returned (by simp [OpenParameter, hps]) (by simp [hps])
    | some p =>
      obtain ⟨before, afterP⟩ := p
      have hafter := splitOnce_length (by decide) h
      rw [find_of_splitOnce h]
      simp only [sliceFrom_after h, Option.bind_eq_bind, Option.bind_some]
      cases h₁ : splitOnce ">".toList afterP with
      | none =>
        rw [find_eq_none h₁]
        -- a key without an end: the loop breaks off, and the parameter counts for nothing
        have hps := parameters_unkeyed h h₁
        exact .returned (by simp [OpenParameter, hps]) (by simp [hps])
      | some p =>
        obtain ⟨key, val⟩ := p
        have hval : sliceFrom afterP (byteLen key + 1) = some val := sliceFrom_after h₁
        have hlength := splitOnce_length (by decide) h₁
        rw [find_of_splitOnce h₁]
        simp only [sliceTo_before h₁, hval, Option.bind_some]
        cases h₂ : splitOnce "</parameter>".toList val with
        | none =>
          rw [find_eq_none h₂, Option.getD_none, sliceTo_byteLen, Option.bind_some]
          have hps := parameters_last h h₁ h₂
          by_cases hnil : val = []
          · -- nothing is left after the key, and the loop ends
            subst hnil
            have hfuel : ([] : List Char).length < fuel := by
              rw [List.length_nil]
              omega
            refine parametersEnd_cons (p := (key, [])) (ih hfuel _) ?_ (.inl rfl)
            rw [hps, parameters_of_empty, Option.map_some]
          -- the loop goes on behind the end of the text, which is no char boundary: it panics
          · have hmin : 0 < min (byteLen "</parameter>".toList) (byteLen val) :=
              Nat.lt_min.mpr ⟨by decide, byteLen_pos hnil⟩
            rw [sliceFrom_of_lt (by omega), Option.bind_none]
            have hopen : ¬ Closed val := by
              rintro (hval | hclosed)
              · exact hnil hval
              · rw [← splitOnce_isSome_iff, h₂] at hclosed
                cases hclosed
            exact .panicked ⟨_, hps, _, List.mem_singleton.mpr rfl, hopen⟩
        | some p =>
          obtain ⟨v, rest⟩ := p
          have hrest := splitOnce_length (by decide) h₂
          have hle := byteLen_pattern_le h₂
          have hmin : min (byteLen "</parameter>".toList) (byteLen val) =
              byteLen "</parameter>".toList := Nat.min_eq_left (by omega)
          have hclosed : Closed val := .inr (splitOnce_isSome_iff.mp (by rw [h₂]; rfl))
          rw [find_of_splitOnce h₂, Option.getD_some, sliceTo_before h₂, Option.bind_some, hmin,
            sliceFrom_after h₂, Option.bind_some]
          exact parametersEnd_cons (p := (key, val)) (ih (by omega) _)
            (parameters_cons h h₁ h₂) hclosed

/-- The text in which a function block's parameters are looked for, when the block names a tool. -/
def functionBody (inner : List Char) : Option (List Char) :=
  (splitOnce "<function=".toList inner).bind fun p =>
    (splitOnce ">".toList p.2).bind fun q =>
      if String.ofList (trim q.1) ∈ toolNames then
        some (((rsplitOnce "</function>".toList q.2).map Prod.fst).getD q.2)
      else none

/-- A function block of a tool has a parameter that is not closed. -/
def OpenBlock (inner : List Char) : Prop :=
  ∃ body, functionBody toolNames inner = some body ∧ OpenParameter body

/-- A function block of a tool in which every key ends. -/
def IsFunctionBlock (inner : List Char) : Prop :=
  ∃ body, functionBody toolNames inner = some body ∧ (parameters body).isSome

/-- **A function block** panics exactly when it has a parameter that is not closed. -/
theorem parseXmlFunctionBlock_end (index : Nat) (inner : List Char) :
    Ends (OpenBlock toolNames inner) (fun call => call.isSome ↔ IsFunctionBlock toolNames inner)
      (ext.parseXmlFunctionBlock toolNames index inner) := by
  have hnone : functionBody toolNames inner = none → Ends (OpenBlock toolNames inner)
      (fun call : Option ToolCall => call.isSome ↔ IsFunctionBlock toolNames inner)
      (some none) := fun h =>
    .returned (by simp [OpenBlock, h]) (by simp [IsFunctionBlock, h])
  have hsome : ∀ body call, functionBody toolNames inner = some body →
      Ends (OpenBlock toolNames inner)
        (fun call : Option ToolCall => call.isSome ↔ IsFunctionBlock toolNames inner)
        ((ext.parameterLoop (body.length + 1) body []).bind fun args =>
          some (args.map call)) := by
    intro body call hbody
    refine ((ext.parameterLoop_end (Nat.lt_succ_self _) []).mono ?_ fun _ => id).bind_some ?_
    · simp [OpenBlock, hbody]
    · intro out hout
      rw [Option.isSome_map, hout]
      simp [IsFunctionBlock, hbody]
  rw [parseXmlFunctionBlock]
  cases h : splitOnce "<function=".toList inner with
  | none =>
    rw [find_eq_none h]
    exact hnone (by rw [functionBody, h, Option.bind_none])
  | some p =>
    obtain ⟨before, afterFunc⟩ := p
    rw [find_of_splitOnce h]
    simp only [sliceFrom_after h, Option.bind_eq_bind, Option.bind_some]
    cases h₁ : splitOnce ">".toList afterFunc with
    | none =>
      rw [find_eq_none h₁]
      exact hnone (by rw [functionBody, h, Option.bind_some, h₁, Option.bind_none])
    | some p =>
      obtain ⟨name, body⟩ := p
      have hbody : sliceFrom afterFunc (byteLen name + 1) = some body := sliceFrom_after h₁
      have hfunction : functionBody toolNames inner =
          if String.ofList (trim name) ∈ toolNames then
            some (((rsplitOnce "</function>".toList body).map Prod.fst).getD body)
          else none := by
        rw [functionBody, h, Option.bind_some, h₁, Option.bind_some]
      rw [find_of_splitOnce h₁]
      simp only [sliceTo_before h₁, hbody, Option.bind_some]
      by_cases hname : String.ofList (trim name) ∈ toolNames
      · rw [if_pos hname] at hfunction ⊢
        -- the body ends at its last closing tag, or where the block does
        cases h₂ : rsplitOnce "</function>".toList body with
        | none =>
          rw [h₂] at hfunction
          rw [rfind_eq_none h₂]
          exact hsome body _ hfunction
        | some p =>
          obtain ⟨inside, rest⟩ := p
          rw [h₂] at hfunction
          rw [rfind_of_rsplitOnce h₂]
          simp only [sliceTo_before_last h₂, Option.bind_some]
          exact hsome inside _ hfunction
      · rw [if_neg hname] at hfunction ⊢
        exact hnone hfunction

/-- Whether a text is a JSON call; the identifier it would get does not matter. -/
theorem tryParse_isSome (i j : Nat) (raw : List Char) :
    (ext.tryParse toolNames i raw).isSome = (ext.tryParse toolNames j raw).isSome := by
  simp only [tryParse, Option.bind_eq_bind]
  cases ext.readJson (trim raw) with
  | none => rfl
  | some v =>
    rw [Option.bind_some, Option.bind_some]
    cases (v.get? "name").bind Value.asStr? with
    | none => rfl
    | some name =>
      rw [Option.bind_some, Option.bind_some]
      split
      · split
        · rfl
        · rfl
      · rfl

/-- A text is a JSON object that names a tool. -/
def IsJsonCall (raw : List Char) : Prop := (ext.tryParse toolNames 0 raw).isSome

/-- What the `<tool_call>` tags enclose, trimmed. -/
def blocks (search : List Char) : List (List Char) :=
  match _ : splitOnce "<tool_call>".toList search with
  | none => []
  | some (_, afterOpen) =>
    match _ : splitOnce "</tool_call>".toList afterOpen with
    | none => []
    | some (inner, rest) => trim inner :: blocks rest
termination_by search.length
decreasing_by
  rename_i _ h h₁
  have hafter := splitOnce_length (by decide) h
  have hrest := splitOnce_length (by decide) h₁
  omega

section Blocks

variable {search before afterOpen inner rest : List Char}

theorem blocks_nil (h : splitOnce "<tool_call>".toList search = none) : blocks search = [] := by
  rw [blocks]
  split
  · rfl
  · simp_all

theorem blocks_unclosed (h : splitOnce "<tool_call>".toList search = some (before, afterOpen))
    (h₁ : splitOnce "</tool_call>".toList afterOpen = none) : blocks search = [] := by
  rw [blocks]
  split
  · rfl
  · split <;> simp_all

theorem blocks_cons (h : splitOnce "<tool_call>".toList search = some (before, afterOpen))
    (h₁ : splitOnce "</tool_call>".toList afterOpen = some (inner, rest)) :
    blocks search = trim inner :: blocks rest := by
  rw [blocks]
  split
  · simp_all
  · split <;> simp_all

end Blocks

/-- A block is read as a function block and has a parameter that is not closed. -/
def Unclosed (inner : List Char) : Prop :=
  ¬ ext.IsJsonCall toolNames inner ∧ OpenBlock toolNames inner

/-- A block is a call. -/
def IsCall (inner : List Char) : Prop :=
  ext.IsJsonCall toolNames inner ∨ IsFunctionBlock toolNames inner

/-- **A block** panics as its function block does, if it is no JSON call. -/
theorem blockCall_end (index : Nat) (inner : List Char) :
    Ends (ext.Unclosed toolNames inner) (fun call => call.isSome ↔ ext.IsCall toolNames inner)
      (ext.blockCall toolNames index inner) := by
  rw [blockCall]
  cases h : ext.tryParse toolNames index inner with
  | some tc =>
    have hjson : ext.IsJsonCall toolNames inner := by
      rw [IsJsonCall, ext.tryParse_isSome toolNames 0 index, h]
      rfl
    exact .returned (fun hopen => hopen.1 hjson) ⟨fun _ => .inl hjson, fun _ => rfl⟩
  | none =>
    have hjson : ¬ ext.IsJsonCall toolNames inner := by
      rw [IsJsonCall, ext.tryParse_isSome toolNames 0 index, h]
      exact Bool.false_ne_true
    refine (ext.parseXmlFunctionBlock_end toolNames index inner).mono ?_ fun call hcall => ?_
    · exact ⟨fun hopen => ⟨hjson, hopen⟩, fun hopen => hopen.2⟩
    · rw [hcall]
      exact ⟨.inr, fun h => h.resolve_left hjson⟩

/-- **The loop over blocks** panics exactly when one of the blocks does, and finds nothing when none
of them is a call. -/
theorem blockLoop_end {fuel : Nat} {search : List Char} (hfuel : search.length < fuel)
    (results : List ToolCall) :
    Ends (∃ inner ∈ blocks search, ext.Unclosed toolNames inner)
      (fun out => out = [] ↔ results = [] ∧ ∀ inner ∈ blocks search, ¬ ext.IsCall toolNames inner)
      (ext.blockLoop toolNames fuel search results) := by
  induction fuel generalizing search results with
  | zero => omega
  | succ fuel ih =>
    rw [blockLoop]
    cases h : splitOnce "<tool_call>".toList search with
    | none =>
      rw [find_eq_none h, blocks_nil h]
      exact .returned (by simp) (by simp)
    | some p =>
      obtain ⟨before, afterOpen⟩ := p
      have hafter := splitOnce_length (by decide) h
      rw [find_of_splitOnce h]
      simp only [sliceFrom_after h, Option.bind_eq_bind, Option.bind_some]
      cases h₁ : splitOnce "</tool_call>".toList afterOpen with
      | none =>
        rw [find_eq_none h₁, blocks_unclosed h h₁]
        exact .returned (by simp) (by simp)
      | some p =>
        obtain ⟨inner, rest⟩ := p
        have hrest := splitOnce_length (by decide) h₁
        rw [find_of_splitOnce h₁]
        simp only [sliceTo_before h₁, sliceFrom_after h₁, Option.bind_some]
        have hcall := ext.blockCall_end toolNames results.length (trim inner)
        rw [blocks_cons h h₁]
        generalize ext.blockCall toolNames results.length (trim inner) = result at hcall ⊢
        cases hcall with
        | panicked hopen => exact .panicked ⟨_, List.mem_cons_self, hopen⟩
        | @returned call hclosed hiff =>
          refine (ih (by omega) (results ++ call.toList)).mono ?_ fun out hout => ?_
          · simp [hclosed]
          · rw [hout, List.append_eq_nil_iff, List.forall_mem_cons, and_assoc]
            cases call <;> simp_all

/-! ### Gemma's tokens -/

/-- What follows each quote the scan of an array opens. -/
def arrayQuotes (a : List Char) : List (List Char) :=
  match _ : a.dropWhile isItemGap with
  | [] => []
  | c :: t =>
    if qmark <+: c :: t then
      (c :: t).drop qmark.length ::
        match _ : splitOnce qmark ((c :: t).drop qmark.length) with
        | none => []
        | some (_, rest) => arrayQuotes rest
    else arrayQuotes (t.dropWhile fun c => !isItemEnd c)
termination_by a.length
decreasing_by
  · rename_i h _ _ h₁
    have hle := (List.dropWhile_suffix (l := a) isItemGap).length_le
    have hrest := splitOnce_length (by decide) h₁
    rw [h] at hle
    rw [List.length_drop] at hrest
    omega
  · rename_i h _
    have hle := (List.dropWhile_suffix (l := a) isItemGap).length_le
    have hle' := (List.dropWhile_suffix (l := t) fun c => !isItemEnd c).length_le
    rw [h, List.length_cons] at hle
    omega

section ArrayQuotes

variable {a t before rest : List Char} {c : Char}

theorem arrayQuotes_nil (h : a.dropWhile isItemGap = []) : arrayQuotes a = [] := by
  rw [arrayQuotes]
  split <;> simp_all

theorem arrayQuotes_last (h : a.dropWhile isItemGap = c :: t)
    (hq : qmark <+: c :: t) (h₁ : splitOnce qmark ((c :: t).drop qmark.length) = none) :
    arrayQuotes a = [(c :: t).drop qmark.length] := by
  rw [arrayQuotes]
  split
  · simp_all
  · split
    · split <;> simp_all
    · simp_all

theorem arrayQuotes_quote (h : a.dropWhile isItemGap = c :: t)
    (hq : qmark <+: c :: t)
    (h₁ : splitOnce qmark ((c :: t).drop qmark.length) = some (before, rest)) :
    arrayQuotes a = (c :: t).drop qmark.length :: arrayQuotes rest := by
  rw [arrayQuotes]
  split
  · simp_all
  · split
    · split <;> simp_all
    · simp_all

theorem arrayQuotes_bare (h : a.dropWhile isItemGap = c :: t)
    (hq : ¬ qmark <+: c :: t) :
    arrayQuotes a = arrayQuotes (t.dropWhile fun c => !isItemEnd c) := by
  rw [arrayQuotes]
  split
  · simp_all
  · split
    · simp_all
    · simp_all

end ArrayQuotes

/-- A quote the scan of an array opens is not closed. -/
def OpenArrayQuote (a : List Char) : Prop := ∃ q ∈ arrayQuotes a, ¬ qmark <:+: q

/-- **The loop over an array** panics exactly at a quote that is not closed. -/
theorem gemmaArray_end {fuel : Nat} {a : List Char} (hfuel : a.length < fuel) (hend : ']' ∉ a) :
    Ends (OpenArrayQuote a) (fun _ => True) (ext.gemmaArray fuel a) := by
  induction fuel generalizing a with
  | zero => omega
  | succ fuel ih =>
    rw [gemmaArray]
    have hsuffix := List.dropWhile_suffix (l := a) isItemGap
    cases h : a.dropWhile isItemGap with
    | nil =>
      rw [if_pos rfl]
      exact .returned (by simp [OpenArrayQuote, arrayQuotes_nil h]) trivial
    | cons c t =>
      rw [h] at hsuffix
      have hle := hsuffix.length_le
      have hend' : ']' ∉ c :: t := fun hmem => hend (hsuffix.subset hmem)
      rw [if_neg (List.cons_ne_nil c t)]
      by_cases hq : qmark <+: c :: t
      · rw [if_pos hq, sliceFrom_of_prefix hq]
        have hinner := (c :: t).length_drop (i := qmark.length)
        simp only [Option.bind_eq_bind, Option.bind_some]
        cases h₁ : splitOnce qmark ((c :: t).drop qmark.length) with
        | none =>
          have hlong : byteLen ((c :: t).drop qmark.length) <
              byteLen ((c :: t).drop qmark.length) + byteLen qmark :=
            Nat.lt_add_of_pos_right (by decide)
          rw [find_eq_none h₁, Option.getD_none, sliceTo_byteLen, Option.bind_some,
            sliceFrom_of_lt hlong, Option.bind_none]
          refine .panicked ⟨_, by rw [arrayQuotes_last h hq h₁]; exact List.mem_cons_self, ?_⟩
          rw [← splitOnce_isSome_iff, h₁]
          exact Bool.false_ne_true
        | some p =>
          obtain ⟨text, rest⟩ := p
          have hrest := splitOnce_length (by decide) h₁
          have hclosed : qmark <:+: (c :: t).drop qmark.length :=
            splitOnce_isSome_iff.mp (by rw [h₁]; rfl)
          have hmem : ']' ∉ rest := fun hmem => hend' (List.mem_of_mem_drop (i := qmark.length) (by
            rw [splitOnce_eq h₁]
            exact List.mem_append_right _ (List.mem_append_right _ hmem)))
          rw [find_of_splitOnce h₁, Option.getD_some, sliceTo_before h₁, Option.bind_some,
            sliceFrom_after h₁, Option.bind_some]
          refine ((ih (by omega) hmem).mono ?_ fun _ => id).bind_some fun _ _ => trivial
          rw [OpenArrayQuote, OpenArrayQuote, arrayQuotes_quote h hq h₁, List.exists_mem_cons_iff]
          exact ⟨.inr, fun hor => hor.resolve_left (absurd hclosed)⟩
      · rw [if_neg hq, findChar_getD]
        simp only [sliceTo_takeWhile, sliceFrom_takeWhile, Option.bind_eq_bind, Option.bind_some]
        -- the item is not empty, as no separator starts it
        have hitem : isItemEnd c = false := by
          have hgap := List.head_dropWhile_not isItemGap (l := a) (by rw [h]; exact nofun)
          simp only [h, List.head_cons, isItemGap, List.mem_cons, List.not_mem_nil, or_false,
            decide_eq_false_iff_not, not_or] at hgap
          have hclose : c ≠ ']' := fun heq => hend' (heq ▸ List.mem_cons_self)
          simp [isItemEnd, hgap.1, hclose]
        have hdrop : (c :: t).dropWhile (fun c => !isItemEnd c) =
            t.dropWhile fun c => !isItemEnd c := by
          rw [List.dropWhile_cons_of_pos (by rw [hitem]; rfl)]
        have hsuffix' := List.dropWhile_suffix (l := t) fun c => !isItemEnd c
        have hle' := hsuffix'.length_le
        rw [List.length_cons] at hle
        rw [hdrop]
        refine ((ih (by omega) fun hmem => hend' (List.mem_cons_of_mem _
          (hsuffix'.subset hmem))).mono ?_ fun _ => id).bind_some fun _ _ => trivial
        rw [OpenArrayQuote, OpenArrayQuote, arrayQuotes_bare h hq]

/-- What follows each quote the scan of the arguments opens. -/
def openedQuotes (rem : List Char) : List (List Char) :=
  match _ : splitOnce ":".toList (rem.dropWhile isArgGap) with
  | none => []
  | some (_, v) =>
    if qmark <+: v then
      v.drop qmark.length ::
        match _ : splitOnce qmark (v.drop qmark.length) with
        | none => []
        | some (_, rest) => openedQuotes rest
    else if "[".toList <+: v then
      match _ : splitOnce "]".toList v with
      | none => []
      | some (arr, rest) => arrayQuotes (arr.drop 1) ++ openedQuotes rest
    else
      match _ : splitOnce ",".toList v with
      | none => []
      | some (_, rest) => openedQuotes (',' :: rest)
termination_by rem.length
decreasing_by
  all_goals
    have hle := (List.dropWhile_suffix (l := rem) isArgGap).length_le
  · rename_i h _ _ h₁
    have hv := splitOnce_length (by decide) h
    have hrest := splitOnce_length (by decide) h₁
    rw [List.length_drop] at hrest
    omega
  · rename_i h _ _ h₁
    have hv := splitOnce_length (by decide) h
    have hrest := splitOnce_length (by decide) h₁
    omega
  · rename_i h _ _ _ h₁
    have hv := splitOnce_length (by decide) h
    have hrest := splitOnce_length (by decide) h₁
    rw [List.length_cons]
    omega

section OpenedQuotes

variable {rem before v rest text arr : List Char}

theorem openedQuotes_nil (h : splitOnce ":".toList (rem.dropWhile isArgGap) = none) :
    openedQuotes rem = [] := by
  rw [openedQuotes]
  split <;> simp_all

theorem openedQuotes_last (h : splitOnce ":".toList (rem.dropWhile isArgGap) = some (before, v))
    (hq : qmark <+: v) (h₁ : splitOnce qmark (v.drop qmark.length) = none) :
    openedQuotes rem = [v.drop qmark.length] := by
  rw [openedQuotes]
  split
  · simp_all
  · split
    · split <;> simp_all
    · simp_all

theorem openedQuotes_quote (h : splitOnce ":".toList (rem.dropWhile isArgGap) = some (before, v))
    (hq : qmark <+: v) (h₁ : splitOnce qmark (v.drop qmark.length) = some (text, rest)) :
    openedQuotes rem = v.drop qmark.length :: openedQuotes rest := by
  rw [openedQuotes]
  split
  · simp_all
  · split
    · split <;> simp_all
    · simp_all

theorem openedQuotes_unended (h : splitOnce ":".toList (rem.dropWhile isArgGap) = some (before, v))
    (hq : ¬ qmark <+: v) (hopen : "[".toList <+: v) (h₁ : splitOnce "]".toList v = none) :
    openedQuotes rem = [] := by
  rw [openedQuotes]
  split
  · simp_all
  · split
    · simp_all
    · split
      · split <;> simp_all
      · simp_all

theorem openedQuotes_array (h : splitOnce ":".toList (rem.dropWhile isArgGap) = some (before, v))
    (hq : ¬ qmark <+: v) (hopen : "[".toList <+: v)
    (h₁ : splitOnce "]".toList v = some (arr, rest)) :
    openedQuotes rem = arrayQuotes (arr.drop 1) ++ openedQuotes rest := by
  rw [openedQuotes]
  split
  · simp_all
  · split
    · simp_all
    · split
      · split <;> simp_all
      · simp_all

theorem openedQuotes_end (h : splitOnce ":".toList (rem.dropWhile isArgGap) = some (before, v))
    (hq : ¬ qmark <+: v) (hopen : ¬ "[".toList <+: v) (h₁ : splitOnce ",".toList v = none) :
    openedQuotes rem = [] := by
  rw [openedQuotes]
  split
  · simp_all
  · split
    · simp_all
    · split
      · simp_all
      · split <;> simp_all

theorem openedQuotes_bare (h : splitOnce ":".toList (rem.dropWhile isArgGap) = some (before, v))
    (hq : ¬ qmark <+: v) (hopen : ¬ "[".toList <+: v)
    (h₁ : splitOnce ",".toList v = some (text, rest)) :
    openedQuotes rem = openedQuotes (',' :: rest) := by
  rw [openedQuotes]
  split
  · simp_all
  · split
    · simp_all
    · split
      · simp_all
      · split <;> simp_all

end OpenedQuotes

/-- The text of an array starts with its bracket. -/
theorem array_starts {v arr rest : List Char} (hopen : "[".toList <+: v)
    (h : splitOnce "]".toList v = some (arr, rest)) : ∃ m, arr = '[' :: m := by
  obtain ⟨t, ht⟩ := hopen
  have hv := splitOnce_eq h
  cases arr with
  | nil =>
    rw [← ht] at hv
    cases hv
  | cons c m =>
    rw [← ht] at hv
    obtain ⟨rfl, -⟩ := List.cons.inj hv
    exact ⟨m, rfl⟩

/-- A quote the scan of the arguments opens is not closed. -/
def OpenQuote (rem : List Char) : Prop := ∃ q ∈ openedQuotes rem, ¬ qmark <:+: q

/-- **The loop over the arguments** panics exactly at a quote that is not closed, in an array or
outside. -/
theorem gemmaArgs_end {fuel : Nat} {rem : List Char} (hfuel : rem.length < fuel)
    (map : List (String × Value)) :
    Ends (OpenQuote rem) (fun _ => True) (ext.gemmaArgs fuel rem map) := by
  induction fuel generalizing rem map with
  | zero => omega
  | succ fuel ih =>
    have hle := (List.dropWhile_suffix (l := rem) isArgGap).length_le
    -- where the loop breaks off, no quote may be open
    have hdone : openedQuotes rem = [] →
        Ends (OpenQuote rem) (fun _ => True) (some map) := fun h =>
      .returned (by simp [OpenQuote, h]) trivial
    rw [gemmaArgs]
    cases h : splitOnce ":".toList (rem.dropWhile isArgGap) with
    | none =>
      rw [find_eq_none h]
      simp only [ite_self]
      exact hdone (openedQuotes_nil h)
    | some p =>
      obtain ⟨key, v⟩ := p
      have hne : rem.dropWhile isArgGap ≠ [] := by
        intro hnil
        have hcolon : splitOnce ":".toList [] = none := rfl
        rw [hnil, hcolon] at h
        cases h
      have hv := splitOnce_length (by decide) h
      have hrem : sliceFrom (rem.dropWhile isArgGap) (byteLen key + 1) = some v := sliceFrom_after h
      rw [find_of_splitOnce h]
      simp only [if_neg hne, sliceTo_before h, hrem, Option.bind_eq_bind, Option.bind_some]
      by_cases hq : qmark <+: v
      · rw [if_pos hq, sliceFrom_of_prefix hq, Option.bind_some]
        have hinner := v.length_drop (i := qmark.length)
        cases h₁ : splitOnce qmark (v.drop qmark.length) with
        | none =>
          -- the string is not closed, and the slice behind its closing quote panics
          have hlong : byteLen (v.drop qmark.length) <
              byteLen (v.drop qmark.length) + byteLen qmark :=
            Nat.lt_add_of_pos_right (by decide)
          rw [find_eq_none h₁, Option.getD_none, sliceTo_byteLen, Option.bind_some,
            sliceFrom_of_lt hlong, Option.bind_none]
          refine .panicked ⟨_, by rw [openedQuotes_last h hq h₁]; exact List.mem_cons_self, ?_⟩
          rw [← splitOnce_isSome_iff, h₁]
          exact Bool.false_ne_true
        | some p =>
          obtain ⟨text, rest⟩ := p
          have hrest := splitOnce_length (by decide) h₁
          have hclosed : qmark <:+: v.drop qmark.length :=
            splitOnce_isSome_iff.mp (by rw [h₁]; rfl)
          rw [find_of_splitOnce h₁, Option.getD_some, sliceTo_before h₁, Option.bind_some,
            sliceFrom_after h₁, Option.bind_some]
          refine (ih (by omega) _).mono ?_ fun _ => id
          rw [OpenQuote, OpenQuote, openedQuotes_quote h hq h₁, List.exists_mem_cons_iff]
          exact ⟨.inr, fun hor => hor.resolve_left (absurd hclosed)⟩
      · rw [if_neg hq]
        by_cases hopen : "[".toList <+: v
        · rw [if_pos hopen]
          cases h₁ : splitOnce "]".toList v with
          | none =>
            rw [find_eq_none h₁]
            exact hdone (openedQuotes_unended h hq hopen h₁)
          | some p =>
            obtain ⟨arr, rest⟩ := p
            have hrest := splitOnce_length (by decide) h₁
            obtain ⟨m, rfl⟩ := array_starts hopen h₁
            have hend : ']' ∉ m := fun hmem =>
              not_mem_of_splitOnce h₁ (List.mem_cons_of_mem _ hmem)
            have hslice : slice v 1 (byteLen ('[' :: m)) = some m :=
              slice_between (a := ['[']) h₁
            have hafter : sliceFrom v (byteLen ('[' :: m) + 1) = some rest := sliceFrom_after h₁
            rw [find_of_splitOnce h₁]
            simp only [hslice, hafter, Option.bind_some]
            -- an array may panic before the rest is looked at
            refine ((ext.gemmaArray_end (Nat.lt_succ_self m.length) hend).bind fun _ _ =>
              ih (by omega) _).mono ?_ fun _ => id
            rw [OpenQuote, OpenQuote, openedQuotes_array h hq hopen h₁]
            simp only [OpenArrayQuote, List.drop_succ_cons, List.drop_zero, List.mem_append,
              or_and_right, exists_or]
        · rw [if_neg hopen]
          cases h₁ : splitOnce ",".toList v with
          | none =>
            rw [find_eq_none h₁, Option.getD_none, sliceTo_byteLen, Option.bind_some,
              sliceFrom_byteLen, Option.bind_some]
            have hnil : ([] : List Char).length < fuel := by
              rw [List.length_nil]
              omega
            refine (ih hnil _).mono ?_ fun _ => id
            rw [OpenQuote, OpenQuote, openedQuotes_end h hq hopen h₁, openedQuotes_nil rfl]
          | some p =>
            obtain ⟨text, rest⟩ := p
            have hrest := splitOnce_length (by decide) h₁
            rw [find_of_splitOnce h₁, Option.getD_some, sliceTo_before h₁, Option.bind_some,
              sliceFrom_at h₁, Option.bind_some]
            -- a bare value: the comma behind it stays for the next round to skip
            have hcomma : ",".toList ++ rest = ',' :: rest := rfl
            have hshort : (',' :: rest).length < fuel := by
              rw [List.length_cons]
              omega
            rw [hcomma]
            refine (ih hshort _).mono ?_ fun _ => id
            rw [OpenQuote, OpenQuote, openedQuotes_bare h hq hopen h₁]

/-- A text is a JSON object. -/
def IsObjectText (blob : List Char) : Prop := ∃ map, ext.readJson (trim blob) = some (.object map)

/-- The arguments of a call are in Gemma's own format and have a quote that is not closed. -/
def OpenArgs (blob : List Char) : Prop := ¬ ext.IsObjectText blob ∧ OpenQuote blob

/-- **The arguments of a call** panic as their quotes do, if they are no JSON object. -/
theorem gemmaArgsOf_end (blob : List Char) :
    Ends (ext.OpenArgs blob) (fun _ => True) (ext.gemmaArgsOf blob) := by
  have hloop : ¬ ext.IsObjectText blob →
      Ends (ext.OpenArgs blob) (fun _ => True) (ext.gemmaArgs (blob.length + 1) blob []) :=
    fun hobject => (ext.gemmaArgs_end (Nat.lt_succ_self _) []).mono
      ⟨fun hopen => ⟨hobject, hopen⟩, fun hopen => hopen.2⟩ fun _ => id
  rw [gemmaArgsOf]
  split
  · rename_i map h
    exact .returned (fun hopen => hopen.1 ⟨map, h⟩) trivial
  · rename_i h
    exact hloop fun ⟨map, hmap⟩ => h map hmap

/-- The arguments of the calls of tools, in Gemma's tokens. -/
def gemmaCalls (search : List Char) : List (List Char) :=
  match _ : splitOnce "<|tool_call>call:".toList search with
  | none => []
  | some (_, after) =>
    match _ : splitOnce "\x7b".toList after with
    | none => []
    | some (name, rest) =>
      if String.ofList (trim name) ∈ toolNames then
        match _ : splitOnce "<tool_call|>".toList ('\x7b' :: rest) with
        | none => [stripBraces (trim ('\x7b' :: rest))]
        | some (blob, next) => stripBraces (trim blob) :: gemmaCalls next
      else gemmaCalls ('\x7b' :: rest)
termination_by search.length
decreasing_by
  · rename_i _ h h₁ _ h₂
    have hafter := splitOnce_length (by decide) h
    have hrest := splitOnce_length (by decide) h₁
    have hnext := splitOnce_length (by decide) h₂
    rw [List.length_cons] at hnext
    omega
  · rename_i _ h h₁ _
    have hafter := splitOnce_length (by decide) h
    have hrest := splitOnce_length (by decide) h₁
    rw [List.length_cons]
    omega

section GemmaCalls

variable {toolNames : List String} {search before after name rest blob next : List Char}

theorem gemmaCalls_nil (h : splitOnce "<|tool_call>call:".toList search = none) :
    gemmaCalls toolNames search = [] := by
  rw [gemmaCalls]
  split
  · rfl
  · rename_i heq
    cases h.symm.trans heq

theorem gemmaCalls_braceless
    (h : splitOnce "<|tool_call>call:".toList search = some (before, after))
    (h₁ : splitOnce "\x7b".toList after = none) : gemmaCalls toolNames search = [] := by
  rw [gemmaCalls]
  split
  · rename_i hnone
    cases h.symm.trans hnone
  · rename_i heq
    obtain ⟨-, rfl⟩ := Prod.mk.inj (Option.some.inj (h.symm.trans heq))
    split
    · rfl
    · rename_i heq₁
      cases h₁.symm.trans heq₁

theorem gemmaCalls_last (h : splitOnce "<|tool_call>call:".toList search = some (before, after))
    (h₁ : splitOnce "\x7b".toList after = some (name, rest))
    (hname : String.ofList (trim name) ∈ toolNames)
    (h₂ : splitOnce "<tool_call|>".toList ('\x7b' :: rest) = none) :
    gemmaCalls toolNames search = [stripBraces (trim ('\x7b' :: rest))] := by
  rw [gemmaCalls]
  split
  · rename_i hnone
    cases h.symm.trans hnone
  · rename_i heq
    obtain ⟨-, rfl⟩ := Prod.mk.inj (Option.some.inj (h.symm.trans heq))
    split
    · rename_i hnone
      cases h₁.symm.trans hnone
    · rename_i heq₁
      obtain ⟨rfl, rfl⟩ := Prod.mk.inj (Option.some.inj (h₁.symm.trans heq₁))
      rw [if_pos hname]
      split
      · rfl
      · rename_i heq₂
        cases h₂.symm.trans heq₂

theorem gemmaCalls_cons (h : splitOnce "<|tool_call>call:".toList search = some (before, after))
    (h₁ : splitOnce "\x7b".toList after = some (name, rest))
    (hname : String.ofList (trim name) ∈ toolNames)
    (h₂ : splitOnce "<tool_call|>".toList ('\x7b' :: rest) = some (blob, next)) :
    gemmaCalls toolNames search = stripBraces (trim blob) :: gemmaCalls toolNames next := by
  rw [gemmaCalls]
  split
  · rename_i hnone
    cases h.symm.trans hnone
  · rename_i heq
    obtain ⟨-, rfl⟩ := Prod.mk.inj (Option.some.inj (h.symm.trans heq))
    split
    · rename_i hnone
      cases h₁.symm.trans hnone
    · rename_i heq₁
      obtain ⟨rfl, rfl⟩ := Prod.mk.inj (Option.some.inj (h₁.symm.trans heq₁))
      rw [if_pos hname]
      split
      · rename_i hnone
        cases h₂.symm.trans hnone
      · rename_i heq₂
        obtain ⟨rfl, rfl⟩ := Prod.mk.inj (Option.some.inj (h₂.symm.trans heq₂))
        rfl

theorem gemmaCalls_other (h : splitOnce "<|tool_call>call:".toList search = some (before, after))
    (h₁ : splitOnce "\x7b".toList after = some (name, rest))
    (hname : String.ofList (trim name) ∉ toolNames) :
    gemmaCalls toolNames search = gemmaCalls toolNames ('\x7b' :: rest) := by
  rw [gemmaCalls]
  split
  · rename_i hnone
    cases h.symm.trans hnone
  · rename_i heq
    obtain ⟨-, rfl⟩ := Prod.mk.inj (Option.some.inj (h.symm.trans heq))
    split
    · rename_i hnone
      cases h₁.symm.trans hnone
    · rename_i heq₁
      obtain ⟨rfl, rfl⟩ := Prod.mk.inj (Option.some.inj (h₁.symm.trans heq₁))
      rw [if_neg hname]

end GemmaCalls

/-- **The loop over Gemma's calls** panics exactly when the arguments of one of them do, and finds
nothing when there is none. -/
theorem gemmaLoop_end {fuel : Nat} {search : List Char} (hfuel : search.length < fuel)
    (results : List ToolCall) :
    Ends (∃ blob ∈ gemmaCalls toolNames search, ext.OpenArgs blob)
      (fun out => out = [] ↔ results = [] ∧ gemmaCalls toolNames search = [])
      (ext.gemmaLoop toolNames fuel search results) := by
  induction fuel generalizing search results with
  | zero => omega
  | succ fuel ih =>
    have hdone : gemmaCalls toolNames search = [] →
        Ends (∃ blob ∈ gemmaCalls toolNames search, ext.OpenArgs blob)
          (fun out => out = [] ↔ results = [] ∧ gemmaCalls toolNames search = [])
          (some results) := fun h => .returned (by simp [h]) (by simp [h])
    rw [gemmaLoop]
    cases h : splitOnce "<|tool_call>call:".toList search with
    | none =>
      rw [find_eq_none h]
      exact hdone (gemmaCalls_nil h)
    | some p =>
      obtain ⟨before, after⟩ := p
      have hafter := splitOnce_length (by decide) h
      rw [find_of_splitOnce h]
      simp only [sliceFrom_after h, Option.bind_eq_bind, Option.bind_some]
      cases h₁ : splitOnce "\x7b".toList after with
      | none =>
        rw [find_eq_none h₁]
        exact hdone (gemmaCalls_braceless h h₁)
      | some p =>
        obtain ⟨name, rest⟩ := p
        have hrest := splitOnce_length (by decide) h₁
        have hbrace : "\x7b".toList ++ rest = '\x7b' :: rest := rfl
        rw [find_of_splitOnce h₁]
        simp only [sliceTo_before h₁, sliceFrom_at h₁, Option.bind_some, hbrace]
        by_cases hname : String.ofList (trim name) ∈ toolNames
        · rw [if_pos hname]
          cases h₂ : splitOnce "<tool_call|>".toList ('\x7b' :: rest) with
          | none =>
            rw [find_eq_none h₂, Option.getD_none, sliceTo_byteLen, Option.bind_some]
            simp only [lt_self_iff_false, if_false]
            -- a call that is not closed reads the rest of the text as its arguments and ends the loop
            refine ((ext.gemmaArgsOf_end _).mono ?_ fun _ => id).bind_some fun args _ => ?_
            · rw [gemmaCalls_last h h₁ hname h₂]
              simp
            · simp [gemmaCalls_last h h₁ hname h₂]
          | some p =>
            obtain ⟨blob, next⟩ := p
            have hnext := splitOnce_length (by decide) h₂
            rw [List.length_cons] at hnext
            have hlt : byteLen blob < byteLen ('\x7b' :: rest) := by
              have hle := byteLen_pattern_le h₂
              have hpos : 0 < byteLen "<tool_call|>".toList := by decide
              omega
            rw [find_of_splitOnce h₂, Option.getD_some, sliceTo_before h₂, Option.bind_some]
            simp only [if_pos hlt, sliceFrom_after h₂, Option.bind_some]
            have hshort : next.length < fuel := by omega
            rw [gemmaCalls_cons h h₁ hname h₂, List.exists_mem_cons_iff]
            refine (ext.gemmaArgsOf_end _).bind fun args _ => ?_
            exact (ih hshort _).mono Iff.rfl fun out hout => by simp [hout]
        · rw [if_neg hname, gemmaCalls_other h h₁ hname]
          -- the name is no tool of the agent: the search goes on at the brace
          have hshort : ('\x7b' :: rest).length < fuel := by
            rw [List.length_cons]
            omega
          exact ih hshort results

/-! ### Python calls -/

/-- The scan of fenced lines returns. -/
theorem fencedLines_isSome {fuel : Nat} {s : List Char} (hfuel : s.length < fuel) :
    (fencedLines fuel s).isSome := by
  induction fuel generalizing s with
  | zero => omega
  | succ fuel ih =>
    rw [fencedLines]
    cases h : splitOnce "```".toList s with
    | none =>
      rw [find_eq_none h]
      rfl
    | some p =>
      obtain ⟨before, after⟩ := p
      have hafter := splitOnce_length (by decide) h
      have hslice : sliceFrom s (byteLen before + 3) = some after := sliceFrom_after h
      rw [find_of_splitOnce h]
      simp only [hslice, Option.bind_eq_bind, Option.bind_some]
      cases h₁ : splitOnce "\n".toList after with
      | none =>
        rw [find_eq_none h₁, Option.getD_none, sliceTo_byteLen, Option.bind_some,
          if_pos (Nat.le_succ _)]
        rfl
      | some p =>
        obtain ⟨lang, body⟩ := p
        have hbody := splitOnce_length (by decide) h₁
        have hslice : sliceFrom after (byteLen lang + 1) = some body := sliceFrom_after h₁
        rw [find_of_splitOnce h₁, Option.getD_some, sliceTo_before h₁, Option.bind_some, hslice,
          Option.bind_some]
        split
        · rfl
        · cases h₂ : splitOnce "```".toList body with
          | none =>
            rw [find_eq_none h₂]
            rfl
          | some p =>
            obtain ⟨block, rest⟩ := p
            have hrest := splitOnce_length (by decide) h₂
            have hslice : sliceFrom body (byteLen block + 3) = some rest := sliceFrom_after h₂
            obtain ⟨lines, hlines⟩ := Option.isSome_iff_exists.mp (ih (s := rest) (by omega))
            rw [find_of_splitOnce h₂]
            simp only [sliceTo_before h₂, hslice, hlines, Option.bind_some]
            rfl

/-- The lines in which a call is looked for. -/
def callLines (content : List Char) : List (List Char) :=
  (fencedLines (content.length + 1) content).getD [] ++ trimmedLines content

/-- What stands between top-level commas, with the characters since the last one. -/
def topLevelTokens (current : List Char) : List Char → Int32 → List (List Char)
  | [], _ => [current]
  | c :: cs, depth =>
    if c = ',' ∧ depth = 0 then current :: topLevelTokens [] cs depth
    else topLevelTokens (current ++ [c]) cs (bracketDepth c depth)

/-- **The tokenizer** slices at commas only. -/
theorem tokenLoop_eq {argsStr before current rest : List Char} (depth : Int32)
    (h : argsStr = before ++ (current ++ rest)) :
    tokenLoop argsStr rest (byteLen (before ++ current)) (byteLen before) depth =
      some (topLevelTokens current rest depth) := by
  induction rest generalizing before current depth with
  | nil =>
    rw [tokenLoop, h, sliceFrom_append, List.append_nil]
    rfl
  | cons c cs ih =>
    rw [tokenLoop, topLevelTokens]
    split
    · rename_i hc
      obtain ⟨rfl, -⟩ := hc
      have htoken : slice argsStr (byteLen before) (byteLen (before ++ current)) =
          some current := by
        have hle : byteLen before ≤ byteLen (before ++ current) := by
          rw [byteLen_append]
          omega
        rw [slice, if_pos hle, h, ← List.append_assoc, sliceTo_append, Option.bind_some,
          sliceFrom_append]
      have hnext : byteLen (before ++ current) + 1 = byteLen (before ++ current ++ [',']) := by
        rw [byteLen_append (before ++ current)]
        rfl
      have hrest : tokenLoop argsStr cs (byteLen (before ++ current ++ [','] ++ []))
          (byteLen (before ++ current ++ [','])) depth = some (topLevelTokens [] cs depth) :=
        ih depth (by rw [h]; simp)
      rw [List.append_nil] at hrest
      rw [htoken, hnext, hrest]
      rfl
    · have hnext : byteLen (before ++ current) + c.utf8Size =
          byteLen (before ++ (current ++ [c])) := by
        rw [← List.append_assoc, byteLen_append (before ++ current)]
        simp
      rw [hnext]
      exact ih (bracketDepth c depth) (by rw [h]; simp)

/-- A value is one quotation mark, and no JSON. -/
def LoneQuote (rawVal : List Char) : Prop :=
  (rawVal = ['\''] ∨ rawVal = ['"']) ∧ ext.readJson rawVal = none

/-- What stands between two quotation marks of one byte. -/
theorem slice_quoted {q : Char} (hq : q.utf8Size = 1) (m : List Char) :
    slice (q :: (m ++ [q])) 1 (byteLen (q :: (m ++ [q])) - 1) = some m := by
  have hlen : byteLen (q :: (m ++ [q])) - 1 = byteLen (q :: m) := by
    simp only [byteLen_cons, byteLen_append, byteLen_nil, hq]
    omega
  have hto : sliceTo (q :: (m ++ [q])) (byteLen (q :: m)) = some (q :: m) :=
    sliceTo_append (q :: m) [q]
  have hfrom : sliceFrom (q :: m) 1 = some m := by
    have h := sliceFrom_append [q] m
    rwa [byteLen_cons, byteLen_nil, hq] at h
  rw [hlen, slice, if_pos (by rw [byteLen_cons, hq]; omega), hto, Option.bind_some, hfrom]

/-- A text that starts and ends with a mark is the mark, or has something between two of them. -/
theorem eq_of_isQuotedBy {q : Char} {raw : List Char} (h : isQuotedBy q raw) :
    raw = [q] ∨ ∃ m, raw = q :: (m ++ [q]) := by
  simp only [isQuotedBy, decide_eq_true_eq] at h
  cases raw with
  | nil => simp at h
  | cons c t =>
    obtain ⟨hfirst, hlast⟩ := h
    obtain rfl := Option.some.inj hfirst
    cases t using List.reverseRecOn with
    | nil => exact .inl rfl
    | append_singleton m d =>
      rw [← List.cons_append, List.getLast?_concat] at hlast
      have hd : d = c := Option.some.inj hlast
      exact .inr ⟨m, by rw [hd]⟩

/-- **The value of a keyword argument** panics exactly when it is a lone quotation mark. -/
theorem kwargValue_end (rawVal : List Char) :
    Ends (ext.LoneQuote rawVal) (fun _ => True) (ext.kwargValue rawVal) := by
  rw [kwargValue]
  cases h : ext.readJson rawVal with
  | some v => exact .returned (fun hlone => by simp [LoneQuote, h] at hlone) trivial
  | none =>
    have hlone : ∀ q : Char, q = '\'' ∨ q = '"' → isQuotedBy q rawVal →
        Ends (ext.LoneQuote rawVal) (fun _ => True)
          ((slice rawVal 1 (byteLen rawVal - 1)).map fun inner =>
            Value.string (String.ofList inner)) := by
      intro q hq hquoted
      have hsize : q.utf8Size = 1 := by rcases hq with rfl | rfl <;> rfl
      obtain rfl | ⟨m, rfl⟩ := eq_of_isQuotedBy hquoted
      · -- the slice from 1 to 0
        have hslice : slice [q] 1 (byteLen [q] - 1) = none := by
          rw [byteLen_cons, byteLen_nil, hsize]
          rfl
        rw [hslice]
        exact .panicked ⟨by rcases hq with rfl | rfl <;> simp, h⟩
      · rw [slice_quoted hsize]
        refine .returned (fun hopen => ?_) trivial
        rcases hopen.1 with heq | heq <;> simp at heq
    dsimp only
    split
    · rename_i hquoted
      rw [Bool.or_eq_true] at hquoted
      rcases hquoted with hquoted | hquoted
      · exact hlone _ (.inl rfl) hquoted
      · exact hlone _ (.inr rfl) hquoted
    · rename_i hquoted
      refine .returned (fun hopen => hquoted ?_) trivial
      rcases hopen.1 with rfl | rfl <;> rfl

/-- The key and the value of a token, if it is a keyword argument. -/
def kwargOf (token : List Char) : Option (List Char × List Char) :=
  (splitOnce "=".toList (trim token)).bind fun p =>
    if trim p.1 = [] ∨ ' ' ∈ trim p.1 then none else some (trim p.1, trim p.2)

/-- The object of an insertion is not empty. -/
theorem insertField_ne_nil (key : String) (v : Value) (fields : List (String × Value)) :
    Value.insertField key v fields ≠ [] := by
  cases fields with
  | nil => exact List.cons_ne_nil _ _
  | cons f rest =>
    rw [Value.insertField]
    split
    · exact List.cons_ne_nil _ _
    · split <;> exact List.cons_ne_nil _ _

/-- **The loop over tokens** panics exactly when the value of a keyword argument does, and finds
nothing when there is no keyword argument. -/
theorem kwargLoop_end (tokens : List (List Char)) (args : List (String × Value)) :
    Ends (∃ kw ∈ tokens.filterMap kwargOf, ext.LoneQuote kw.2)
      (fun out => out = [] ↔ args = [] ∧ tokens.filterMap kwargOf = [])
      (ext.kwargLoop tokens args) := by
  induction tokens generalizing args with
  | nil => exact .returned (by simp) (by simp)
  | cons token tokens ih =>
    have hskip : kwargOf token = none →
        Ends (∃ kw ∈ (token :: tokens).filterMap kwargOf, ext.LoneQuote kw.2)
          (fun out => out = [] ↔ args = [] ∧ (token :: tokens).filterMap kwargOf = [])
          (ext.kwargLoop tokens args) := fun h => by
      rw [List.filterMap_cons_none h]
      exact ih args
    rw [kwargLoop]
    cases h : splitOnce "=".toList (trim token) with
    | none =>
      simp only [find_eq_none h]
      exact hskip (by rw [kwargOf, h, Option.bind_none])
    | some p =>
      obtain ⟨key, rawVal⟩ := p
      have hkw : kwargOf token = if trim key = [] ∨ ' ' ∈ trim key then none
          else some (trim key, trim rawVal) := by
        rw [kwargOf, h, Option.bind_some]
      have hone : byteLen "=".toList = 1 := rfl
      have hraw := sliceFrom_after h
      rw [hone] at hraw
      simp only [find_of_splitOnce h, sliceTo_before h, hraw, Option.bind_eq_bind,
        Option.bind_some]
      generalize trim key = key, trim rawVal = rawVal at hkw ⊢
      by_cases hkey : key = [] ∨ ' ' ∈ key
      · rw [if_pos hkey] at hkw ⊢
        exact hskip hkw
      · rw [if_neg hkey] at hkw ⊢
        rw [List.filterMap_cons_some hkw, List.exists_mem_cons_iff]
        refine (ext.kwargValue_end rawVal).bind fun v _ => ?_
        refine (ih (Value.insertField (String.ofList key) v args)).mono Iff.rfl fun out hout => ?_
        simp [hout, insertField_ne_nil]

/-- The arguments of the call on a line, when the line starts with a tool's name. -/
def callArgs (line : List Char) : Option (List Char) :=
  (splitOnce "(".toList line).bind fun p =>
    if String.ofList (trim p.1) ∈ toolNames then
      (rsplitOnce ")".toList p.2).bind fun q => if '=' ∈ q.1 then some q.1 else none
    else none

/-- The keyword arguments of the call on a line. -/
def keywords (line : List Char) : List (List Char × List Char) :=
  ((callArgs toolNames line).map fun argsStr =>
    (topLevelTokens [] argsStr 0).filterMap kwargOf).getD []

/-- **One line** panics exactly when a keyword argument of its call is a lone quotation mark, and is
a call when it has a keyword argument. -/
theorem pythonCall_end (line : List Char) :
    Ends (∃ kw ∈ keywords toolNames line, ext.LoneQuote kw.2)
      (fun call => call.isSome ↔ keywords toolNames line ≠ []) (ext.pythonCall toolNames line) := by
  have hnone : callArgs toolNames line = none →
      Ends (∃ kw ∈ keywords toolNames line, ext.LoneQuote kw.2)
        (fun call : Option ToolCall => call.isSome ↔ keywords toolNames line ≠ [])
        (some none) := fun h => .returned (by simp [keywords, h]) (by simp [keywords, h])
  rw [pythonCall]
  cases h : splitOnce "(".toList line with
  | none =>
    rw [find_eq_none h]
    exact hnone (by rw [callArgs, h, Option.bind_none])
  | some p =>
    obtain ⟨name, inside⟩ := p
    have hline : line = name ++ '(' :: inside := splitOnce_eq h
    rw [find_of_splitOnce h]
    simp only [sliceTo_before h, Option.bind_eq_bind, Option.bind_some]
    by_cases hname : String.ofList (trim name) ∈ toolNames
    · rw [if_pos hname]
      cases h₁ : rsplitOnce ")".toList inside with
      | none =>
        have hargs : callArgs toolNames line = none := by
          rw [callArgs, h, Option.bind_some, if_pos hname, h₁, Option.bind_none]
        cases h₂ : rsplitOnce ")".toList line with
        | none =>
          rw [rfind_eq_none h₂]
          exact hnone hargs
        | some p =>
          obtain ⟨before, after⟩ := p
          -- the last bracket stands before the first one
          have hle : byteLen before ≤ byteLen name := by
            rw [hline] at h₂
            exact byteLen_le_of_rsplitOnce (by decide) h₁ h₂
          rw [rfind_of_rsplitOnce h₂]
          simp only [if_pos hle]
          exact hnone hargs
      | some p =>
        obtain ⟨argsStr, after⟩ := p
        have hlast : rsplitOnce ")".toList line =
            some (name ++ ['('] ++ argsStr, after) := by
          have h₂ := rsplitOnce_append h₁ (name ++ ['('])
          rwa [List.append_assoc, List.singleton_append, ← hline] at h₂
        -- the last bracket of the line is the last one of what follows the first
        have hafter : ¬ byteLen (name ++ ['('] ++ argsStr) ≤ byteLen name := by
          rw [byteLen_append, byteLen_append, byteLen_cons]
          have hpos := Char.utf8Size_pos '('
          omega
        have hargsStr : slice line (byteLen name + 1) (byteLen (name ++ ['('] ++ argsStr)) =
            some argsStr := by
          have hone : byteLen (name ++ ['(']) = byteLen name + 1 := by
            rw [byteLen_append]
            rfl
          rw [← hone, slice, if_pos (by rw [byteLen_append (name ++ ['('])]; omega),
            sliceTo_before_last hlast, Option.bind_some, sliceFrom_append]
        rw [rfind_of_rsplitOnce hlast]
        simp only [if_neg hafter, hargsStr, Option.bind_some]
        have hargs : callArgs toolNames line = if '=' ∈ argsStr then some argsStr else none := by
          rw [callArgs, h, Option.bind_some, if_pos hname, h₁, Option.bind_some]
        by_cases heq : '=' ∈ argsStr
        · rw [if_pos heq] at hargs ⊢
          have htokens : tokenLoop argsStr argsStr 0 0 0 = some (topLevelTokens [] argsStr 0) :=
            @tokenLoop_eq argsStr [] [] argsStr 0 rfl
          have hkeywords : keywords toolNames line =
              (topLevelTokens [] argsStr 0).filterMap kwargOf := by
            rw [keywords, hargs]
            rfl
          rw [htokens, hkeywords, Option.bind_some]
          -- the fields come from the tokens with a key; a line none of which has one is no call
          have hloop := ext.kwargLoop_end (topLevelTokens [] argsStr 0) []
          generalize ext.kwargLoop (topLevelTokens [] argsStr 0) [] = result at hloop ⊢
          cases hloop with
          | panicked hlone => exact .panicked hlone
          | @returned args hquotes hiff =>
            rw [Option.bind_some]
            by_cases hargs : args = []
            · rw [if_pos hargs]
              exact .returned hquotes (by simpa using hiff.mp hargs)
            · rw [if_neg hargs]
              exact .returned hquotes (by simpa [hargs] using hiff)
        · rw [if_neg heq] at hargs ⊢
          exact hnone hargs
    · rw [if_neg hname]
      exact hnone (by rw [callArgs, h, Option.bind_some, if_neg hname])

/-- The first line with a keyword argument, which is the last one the scan looks at. -/
def calledLine (lines : List (List Char)) : Option (List Char) :=
  lines.find? fun line => keywords toolNames line ≠ []

/-- A keyword argument of the first call is a lone quotation mark. -/
def LoneLiteral (lines : List (List Char)) : Prop :=
  ∃ line, calledLine toolNames lines = some line ∧
    ∃ kw ∈ keywords toolNames line, ext.LoneQuote kw.2

/-- **The search for a call** panics exactly when the first line that has one does. -/
theorem firstPythonCall_end (lines : List (List Char)) :
    Ends (ext.LoneLiteral toolNames lines) (fun _ => True)
      (ext.firstPythonCall toolNames lines) := by
  induction lines with
  | nil => exact .returned (by simp [LoneLiteral, calledLine]) trivial
  | cons line rest ih =>
    rw [firstPythonCall]
    have hcall := ext.pythonCall_end toolNames line
    generalize ext.pythonCall toolNames line = result at hcall ⊢
    have hfound : keywords toolNames line ≠ [] → (ext.LoneLiteral toolNames (line :: rest) ↔
        ∃ kw ∈ keywords toolNames line, ext.LoneQuote kw.2) := fun h => by
      simp [LoneLiteral, calledLine, List.find?_cons_of_pos, h]
    cases hcall with
    | panicked hlone =>
      have hne : keywords toolNames line ≠ [] := by
        obtain ⟨kw, hkw, -⟩ := hlone
        exact List.ne_nil_of_mem hkw
      exact .panicked ((hfound hne).mpr hlone)
    | @returned call hquotes hiff =>
      cases call with
      | some tc =>
        exact .returned (fun hlone => hquotes ((hfound (hiff.mp rfl)).mp hlone)) trivial
      | none =>
        have hnil : keywords toolNames line = [] := by
          by_contra hne
          exact Bool.false_ne_true (hiff.mpr hne)
        refine ih.mono ?_ fun _ => id
        simp [LoneLiteral, calledLine, List.find?_cons_of_neg, hnil]

/-- **Python calls** are looked for in fenced lines and then in all of them. -/
theorem parsePythonToolCalls_end (content : List Char) :
    Ends (ext.LoneLiteral toolNames (callLines content)) (fun _ => True)
      (ext.parsePythonToolCalls toolNames content) := by
  obtain ⟨fenced, hfenced⟩ := Option.isSome_iff_exists.mp
    (fencedLines_isSome (Nat.lt_succ_self content.length))
  have hlines : callLines content = fenced ++ trimmedLines content := by
    rw [callLines, hfenced, Option.getD_some]
  rw [parsePythonToolCalls, hfenced, hlines]
  exact (ext.firstPythonCall_end toolNames _).bind_some fun _ _ => trivial

/-! ### The whole extraction -/

/-- The scan of fenced bodies returns. -/
theorem fencedBodies_isSome {fuel : Nat} {s : List Char} (hfuel : s.length < fuel) :
    (fencedBodies fuel s).isSome := by
  induction fuel generalizing s with
  | zero => omega
  | succ fuel ih =>
    rw [fencedBodies]
    cases h : splitOnce "```".toList s with
    | none =>
      rw [find_eq_none h]
      rfl
    | some p =>
      obtain ⟨before, after⟩ := p
      have hafter := splitOnce_length (by decide) h
      have hslice : sliceFrom s (byteLen before + 3) = some after := sliceFrom_after h
      rw [find_of_splitOnce h]
      simp only [hslice, Option.bind_eq_bind, Option.bind_some]
      obtain ⟨body, hbody, hle⟩ : ∃ body, sliceFrom after
          (((find after "\n".toList).map fun i => i + 1).getD 0) = some body ∧
            body.length ≤ after.length := by
        cases h₁ : splitOnce "\n".toList after with
        | none =>
          rw [find_eq_none h₁]
          exact ⟨after, sliceFrom_zero after, le_refl _⟩
        | some p =>
          obtain ⟨tag, body⟩ := p
          rw [find_of_splitOnce h₁]
          exact ⟨body, sliceFrom_after h₁, Nat.le_of_lt (splitOnce_length (by decide) h₁)⟩
      rw [hbody, Option.bind_some]
      cases h₂ : splitOnce "```".toList body with
      | none =>
        rw [find_eq_none h₂]
        rfl
      | some p =>
        obtain ⟨block, rest⟩ := p
        have hrest := splitOnce_length (by decide) h₂
        have hslice : sliceFrom body (byteLen block + 3) = some rest := sliceFrom_after h₂
        obtain ⟨bodies, hbodies⟩ := Option.isSome_iff_exists.mp (ih (s := rest) (by omega))
        rw [find_of_splitOnce h₂]
        simp only [sliceTo_before h₂, hslice, hbodies, Option.bind_some]
        rfl

/-- **No slice outside a text**: what the scanners come to is closed. -/
structure ScansClosed (content : List Char) : Prop where
  /-- Each `<tool_call>` block that is no JSON call has the values of its parameters closed. -/
  parameters : ∀ inner ∈ blocks content, ¬ ext.Unclosed toolNames inner
  /-- If no block is a call, each Gemma call that is no JSON object has its quotes closed. -/
  quotes : (∀ inner ∈ blocks content, ¬ ext.IsCall toolNames inner) →
    "<|tool_call>".toList <:+: content →
      ∀ blob ∈ gemmaCalls toolNames content, ¬ ext.OpenArgs blob
  /-- If there is no Gemma call either, the first Python call has no lone quotation mark. -/
  literals : (∀ inner ∈ blocks content, ¬ ext.IsCall toolNames inner) →
    ("<|tool_call>".toList <:+: content → gemmaCalls toolNames content = []) →
      ¬ ext.LoneLiteral toolNames (callLines content)

/-- The last format returns, whatever the ones before gave. -/
theorem fencedJson_isSome (text : List Char) (python : List ToolCall) :
    (if python = [] then do
      let fenced ← fencedBodies (text.length + 1) text
      return ((fenced ++ [trim text]).findSome? (ext.tryParse toolNames 0)).toList
    else some python).isSome := by
  obtain ⟨bodies, hbodies⟩ := Option.isSome_iff_exists.mp
    (fencedBodies_isSome (Nat.lt_succ_self text.length))
  rw [hbodies]
  split <;> rfl

/-- **Extraction panics** exactly when one of the scans that are tried comes to something open. -/
theorem extract_end (content : String) :
    Ends (¬ ext.ScansClosed toolNames content.toList) (fun _ => True)
      (ext.extractToolCallsFromContent toolNames content) := by
  rw [extractToolCallsFromContent]
  generalize content.toList = text
  have hlast := ext.fencedJson_isSome toolNames text
  have hblocks := ext.blockLoop_end toolNames (Nat.lt_succ_self text.length) []
  have hgemma := ext.gemmaLoop_end toolNames (Nat.lt_succ_self text.length) []
  have hpython := ext.parsePythonToolCalls_end toolNames text
  simp only [parseGemmaToolCallOpenai, Option.bind_eq_bind]
  generalize ext.blockLoop toolNames (text.length + 1) text [] = blockResult at hblocks ⊢
  generalize ext.gemmaLoop toolNames (text.length + 1) text [] = gemmaResult at hgemma ⊢
  generalize ext.parsePythonToolCalls toolNames text = pythonResult at hpython ⊢
  have hreturned : ∀ python : List ToolCall, ext.ScansClosed toolNames text →
      Ends (¬ ext.ScansClosed toolNames text) (fun _ => True)
        (if python = [] then do
          let fenced ← fencedBodies (text.length + 1) text
          return ((fenced ++ [trim text]).findSome? (ext.tryParse toolNames 0)).toList
        else some python) := fun python hclosed => by
    obtain ⟨out, hout⟩ := Option.isSome_iff_exists.mp (hlast python)
    rw [hout]
    exact .returned (fun h => h hclosed) trivial
  cases hblocks with
  | panicked hopen =>
    obtain ⟨inner, hinner, hopen⟩ := hopen
    exact .panicked fun h => h.parameters inner hinner hopen
  | @returned blocks hparameters hiff =>
    have hparameters := fun inner hinner hopen => hparameters ⟨inner, hinner, hopen⟩
    rw [Option.bind_some]
    by_cases hnone : blocks = []
    · have hcalls := (hiff.mp hnone).2
      -- Python calls are tried when there is no Gemma call
      have htail : ("<|tool_call>".toList <:+: text → gemmaCalls toolNames text = []) →
          Ends (¬ ext.ScansClosed toolNames text) (fun _ => True)
            (pythonResult.bind fun python =>
              if python = [] then do
                let fenced ← fencedBodies (text.length + 1) text
                return ((fenced ++ [trim text]).findSome? (ext.tryParse toolNames 0)).toList
              else some python) := fun hgemmas => by
        cases hpython with
        | panicked hlone => exact .panicked fun h => h.literals hcalls hgemmas hlone
        | returned hlone _ =>
          refine hreturned _ ⟨hparameters, fun _ htoken blob hblob => ?_, fun _ _ => hlone⟩
          rw [hgemmas htoken] at hblob
          cases hblob
      by_cases htoken : "<|tool_call>".toList <:+: text
      · rw [if_pos ⟨hnone, htoken⟩]
        cases hgemma with
        | panicked hopen =>
          obtain ⟨blob, hblob, hopen⟩ := hopen
          exact .panicked fun h => h.quotes hcalls htoken blob hblob hopen
        | @returned gemma hquotes hiff =>
          rw [Option.bind_some]
          by_cases hgemma : gemma = []
          · rw [if_pos hgemma]
            exact htail fun _ => (hiff.mp hgemma).2
          · rw [if_neg hgemma, Option.bind_some]
            refine hreturned _ ⟨hparameters,
              fun _ _ blob hblob hopen => hquotes ⟨blob, hblob, hopen⟩, fun _ hgemmas => ?_⟩
            exact absurd (hiff.mpr ⟨rfl, hgemmas htoken⟩) hgemma
      · rw [if_neg fun h => htoken h.2, Option.bind_some, if_pos hnone]
        exact htail fun h => absurd h htoken
    · rw [if_neg fun h => hnone h.1, Option.bind_some, if_neg hnone, Option.bind_some]
      have hcall : ¬ ∀ inner ∈ Extraction.blocks text, ¬ ext.IsCall toolNames inner :=
        fun hcalls => hnone (hiff.mpr ⟨rfl, hcalls⟩)
      exact hreturned _ ⟨hparameters, fun h => absurd h hcall, fun h => absurd h hcall⟩

/-- **Extraction returns** exactly when every scan that is tried comes to closed texts only, in both
providers. -/
theorem extraction_returns_iff (content : String) :
    ((ext.extractToolCallsFromContent toolNames content).isSome ↔
      ext.ScansClosed toolNames content.toList) ∧
    ((LlamaCppProvider.extractToolCallsFromContent ext toolNames content).isSome ↔
      ext.ScansClosed toolNames content.toList) := by
  have hiff : (ext.extractToolCallsFromContent toolNames content).isSome ↔
      ext.ScansClosed toolNames content.toList := by
    rw [Option.isSome_iff_ne_none, ne_eq, (ext.extract_end toolNames content).eq_none_iff, not_not]
  exact ⟨hiff, hiff⟩

/-- A reply cut off within a quoted argument, a parameter without its closing tag, and an argument
that is one quotation mark. -/
theorem extraction_of_truncated_reply :
    let ext : Extraction := ⟨fun _ => none, toString⟩
    ext.extractToolCallsFromContent ["sql_exec"]
        "<|tool_call>call:sql_exec\x7bquery:<|\"|>SELECT 1" = none ∧
      ext.extractToolCallsFromContent ["sql_exec"]
        "<tool_call><function=sql_exec><parameter=query>SELECT 1</function></tool_call>" = none ∧
      ext.extractToolCallsFromContent ["sql_exec"] "sql_exec(query=\")" = none := by
  decide +kernel

end PgSynapse.Extraction

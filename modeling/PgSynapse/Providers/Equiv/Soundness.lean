import PgSynapse.Providers.Equiv.Formats

/-!
# What the extraction takes for a call

`recognised` is the extraction with, for each call, the JSON text it was recognised in, if it was
recognised in one; without these texts it is the extraction (`recognised_calls`).  Every call has
the name of a tool and an object of arguments.  The documented rule for JSON texts asks for an explicit
member with the arguments as well, and `extraction_sound_iff` says for which texts the calls meet it.
-/

namespace PgSynapse.Extraction

variable (ext : Extraction) (toolNames : List String)

/-! ### The rule -/

/-- The call has the name of a tool and an object of arguments. -/
def Known (tc : ToolCall) : Prop := tc.name ∈ toolNames ∧ tc.args.isObject = true

/-- The text is a JSON object with the call's name, and its arguments stand there explicitly. -/
def Explicit (raw : List Char) (tc : ToolCall) : Prop :=
  ∃ v, ext.readJson (trim raw) = some v ∧ v.get? "name" = some (.string tc.name) ∧
    (v.get? "arguments" = some tc.args ∨ v.get? "parameters" = some tc.args)

/-- The text is a JSON object with the name of a tool, and neither member for the arguments. -/
def Bare (raw : List Char) : Prop :=
  ∃ v, ext.readJson (trim raw) = some v ∧ (∃ name ∈ toolNames, v.get? "name" = some (.string name)) ∧
    v.get? "arguments" = none ∧ v.get? "parameters" = none

variable {ext toolNames}

/-- **A JSON call** meets the rule exactly when its text is not bare. -/
theorem tryParse_sound {index : Nat} {raw : List Char} {tc : ToolCall}
    (h : ext.tryParse toolNames index raw = some tc) :
    Known toolNames tc ∧ (ext.Explicit raw tc ↔ ¬ ext.Bare toolNames raw) := by
  simp only [tryParse, Option.bind_eq_bind] at h
  obtain ⟨v, hv, h⟩ := Option.bind_eq_some_iff.mp h
  obtain ⟨name, hname, h⟩ := Option.bind_eq_some_iff.mp h
  obtain ⟨n, hget, hstr⟩ := Option.bind_eq_some_iff.mp hname
  have hget' : v.get? "name" = some (.string name) := by
    rw [hget]
    cases n <;> simp_all [Value.asStr?]
  split at h
  · rename_i hmem
    split at h
    · rename_i hobj
      obtain rfl := Option.some.inj h
      refine ⟨⟨hmem, hobj⟩, ?_, fun hbare => ⟨v, hv, hget', ?_⟩⟩
      · rintro ⟨v₁, hv₁, -, hargs⟩ ⟨v₂, hv₂, -, ha, hp⟩
        obtain rfl := Option.some.inj (hv₁.symm.trans hv₂)
        rcases hargs with hargs | hargs
        · cases ha.symm.trans hargs
        · cases hp.symm.trans hargs
      · cases ha : v.get? "arguments" with
        | some args => exact .inl rfl
        | none =>
          cases hp : v.get? "parameters" with
          | some args => exact .inr rfl
          | none => exact absurd ⟨v, hv, ⟨name, hmem, hget'⟩, ha, hp⟩ hbare
    · cases h
  · cases h

/-! ### The other formats -/

theorem parseXmlFunctionBlock_known {index : Nat} {inner : List Char} {tc : ToolCall}
    (h : ext.parseXmlFunctionBlock toolNames index inner = some (some tc)) :
    Known toolNames tc := by
  unfold parseXmlFunctionBlock at h
  split at h
  · cases h
  · simp only [Option.bind_eq_bind] at h
    obtain ⟨afterFunc, -, h⟩ := Option.bind_eq_some_iff.mp h
    split at h
    · cases h
    · obtain ⟨name, -, h⟩ := Option.bind_eq_some_iff.mp h
      split at h
      · rename_i hmem
        obtain ⟨body, -, h⟩ := Option.bind_eq_some_iff.mp h
        split at h <;>
        · obtain ⟨body', -, h⟩ := Option.bind_eq_some_iff.mp h
          obtain ⟨args, -, h⟩ := Option.bind_eq_some_iff.mp h
          obtain ⟨fields, -, rfl⟩ := Option.map_eq_some_iff.mp (Option.some.inj h)
          exact ⟨hmem, rfl⟩
      · cases h

theorem parseGemma_known {content : List Char} {out : List ToolCall}
    (h : ext.parseGemmaToolCallOpenai toolNames content = some out) :
    ∀ tc ∈ out, Known toolNames tc :=
  gemmaLoop_forall (fun _ _ _ _ hmem => ⟨hmem, rfl⟩) (List.forall_mem_nil _) h

theorem pythonCall_known {line : List Char} {tc : ToolCall}
    (h : ext.pythonCall toolNames line = some (some tc)) : Known toolNames tc := by
  unfold pythonCall at h
  split at h
  · cases h
  · simp only [Option.bind_eq_bind] at h
    obtain ⟨name, -, h⟩ := Option.bind_eq_some_iff.mp h
    split at h
    · rename_i hmem
      split at h
      · cases h
      · split at h
        · cases h
        · obtain ⟨argsStr, -, h⟩ := Option.bind_eq_some_iff.mp h
          split at h
          · obtain ⟨tokens, -, h⟩ := Option.bind_eq_some_iff.mp h
            obtain ⟨args, -, h⟩ := Option.bind_eq_some_iff.mp h
            split at h
            · cases h
            · obtain rfl := Option.some.inj (Option.some.inj h)
              exact ⟨hmem, rfl⟩
          · cases h
    · cases h

theorem firstPythonCall_known {lines : List (List Char)} {tc : ToolCall}
    (h : ext.firstPythonCall toolNames lines = some (some tc)) : Known toolNames tc := by
  induction lines with
  | nil => cases h
  | cons line rest ih =>
    simp only [firstPythonCall, Option.bind_eq_bind] at h
    obtain ⟨call, hcall, h⟩ := Option.bind_eq_some_iff.mp h
    cases call with
    | some tc' =>
      obtain rfl := Option.some.inj (Option.some.inj h)
      exact pythonCall_known hcall
    | none => exact ih h

theorem parsePythonToolCalls_known {content : List Char} {out : List ToolCall}
    (h : ext.parsePythonToolCalls toolNames content = some out) :
    ∀ tc ∈ out, Known toolNames tc := by
  simp only [parsePythonToolCalls, Option.bind_eq_bind] at h
  obtain ⟨fenced, -, h⟩ := Option.bind_eq_some_iff.mp h
  obtain ⟨call, hcall, h⟩ := Option.bind_eq_some_iff.mp h
  obtain rfl := Option.some.inj h
  intro tc htc
  obtain rfl := Option.mem_toList.mp htc
  exact firstPythonCall_known hcall

/-! ### Parts of the content -/

theorem trim_isInfix (s : List Char) : trim s <:+: s := Text.trim_isInfix s

theorem blocks_infix (search : List Char) : ∀ inner ∈ blocks search, inner <:+: search := by
  induction search using blocks.induct with
  | case1 search h =>
    rw [blocks_nil h]
    exact List.forall_mem_nil _
  | case2 search before afterOpen h h₁ =>
    rw [blocks_unclosed h h₁]
    exact List.forall_mem_nil _
  | case3 search before afterOpen h inner rest h₁ ih =>
    rw [blocks_cons h h₁]
    have hafter : afterOpen <:+: search := by
      rw [splitOnce_eq h]
      exact ((List.suffix_append _ _).trans (List.suffix_append _ _)).isInfix
    have hinner : inner <:+: afterOpen := by
      rw [splitOnce_eq h₁]
      exact (List.prefix_append _ _).isInfix
    have hrest : rest <:+: afterOpen := by
      rw [splitOnce_eq h₁]
      exact ((List.suffix_append _ _).trans (List.suffix_append _ _)).isInfix
    exact List.forall_mem_cons.mpr ⟨(trim_isInfix inner).trans (hinner.trans hafter),
      fun b hb => (ih b hb).trans (hrest.trans hafter)⟩

theorem fencedBodies_infix {fuel : Nat} {s : List Char} {bodies : List (List Char)}
    (h : fencedBodies fuel s = some bodies) : ∀ body ∈ bodies, body <:+: s := by
  induction fuel generalizing s bodies with
  | zero => cases h
  | succ fuel ih =>
    have hnil : some [] = some bodies → ∀ body ∈ bodies, body <:+: s := by
      rintro ⟨⟩
      exact List.forall_mem_nil _
    rw [fencedBodies] at h
    split at h
    · exact hnil h
    · simp only [Option.bind_eq_bind] at h
      obtain ⟨after, hafter, h⟩ := Option.bind_eq_some_iff.mp h
      obtain ⟨body, hbody, h⟩ := Option.bind_eq_some_iff.mp h
      have hsuffix := (suffix_of_sliceFrom hbody).trans (suffix_of_sliceFrom hafter)
      split at h
      · exact hnil h
      · obtain ⟨block, hblock, h⟩ := Option.bind_eq_some_iff.mp h
        obtain ⟨next, hnext, h⟩ := Option.bind_eq_some_iff.mp h
        obtain ⟨rest, hrest, h⟩ := Option.bind_eq_some_iff.mp h
        obtain rfl := Option.some.inj h
        refine List.forall_mem_cons.mpr ⟨?_, fun b hb => ?_⟩
        · exact (trim_isInfix block).trans
            ((prefix_of_sliceTo hblock).isInfix.trans hsuffix.isInfix)
        · exact (ih hrest b hb).trans ((suffix_of_sliceFrom hnext).trans hsuffix).isInfix

/-! ### The extraction with its sources -/

/-- A call, and the JSON text it was recognised in. -/
abbrev Found := ToolCall × Option (List Char)

/-- The calls of a format other than JSON. -/
def unsourced (calls : List ToolCall) : List Found := calls.map fun tc => (tc, none)

variable (ext toolNames)

/-- `blockCall` with its source. -/
def blockFound (index : Nat) (inner : List Char) : Option (Option Found) :=
  match ext.tryParse toolNames index inner with
  | some tc => some (some (tc, some inner))
  | none => (ext.parseXmlFunctionBlock toolNames index inner).map fun call =>
      call.map fun tc => (tc, none)

/-- `blockLoop` over the blocks, with its sources. -/
def blocksFound : List (List Char) → List Found → Option (List Found)
  | [], found => some found
  | inner :: rest, found => do
    let call ← ext.blockFound toolNames found.length inner
    blocksFound rest (found ++ call.toList)

/-- The JSON texts of the last format: the fenced bodies, and then the whole text. -/
def candidates (text : List Char) : List (List Char) :=
  (fencedBodies (text.length + 1) text).getD [] ++ [trim text]

/-- The last format, tried when there is no call yet. -/
def lastFound (text : List Char) (found : List Found) : Option (List Found) :=
  if found = [] then
    some ((candidates text).findSome? fun raw =>
      (ext.tryParse toolNames 0 raw).map fun tc => (tc, some raw)).toList
  else some found

/-- `extractToolCallsFromContent` with its sources. -/
def recognised (content : String) : Option (List Found) := do
  let text := content.toList
  let found ← ext.blocksFound toolNames (blocks text) []
  let gemma ← if found = [] ∧ "<|tool_call>".toList <:+: text then
      (ext.parseGemmaToolCallOpenai toolNames text).map unsourced
    else some found
  let python ← if gemma = [] then (ext.parsePythonToolCalls toolNames text).map unsourced
    else some gemma
  ext.lastFound toolNames text python

variable {ext toolNames}

theorem unsourced_fst (calls : List ToolCall) : (unsourced calls).map Prod.fst = calls := by
  simp [unsourced, Function.comp_def]

theorem blockFound_fst (index : Nat) (inner : List Char) :
    (ext.blockFound toolNames index inner).map (Option.map Prod.fst) =
      ext.blockCall toolNames index inner := by
  rw [blockFound, blockCall]
  cases ext.tryParse toolNames index inner with
  | some tc => rfl
  | none =>
    simp only [Option.map_map]
    cases ext.parseXmlFunctionBlock toolNames index inner with
    | none => rfl
    | some call => cases call <;> rfl

/-- The loop over blocks is the loop over what they enclose. -/
theorem blockLoop_eq {fuel : Nat} {search : List Char} (hfuel : search.length < fuel)
    (found : List Found) :
    ext.blockLoop toolNames fuel search (found.map Prod.fst) =
      (ext.blocksFound toolNames (blocks search) found).map (List.map Prod.fst) := by
  induction fuel generalizing search found with
  | zero => omega
  | succ fuel ih =>
    rw [blockLoop]
    cases h : splitOnce "<tool_call>".toList search with
    | none => rw [find_eq_none h, blocks_nil h, blocksFound, Option.map_some]
    | some p =>
      obtain ⟨before, afterOpen⟩ := p
      have hafter := splitOnce_length (by decide) h
      rw [find_of_splitOnce h]
      simp only [sliceFrom_after h, Option.bind_eq_bind, Option.bind_some]
      cases h₁ : splitOnce "</tool_call>".toList afterOpen with
      | none => rw [find_eq_none h₁, blocks_unclosed h h₁, blocksFound, Option.map_some]
      | some p =>
        obtain ⟨inner, rest⟩ := p
        have hrest := splitOnce_length (by decide) h₁
        rw [find_of_splitOnce h₁, blocks_cons h h₁, blocksFound]
        simp only [sliceTo_before h₁, sliceFrom_after h₁, Option.bind_some, Option.bind_eq_bind]
        rw [List.length_map, ← blockFound_fst]
        cases ext.blockFound toolNames found.length (trim inner) with
        | none => rfl
        | some call =>
          simp only [Option.map_some, Option.bind_some]
          rw [← ih (by omega), List.map_append]
          cases call <;> rfl

variable (ext toolNames)

/-- The last format without its source. -/
def lastFormat (text : List Char) (calls : List ToolCall) : Option (List ToolCall) :=
  if calls = [] then
    (fencedBodies (text.length + 1) text).bind fun fenced =>
      some ((fenced ++ [trim text]).findSome? (ext.tryParse toolNames 0)).toList
  else some calls

variable {ext toolNames}

theorem lastFormat_eq (text : List Char) (found : List Found) :
    ext.lastFormat toolNames text (found.map Prod.fst) =
      (ext.lastFound toolNames text found).map (List.map Prod.fst) := by
  obtain ⟨bodies, hbodies⟩ := Option.isSome_iff_exists.mp
    (fencedBodies_isSome (Nat.lt_succ_self text.length))
  cases found with
  | cons f found => rfl
  | nil =>
    rw [lastFormat, lastFound, candidates, hbodies]
    simp only [List.map_nil, if_true, Option.bind_some, Option.getD_some, Option.map_some]
    generalize bodies ++ [trim text] = texts
    refine congrArg some ?_
    induction texts with
    | nil => rfl
    | cons raw texts ih =>
      rw [List.findSome?_cons, List.findSome?_cons]
      cases ext.tryParse toolNames 0 raw with
      | some tc => rfl
      | none => exact ih

/-- **Without its sources**, `recognised` is the extraction. -/
theorem recognised_calls (content : String) :
    ext.extractToolCallsFromContent toolNames content =
      (ext.recognised toolNames content).map (List.map Prod.fst) := by
  have hblocks := @blockLoop_eq ext toolNames _ _ (Nat.lt_succ_self content.toList.length) []
  rw [List.map_nil] at hblocks
  -- what is left after Gemma's format
  have rest : ∀ gemma : List Found,
      (if gemma.map Prod.fst = [] then
        (ext.parsePythonToolCalls toolNames content.toList).bind
          (ext.lastFormat toolNames content.toList)
      else ext.lastFormat toolNames content.toList (gemma.map Prod.fst)) =
      (if gemma = [] then
        ((ext.parsePythonToolCalls toolNames content.toList).map unsourced).bind
          (ext.lastFound toolNames content.toList)
      else ext.lastFound toolNames content.toList gemma).map (List.map Prod.fst) := by
    intro gemma
    cases gemma with
    | cons f gemma => exact @lastFormat_eq ext toolNames content.toList (f :: gemma)
    | nil =>
      cases ext.parsePythonToolCalls toolNames content.toList with
      | none => rfl
      | some calls =>
        have h := @lastFormat_eq ext toolNames content.toList (unsourced calls)
        rw [unsourced_fst] at h
        exact h
  rw [extractToolCallsFromContent, recognised]
  simp only [Option.bind_eq_bind, hblocks]
  cases ext.blocksFound toolNames (blocks content.toList) [] with
  | none => rfl
  | some found =>
    have hnil : found.map Prod.fst = [] ↔ found = [] := List.map_eq_nil_iff
    simp only [Option.map_some, Option.bind_some, hnil]
    split
    · cases ext.parseGemmaToolCallOpenai toolNames content.toList with
      | none => rfl
      | some calls =>
        have h := rest (unsourced calls)
        rw [unsourced_fst] at h
        exact h
    · cases found with
      | nil => exact rest []
      | cons f found => exact rest (f :: found)

/-! ### Soundness -/

variable (ext toolNames)

/-- Every call is known, and one that was recognised in a JSON text meets the documented rule with
that part of the content. -/
def Sound (content : String) (found : List Found) : Prop :=
  ∀ f ∈ found, Known toolNames f.1 ∧
    ∀ raw, f.2 = some raw → raw <:+: content.toList ∧ ext.Explicit raw f.1

/-- No JSON text that the extraction takes a call from is bare. -/
structure NoBareCall (content : String) : Prop where
  /-- None of the `<tool_call>` blocks is. -/
  blocks : ∀ inner ∈ blocks content.toList, ¬ ext.Bare toolNames inner
  /-- If neither a block nor Gemma's tokens nor a line is a call, the first candidate that is a JSON
  call is not. -/
  candidate : (∀ inner ∈ Extraction.blocks content.toList, ¬ ext.IsCall toolNames inner) →
    ("<|tool_call>".toList <:+: content.toList → gemmaCalls toolNames content.toList = []) →
    calledLine toolNames (callLines content.toList) = none →
    ∀ raw, (candidates content.toList).find? (fun raw => (ext.tryParse toolNames 0 raw).isSome) =
      some raw → ¬ ext.Bare toolNames raw

variable {ext toolNames}

/-- A bare text is a call. -/
theorem tryParse_of_bare {raw : List Char} (hbare : ext.Bare toolNames raw) (index : Nat) :
    (ext.tryParse toolNames index raw).isSome := by
  obtain ⟨v, hv, ⟨name, hmem, hname⟩, ha, hp⟩ := hbare
  simp [tryParse, hv, hname, ha, hp, hmem, Value.asStr?, Value.isObject]

/-- **A block** gives a call that meets the rule exactly when it is not bare. -/
theorem blockFound_sound {index : Nat} {inner : List Char} {call : Option Found}
    (h : ext.blockFound toolNames index inner = some call) :
    (∀ f ∈ call, Known toolNames f.1 ∧ ∀ raw, f.2 = some raw → raw = inner) ∧
    ((∀ f ∈ call, ∀ raw, f.2 = some raw → ext.Explicit raw f.1) ↔ ¬ ext.Bare toolNames inner) ∧
    (call = none ↔ ¬ ext.IsCall toolNames inner) := by
  have hcall : call = none ↔ ¬ ext.IsCall toolNames inner := by
    have hfst := @blockFound_fst ext toolNames index inner
    rw [h, Option.map_some] at hfst
    have hiff := (ext.blockCall_end toolNames index inner).ok_of_eq_some hfst.symm
    rw [← hiff]
    cases call <;> simp
  rw [blockFound] at h
  cases htry : ext.tryParse toolNames index inner with
  | some tc =>
    rw [htry] at h
    obtain rfl := Option.some.inj h
    obtain ⟨hknown, hiff⟩ := tryParse_sound htry
    refine ⟨?_, ?_, hcall⟩
    · rintro f ⟨⟩
      exact ⟨hknown, fun raw hraw => (Option.some.inj hraw).symm⟩
    · rw [← hiff]
      constructor
      · intro hall
        exact hall _ rfl inner rfl
      · rintro hexplicit f ⟨⟩ raw ⟨⟩
        exact hexplicit
  | none =>
    rw [htry] at h
    obtain ⟨xml, hxml, rfl⟩ := Option.map_eq_some_iff.mp h
    have hbare : ¬ ext.Bare toolNames inner := by
      intro hbare
      have hsome := tryParse_of_bare hbare index
      rw [htry] at hsome
      cases hsome
    refine ⟨?_, iff_of_true ?_ hbare, hcall⟩
    · intro f hf
      obtain ⟨tc, rfl, rfl⟩ := Option.map_eq_some_iff.mp hf
      exact ⟨parseXmlFunctionBlock_known hxml, fun raw hraw => nomatch hraw⟩
    · intro f hf raw hraw
      obtain ⟨tc, rfl, rfl⟩ := Option.map_eq_some_iff.mp hf
      cases hraw

/-- **The blocks** give calls that meet the rule exactly when none of them is bare. -/
theorem blocksFound_sound {inners : List (List Char)} {found out : List Found}
    (h : ext.blocksFound toolNames inners found = some out) :
    ∃ new, out = found ++ new ∧
      (∀ f ∈ new, Known toolNames f.1 ∧ ∀ raw, f.2 = some raw → raw ∈ inners) ∧
      ((∀ f ∈ new, ∀ raw, f.2 = some raw → ext.Explicit raw f.1) ↔
        ∀ inner ∈ inners, ¬ ext.Bare toolNames inner) ∧
      (new = [] ↔ ∀ inner ∈ inners, ¬ ext.IsCall toolNames inner) := by
  induction inners generalizing found with
  | nil =>
    obtain rfl := Option.some.inj h
    exact ⟨[], by simp, by simp, by simp, by simp⟩
  | cons inner inners ih =>
    simp only [blocksFound, Option.bind_eq_bind] at h
    obtain ⟨call, hcall, h⟩ := Option.bind_eq_some_iff.mp h
    obtain ⟨hknown, hiff, hnone⟩ := blockFound_sound hcall
    obtain ⟨new, rfl, hnew, hnewiff, hnil⟩ := ih h
    refine ⟨call.toList ++ new, by rw [List.append_assoc], ?_, ?_, ?_⟩
    · rintro f hf
      rcases List.mem_append.mp hf with hf | hf
      · obtain ⟨hk, hraw⟩ := hknown f (Option.mem_toList.mp hf)
        exact ⟨hk, fun raw hr => by rw [hraw raw hr]; exact List.mem_cons_self⟩
      · obtain ⟨hk, hraw⟩ := hnew f hf
        exact ⟨hk, fun raw hr => List.mem_cons_of_mem _ (hraw raw hr)⟩
    · rw [List.forall_mem_append, List.forall_mem_cons, ← hiff, ← hnewiff]
      simp only [Option.mem_toList, Option.mem_def]
    · rw [List.append_eq_nil_iff, Option.toList_eq_nil_iff, List.forall_mem_cons, hnone, hnil]

/-- No line is a call when the search for one comes back without. -/
theorem firstPythonCall_none_iff {lines : List (List Char)} {call : Option ToolCall}
    (h : ext.firstPythonCall toolNames lines = some call) :
    call = none ↔ calledLine toolNames lines = none := by
  induction lines with
  | nil =>
    obtain rfl := Option.some.inj h
    exact iff_of_true rfl rfl
  | cons line rest ih =>
    simp only [firstPythonCall, Option.bind_eq_bind] at h
    obtain ⟨c, hc, h⟩ := Option.bind_eq_some_iff.mp h
    have hiff := (ext.pythonCall_end toolNames line).ok_of_eq_some hc
    cases c with
    | some tc =>
      obtain rfl := Option.some.inj h
      have hne : keywords toolNames line ≠ [] := hiff.mp rfl
      simp [calledLine, List.find?_cons_of_pos, hne]
    | none =>
      have hnil : keywords toolNames line = [] := by
        by_contra hne
        exact Bool.false_ne_true (hiff.mpr hne)
      rw [calledLine, List.find?_cons_of_neg (by simp [hnil])]
      exact ih h

theorem parsePythonToolCalls_nil_iff {content : List Char} {out : List ToolCall}
    (h : ext.parsePythonToolCalls toolNames content = some out) :
    out = [] ↔ calledLine toolNames (callLines content) = none := by
  simp only [parsePythonToolCalls, Option.bind_eq_bind] at h
  obtain ⟨fenced, hfenced, h⟩ := Option.bind_eq_some_iff.mp h
  obtain ⟨call, hcall, h⟩ := Option.bind_eq_some_iff.mp h
  obtain rfl := Option.some.inj h
  rw [callLines, hfenced, Option.getD_some, ← firstPythonCall_none_iff hcall,
    Option.toList_eq_nil_iff]

theorem candidates_infix (text : List Char) : ∀ raw ∈ candidates text, raw <:+: text := by
  intro raw hraw
  rcases List.mem_append.mp hraw with hraw | hraw
  · obtain ⟨bodies, hbodies⟩ := Option.isSome_iff_exists.mp
      (fencedBodies_isSome (Nat.lt_succ_self text.length))
    rw [hbodies, Option.getD_some] at hraw
    exact fencedBodies_infix hbodies raw hraw
  · rw [List.mem_singleton.mp hraw]
    exact trim_isInfix text

/-- The last format takes the first candidate that is a call. -/
theorem lastFound_nil (text : List Char) :
    (∃ raw tc, (candidates text).find? (fun raw => (ext.tryParse toolNames 0 raw).isSome) =
      some raw ∧ ext.tryParse toolNames 0 raw = some tc ∧ raw <:+: text ∧
      ext.lastFound toolNames text [] = some [(tc, some raw)]) ∨
    ((candidates text).find? (fun raw => (ext.tryParse toolNames 0 raw).isSome) = none ∧
      ext.lastFound toolNames text [] = some []) := by
  have hparts := candidates_infix text
  rw [lastFound, if_pos rfl]
  generalize candidates text = texts at hparts
  induction texts with
  | nil => exact .inr ⟨rfl, rfl⟩
  | cons raw texts ih =>
    obtain ⟨hraw, htexts⟩ := List.forall_mem_cons.mp hparts
    rw [List.find?_cons, List.findSome?_cons]
    cases htry : ext.tryParse toolNames 0 raw with
    | some tc => exact .inl ⟨raw, tc, rfl, htry, hraw, rfl⟩
    | none => exact ih htexts

theorem unsourced_sound {calls : List ToolCall} {content : String}
    (hcalls : ∀ tc ∈ calls, Known toolNames tc) : ext.Sound toolNames content (unsourced calls) := by
  intro f hf
  obtain ⟨tc, htc, rfl⟩ := List.mem_map.mp hf
  exact ⟨hcalls tc htc, fun raw hraw => nomatch hraw⟩

/-- **The last format** is sound exactly when the candidate it takes is not bare. -/
theorem lastFound_nil_sound {content : String} {found : List Found}
    (h : ext.lastFound toolNames content.toList [] = some found) :
    (∀ f ∈ found, Known toolNames f.1) ∧ (ext.Sound toolNames content found ↔
      ∀ raw, (candidates content.toList).find?
        (fun raw => (ext.tryParse toolNames 0 raw).isSome) = some raw →
        ¬ ext.Bare toolNames raw) := by
  rcases @lastFound_nil ext toolNames content.toList with ⟨raw, tc, hfind, htry, hpart, hlast⟩ |
    ⟨hfind, hlast⟩ <;> obtain rfl := Option.some.inj (hlast.symm.trans h)
  · obtain ⟨hknown, hiff⟩ := tryParse_sound htry
    refine ⟨List.forall_mem_singleton.mpr hknown, ?_⟩
    rw [Sound, List.forall_mem_singleton, hfind]
    constructor
    · rintro ⟨-, hraw⟩ raw' ⟨⟩
      exact hiff.mp (hraw raw rfl).2
    · intro hbare
      refine ⟨hknown, ?_⟩
      rintro raw' ⟨⟩
      exact ⟨hpart, hiff.mpr (hbare raw rfl)⟩
  · refine ⟨List.forall_mem_nil _, ?_⟩
    rw [Sound, hfind]
    exact iff_of_true (List.forall_mem_nil _) nofun

/-- Which format the calls come from. -/
inductive Route (ext : Extraction) (toolNames : List String) (text : List Char) :
    List Found → Prop
  | blocks {found : List Found} (hne : found ≠ [])
    (h : ext.blocksFound toolNames (blocks text) [] = some found) : Route ext toolNames text found
  | gemma {calls : List ToolCall}
    (h : ext.blocksFound toolNames (Extraction.blocks text) [] = some [])
    (htoken : "<|tool_call>".toList <:+: text) (hne : calls ≠ [])
    (hcalls : ext.parseGemmaToolCallOpenai toolNames text = some calls) :
    Route ext toolNames text (unsourced calls)
  | python {calls : List ToolCall}
    (h : ext.blocksFound toolNames (Extraction.blocks text) [] = some [])
    (hgemma : "<|tool_call>".toList <:+: text →
      ext.parseGemmaToolCallOpenai toolNames text = some []) (hne : calls ≠ [])
    (hcalls : ext.parsePythonToolCalls toolNames text = some calls) :
    Route ext toolNames text (unsourced calls)
  | last {found : List Found} (h : ext.blocksFound toolNames (Extraction.blocks text) [] = some [])
    (hgemma : "<|tool_call>".toList <:+: text →
      ext.parseGemmaToolCallOpenai toolNames text = some [])
    (hpython : ext.parsePythonToolCalls toolNames text = some [])
    (hlast : ext.lastFound toolNames text [] = some found) : Route ext toolNames text found

theorem recognised_route {content : String} {found : List Found}
    (h : ext.recognised toolNames content = some found) :
    Route ext toolNames content.toList found := by
  rw [recognised] at h
  simp only [Option.bind_eq_bind] at h
  generalize content.toList = text at h ⊢
  obtain ⟨fromBlocks, hblocks, h⟩ := Option.bind_eq_some_iff.mp h
  cases fromBlocks with
  | cons f rest =>
    rw [if_neg (by simp)] at h
    obtain rfl : f :: rest = found := by simpa [lastFound] using h
    exact .blocks (List.cons_ne_nil f rest) hblocks
  | nil =>
    -- what comes after Gemma's format when it gives no call
    have after : ("<|tool_call>".toList <:+: text →
        ext.parseGemmaToolCallOpenai toolNames text = some []) →
        ((ext.parsePythonToolCalls toolNames text).map unsourced).bind
          (ext.lastFound toolNames text) = some found → Route ext toolNames text found := by
      intro hgemma h
      obtain ⟨python, hpython, h⟩ := Option.bind_eq_some_iff.mp h
      obtain ⟨calls, hcalls, rfl⟩ := Option.map_eq_some_iff.mp hpython
      cases calls with
      | nil => exact .last hblocks hgemma hcalls h
      | cons tc calls =>
        obtain rfl := Option.some.inj h
        exact .python hblocks hgemma (List.cons_ne_nil tc calls) hcalls
    by_cases htoken : "<|tool_call>".toList <:+: text
    · rw [if_pos ⟨rfl, htoken⟩] at h
      obtain ⟨gemma, hgemma, h⟩ := Option.bind_eq_some_iff.mp h
      obtain ⟨calls, hcalls, rfl⟩ := Option.map_eq_some_iff.mp hgemma
      cases calls with
      | nil => exact after (fun _ => hcalls) h
      | cons tc calls =>
        obtain rfl := Option.some.inj h
        exact .gemma hblocks htoken (List.cons_ne_nil tc calls) hcalls
    · rw [if_neg fun hand => htoken hand.2] at h
      exact after (fun hyes => absurd hyes htoken) h

theorem parseGemma_nil_iff {text : List Char} {calls : List ToolCall}
    (h : ext.parseGemmaToolCallOpenai toolNames text = some calls) :
    calls = [] ↔ gemmaCalls toolNames text = [] := by
  have hiff := (ext.gemmaLoop_end toolNames (Nat.lt_succ_self text.length) []).ok_of_eq_some h
  simpa using hiff

/-- **The extraction is sound** exactly when no JSON text it takes a call from is bare: its calls
have the name of a tool and an object of arguments in any case. -/
theorem extraction_sound_iff (content : String) (out : List ToolCall)
    (h : ext.extractToolCallsFromContent toolNames content = some out) :
    ∃ found, ext.recognised toolNames content = some found ∧ found.map Prod.fst = out ∧
      (∀ tc ∈ out, Known toolNames tc) ∧
      (ext.Sound toolNames content found ↔ ext.NoBareCall toolNames content) := by
  rw [recognised_calls] at h
  obtain ⟨found, hfound, rfl⟩ := Option.map_eq_some_iff.mp h
  clear h
  refine ⟨found, hfound, rfl, ?_⟩
  rw [List.forall_mem_map]
  -- without a call in a block none of the blocks is bare
  have noBlock : ext.blocksFound toolNames (blocks content.toList) [] = some [] →
      (∀ inner ∈ blocks content.toList, ¬ ext.Bare toolNames inner) ∧
        ∀ inner ∈ blocks content.toList, ¬ ext.IsCall toolNames inner := by
    intro h
    obtain ⟨new, hnew, -, hiff, hnil⟩ := blocksFound_sound h
    obtain rfl : new = [] := hnew.symm
    exact ⟨hiff.mp (List.forall_mem_nil _), hnil.mp rfl⟩
  cases recognised_route hfound with
  | blocks hne h =>
    obtain ⟨new, hnew, hknown, hiff, hnil⟩ := blocksFound_sound h
    obtain rfl : found = new := hnew
    refine ⟨fun f hf => (hknown f hf).1, ?_⟩
    have hcall : ¬ ∀ inner ∈ blocks content.toList, ¬ ext.IsCall toolNames inner :=
      fun hall => hne (hnil.mpr hall)
    constructor
    · intro hsound
      exact ⟨hiff.mp fun f hf raw hraw => ((hsound f hf).2 raw hraw).2, fun h => absurd h hcall⟩
    · intro hbare f hf
      refine ⟨(hknown f hf).1, fun raw hraw => ⟨?_, hiff.mpr hbare.blocks f hf raw hraw⟩⟩
      exact blocks_infix _ raw ((hknown f hf).2 raw hraw)
  | gemma h htoken hne hcalls =>
    have hknown := parseGemma_known hcalls
    have hsound := @unsourced_sound ext toolNames _ content hknown
    have hgemma := (parseGemma_nil_iff hcalls).not.mp hne
    exact ⟨fun f hf => (hsound f hf).1, iff_of_true hsound
      ⟨(noBlock h).1, fun _ hnone => absurd (hnone htoken) hgemma⟩⟩
  | python h hgemma hne hcalls =>
    have hknown := parsePythonToolCalls_known hcalls
    have hsound := @unsourced_sound ext toolNames _ content hknown
    have hline := (parsePythonToolCalls_nil_iff hcalls).not.mp hne
    exact ⟨fun f hf => (hsound f hf).1, iff_of_true hsound
      ⟨(noBlock h).1, fun _ _ hnone => absurd hnone hline⟩⟩
  | last h hgemma hpython hlast =>
    obtain ⟨hknown, hiff⟩ := lastFound_nil_sound hlast
    refine ⟨hknown, hiff.trans ⟨fun hcand => ⟨(noBlock h).1, fun _ _ _ => hcand⟩, fun hbare => ?_⟩⟩
    exact hbare.candidate (noBlock h).2 (fun htoken => (parseGemma_nil_iff (hgemma htoken)).mp rfl)
      ((parsePythonToolCalls_nil_iff hpython).mp rfl)

/-- An extraction that reads one text as an object with the name of a tool. -/
def nameReader (text : String) (members : List (String × Value)) : Extraction where
  fromStr s := if s = text then some (.obj (("name", .string "sql_exec") :: members)) else none
  uuidHex := toString

/-- A bare call with explicit arguments is recognised soundly. -/
theorem explicit_call_sound :
    let text := "\x7b\"name\":\"sql_exec\",\"arguments\":\x7b\x7d\x7d"
    let ext := nameReader text [("arguments", .object [])]
    ∃ found, ext.recognised ["sql_exec"] text = some found ∧ found.map Prod.fst ≠ [] ∧
      ext.Sound ["sql_exec"] text found := by
  intro text ext
  have hout : ext.extractToolCallsFromContent ["sql_exec"] text =
      some [⟨"call_0", "sql_exec", .object []⟩] := by decide
  have hargs : ∀ s v, ext.fromStr s = some v → v.get? "arguments" = some (.object []) := by
    intro s v hv
    simp only [ext, nameReader] at hv
    split at hv
    · obtain rfl := Option.some.inj hv
      decide
    · cases hv
  have hbare : ∀ raw, ¬ ext.Bare ["sql_exec"] raw := by
    rintro raw ⟨v, hv, -, hnone, -⟩
    cases hnone.symm.trans (hargs _ v hv)
  obtain ⟨found, hfound, hfst, -, hiff⟩ := extraction_sound_iff text _ hout
  exact ⟨found, hfound, by rw [hfst]; exact List.cons_ne_nil _ _,
    hiff.mpr ⟨fun inner _ => hbare inner, fun _ _ _ raw _ => hbare raw⟩⟩

/-- Data with the name of a tool and no arguments becomes a call. -/
theorem named_data_called :
    let text := "\x7b\"name\":\"sql_exec\"\x7d"
    let ext := nameReader text []
    ∃ found, ext.recognised ["sql_exec"] text = some found ∧
      ext.extractToolCallsFromContent ["sql_exec"] text = some (found.map Prod.fst) ∧
      ¬ ext.Sound ["sql_exec"] text found := by
  intro text ext
  have hblocks : blocks text.toList = [] := blocks_nil (by decide)
  have hfound : ext.recognised ["sql_exec"] text =
      some [(⟨"call_0", "sql_exec", .object []⟩, some text.toList)] := by
    rw [recognised, hblocks]
    decide
  have hargs : ∀ s v, ext.fromStr s = some v →
      v.get? "arguments" = none ∧ v.get? "parameters" = none := by
    intro s v hv
    simp only [ext, nameReader] at hv
    split at hv
    · obtain rfl := Option.some.inj hv
      decide
    · cases hv
  refine ⟨_, hfound, by rw [recognised_calls, hfound, Option.map_some], fun hsound => ?_⟩
  obtain ⟨-, v, hv, -, hexplicit⟩ := (hsound _ List.mem_cons_self).2 _ rfl
  obtain ⟨ha, hp⟩ := hargs _ v hv
  rcases hexplicit with h | h
  · cases ha.symm.trans h
  · cases hp.symm.trans h

end PgSynapse.Extraction

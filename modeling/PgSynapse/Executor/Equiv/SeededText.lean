import PgSynapse.Executor.Equiv.LoopHarness
import PgSynapse.Pgrx.Configure
import PgSynapse.Runtime.Equiv.IterationCap
import Mathlib.Algebra.Ring.Int.Defs
import Mathlib.Algebra.Ring.Nat

/-!
# The system message and the always-on cap

The system message that `seed_messages` writes for a conversation is the always-on parts that are not
blank, joined at line breaks; it is no longer than what the cap counts and two line breaks, and what
the cap does not count is not in it (`seeded_text_capped`).
-/

namespace PgSynapse

/-! ### Texts joined at line breaks -/

/-- The text is the parts in order, with one line break or more between two of them. -/
inductive JoinedByBreaks : List String → String → Prop where
  | single (p : String) : JoinedByBreaks [p] p
  | cons (p : String) {breaks : List Char} (hne : breaks ≠ []) (hbreaks : ∀ c ∈ breaks, c = '\n')
      {parts : List String} {text : String} (h : JoinedByBreaks parts text) :
      JoinedByBreaks (p :: parts) (p ++ String.ofList breaks ++ text)

/-- A separator of line breaks. -/
theorem joinedByBreaks_intercalate {sep : String} (hne : sep.toList ≠ [])
    (hsep : ∀ c ∈ sep.toList, c = '\n') {parts : List String} (h : parts ≠ []) :
    JoinedByBreaks parts (sep.intercalate parts) := by
  induction parts with
  | nil => exact absurd rfl h
  | cons p parts ih =>
    by_cases hnil : parts = []
    · rw [hnil, String.intercalate_singleton]
      exact .single p
    · have hcons := JoinedByBreaks.cons p hne hsep (ih hnil)
      rwa [String.ofList_toList, ← String.intercalate_cons_of_ne_nil hnil] at hcons

/-- The last part is itself joined from parts. -/
theorem JoinedByBreaks.append {xs ys : List String} {t text : String}
    (hys : JoinedByBreaks ys t) (h : JoinedByBreaks (xs ++ [t]) text) :
    JoinedByBreaks (xs ++ ys) text := by
  induction xs generalizing text with
  | nil =>
    cases h with
    | single => exact hys
    | cons p hne hbreaks hnil => cases hnil
  | cons x xs ih =>
    generalize hparts : x :: xs ++ [t] = parts at h
    cases h with
    | single p => exact absurd (List.cons.inj hparts).2 (by simp)
    | cons p hne hbreaks hrest =>
      obtain ⟨rfl, rfl⟩ := List.cons.inj hparts
      exact .cons x hne hbreaks (ih hrest)

/-! ### The parts -/

namespace Harness

/-- The parts of the always-on block. -/
def blockParts (h : Harness) : List String :=
  (nonBlank h.guardrails).toList ++ (nonBlank h.memory).toList ++ h.skillTriggerBlock.toList

theorem alwaysOnBlock_eq (h : Harness) :
    h.alwaysOnBlock =
      if h.blockParts.isEmpty then none else some ("\n\n".intercalate h.blockParts) := rfl

theorem foldl_skillTriggerLine (skills : List Skill) (init : String) :
    ∃ rest, skills.foldl (fun out s => out ++ skillTriggerLine s) init = init ++ rest := by
  induction skills generalizing init with
  | nil => exact ⟨"", by simp⟩
  | cons s skills ih =>
    obtain ⟨rest, hrest⟩ := ih (init ++ skillTriggerLine s)
    exact ⟨skillTriggerLine s ++ rest, by rw [List.foldl_cons, hrest, String.append_assoc]⟩

/-- The trigger lines stand under their header. -/
theorem not_isBlank_skillTriggerBlock {h : Harness} {block : String}
    (hblock : h.skillTriggerBlock = some block) : Text.isBlank block = false := by
  unfold skillTriggerBlock at hblock
  split at hblock
  · cases hblock
  · obtain ⟨rest, hrest⟩ := foldl_skillTriggerLine h.skills skillTriggerHeader
    rw [← Option.some.inj hblock, hrest, Text.isBlank_append]
    have hheader : Text.isBlank skillTriggerHeader = false := by decide +kernel
    rw [hheader, Bool.false_and]

/-- Two harnesses with the same guardrails, memory, and names and descriptions of skills.  The bodies,
the hints and the critique may differ. -/
structure SameText (h h' : Harness) : Prop where
  guardrails : h'.guardrails = h.guardrails
  memory : h'.memory = h.memory
  skills : h'.skills.map (fun s => (s.name, s.description)) =
    h.skills.map fun s => (s.name, s.description)

theorem SameText.skillTriggerBlock {h h' : Harness} (same : SameText h h') :
    h'.skillTriggerBlock = h.skillTriggerBlock := by
  have hempty : h'.skills.isEmpty = h.skills.isEmpty := by
    rw [← List.isEmpty_map (f := fun s : Skill => (s.name, s.description)), same.skills,
      List.isEmpty_map]
  have hfold (skills : List Skill) :
      skills.foldl (fun out s => out ++ skillTriggerLine s) skillTriggerHeader =
        (skills.map fun s => (s.name, s.description)).foldl
          (fun out p => out ++ skillTriggerLine ⟨p.1, p.2, ""⟩) skillTriggerHeader := by
    rw [List.foldl_map]
    rfl
  unfold Harness.skillTriggerBlock
  rw [hempty, hfold, hfold, same.skills]

theorem SameText.alwaysOnBlock {h h' : Harness} (same : SameText h h') :
    h'.alwaysOnBlock = h.alwaysOnBlock := by
  unfold Harness.alwaysOnBlock
  rw [same.guardrails, same.memory, same.skillTriggerBlock]

end Harness

variable {σ : Type}

/-- **The always-on parts** of a run that are not blank: the system prompt, the soul, the guardrails and
the memory, both trimmed, and the trigger lines of the skills. -/
def alwaysOnParts (ctx : ExecutionContext σ) : List String :=
  [ctx.systemPrompt, ctx.soul.getD "", Text.trim (ctx.harness.guardrails.getD ""),
    Text.trim (ctx.harness.memory.getD ""), ctx.harness.skillTriggerBlock.getD ""].filter
      fun t => !Text.isBlank t

theorem isBlank_trim (s : String) : Text.isBlank (Text.trim s) = (Text.trim s).isEmpty := by
  rw [Text.isBlank, Text.trim_trim]

theorem isBlank_empty : Text.isBlank "" = true := by decide

/-- The list of a part, without it if it is blank. -/
theorem filter_part (s : String) :
    [s].filter (fun t => !Text.isBlank t) = if Text.isBlank s then [] else [s] := by
  cases hblank : Text.isBlank s <;> simp [hblank]

/-- A part that is trimmed. -/
theorem nonBlank_toList (s : Option String) : (Harness.nonBlank s).toList =
    if Text.isBlank (Text.trim (s.getD "")) then [] else [Text.trim (s.getD "")] := by
  rcases s with _ | s
  · decide
  · unfold Harness.nonBlank
    rw [Option.map_some, Option.getD_some, isBlank_trim, Option.filter_some]
    cases (Text.trim s).isEmpty <;> simp

/-- A part that may be missing. -/
theorem filter_toList (s : Option String) : (s.filter fun t => !Text.isBlank t).toList =
    if Text.isBlank (s.getD "") then [] else [s.getD ""] := by
  rcases s with _ | s
  · decide
  · rw [Option.getD_some, Option.filter_some]
    cases Text.isBlank s <;> simp

/-- The trigger lines. -/
theorem skillTriggerBlock_toList (h : Harness) : h.skillTriggerBlock.toList =
    if Text.isBlank (h.skillTriggerBlock.getD "") then [] else [h.skillTriggerBlock.getD ""] := by
  rcases hblock : h.skillTriggerBlock with _ | block
  · rw [Option.getD_none, if_pos isBlank_empty]
    rfl
  · rw [Option.getD_some, if_neg (by rw [Harness.not_isBlank_skillTriggerBlock hblock]; simp)]
    rfl

/-- The parts before the block. -/
def promptParts (ctx : ExecutionContext σ) : List String :=
  (if Text.isBlank ctx.systemPrompt then [] else [ctx.systemPrompt]) ++
    (ctx.soul.filter fun s => !Text.isBlank s).toList

/-- The always-on parts are those before the block and those of the block. -/
theorem alwaysOnParts_eq (ctx : ExecutionContext σ) :
    alwaysOnParts ctx = promptParts ctx ++ ctx.harness.blockParts := by
  have hsplit (a b c d e : String) : ([a, b, c, d, e].filter fun t => !Text.isBlank t) =
      (([a].filter fun t => !Text.isBlank t) ++ [b].filter fun t => !Text.isBlank t) ++
        (([c].filter fun t => !Text.isBlank t) ++ ([d].filter fun t => !Text.isBlank t) ++
          [e].filter fun t => !Text.isBlank t) := by
    simp only [← List.filter_append, List.cons_append, List.nil_append]
  unfold alwaysOnParts promptParts Harness.blockParts
  rw [hsplit, nonBlank_toList, nonBlank_toList, filter_toList, skillTriggerBlock_toList]
  simp only [filter_part]

/-- The parts before the block are two at most, and no longer than the prompt and the soul. -/
theorem promptParts_le (ctx : ExecutionContext σ) : (promptParts ctx).length ≤ 2 ∧
    ((promptParts ctx).map String.length).sum ≤
      ctx.systemPrompt.length + (ctx.soul.map String.length).getD 0 := by
  have hsoul : (ctx.soul.filter fun s => !Text.isBlank s).toList.length ≤ 1 ∧
      ((ctx.soul.filter fun s => !Text.isBlank s).toList.map String.length).sum ≤
        (ctx.soul.map String.length).getD 0 := by
    rcases ctx.soul with _ | soul
    · exact ⟨Nat.zero_le _, Nat.zero_le _⟩
    · rw [Option.filter_some]
      split <;> simp
  unfold promptParts
  rw [List.length_append, List.map_append, List.sum_append]
  split
  · simp only [List.length_nil, List.map_nil, List.sum_nil]
    omega
  · simp only [List.length_singleton, List.map_singleton, List.sum_singleton]
    omega

theorem length_intercalate_break (parts : List String) :
    ("\n".intercalate parts).length ≤ (parts.map String.length).sum + (parts.length - 1) := by
  induction parts with
  | nil => simp
  | cons p parts ih =>
    have hbreak : "\n".length = 1 := by decide
    by_cases hnil : parts = []
    · simp [hnil]
    · have hpos := List.length_pos_of_ne_nil hnil
      rw [String.intercalate_cons_of_ne_nil hnil, String.length_append, String.length_append, hbreak,
        List.map_cons, List.sum_cons, List.length_cons]
      omega

/-! ### The message -/

/-- The contents of the system messages. -/
def systemTexts (ms : List Message) : List (Option String) :=
  (ms.filter fun m => m.role = .system).map Message.content

namespace LoopHarness

variable [Platform σ] (ctx : ExecutionContext σ) (env : σ)

theorem systemParts_new :
    (new ctx env).systemParts = promptParts ctx ++ ctx.harness.alwaysOnBlock.toList := by
  unfold systemParts
  rw [show (new ctx env).prependSystem = none from rfl, Option.filter_none, Option.toList_none,
    List.nil_append]
  rfl

/-- The text of the message is joined from the always-on parts. -/
theorem joined_systemParts (hne : (new ctx env).systemParts ≠ []) :
    JoinedByBreaks (alwaysOnParts ctx) ("\n".intercalate (new ctx env).systemParts) := by
  have hnonempty : "\n".toList ≠ [] := by simp
  have hbreak : ∀ c ∈ "\n".toList, c = '\n' := by simp
  have hjoined := joinedByBreaks_intercalate hnonempty hbreak hne
  rw [systemParts_new] at hjoined ⊢
  rw [alwaysOnParts_eq]
  by_cases hblock : ctx.harness.blockParts = []
  · have hnone : ctx.harness.alwaysOnBlock.toList = [] := by
      rw [Harness.alwaysOnBlock_eq, hblock]
      rfl
    rw [hnone] at hjoined ⊢
    rwa [hblock]
  · have hsome : ctx.harness.alwaysOnBlock.toList = ["\n\n".intercalate ctx.harness.blockParts] := by
      rw [Harness.alwaysOnBlock_eq, if_neg (by simpa using hblock)]
      rfl
    rw [hsome] at hjoined ⊢
    have hparts : JoinedByBreaks ctx.harness.blockParts ("\n\n".intercalate ctx.harness.blockParts) :=
      joinedByBreaks_intercalate (by simp) (by simp) hblock
    exact hparts.append hjoined

/-- There is a message where there is a part. -/
theorem systemParts_eq_nil_iff : (new ctx env).systemParts = [] ↔ alwaysOnParts ctx = [] := by
  have hblock : ctx.harness.alwaysOnBlock.toList = [] ↔ ctx.harness.blockParts = [] := by
    rw [Harness.alwaysOnBlock_eq]
    by_cases hnil : ctx.harness.blockParts = []
    · simp [hnil]
    · rw [if_neg (by simpa using hnil)]
      simp [hnil]
  rw [systemParts_new, alwaysOnParts_eq, List.append_eq_nil_iff, List.append_eq_nil_iff, hblock]

/-- The message is no longer than what the cap counts and two line breaks. -/
theorem length_systemParts_le :
    ("\n".intercalate (new ctx env).systemParts).length ≤
      Configure.totalAlwaysOnChars ctx.harness ctx.systemPrompt ctx.soul + 2 := by
  obtain ⟨hcount, hsum⟩ := promptParts_le ctx
  have hlen := length_intercalate_break (new ctx env).systemParts
  unfold Configure.totalAlwaysOnChars
  rw [systemParts_new] at hlen ⊢
  rw [List.map_append, List.sum_append, List.length_append] at hlen
  rcases hblock : ctx.harness.alwaysOnBlock with _ | block
  · simp only [hblock, Option.toList_none, List.map_nil, List.sum_nil, List.length_nil,
      Option.map_none, Option.getD_none] at hlen ⊢
    omega
  · simp only [hblock, Option.toList_some, List.map_singleton, List.sum_singleton,
      List.length_singleton, Option.map_some, Option.getD_some] at hlen ⊢
    omega

/-! ### What the seed depends on -/

/-- The harness of the run with other components. -/
def reharness (h : LoopHarness σ) (k : Harness) : LoopHarness σ :=
  { h with ctx := { h.ctx with harness := k } }

omit [Platform σ] in
@[simp] theorem reharness_messages (h : LoopHarness σ) (k : Harness) :
    (h.reharness k).messages = h.messages := rfl

theorem pushMessage_reharness (h : LoopHarness σ) (k : Harness) (role : Role)
    (content : Option String) (output : Option Value) :
    (h.reharness k).pushMessage role content output =
      (h.pushMessage role content output).reharness k := by
  unfold pushMessage append mirror newMessage reharness
  simp only
  cases hprogress : h.ctx.progress <;> simp [utcNow, hprogress]

/-- The seed depends on the components through the text of the message only. -/
theorem seedMessages_reharness {k : Harness} (same : Harness.SameText ctx.harness k) :
    (new { ctx with harness := k } env).seedMessages =
      ((new ctx env).seedMessages).reharness k := by
  have hnew : new { ctx with harness := k } env = (new ctx env).reharness k := rfl
  have hparts : (new { ctx with harness := k } env).systemParts = (new ctx env).systemParts := by
    rw [systemParts_new, systemParts_new, same.alwaysOnBlock]
    rfl
  unfold seedMessages
  simp only
  rw [hparts, hnew]
  split
  · exact pushMessage_reharness _ k _ _ _
  · rw [pushMessage_reharness]
    exact pushMessage_reharness _ k _ _ _

/-! ### The seed -/

/-- The system message of the seed. -/
theorem systemTexts_seedMessages : systemTexts (new ctx env).seedMessages.messages =
    if (new ctx env).systemParts.isEmpty then []
    else [some ("\n".intercalate (new ctx env).systemParts)] := by
  unfold seedMessages
  simp only
  split
  · obtain ⟨u, g, hu, -⟩ := (new ctx env).pushMessage_grows .user (some (new ctx env).ctx.input)
    rw [g.messages]
    simp [new, systemTexts, hu.role]
  · obtain ⟨s, g, hs, hcontent⟩ := (new ctx env).pushMessage_grows .system
      (some ("\n".intercalate (new ctx env).systemParts))
    obtain ⟨u, g', hu, -⟩ := pushMessage_grows
      ((new ctx env).pushMessage .system (some ("\n".intercalate (new ctx env).systemParts)) none)
      .user (some ((new ctx env).pushMessage .system
        (some ("\n".intercalate (new ctx env).systemParts)) none).ctx.input)
    rw [g'.messages, g.messages]
    simp [new, systemTexts, hs.role, hu.role, hcontent]

/-- **The capped text is the text sent**: the seed of a conversation has a system message just if some
part is not blank; its text is the parts, joined at line breaks, and no longer than what the cap counts
and two line breaks.  Bodies of skills, hints and the critique do not change the seed. -/
theorem seeded_text_capped :
    (alwaysOnParts ctx = [] → systemTexts (new ctx env).seedMessages.messages = []) ∧
    (alwaysOnParts ctx ≠ [] → ∃ text,
      systemTexts (new ctx env).seedMessages.messages = [some text] ∧
      JoinedByBreaks (alwaysOnParts ctx) text ∧
      text.length ≤ Configure.totalAlwaysOnChars ctx.harness ctx.systemPrompt ctx.soul + 2) ∧
    ∀ k, Harness.SameText ctx.harness k →
      (new { ctx with harness := k } env).seedMessages.messages =
        (new ctx env).seedMessages.messages := by
  have htexts := systemTexts_seedMessages ctx env
  refine ⟨fun hnil => ?_, fun hne => ?_, fun k same => ?_⟩
  · rw [(systemParts_eq_nil_iff ctx env).mpr hnil] at htexts
    exact htexts
  · have hparts : (new ctx env).systemParts ≠ [] :=
      fun h => hne ((systemParts_eq_nil_iff ctx env).mp h)
    rw [if_neg (by rwa [List.isEmpty_iff])] at htexts
    exact ⟨_, htexts, joined_systemParts ctx env hparts, length_systemParts_le ctx env⟩
  · rw [seedMessages_reharness ctx env same, reharness_messages]

/-- A run with a prompt, a blank soul, guardrails with white space around them and one skill. -/
def briefContext : ExecutionContext StillWorld :=
  { StillWorld.context ⟨none, [], "stop", ⟨1, 1, none⟩⟩ 8 with
    systemPrompt := "Be brief."
    soul := some "  "
    harness := { Harness.default with
      guardrails := some " No secrets.\n", skills := [⟨"refund", "a refund is asked for", "..."⟩] } }

/-- Three parts are in its system message. -/
theorem brief_context_seeded :
    (alwaysOnParts briefContext).length = 3 ∧
    ∃ text, systemTexts (new briefContext ⟨⟩).seedMessages.messages = [some text] ∧
      JoinedByBreaks (alwaysOnParts briefContext) text ∧
      text.length ≤ Configure.totalAlwaysOnChars briefContext.harness briefContext.systemPrompt
        briefContext.soul + 2 :=
  ⟨by decide +kernel, (seeded_text_capped briefContext ⟨⟩).2.1 (by decide +kernel)⟩

end LoopHarness

end PgSynapse

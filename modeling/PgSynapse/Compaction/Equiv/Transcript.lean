import Mathlib.Data.List.Nodup
import PgSynapse.Executor.Equiv.Pairing

/-!
# Transcripts whose calls are answered

`Pairing` names the calls of a transcript and their answers by position.  Every transcript a chat
run sends has one (`pairing_of_paired`): each turn's calls are paired with the answers after them,
and the turns are put one after another.
-/

namespace PgSynapse

/-- An assistant row that issues a call. -/
def IssuesCall (m : Message) : Prop := m.role = .assistant ∧ m.toolCallId ≠ none

/-- **Tool-call pairing**: the calls of a transcript and their answers, by position.  Every row that
issues a call is the call of one pair, every tool row the answer of one, and an answer comes later
and carries the id of its call. -/
structure Pairing (messages : List Message) where
  pairs : List (Nat × Nat)
  later : ∀ p ∈ pairs, p.1 < p.2
  rows : ∀ p ∈ pairs, ∃ call answer, messages[p.1]? = some call ∧ messages[p.2]? = some answer ∧
    IssuesCall call ∧ answer.role = .tool ∧ answer.toolCallId = call.toolCallId
  calls : ∀ (i : Nat) (m : Message), messages[i]? = some m → IssuesCall m →
    ∃ p ∈ pairs, p.1 = i
  answers : ∀ (i : Nat) (m : Message), messages[i]? = some m → m.role = .tool →
    ∃ p ∈ pairs, p.2 = i
  callsOnce : (pairs.map Prod.fst).Nodup
  answersOnce : (pairs.map Prod.snd).Nodup

/-! ### Putting transcripts together -/

/-- No row that issues a call and no tool row. -/
def Pairing.none {messages : List Message} (h : ∀ m ∈ messages, ¬ IssuesCall m ∧ m.role ≠ .tool) :
    Pairing messages where
  pairs := []
  later := by simp
  rows := by simp
  calls i m hm hcall := absurd hcall (h m (List.mem_of_getElem? hm)).1
  answers i m hm hrole := absurd hrole (h m (List.mem_of_getElem? hm)).2
  callsOnce := List.nodup_nil
  answersOnce := List.nodup_nil

theorem getElem?_append_some {α : Type} {l l' : List α} {i : Nat} {a : α} (h : l[i]? = some a) :
    (l ++ l')[i]? = some a := by
  obtain ⟨hlt, -⟩ := List.getElem?_eq_some_iff.mp h
  rw [List.getElem?_append_left hlt, h]

/-- Positions of one list and shifted positions of another. -/
theorem nodup_append_shift {l l' : List Nat} {n : Nat} (h : l.Nodup) (h' : l'.Nodup)
    (hlt : ∀ i ∈ l, i < n) : (l ++ l'.map (n + ·)).Nodup := by
  refine List.Nodup.append h (h'.map (add_right_injective n)) ?_
  intro i hi hshift
  obtain ⟨j, -, rfl⟩ := List.mem_map.mp hshift
  exact absurd (hlt _ hi) (by omega)

theorem Pairing.call_lt {messages : List Message} (a : Pairing messages) :
    ∀ i ∈ a.pairs.map Prod.fst, i < messages.length := by
  intro i hi
  obtain ⟨p, hp, rfl⟩ := List.mem_map.mp hi
  obtain ⟨call, -, hcall, -⟩ := a.rows p hp
  exact (List.getElem?_eq_some_iff.mp hcall).1

theorem Pairing.answer_lt {messages : List Message} (a : Pairing messages) :
    ∀ i ∈ a.pairs.map Prod.snd, i < messages.length := by
  intro i hi
  obtain ⟨p, hp, rfl⟩ := List.mem_map.mp hi
  obtain ⟨-, answer, -, hanswer, -⟩ := a.rows p hp
  exact (List.getElem?_eq_some_iff.mp hanswer).1

/-- One transcript after another. -/
def Pairing.append {ms ms' : List Message} (a : Pairing ms) (b : Pairing ms') :
    Pairing (ms ++ ms') where
  pairs := a.pairs ++ b.pairs.map fun p => (ms.length + p.1, ms.length + p.2)
  later := by
    intro p hp
    rcases List.mem_append.mp hp with hp | hp
    · exact a.later p hp
    · obtain ⟨q, hq, rfl⟩ := List.mem_map.mp hp
      exact Nat.add_lt_add_left (b.later q hq) ms.length
  rows := by
    intro p hp
    rcases List.mem_append.mp hp with hp | hp
    · obtain ⟨call, answer, hcall, hanswer, hpair⟩ := a.rows p hp
      exact ⟨call, answer, getElem?_append_some hcall, getElem?_append_some hanswer, hpair⟩
    · obtain ⟨q, hq, rfl⟩ := List.mem_map.mp hp
      obtain ⟨call, answer, hcall, hanswer, hpair⟩ := b.rows q hq
      refine ⟨call, answer, ?_, ?_, hpair⟩
      · rw [List.getElem?_append_right (Nat.le_add_right _ _), Nat.add_sub_cancel_left, hcall]
      · rw [List.getElem?_append_right (Nat.le_add_right _ _), Nat.add_sub_cancel_left, hanswer]
  calls := by
    intro i m hm hcall
    rcases Nat.lt_or_ge i ms.length with hi | hi
    · rw [List.getElem?_append_left hi] at hm
      obtain ⟨p, hp, rfl⟩ := a.calls i m hm hcall
      exact ⟨p, List.mem_append_left _ hp, rfl⟩
    · rw [List.getElem?_append_right hi] at hm
      obtain ⟨p, hp, hi'⟩ := b.calls _ m hm hcall
      exact ⟨_, List.mem_append_right _ (List.mem_map_of_mem hp), by simp only; omega⟩
  answers := by
    intro i m hm hrole
    rcases Nat.lt_or_ge i ms.length with hi | hi
    · rw [List.getElem?_append_left hi] at hm
      obtain ⟨p, hp, rfl⟩ := a.answers i m hm hrole
      exact ⟨p, List.mem_append_left _ hp, rfl⟩
    · rw [List.getElem?_append_right hi] at hm
      obtain ⟨p, hp, hi'⟩ := b.answers _ m hm hrole
      exact ⟨_, List.mem_append_right _ (List.mem_map_of_mem hp), by simp only; omega⟩
  callsOnce := by
    rw [List.map_append, List.map_map]
    have hshift := nodup_append_shift a.callsOnce b.callsOnce a.call_lt
    rwa [List.map_map] at hshift
  answersOnce := by
    rw [List.map_append, List.map_map]
    have hshift := nodup_append_shift a.answersOnce b.answersOnce a.answer_lt
    rwa [List.map_map] at hshift

theorem forall₂_getElem? {α β : Type} {R : α → β → Prop} {l : List α} {l' : List β}
    (h : List.Forall₂ R l l') {i : Nat} {b : β} (hb : l'[i]? = some b) :
    ∃ a, l[i]? = some a ∧ R a b := by
  obtain ⟨hlt, rfl⟩ := List.getElem?_eq_some_iff.mp hb
  have hlt' : i < l.length := by rwa [h.length_eq]
  exact ⟨l[i], List.getElem?_eq_getElem hlt', h.get hlt' hlt⟩

/-- The calls of a turn and then their answers, in the same order. -/
def Pairing.turn {tcs : List ToolCall} {calls answers : List Message}
    (hcalls : List.Forall₂ Message.IsCall tcs calls)
    (hanswers : List.Forall₂ Message.IsAnswer tcs answers) : Pairing (calls ++ answers) where
  pairs := (List.range calls.length).map fun k => (k, calls.length + k)
  later := by
    intro p hp
    obtain ⟨k, hk, rfl⟩ := List.mem_map.mp hp
    have hlt : k < calls.length := List.mem_range.mp hk
    exact Nat.lt_add_right k hlt
  rows := by
    intro p hp
    obtain ⟨k, hk, rfl⟩ := List.mem_map.mp hp
    have hlt : k < calls.length := List.mem_range.mp hk
    have hlt' : k < answers.length := by rwa [← hanswers.length_eq, hcalls.length_eq]
    obtain ⟨tc, htc, hcall⟩ := forall₂_getElem? hcalls (List.getElem?_eq_getElem hlt)
    obtain ⟨tc', htc', hanswer⟩ := forall₂_getElem? hanswers (List.getElem?_eq_getElem hlt')
    obtain rfl : tc = tc' := Option.some.inj (htc.symm.trans htc')
    refine ⟨calls[k], answers[k], getElem?_append_some (List.getElem?_eq_getElem hlt), ?_,
      ⟨hcall.role, by rw [hcall.toolCallId]; simp⟩, hanswer.role,
      hanswer.toolCallId.trans hcall.toolCallId.symm⟩
    rw [List.getElem?_append_right (Nat.le_add_right _ _), Nat.add_sub_cancel_left]
    exact List.getElem?_eq_getElem hlt'
  calls := by
    intro i m hm hissues
    rcases Nat.lt_or_ge i calls.length with hi | hi
    · exact ⟨_, List.mem_map_of_mem (List.mem_range.mpr hi), rfl⟩
    · -- the rows after the calls are tool rows
      rw [List.getElem?_append_right hi] at hm
      obtain ⟨tc, -, hanswer⟩ := forall₂_getElem? hanswers hm
      exact absurd (hissues.1.symm.trans hanswer.role) (by decide)
  answers := by
    intro i m hm hrole
    rcases Nat.lt_or_ge i calls.length with hi | hi
    · rw [List.getElem?_append_left hi] at hm
      obtain ⟨tc, -, hcall⟩ := forall₂_getElem? hcalls hm
      exact absurd (hrole.symm.trans hcall.role) (by decide)
    · rw [List.getElem?_append_right hi] at hm
      obtain ⟨hlt, -⟩ := List.getElem?_eq_some_iff.mp hm
      rw [← hanswers.length_eq, hcalls.length_eq] at hlt
      exact ⟨_, List.mem_map_of_mem (List.mem_range.mpr hlt), by simp only; omega⟩
  callsOnce := by
    rw [List.map_map]
    exact List.nodup_range.map fun a b h => h
  answersOnce := by
    rw [List.map_map]
    exact List.nodup_range.map (add_right_injective calls.length)

theorem not_call_or_tool_of_isText {role : Role} {m : Message} (hrole : role ≠ .tool)
    (h : m.IsText role) : ¬ IssuesCall m ∧ m.role ≠ .tool :=
  ⟨fun hissues => hissues.2 h.toolCallId, h.role ▸ hrole⟩

theorem pairing_of_chatTurn {resp : CompletionResponse} {block : List Message}
    (h : ChatTurn resp block) : Nonempty (Pairing block) := by
  unfold ChatTurn at h
  split at h
  case isTrue =>
    obtain ⟨text, nudge, rfl, htext, hnudge⟩ := h
    refine ⟨.none ?_⟩
    intro m hm
    rcases List.mem_pair.mp hm with rfl | rfl
    · exact not_call_or_tool_of_isText (by decide) htext
    · exact not_call_or_tool_of_isText (by decide) hnudge
  case isFalse =>
    obtain ⟨calls, answers, rfl, hcalls, hanswers⟩ := h
    exact ⟨.turn hcalls hanswers⟩

/-- **Runs are paired**: the transcript a conversation or ReAct run sends with each of its requests
is one whose calls are answered, whatever the provider and the tools do. -/
theorem pairing_of_paired {replies : List CompletionResponse} {transcript : List Message}
    (h : Paired replies transcript) : Nonempty (Pairing transcript) := by
  obtain ⟨seed, blocks, rfl, hseed, hblocks⟩ := h
  have hstart : Nonempty (Pairing seed) := by
    refine ⟨.none ?_⟩
    intro m hm
    rcases hseed m hm with htext | htext
    · exact not_call_or_tool_of_isText (by decide) htext
    · exact not_call_or_tool_of_isText (by decide) htext
  have hrest : Nonempty (Pairing blocks.flatten) := by
    clear hseed hstart
    induction hblocks with
    | nil => exact ⟨.none (by simp)⟩
    | cons hturn _ ih =>
      obtain ⟨first⟩ := pairing_of_chatTurn hturn
      obtain ⟨rest⟩ := ih
      exact ⟨first.append rest⟩
  obtain ⟨start⟩ := hstart
  obtain ⟨rest⟩ := hrest
  exact ⟨start.append rest⟩

end PgSynapse

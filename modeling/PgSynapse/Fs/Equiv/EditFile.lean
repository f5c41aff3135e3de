import PgSynapse.Fs.Equiv.Tools
import PgSynapse.Lib.Occurrences

/-!
# The place `edit_file` edits

`edit_file` counts the matches a scan from the left finds, which do not overlap.  It edits the first
occurrence when the scan finds just one, so it takes a text that occurs twice, but only within its
own first occurrence, for one that occurs once.
-/

namespace PgSynapse

/-! ### The scan -/

/-- The scan finds nothing just if the pattern does not occur behind the part that is skipped. -/
theorem countMatches_go_eq_zero {pat : String} (hpat : pat.toList ≠ []) (s : List Char)
    (skip : Nat) :
    Text.countMatches.go pat skip s = 0 ↔ ∀ i, skip ≤ i → ¬ OccursAt pat.toList s i := by
  induction s generalizing skip with
  | nil =>
    rw [Text.countMatches.go.eq_def]
    exact iff_of_true rfl fun i _ => not_occursAt_nil hpat i
  | cons c s ih =>
    cases skip with
    | succ skip =>
      rw [Text.countMatches.go, ih]
      constructor
      · intro h i hi
        obtain ⟨i, rfl⟩ := Nat.exists_eq_succ_of_ne_zero (Nat.ne_of_gt (by omega : 0 < i))
        rw [Nat.succ_eq_add_one, occursAt_succ]
        exact h i (by omega)
      · intro h i hi
        rw [← occursAt_succ (c := c)]
        exact h (i + 1) (by omega)
    | zero =>
      rw [Text.countMatches.go]
      by_cases hprefix : pat.toList <+: c :: s
      · rw [if_pos hprefix]
        refine iff_of_false (by omega) fun h => ?_
        exact h 0 le_rfl (occursAt_zero.mpr hprefix)
      · rw [if_neg hprefix, ih]
        constructor
        · intro h i _
          cases i with
          | zero => rwa [occursAt_zero]
          | succ i =>
            rw [occursAt_succ]
            exact h i (Nat.zero_le i)
        · intro h i _
          rw [← occursAt_succ (c := c)]
          exact h (i + 1) (Nat.zero_le _)

/-- **The scan finds two matches** just if the pattern occurs twice, apart. -/
theorem two_le_countMatches_go {pat : String} (hpat : pat.toList ≠ []) (s : List Char)
    (skip : Nat) :
    2 ≤ Text.countMatches.go pat skip s ↔
      ∃ i j, skip ≤ i ∧ i + pat.toList.length ≤ j ∧ OccursAt pat.toList s i ∧
        OccursAt pat.toList s j := by
  have hlen : 0 < pat.toList.length := List.length_pos_of_ne_nil hpat
  induction s generalizing skip with
  | nil =>
    rw [Text.countMatches.go.eq_def]
    refine iff_of_false (by simp) ?_
    rintro ⟨i, -, -, -, hi, -⟩
    exact not_occursAt_nil hpat i hi
  | cons c s ih =>
    -- positions behind the first element are positions in the rest
    have hshift (skip : Nat) :
        (∃ i j, skip + 1 ≤ i ∧ i + pat.toList.length ≤ j ∧ OccursAt pat.toList (c :: s) i ∧
          OccursAt pat.toList (c :: s) j) ↔
        ∃ i j, skip ≤ i ∧ i + pat.toList.length ≤ j ∧ OccursAt pat.toList s i ∧
          OccursAt pat.toList s j := by
      constructor
      · rintro ⟨i, j, hskip, hij, hi, hj⟩
        obtain ⟨i, rfl⟩ := Nat.exists_eq_succ_of_ne_zero (Nat.ne_of_gt (by omega : 0 < i))
        obtain ⟨j, rfl⟩ := Nat.exists_eq_succ_of_ne_zero (Nat.ne_of_gt (by omega : 0 < j))
        exact ⟨i, j, by omega, by omega, occursAt_succ.mp hi, occursAt_succ.mp hj⟩
      · rintro ⟨i, j, hskip, hij, hi, hj⟩
        exact ⟨i + 1, j + 1, by omega, by omega, occursAt_succ.mpr hi, occursAt_succ.mpr hj⟩
    cases skip with
    | succ skip =>
      rw [Text.countMatches.go, hshift]
      exact ih skip
    | zero =>
      rw [Text.countMatches.go]
      by_cases hprefix : pat.toList <+: c :: s
      · -- the first match is here, and the second anywhere behind it
        have hrest : 1 ≤ Text.countMatches.go pat (pat.length - 1) s ↔
            ∃ j, pat.length - 1 ≤ j ∧ OccursAt pat.toList s j := by
          rw [Nat.one_le_iff_ne_zero, ne_eq, countMatches_go_eq_zero hpat]
          simp only [not_forall, not_not, exists_prop]
        rw [if_pos hprefix, show 2 ≤ 1 + Text.countMatches.go pat (pat.length - 1) s ↔
          1 ≤ Text.countMatches.go pat (pat.length - 1) s by omega, hrest, ← String.length_toList]
        constructor
        · rintro ⟨j, hle, hj⟩
          exact ⟨0, j + 1, le_rfl, by omega, occursAt_zero.mpr hprefix, occursAt_succ.mpr hj⟩
        · rintro ⟨i, j, -, hij, -, hj⟩
          obtain ⟨j, rfl⟩ := Nat.exists_eq_succ_of_ne_zero (Nat.ne_of_gt (by omega : 0 < j))
          exact ⟨j, by omega, occursAt_succ.mp hj⟩
      · rw [if_neg hprefix]
        refine (ih 0).trans ((hshift 0).symm.trans ?_)
        constructor
        · rintro ⟨i, j, -, h⟩
          exact ⟨i, j, Nat.zero_le i, h⟩
        · rintro ⟨i, j, -, hij, hi, hj⟩
          refine ⟨i, j, Nat.one_le_iff_ne_zero.mpr ?_, hij, hi, hj⟩
          rintro rfl
          exact hprefix (occursAt_zero.mp hi)

/-- No match is found just if the pattern does not occur. -/
theorem countMatches_eq_zero (s pat : String) :
    Text.countMatches s pat = 0 ↔ ∀ i, ¬ OccursAt pat.toList s.toList i := by
  unfold Text.countMatches
  by_cases hpat : pat.toList = []
  · have hempty : pat.isEmpty = true := by rw [String.isEmpty_iff, ← String.toList_eq_nil_iff, hpat]
    rw [if_pos hempty, hpat]
    refine iff_of_false (by omega) fun h => ?_
    exact h 0 (occursAt_zero.mpr List.nil_prefix)
  · have hfull : ¬ pat.isEmpty = true := by
      rwa [String.isEmpty_iff, ← String.toList_eq_nil_iff]
    rw [if_neg hfull, countMatches_go_eq_zero hpat]
    simp

/-- Two matches are found just if the pattern occurs twice, apart. -/
theorem two_le_countMatches (s pat : String) :
    2 ≤ Text.countMatches s pat ↔ OccursApart pat.toList s.toList := by
  unfold Text.countMatches OccursApart
  by_cases hpat : pat.toList = []
  · have hempty : pat.isEmpty = true := by rw [String.isEmpty_iff, ← String.toList_eq_nil_iff, hpat]
    rw [if_pos hempty, hpat, ← String.length_toList]
    constructor
    · intro h
      exact ⟨0, 1, by decide, by decide, occursAt_empty.mpr (Nat.zero_le _),
        occursAt_empty.mpr (by omega)⟩
    · rintro ⟨i, j, hlt, -, -, hj⟩
      have hle := occursAt_empty.mp hj
      omega
  · have hfull : ¬ pat.isEmpty = true := by
      rwa [String.isEmpty_iff, ← String.toList_eq_nil_iff]
    have hlen : 0 < pat.toList.length := List.length_pos_of_ne_nil hpat
    rw [if_neg hfull, two_le_countMatches_go hpat]
    constructor
    · rintro ⟨i, j, -, hij, h⟩
      exact ⟨i, j, by omega, hij, h⟩
    · rintro ⟨i, j, -, h⟩
      exact ⟨i, j, Nat.zero_le i, h⟩

/-- What is replaced is the first occurrence. -/
theorem replaceFirst_go_eq {pat new : String} {pre post : List Char}
    (hfirst : ∀ i, OccursAt pat.toList (pre ++ pat.toList ++ post) i → pre.length ≤ i) :
    Text.replaceFirst.go pat new (pre ++ pat.toList ++ post) = pre ++ new.toList ++ post := by
  induction pre with
  | nil =>
    rw [List.nil_append, List.nil_append]
    rcases htext : pat.toList ++ post with _ | ⟨c, rest⟩
    · obtain ⟨hpat, hpost⟩ := List.append_eq_nil_iff.mp htext
      have hempty : pat.isEmpty = true := by
        rw [String.isEmpty_iff, ← String.toList_eq_nil_iff, hpat]
      rw [Text.replaceFirst.go, if_pos hempty, hpost, List.append_nil]
    · have hprefix : pat.toList <+: c :: rest := by
        rw [← htext]
        exact List.prefix_append _ _
      rw [Text.replaceFirst.go, if_pos hprefix, ← htext, ← String.length_toList, List.drop_left]
  | cons c pre ih =>
    have hnot : ¬ pat.toList <+: c :: (pre ++ pat.toList ++ post) := by
      intro hprefix
      have hle := hfirst 0 (occursAt_zero.mpr hprefix)
      rw [List.length_cons] at hle
      omega
    have hrest : ∀ i, OccursAt pat.toList (pre ++ pat.toList ++ post) i → pre.length ≤ i := by
      intro i hi
      have hle := hfirst (i + 1) (occursAt_succ.mpr hi)
      rw [List.length_cons] at hle
      omega
    rw [List.cons_append, List.cons_append, Text.replaceFirst.go, if_neg hnot, ih hrest]
    rfl

/-! ### The tool -/

section Tool

variable {os : Os} {t : FileTree} {sandbox : FsSandbox t}

/-- A file that a call can read and overwrite: the path leads to it, its bytes are a text, and the
operating system refuses neither. -/
structure EditableFile (os : Os) (sandbox : FsSandbox t) (path : String) (loc : List FileName)
    (contents : String) : Prop where
  resolved : ∃ joined links, sandbox.resolve (Text.trim path) "edit_file" = .ok joined ∧
    lookup t joined = .found loc links
  node : t.node loc = some (.file contents.toUTF8)
  reads : os.refuses ⟨.read, loc⟩ = none
  writes : os.refuses ⟨.overwrite, loc⟩ = none

/-- **One unambiguous place**: a call succeeds just if `old` occurs at one position, then the text
before it, `new` and the text after it are what the file holds, and a call that fails changes
nothing. -/
structure EditsOnePlace (t : FileTree) (loc : List FileName) (contents old new : String)
    (run : FsRun (Except ToolError ToolOutput)) : Prop where
  succeeds : run.result.isOk = true ↔ ∃! i, OccursAt old.toList contents.toList i
  edited : run.result.isOk = true → ∀ pre post, contents.toList = pre ++ old.toList ++ post →
    run.tree = t.setContent loc (String.ofList (pre ++ new.toList ++ post)).toUTF8
  unchanged : run.result.isOk = false → run.tree = t

/-- A call on such a file, by what the scan finds. -/
theorem EditableFile.run {path : String} {loc : List FileName} {contents : String}
    (h : EditableFile os sandbox path loc contents) (old new : String) :
    let run := EditFileTool.run os sandbox path old new
    if Text.countMatches contents old = 1 then
      run.result.isOk = true ∧
        run.tree = t.setContent loc (Text.replaceFirst contents old new).toUTF8
    else run.result.isOk = false ∧ run.tree = t := by
  obtain ⟨joined, links, hresolve, hfound⟩ := h.resolved
  have hexists : pathExists t joined = true := by rw [pathExists, hfound]
  have hdir : t.isDirAt loc = false := by rw [Tree.isDirAt, h.node]
  have hfile : isFile t joined = true := by
    rw [isFile, hfound]
    exact congrArg not hdir
  have hread : fsReadToString os t joined = (.ok contents, [⟨.read, loc⟩]) := by
    unfold fsReadToString fsRead
    rw [hfound]
    simp only [h.node, access, h.reads, fromUTF8?_toUTF8]
  have hwrite (bytes : ByteArray) :
      fsWrite os t joined bytes = ⟨.ok (), [⟨.overwrite, loc⟩], t.setContent loc bytes⟩ := by
    unfold fsWrite
    rw [hfound]
    simp only [hdir, change, h.writes, Bool.false_eq_true, if_false]
  unfold EditFileTool.run
  simp only [hresolve, hexists, hfile, hread, hwrite, Bool.not_true, Bool.or_self,
    Bool.false_eq_true, if_false]
  by_cases hone : Text.countMatches contents old = 1
  · rw [if_pos hone, if_neg (by omega), if_neg (by omega)]
    exact ⟨rfl, rfl⟩
  · rw [if_neg hone]
    by_cases hzero : Text.countMatches contents old = 0
    · rw [if_pos hzero]
      exact ⟨rfl, rfl⟩
    · rw [if_neg hzero, if_pos (by omega)]
      exact ⟨rfl, rfl⟩

/-- **`edit_file` edits one unambiguous place** just if `old` does not occur twice without occurring
twice apart. -/
theorem EditFileTool.edits_one_place_iff {path : String} {loc : List FileName} {contents : String}
    (h : EditableFile os sandbox path loc contents) (old new : String) :
    EditsOnePlace t loc contents old new (EditFileTool.run os sandbox path old new) ↔
      ((∃ i j, i ≠ j ∧ OccursAt old.toList contents.toList i ∧
        OccursAt old.toList contents.toList j) → OccursApart old.toList contents.toList) := by
  have hrun := h.run old new
  simp only at hrun
  have hzero := countMatches_eq_zero contents old
  have htwo := two_le_countMatches contents old
  generalize EditFileTool.run os sandbox path old new = run at hrun ⊢
  by_cases hone : Text.countMatches contents old = 1
  · rw [if_pos hone] at hrun
    obtain ⟨hok, htree⟩ := hrun
    have hsome : ∃ i, OccursAt old.toList contents.toList i := by
      by_contra hnone
      have hcount := hzero.mpr (not_exists.mp hnone)
      omega
    -- `matches` counts places that do not overlap: one of them leaves room for others that do
    have happart : ¬ OccursApart old.toList contents.toList := by
      intro hapart
      have hcount := htwo.mpr hapart
      omega
    constructor
    -- a second place, overlapping the first, is not noticed and the edit goes through
    · rintro hedits ⟨i, j, hne, hi, hj⟩
      exact absurd ((hedits.succeeds.mp hok).unique hi hj) hne
    · intro hcond
      have hunique : ∀ i j, OccursAt old.toList contents.toList i →
          OccursAt old.toList contents.toList j → i = j := by
        intro i j hi hj
        by_contra hne
        exact happart (hcond ⟨i, j, hne, hi, hj⟩)
      obtain ⟨i, hi⟩ := hsome
      refine ⟨iff_of_true hok ⟨i, hi, fun j hj => hunique j i hj hi⟩, fun _ pre post hsplit => ?_,
        fun herr => ?_⟩
      · rw [htree]
        have hpre : OccursAt old.toList contents.toList pre.length := ⟨pre, post, hsplit, rfl⟩
        have hfirst : ∀ j, OccursAt old.toList (pre ++ old.toList ++ post) j → pre.length ≤ j :=
          fun j hj => (hunique _ j hpre (by rwa [hsplit])).le
        have hreplaced : Text.replaceFirst.go old new (pre ++ old.toList ++ post) = _ :=
          replaceFirst_go_eq hfirst
        unfold Text.replaceFirst
        rw [hsplit, hreplaced]
      · rw [hok] at herr
        cases herr
  · rw [if_neg hone] at hrun
    obtain ⟨herr, htree⟩ := hrun
    constructor
    -- it is refused: nowhere, or at two places apart
    · rintro - ⟨i, j, -, hi, -⟩
      have hnonzero : Text.countMatches contents old ≠ 0 := fun hcount => hzero.mp hcount i hi
      exact htwo.mp (by omega)
    · intro hcond
      refine ⟨iff_of_false (by rw [herr]; decide) ?_, fun hok => ?_, fun _ => htree⟩
      · rintro ⟨i, hi, hall⟩
        have hnonzero : Text.countMatches contents old ≠ 0 := fun hcount => hzero.mp hcount i hi
        obtain ⟨a, b, hne, ha, hb⟩ := (htwo.mp (by omega)).two
        exact hne ((hall a ha).trans (hall b hb).symm)
      · rw [herr] at hok
        cases hok

end Tool

/-! ### A text that overlaps itself -/

theorem sandbox_isName :
    "sandbox" ≠ "" ∧ "sandbox" ≠ "." ∧ "sandbox" ≠ ".." ∧ '/' ∉ "sandbox".toList := by
  decide

theorem notes_isName : "notes" ≠ "" ∧ "notes" ≠ "." ∧ "notes" ≠ ".." ∧ '/' ∉ "notes".toList := by
  decide

/-- The directory `/sandbox` with the file `notes`. -/
def notesTree (contents : String) : FileTree :=
  (Tree.bare.add [] ⟨"sandbox", sandbox_isName⟩ .dir).add [⟨"sandbox", sandbox_isName⟩]
    ⟨"notes", notes_isName⟩ (.file contents.toUTF8)

/-- The sandbox `/sandbox`. -/
def notesSandbox (contents : String) : FsSandbox (notesTree contents) :=
  ⟨[⟨"sandbox", sandbox_isName⟩], rfl⟩

/-- `/sandbox/notes`. -/
def notesFile : List FileName := [⟨"sandbox", sandbox_isName⟩, ⟨"notes", notes_isName⟩]

theorem notes_editable (contents : String) :
    EditableFile plainOs (notesSandbox contents) "notes" notesFile contents where
  resolved := ⟨[.name ⟨"sandbox", sandbox_isName⟩, .name ⟨"notes", notes_isName⟩], maxSymlinks,
    rfl, rfl⟩
  node := rfl
  reads := rfl
  writes := rfl

/-- `b` occurs once in `abc`. -/
theorem letter_edited :
    EditsOnePlace (notesTree "abc") notesFile "abc" "b" "x"
      (EditFileTool.run plainOs (notesSandbox "abc") "notes" "b" "x") := by
  refine (EditFileTool.edits_one_place_iff (notes_editable "abc") "b" "x").mpr ?_
  rintro ⟨i, j, hne, hi, hj⟩
  have hplace : ∀ k, OccursAt "b".toList "abc".toList k → k = 1 := by
    rintro k ⟨pre, post, hsplit, rfl⟩
    have hchars : ['a', 'b', 'c'] = pre ++ 'b' :: post := hsplit.trans (List.append_assoc _ _ _)
    rcases pre with _ | ⟨c, _ | ⟨d, _ | ⟨e, _ | ⟨f, pre⟩⟩⟩⟩ <;> simp at hchars ⊢
  exact absurd ((hplace i hi).trans (hplace j hj).symm) hne

/-- `aa` occurs twice in `aaa`, and the call edits. -/
theorem overlap_edited :
    ¬ EditsOnePlace (notesTree "aaa") notesFile "aaa" "aa" "b"
      (EditFileTool.run plainOs (notesSandbox "aaa") "notes" "aa" "b") := by
  intro hedits
  have hrun := (notes_editable "aaa").run "aa" "b"
  simp only at hrun
  rw [if_pos (by decide)] at hrun
  have hfirst : OccursAt "aa".toList "aaa".toList 0 := ⟨[], ['a'], by decide, rfl⟩
  have hsecond : OccursAt "aa".toList "aaa".toList 1 := ⟨['a'], [], by decide, rfl⟩
  exact absurd ((hedits.succeeds.mp hrun.1).unique hfirst hsecond) (by decide)

end PgSynapse

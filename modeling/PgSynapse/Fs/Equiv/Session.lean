import PgSynapse.Fs.Equiv.EditFile

/-!
# Runs of the file tools

A run of calls removes nothing from the tree it starts from, and whatever it changes is in its log
(`FileSession.run_log_complete`).  So the paths of a session keep leading where they led, and a file
that `write_file` has written is what `read_file` gives back until it is written again
(`FileSession.reads_last_write`).
-/

namespace PgSynapse

variable {os : Os} {t t' t'' : FileTree} {log log' : List Access}

/-! ### Changes -/

/-- An access that changes the tree. -/
def Access.Writes (a : Access) : Prop :=
  a.kind = .create ∨ a.kind = .overwrite ∨ a.kind = .mkdir

instance (a : Access) : Decidable a.Writes :=
  inferInstanceAs (Decidable (a.kind = .create ∨ a.kind = .overwrite ∨ a.kind = .mkdir))

/-- `t'` holds what `t` holds, up to the contents of files, and differs from it only in places that
the log has as written. -/
structure Changes (t t' : FileTree) (log : List Access) : Prop where
  within : t.Within t'
  logged : ∀ p, t'.node p ≠ t.node p → ∃ a ∈ log, a.loc = p ∧ a.Writes

namespace Changes

theorem refl (t : FileTree) (log : List Access) : Changes t t log :=
  ⟨Tree.Within.refl t, fun _ hne => absurd rfl hne⟩

theorem trans (h : Changes t t' log) (h' : Changes t' t'' log') :
    Changes t t'' (log ++ log') := by
  refine ⟨h.within.trans h'.within, fun p hne => ?_⟩
  by_cases hp : t'.node p = t.node p
  · rw [← hp] at hne
    obtain ⟨a, ha, hloc⟩ := h'.logged p hne
    exact ⟨a, List.mem_append_right _ ha, hloc⟩
  · obtain ⟨a, ha, hloc⟩ := h.logged p hp
    exact ⟨a, List.mem_append_left _ ha, hloc⟩

/-- One place is changed, and it is in the log. -/
theorem single (h : t.Within t') {a : Access} (ha : a.Writes)
    (hother : ∀ p, p ≠ a.loc → t'.node p = t.node p) : Changes t t' [a] := by
  refine ⟨h, fun p hne => ⟨a, List.mem_singleton_self a, ?_, ha⟩⟩
  by_contra hp
  exact hne (hother p (Ne.symm hp))

theorem add {d : List FileName} {n : FileName} {x : Node FileName ByteArray} {kind : AccessKind}
    (hd : t.node d = some .dir) (hn : t.node (d ++ [n]) = none)
    (hkind : (⟨kind, d ++ [n]⟩ : Access).Writes) : Changes t (t.add d n x) [⟨kind, d ++ [n]⟩] := by
  refine single (Tree.le_add t).within hkind fun p hp => ?_
  rw [Tree.node_add hd hn, Function.update_of_ne hp]

theorem setContent {p : List FileName} {c₀ : ByteArray} (h : t.node p = some (.file c₀))
    (c : ByteArray) : Changes t (t.setContent p c) [⟨.overwrite, p⟩] := by
  refine single (Tree.within_setContent h c) (.inr (.inl rfl)) fun q hq => ?_
  rw [Tree.node_setContent h, Function.update_of_ne hq]

end Changes

/-- A change that is made, or refused. -/
theorem change_changes {kind : AccessKind} {loc : List FileName}
    (h : Changes t t' [⟨kind, loc⟩]) :
    Changes t (change os kind loc t t').tree (change os kind loc t t').log := by
  unfold change
  split
  · exact Changes.refl t _
  · exact h

theorem fsWrite_changes (path : List (Comp FileName)) (bytes : ByteArray) :
    Changes t (fsWrite os t path bytes).tree (fsWrite os t path bytes).log := by
  have hends := lookup_ends t path
  unfold fsWrite
  cases hpath : lookup t path with
  | found p left =>
    rw [hpath] at hends
    dsimp only
    split
    · exact Changes.refl t _
    · rename_i hdir
      rcases hends with hp | ⟨c, hp⟩
      · exact absurd (Tree.isDirAt_iff.mpr hp) hdir
      · exact change_changes (Changes.setContent hp bytes)
  | missing d n =>
    rw [hpath] at hends
    exact change_changes (Changes.add hends.1 hends.2 (.inl rfl))
  | failed e => exact Changes.refl t _

theorem mkdir_changes (path : List FileName) :
    Changes t (mkdir os t path).tree (mkdir os t path).log := by
  cases path with
  | nil => exact Changes.refl t _
  | cons n up =>
    rcases mkdir_cases os t n up with ⟨d, left, -, hd, hn, hmk⟩ | ⟨e, hmk, -⟩
    · rw [hmk]
      exact Changes.add hd hn (.inr (.inr rfl))
    · rw [hmk]
      exact Changes.refl t _

theorem createDirAll_changes (path : List FileName) :
    Changes t (createDirAll os t path).tree (createDirAll os t path).log := by
  induction path with
  | nil =>
    have hroot : lookup t (([] : List FileName).reverse.map .name) = .found [] maxSymlinks :=
      Tree.walk_nil _ _
    rw [createDirAll_existing hroot t.node_nil]
    exact Changes.refl t _
  | cons n up ih =>
    unfold createDirAll
    split
    · exact mkdir_changes (n :: up)
    · dsimp only
      split
      · exact ih
      · have hlast : Changes (createDirAll os t up).tree
            (mkdir os (createDirAll os t up).tree (n :: up)).tree
            (mkdir os (createDirAll os t up).tree (n :: up)).log := mkdir_changes (n :: up)
        split
        · exact ih.trans hlast
        · split
          · exact ih
          · exact ih
    · split
      · exact Changes.refl t _
      · exact Changes.refl t _

/-! ### The tools -/

variable {sandbox : FsSandbox t}

/-- The directories of a path are made first, and then the file is written. -/
theorem WriteFileTool.run_changes (path content : String) :
    Changes t (WriteFileTool.run os sandbox path content).tree
      (WriteFileTool.run os sandbox path content).log := by
  unfold WriteFileTool.run
  split
  · exact Changes.refl t _
  · rename_i joined _
    cases (pathNames joined).reverse with
    | nil => exact (Changes.refl t _).trans (fsWrite_changes joined _)
    | cons n up =>
      have habove : Changes t (createDirAll os t up).tree (createDirAll os t up).log :=
        createDirAll_changes up
      dsimp only
      split
      · exact habove
      · exact habove.trans (fsWrite_changes joined _)

theorem EditFileTool.run_changes (path old new : String) :
    Changes t (EditFileTool.run os sandbox path old new).tree
      (EditFileTool.run os sandbox path old new).log := by
  unfold EditFileTool.run
  dsimp only
  split
  · exact Changes.refl t _
  split
  · exact Changes.refl t _
  split
  · exact Changes.refl t _
  split
  · exact Changes.refl t _
  split
  · exact Changes.refl t _
  exact (Changes.refl t _).trans (fsWrite_changes _ _)

theorem ExportCsvTool.run_changes (rows : Except ToolError (List Value))
    (writeCsv : List (List String) → Except String ByteArray) (path : String) :
    Changes t (ExportCsvTool.run os sandbox rows writeCsv path).tree
      (ExportCsvTool.run os sandbox rows writeCsv path).log := by
  unfold ExportCsvTool.run
  split
  · exact Changes.refl t _
  split
  · exact Changes.refl t _
  split
  · exact Changes.refl t _
  dsimp only
  split
  · exact Changes.refl t _
  exact fsWrite_changes _ _

/-! ### Sessions -/

section FileCall

variable (os) (sandbox)

/-- The tree after a call. -/
def FileCall.tree : FileCall → FileTree
  | .writeFile path content => (WriteFileTool.run os sandbox path content).tree
  | .editFile path old new => (EditFileTool.run os sandbox path old new).tree
  | .exportCsv rows writeCsv path => (ExportCsvTool.run os sandbox rows writeCsv path).tree
  | _ => t

theorem FileCall.tree_writeFile (path content : String) :
    (FileCall.writeFile path content).tree os sandbox =
      (WriteFileTool.run os sandbox path content).tree := rfl

/-- **A call** removes nothing and logs what it changes. -/
theorem FileCall.changes (call : FileCall) :
    Changes t (call.tree os sandbox) (call.log os sandbox) := by
  cases call with
  | writeFile path content => exact WriteFileTool.run_changes path content
  | editFile path old new => exact EditFileTool.run_changes path old new
  | exportCsv rows writeCsv path => exact ExportCsvTool.run_changes rows writeCsv path
  | _ => exact Changes.refl t _

end FileCall

/-- A tree with the sandbox in it. -/
structure FileSession where
  tree : FileTree
  sandbox : FsSandbox tree

namespace FileSession

/-- The session after a call: the root is still a directory. -/
def after (os : Os) (s : FileSession) (call : FileCall) : FileSession where
  tree := call.tree os s.sandbox
  sandbox := ⟨s.sandbox.root, (call.changes os s.sandbox).within.dir s.sandbox.isDir⟩

/-- The accesses of some calls, one after another, and the session they leave. -/
def run (os : Os) : FileSession → List FileCall → List Access × FileSession
  | s, [] => ([], s)
  | s, call :: rest =>
    let (log, last) := run os (s.after os call) rest
    (call.log os s.sandbox ++ log, last)

/-- A run of calls keeps the root, removes nothing and logs what it changes. -/
theorem run_changes (os : Os) (s : FileSession) (calls : List FileCall) :
    (s.run os calls).2.sandbox.root = s.sandbox.root ∧
      Changes s.tree (s.run os calls).2.tree (s.run os calls).1 := by
  induction calls generalizing s with
  | nil => exact ⟨rfl, Changes.refl _ _⟩
  | cons call rest ih =>
    obtain ⟨hroot, hrest⟩ := ih (s.after os call)
    exact ⟨hroot, (call.changes os s.sandbox).trans hrest⟩

/-- **Nothing is lost, and the log is complete**: a run of calls keeps the root, every directory and
every link; a file stays a file; and every place that the run leaves different is in its log as
created, overwritten or made a directory. -/
theorem run_log_complete (os : Os) (s : FileSession) (calls : List FileCall) :
    (s.run os calls).2.sandbox.root = s.sandbox.root ∧
      (∀ p, s.tree.node p = some .dir → (s.run os calls).2.tree.node p = some .dir) ∧
      (∀ p absolute target, s.tree.node p = some (.symlink absolute target) →
        (s.run os calls).2.tree.node p = some (.symlink absolute target)) ∧
      (∀ p c, s.tree.node p = some (.file c) →
        ∃ c', (s.run os calls).2.tree.node p = some (.file c')) ∧
      ∀ p, (s.run os calls).2.tree.node p ≠ s.tree.node p →
        ∃ a ∈ (s.run os calls).1, a.loc = p ∧
          (a.kind = .create ∨ a.kind = .overwrite ∨ a.kind = .mkdir) := by
  obtain ⟨hroot, hchanges⟩ := run_changes os s calls
  refine ⟨hroot, fun p hp => hchanges.within.dir hp, ?_, ?_, hchanges.logged⟩
  · intro p absolute target hp
    exact hchanges.within.symlink hp
  · intro p c hp
    exact hchanges.within.file hp

end FileSession

/-! ### Reading back -/

theorem change_ok {kind : AccessKind} {loc : List FileName}
    (h : (change os kind loc t t').result = .ok ()) :
    change os kind loc t t' = ⟨.ok (), [⟨kind, loc⟩], t'⟩ := by
  unfold change at h ⊢
  split at h
  · cases h
  · rfl

/-- A write that succeeds overwrites a file or creates one. -/
theorem fsWrite_ok_cases {path : List (Comp FileName)} {bytes : ByteArray}
    (h : (fsWrite os t path bytes).result = .ok ()) :
    (∃ p left c, lookup t path = .found p left ∧ t.node p = some (.file c) ∧
      fsWrite os t path bytes = ⟨.ok (), [⟨.overwrite, p⟩], t.setContent p bytes⟩) ∨
    ∃ d n, lookup t path = .missing d n ∧ t.node d = some .dir ∧ t.node (d ++ [n]) = none ∧
      fsWrite os t path bytes = ⟨.ok (), [⟨.create, d ++ [n]⟩], t.add d n (.file bytes)⟩ := by
  have hends := lookup_ends t path
  unfold fsWrite at h ⊢
  cases hpath : lookup t path with
  | found p left =>
    rw [hpath] at hends h
    dsimp only at h ⊢
    rcases hends with hp | ⟨c, hp⟩
    · rw [if_pos (Tree.isDirAt_iff.mpr hp)] at h
      cases h
    · have hdir : ¬ t.isDirAt p = true := by
        rw [Tree.isDirAt_iff, hp]
        simp
      rw [if_neg hdir] at h ⊢
      exact .inl ⟨p, left, c, rfl, hp, change_ok h⟩
  | missing d n =>
    rw [hpath] at hends h
    exact .inr ⟨d, n, rfl, hends.1, hends.2, change_ok h⟩
  | failed e =>
    rw [hpath] at h
    cases h

theorem lookup_reaches (h : t.Within t') (path : List (Comp FileName)) :
    t'.Reaches (lookup t path) (lookup t' path) := Tree.walk_reaches h maxSymlinks [] path

/-- **A file that was written**: the path leads to it, and the log has it. -/
theorem fsWrite_ok {path : List (Comp FileName)} {bytes : ByteArray}
    (h : (fsWrite os t path bytes).result = .ok ()) :
    ∃ loc left, lookup (fsWrite os t path bytes).tree path = .found loc left ∧
      (fsWrite os t path bytes).tree.node loc = some (.file bytes) ∧
      (⟨.create, loc⟩ ∈ (fsWrite os t path bytes).log ∨
        ⟨.overwrite, loc⟩ ∈ (fsWrite os t path bytes).log) := by
  have hchanges : Changes t (fsWrite os t path bytes).tree (fsWrite os t path bytes).log :=
    fsWrite_changes path bytes
  have hreaches := lookup_reaches hchanges.within path
  rcases fsWrite_ok_cases h with ⟨p, left, c, hpath, hp, hrun⟩ | ⟨d, n, hpath, hd, hn, hrun⟩
  · rw [hpath, hrun] at hreaches
    rw [hrun]
    refine ⟨p, left, hreaches, ?_, .inr (List.mem_singleton_self _)⟩
    show (t.setContent p bytes).node p = _
    rw [Tree.node_setContent hp, Function.update_self]
  · rw [hpath, hrun] at hreaches
    rw [hrun]
    have hnode : (t.add d n (.file bytes)).node (d ++ [n]) = some (.file bytes) := by
      rw [Tree.node_add hd hn, Function.update_self]
    obtain ⟨left, hleft⟩ := hreaches ⟨bytes, hnode⟩
    exact ⟨d ++ [n], left, hleft, hnode, .inl (List.mem_singleton_self _)⟩

/-- A file that `write_file` has written. -/
theorem WriteFileTool.run_ok {path content : String}
    (h : (WriteFileTool.run os sandbox path content).result.isOk = true) :
    ∃ joined loc left, sandbox.resolve (Text.trim path) "write_file" = .ok joined ∧
      lookup (WriteFileTool.run os sandbox path content).tree joined = .found loc left ∧
      (WriteFileTool.run os sandbox path content).tree.node loc = some (.file content.toUTF8) ∧
      (⟨.create, loc⟩ ∈ (WriteFileTool.run os sandbox path content).log ∨
        ⟨.overwrite, loc⟩ ∈ (WriteFileTool.run os sandbox path content).log) := by
  unfold WriteFileTool.run at h ⊢
  cases hjoined : sandbox.resolve (Text.trim path) "write_file" with
  | error e =>
    rw [hjoined] at h
    cases h
  | ok joined =>
    rw [hjoined] at h
    dsimp only at h ⊢
    split at h
    · cases h
    · dsimp only at h
      split at h
      · cases h
      · rename_i hlast
        obtain ⟨loc, left, hloc, hnode, hlog⟩ := fsWrite_ok hlast
        exact ⟨joined, loc, left, rfl, hloc, hnode,
          hlog.imp (List.mem_append_right _) (List.mem_append_right _)⟩

/-- A path that was resolved before, and leads to `loc` now, is resolved again if `loc` is inside the
root. -/
theorem FsSandbox.resolve_again {sandbox' : FsSandbox t'} (hroot : sandbox'.root = sandbox.root)
    {rel tool : String} {joined : List (Comp FileName)} (h : sandbox.resolve rel tool = .ok joined)
    {loc : List FileName} {left : Nat} (hloc : lookup t' joined = .found loc left) (tool' : String) :
    sandbox'.resolve rel tool' =
      if sandbox.root <+: loc then .ok joined
      else .error (.invalidInput tool' "path escapes sandbox root") := by
  have hparent := (FsSandbox.resolve_ok h).1
  have hnames : lookup t' ((pathNames joined).map .name) = .found loc left := by
    rw [← hloc]
    refine walk_pathNames hparent fun e he => ?_
    rw [lookup, he] at hloc
    cases hloc
  have hcanon : canonicalizeExistingPrefix t' (pathNames joined).reverse [] = .ok loc := by
    rw [canonicalizeExistingPrefix_found (by rwa [List.reverse_reverse]), List.append_nil]
  unfold FsSandbox.resolve at h ⊢
  dsimp only at h ⊢
  split at h
  · cases h
  rename_i habsolute
  rw [if_neg habsolute]
  split at h
  · cases h
  rename_i hdots
  rw [if_neg hdots, hroot]
  split at h
  · cases h
  split at h
  · obtain rfl := Except.ok.inj h
    rw [hcanon]
  · cases h

/-- What `read_file` gives of a file with some text. -/
def readBack (os : Os) (loc : List FileName) (content : String) :
    Except ToolError ToolOutput × List Access :=
  if content.toUTF8.size > maxFileBytes then
    (.error (.execution "read_file"
      ("file is " ++ toString content.toUTF8.size ++ " bytes, over the 1 MiB limit")), [])
  else
    match os.refuses ⟨.read, loc⟩ with
    | some reason =>
      (.error (.execution "read_file" ("read failed: " ++ os.errorText (.refused reason))), [])
    | none => (.ok (.text content), [⟨.read, loc⟩])

theorem ReadFileTool.run_found {path content : String} {joined : List (Comp FileName)}
    {loc : List FileName} {left : Nat}
    (hresolve : sandbox.resolve (Text.trim path) "read_file" = .ok joined)
    (hloc : lookup t joined = .found loc left) (hnode : t.node loc = some (.file content.toUTF8)) :
    ReadFileTool.run os sandbox path = readBack os loc content := by
  have hdir : t.isDirAt loc = false := by rw [Tree.isDirAt, hnode]
  have hexists : pathExists t joined = true := by rw [pathExists, hloc]
  have hfile : isFile t joined = true := by
    rw [isFile, hloc]
    exact congrArg not hdir
  have hlen : fileLen t joined = content.toUTF8.size := by
    rw [fileLen, hloc]
    simp only [hnode]
  have hread : fsRead os t joined = access os .read loc content.toUTF8 := by
    rw [fsRead, hloc]
    simp only [hnode]
  unfold ReadFileTool.run readBack
  simp only [hresolve, hexists, hfile, hlen, fsReadToString, hread, Bool.not_true,
    Bool.false_eq_true, if_false]
  split_ifs
  · rfl
  · unfold access
    cases os.refuses ⟨.read, loc⟩ with
    | some reason => rfl
    | none => simp only [fromUTF8?_toUTF8]

namespace FileSession

theorem after_root (os : Os) (s : FileSession) (call : FileCall) :
    (s.after os call).sandbox.root = s.sandbox.root := rfl

theorem after_tree (os : Os) (s : FileSession) (call : FileCall) :
    (s.after os call).tree = call.tree os s.sandbox := rfl

/-- **Reads return the last write**: what `write_file` has put under a path is what `read_file` gives
of that path, whatever calls come between them, as long as none writes to the same file.  Only where
the file came to be outside the root, behind a link, is it refused. -/
theorem reads_last_write (os : Os) (s : FileSession) (path content : String)
    (h : (WriteFileTool.run os s.sandbox path content).result.isOk = true) :
    ∃ loc, (⟨.create, loc⟩ ∈ (WriteFileTool.run os s.sandbox path content).log ∨
        ⟨.overwrite, loc⟩ ∈ (WriteFileTool.run os s.sandbox path content).log) ∧
      ∀ calls, (∀ a ∈ ((s.after os (.writeFile path content)).run os calls).1,
          a.loc = loc → ¬ a.Writes) →
        ReadFileTool.run os ((s.after os (.writeFile path content)).run os calls).2.sandbox path =
          if s.sandbox.root <+: loc then readBack os loc content
          else (.error (.invalidInput "read_file" "path escapes sandbox root"), []) := by
  obtain ⟨joined, loc, left, hresolve, hloc, hnode, hlog⟩ := WriteFileTool.run_ok h
  refine ⟨loc, hlog, fun calls hquiet => ?_⟩
  have hstart := after_root os s (.writeFile path content)
  rw [← FileCall.tree_writeFile, ← after_tree] at hloc hnode
  generalize s.after os (.writeFile path content) = s₁ at hquiet hloc hnode hstart ⊢
  obtain ⟨hroot, hchanges⟩ := run_changes os s₁ calls
  -- nobody has written to the file since, and the path still leads to it
  have hnode₂ : (s₁.run os calls).2.tree.node loc = some (.file content.toUTF8) := by
    by_contra hne
    rw [← hnode] at hne
    obtain ⟨a, ha, haloc, hwrites⟩ := hchanges.logged loc hne
    exact hquiet a ha haloc hwrites
  have hloc₂ : lookup (s₁.run os calls).2.tree joined = .found loc left := by
    have hreaches := lookup_reaches hchanges.within joined
    rwa [hloc] at hreaches
  have hagain := FsSandbox.resolve_again (hroot.trans hstart) hresolve hloc₂ "read_file"
  split_ifs at hagain ⊢ with hinside
  · exact ReadFileTool.run_found hagain hloc₂ hnode₂
  · unfold ReadFileTool.run
    simp only [hagain]

/-- `notes` is read back after another file has been written beside it. -/
theorem notes_read_back :
    ReadFileTool.run plainOs (((⟨notesTree "abc", notesSandbox "abc"⟩ : FileSession).after plainOs
      (.writeFile "notes" "x")).run plainOs [.writeFile "other" "y"]).2.sandbox "notes" =
      (.ok (.text "x"), [⟨.read, notesFile⟩]) := by
  obtain ⟨loc, hlog, hread⟩ := reads_last_write plainOs ⟨notesTree "abc", notesSandbox "abc"⟩ "notes"
    "x" (by decide)
  have hwrite : (WriteFileTool.run plainOs (notesSandbox "abc") "notes" "x").log =
      [⟨.overwrite, notesFile⟩] := by decide
  obtain rfl : loc = notesFile := by
    rw [hwrite] at hlog
    simpa using hlog
  rw [hread [.writeFile "other" "y"] (by decide), if_pos (by decide), readBack, if_neg (by decide)]
  rfl

end FileSession

end PgSynapse

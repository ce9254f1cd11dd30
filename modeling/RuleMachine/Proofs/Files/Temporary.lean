import RuleMachine.Proofs.Files.Replacement
/-!
Temporary files. What a library promises of them is that a file that is thrown away leaves nothing
behind, and that a file that is moved replaces its target as a whole.
-/

set_option autoImplicit false

namespace RuleMachine

namespace Volume

variable {v v' : Volume} {path : String} {content : Bytes} {target : Location}

theorem read_eq_ok_iff : v.read path = .ok content ↔ ∃ l, v.locate path = .ok l ∧
    v.fault l = none ∧ v.contentAt? l = some (some content) := by
  rw [read, Except.bind_eq_ok]
  refine exists_congr fun l => and_congr_right fun hl => ?_
  cases hfault : v.fault l with
  | some e => simp
  | none =>
    dsimp only
    rw [FileSystem.read_eq_ok_iff]
    constructor
    · rintro ⟨l', hl', hcontent⟩
      cases hl.symm.trans hl'
      exact ⟨rfl, hcontent⟩
    · rintro ⟨-, hcontent⟩
      exact ⟨l, hl, hcontent⟩

/-- The second volume is the first one with a file at a location, where no directory was. The file
can be read. -/
structure Replaces (v v' : Volume) (target : Location) (content : Bytes) : Prop
    extends FileSystem.Replaces v.toFileSystem v'.toFileSystem target content where
  readable : v'.fault target = none
  faults (l : Location) (h : l ≠ target) : v'.fault l = v.fault l

namespace Replaces

theorem read_target (h : v.Replaces v' target content) (hpath : v'.locate path = .ok target) :
    v'.read path = .ok content :=
  read_eq_ok_iff.2 ⟨target, hpath, h.readable, h.written⟩

theorem read_iff (h : v.Replaces v' target content) (hpath : v'.locate path ≠ .ok target)
    (other : Bytes) : v'.read path = .ok other ↔ v.read path = .ok other := by
  rw [read_eq_ok_iff, read_eq_ok_iff]
  constructor
  · rintro ⟨l, hl, hfault, hother⟩
    have hne : l ≠ target := fun he => hpath (he ▸ hl)
    exact ⟨l, h.locate_of_ne hl hne, (h.faults l hne).symm.trans hfault,
      (h.elsewhere l hne).symm.trans hother⟩
  · rintro ⟨l, hl, hfault, hother⟩
    have hl' := h.locate hl
    have hne : l ≠ target := fun he => hpath (he ▸ hl')
    exact ⟨l, hl', (h.faults l hne).trans hfault, (h.elsewhere l hne).trans hother⟩

end Replaces

end Volume

namespace TempFiles

variable {v v₁ v₂ v₃ : Volume} {directory path : String} {content : Bytes} {file : Location}

/-- What is promised of temporary files: one that is not moved to a path leaves nothing behind when
it is thrown away, and one that is moved takes the place of what is there. -/
structure Lawful (T : TempFiles) : Prop where
  create_error {v v' : Volume} {directory : String} {e : FileError}
    (create : (T.create directory).run v = (.error e, v')) : v' = v
  discard_written {v v₁ v₂ : Volume} {directory : String} {content : Bytes} {file : T.File}
    {result : Except FileError Unit} (create : (T.create directory).run v = (.ok file, v₁))
    (write : (T.write file content).run v₁ = (result, v₂)) : ((T.discard file).run v₂).2 = v
  discard_unmoved {v v₁ v₂ v₃ : Volume} {directory path : String} {content : Bytes} {file : T.File}
    {e : FileError} (create : (T.create directory).run v = (.ok file, v₁))
    (write : (T.write file content).run v₁ = (.ok (), v₂))
    (persist : (T.persist file path).run v₂ = (.error e, v₃)) : ((T.discard file).run v₃).2 = v
  persist {v v₁ v₂ v₃ : Volume} {directory path : String} {content : Bytes} {file : T.File}
    (create : (T.create directory).run v = (.ok file, v₁))
    (write : (T.write file content).run v₁ = (.ok (), v₂))
    (persist : (T.persist file path).run v₂ = (.ok (), v₃)) :
    ∃ target, v₃.locate path = .ok target ∧ v.Replaces v₃ target content

/-! Temporary files with names of their own -/

theorem createIn_eq_ok (h : createIn v directory = .ok file) : ∃ dir name, file = dir ++ [name] ∧
    v.contentAt? dir = some none ∧ v.contentAt? (dir ++ [name]) = none := by
  obtain ⟨here, -, h⟩ := Except.bind_eq_ok.1 h
  obtain ⟨dir, -, h⟩ := Except.bind_eq_ok.1 h
  split at h
  · rename_i entries hentries
    split at h
    · rename_i name hname
      cases h
      have hnew : (entries.lookup name).isNone = true := by
        unfold freshName? at hname
        simpa using List.find?_some hname
      have hlookup : entries.lookup name = none := Option.isNone_iff_eq_none.1 hnew
      refine ⟨dir, name, rfl, ?_, ?_⟩
      · rw [FileSystem.contentAt?, FileNode.contentAt?, hentries]
        rfl
      · rw [FileSystem.contentAt?, FileNode.contentAt?, FileNode.find?_append, hentries]
        simp [FileNode.find?, FileNode.child?, hlookup]
    · cases h
  · cases h

theorem create_named {result : Except FileError Location}
    (h : (named.create directory).run v = (result, v₁)) :
    (∃ e, result = .error e ∧ v₁ = v) ∨ ∃ file, result = .ok file ∧
      createIn v directory = .ok file ∧ v₁ = { v with toFileSystem := v.put [] file } := by
  dsimp only [StateT.run, create] at h
  split at h
  · rename_i file hcreate
    cases h
    exact .inr ⟨file, rfl, hcreate, rfl⟩
  · rename_i e _
    cases h
    exact .inl ⟨e, rfl, rfl⟩

theorem written_named {result : Except FileError Unit}
    (create : (named.create directory).run v = (.ok file, v₁))
    (write : (named.write file content).run v₁ = (result, v₂)) : ∃ dir name, file = dir ++ [name] ∧
      v.contentAt? dir = some none ∧ v.contentAt? (dir ++ [name]) = none ∧
      v₂ = { v with toFileSystem := v.put content file } := by
  obtain ⟨e, hresult, -⟩ | ⟨made, hresult, hcreate, rfl⟩ := create_named create
  · cases hresult
  cases hresult
  obtain ⟨dir, name, rfl, hdir, hfresh⟩ := createIn_eq_ok hcreate
  cases write
  refine ⟨dir, name, rfl, hdir, hfresh, ?_⟩
  simp only [FileSystem.put, FileNode.put_put hdir]

theorem discard_named {dir : Location} {name : String} (hdir : v.contentAt? dir = some none)
    (hfresh : v.contentAt? (dir ++ [name]) = none) :
    ((named.discard (dir ++ [name])).run
      { v with toFileSystem := v.put content (dir ++ [name]) }).2 = v := by
  have herase : FileNode.erase (dir ++ [name])
      (FileNode.put (.file content) (dir ++ [name]) v.root) = v.root :=
    FileNode.erase_put hdir hfresh
  change (⟨⟨FileNode.erase (dir ++ [name]) (FileNode.put (.file content) (dir ++ [name]) v.root),
    v.current⟩, v.fault⟩ : Volume) = v
  rw [herase]

theorem persist_named {result : Except FileError Unit}
    (h : (named.persist file path).run v = (result, v₁)) :
    (∃ e, result = .error e ∧ v₁ = v) ∨ ∃ target fs, result = .ok () ∧
      v.move file path = .ok (target, fs) ∧
      v₁ = ⟨fs, fun l => if l = target then none else v.fault l⟩ := by
  dsimp only [StateT.run, persist] at h
  split at h
  · rename_i target fs hmove
    cases h
    exact .inr ⟨target, fs, rfl, hmove, rfl⟩
  · rename_i e _
    cases h
    exact .inl ⟨e, rfl, rfl⟩

end TempFiles

namespace FileSystem

variable {fs fs' : FileSystem} {origin target : Location} {path : String}

theorem move_eq_ok (h : fs.move origin path = .ok (target, fs')) : ∃ dir name content,
    fs.place path = .ok (dir, .name name false) ∧ target = dir ++ [name] ∧
    fs.contentAt? target ≠ some none ∧ fs.contentAt? origin = some (some content) ∧
    fs' = { fs with
      root := FileNode.put (.file content) target (FileNode.erase origin fs.root) } := by
  obtain ⟨⟨dir, last⟩, hplace, h⟩ := Except.bind_eq_ok.1 h
  split at h
  · cases h
  · cases h
  · rename_i dir' name heq
    cases heq
    dsimp only at h
    split at h
    · cases h
    · rename_i hnot
      split at h
      · rename_i content hfind
        cases h
        refine ⟨dir, name, content, hplace, rfl, fun hdir => hnot ?_, ?_, rfl⟩
        · obtain ⟨node, hnode, hcontent⟩ := Option.map_eq_some_iff.1 hdir
          cases node with
          | file before => cases hcontent
          | directory entries => simp [hnode, FileNode.isDirectory]
        · rw [contentAt?, FileNode.contentAt?, hfind]
          rfl
      · cases h

end FileSystem

namespace TempFiles

variable {v v₁ v₂ v₃ : Volume} {directory path : String} {content : Bytes} {file : Location}

/-- A new file that is moved takes the place of what is at the end of the path. -/
theorem replaces_of_move {dir target : Location} {name : String} {fs : FileSystem}
    (hdir : v.contentAt? dir = some none) (hfresh : v.contentAt? (dir ++ [name]) = none)
    (h : (v.put content (dir ++ [name])).move (dir ++ [name]) path = .ok (target, fs)) :
    fs.locate path = .ok target ∧ v.toFileSystem.Replaces fs target content := by
  have hplaceFree : v.contentAt? (dir ++ [name]) ≠ some none := by
    rw [hfresh]
    nofun
  have hput := FileSystem.replaces_put hdir hplaceFree content
  obtain ⟨outer, last, moved, hplace, rfl, hnoDirectory, horigin, rfl⟩ :=
    FileSystem.move_eq_ok h
  obtain ⟨here, front, hstart, hfront, houter, hstay, hup, hshort⟩ :=
    FileSystem.place_eq_name hplace
  cases hput.written.symm.trans horigin
  rw [FileSystem.put, FileNode.erase_put hdir hfresh]
  -- the new file is no directory, and so no path leads through it
  have hne : outer ≠ dir ++ [name] := by
    rintro rfl
    cases hput.written.symm.trans houter
  have houterBefore := hput.directory_iff.1 houter
  have hmoved := FileSystem.replaces_put houterBefore (mt hput.directory_iff.2 hnoDirectory) content
  exact ⟨hmoved.locate_target ((hput.start_eq path).symm.trans hstart)
    (hput.followAll_of_ne hfront hne) houterBefore hstay hup hshort, hmoved⟩

/-- The library that gives temporary files names of their own keeps the promises. -/
theorem named_lawful : named.Lawful where
  create_error create := by
    obtain ⟨_, -, rfl⟩ | ⟨made, hresult, -, -⟩ := create_named create
    · rfl
    · cases hresult
  discard_written create write := by
    obtain ⟨dir, name, rfl, hdir, hfresh, rfl⟩ := written_named create write
    exact discard_named hdir hfresh
  discard_unmoved create write persist := by
    obtain ⟨dir, name, rfl, hdir, hfresh, rfl⟩ := written_named create write
    obtain ⟨e, -, rfl⟩ | ⟨target, fs, hresult, -, -⟩ := persist_named persist
    · exact discard_named hdir hfresh
    · cases hresult
  persist create write persist := by
    obtain ⟨dir, name, rfl, hdir, hfresh, rfl⟩ := written_named create write
    obtain ⟨e, hresult, -⟩ | ⟨target, fs, -, hmove, rfl⟩ := persist_named persist
    · cases hresult
    · obtain ⟨htarget, hreplaces⟩ := replaces_of_move hdir hfresh hmove
      exact ⟨target, htarget, hreplaces, if_pos rfl, fun l hl => if_neg hl⟩

end TempFiles

end RuleMachine

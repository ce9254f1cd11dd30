import RuleMachine.Files.Volume
import RuleMachine.Proofs.Codec.Reading
/-!
Putting a file in the place of another. A tree is known by what is at each location, a directory or
a file with its content. Replacing changes that at one location alone, where no directory was, and
so no path to anything else is led astray.
-/

set_option autoImplicit false

namespace RuleMachine

namespace FileNode

def content? : FileNode → Option Bytes
  | .file content => some content
  | .directory _ => none

def contentAt? (l : Location) (node : FileNode) : Option (Option Bytes) :=
  (node.find? l).map content?

variable {node : FileNode} {entries : List (String × FileNode)} {name other : String}
  {dir l : Location} {content : Bytes}

theorem lookup_setEntry_self : (setEntry name node entries).lookup name = some node := by
  induction entries with
  | nil => simp [setEntry]
  | cons entry rest ih =>
    obtain ⟨key, old⟩ := entry
    by_cases hkey : key = name
    · simp [setEntry, hkey]
    · simp [setEntry, hkey, List.lookup_cons, beq_false_of_ne (Ne.symm hkey), ih]

theorem lookup_setEntry_of_ne (h : other ≠ name) :
    (setEntry name node entries).lookup other = entries.lookup other := by
  induction entries with
  | nil => simp [setEntry, List.lookup_cons, beq_false_of_ne h]
  | cons entry rest ih =>
    obtain ⟨key, old⟩ := entry
    by_cases hkey : key = name
    · simp [setEntry, hkey, List.lookup_cons, beq_false_of_ne h]
    · simp only [setEntry, if_neg hkey, List.lookup_cons, ih]

theorem find?_append (l l' : Location) (node : FileNode) :
    node.find? (l ++ l') = (node.find? l).bind (find? l') := by
  induction l generalizing node with
  | nil => rfl
  | cons name rest ih =>
    simp only [List.cons_append, find?]
    cases node.child? name with
    | none => rfl
    | some child => exact ih child

theorem contentAt?_directory_cons :
    (directory entries).contentAt? (name :: l) = (entries.lookup name).bind (contentAt? l) := by
  simp only [contentAt?, find?, child?]
  cases entries.lookup name <;> rfl

theorem exists_entries (h : node.contentAt? l = some none) :
    ∃ entries, node = directory entries := by
  cases node with
  | file content => cases l <;> cases h
  | directory entries => exact ⟨entries, rfl⟩

theorem contentAt?_below (h : node.contentAt? l ≠ some none) (name : String) (below : Location) :
    node.contentAt? (l ++ name :: below) = none := by
  rw [contentAt?, find?_append]
  cases hfind : node.find? l with
  | none => rfl
  | some old =>
    cases old with
    | file content => rfl
    | directory entries => simp [contentAt?, hfind, content?] at h

/-- A file that is put into a directory, where no directory is, changes nothing anywhere else. -/
theorem contentAt?_put (content : Bytes) (hdir : node.contentAt? dir = some none)
    (hplace : node.contentAt? (dir ++ [name]) ≠ some none) (l : Location) :
    (put (.file content) (dir ++ [name]) node).contentAt? l =
      if l = dir ++ [name] then some (some content) else node.contentAt? l := by
  induction dir generalizing node l with
  | nil =>
    obtain ⟨entries, rfl⟩ := exists_entries hdir
    cases l with
    | nil => rfl
    | cons first rest =>
      rw [List.nil_append] at hplace ⊢
      rw [put, contentAt?_directory_cons]
      by_cases hfirst : first = name
      · subst hfirst
        rw [lookup_setEntry_self]
        cases rest with
        | nil => simp [put, contentAt?, find?, content?]
        | cons second below =>
          have hbelow := contentAt?_below hplace second below
          rw [List.singleton_append] at hbelow
          rw [hbelow, if_neg (by simp)]
          rfl
      · simp [lookup_setEntry_of_ne hfirst, hfirst, contentAt?_directory_cons]
  | cons d ds ih =>
    obtain ⟨entries, rfl⟩ := exists_entries hdir
    rw [contentAt?_directory_cons] at hdir
    obtain ⟨inner, hlookup, hinner⟩ := Option.bind_eq_some_iff.1 hdir
    cases l with
    | nil => rfl
    | cons first rest =>
      simp only [List.cons_append, put, contentAt?_directory_cons, hlookup, Option.getD_some,
        Option.bind_some] at hplace ⊢
      by_cases hfirst : first = d
      · subst hfirst
        rw [lookup_setEntry_self, Option.bind_some, ih hinner hplace, hlookup]
        simp
      · simp [lookup_setEntry_of_ne hfirst, hfirst]

/-! Files that come and go -/

theorem setEntry_setEntry {old : FileNode} :
    setEntry name node (setEntry name old entries) = setEntry name node entries := by
  induction entries with
  | nil => simp [setEntry]
  | cons entry rest ih =>
    obtain ⟨key, before⟩ := entry
    by_cases hkey : key = name
    · simp [setEntry, hkey]
    · simp [setEntry, hkey, ih]

theorem setEntry_of_lookup (h : entries.lookup name = some node) :
    setEntry name node entries = entries := by
  induction entries with
  | nil => cases h
  | cons entry rest ih =>
    obtain ⟨key, old⟩ := entry
    by_cases hkey : key = name
    · simp_all [setEntry]
    · rw [List.lookup_cons, beq_false_of_ne (Ne.symm hkey)] at h
      rw [setEntry, if_neg hkey, ih h]

theorem filter_setEntry (h : entries.lookup name = none) :
    (setEntry name node entries).filter (·.1 != name) = entries := by
  induction entries with
  | nil => simp [setEntry]
  | cons entry rest ih =>
    obtain ⟨key, old⟩ := entry
    have hkey : key ≠ name := by
      rintro rfl
      simp at h
    rw [List.lookup_cons, beq_false_of_ne (Ne.symm hkey)] at h
    simp [setEntry, hkey, ih h]

theorem put_put {leaf before : FileNode} (hdir : node.contentAt? dir = some none) :
    put leaf (dir ++ [name]) (put before (dir ++ [name]) node) = put leaf (dir ++ [name]) node := by
  induction dir generalizing node with
  | nil =>
    obtain ⟨entries, rfl⟩ := exists_entries hdir
    simp [put, setEntry_setEntry]
  | cons d ds ih =>
    obtain ⟨entries, rfl⟩ := exists_entries hdir
    rw [contentAt?_directory_cons] at hdir
    obtain ⟨inner, hlookup, hinner⟩ := Option.bind_eq_some_iff.1 hdir
    simp [put, hlookup, lookup_setEntry_self, setEntry_setEntry, ih hinner]

theorem erase_put {leaf : FileNode} (hdir : node.contentAt? dir = some none)
    (hfresh : node.contentAt? (dir ++ [name]) = none) :
    erase (dir ++ [name]) (put leaf (dir ++ [name]) node) = node := by
  induction dir generalizing node with
  | nil =>
    obtain ⟨entries, rfl⟩ := exists_entries hdir
    rw [List.nil_append, contentAt?_directory_cons] at hfresh
    have hlookup : entries.lookup name = none := by
      cases hlookup : entries.lookup name with
      | none => rfl
      | some old => simp [hlookup, contentAt?, find?] at hfresh
    simp [put, erase, filter_setEntry hlookup]
  | cons d ds ih =>
    obtain ⟨entries, rfl⟩ := exists_entries hdir
    rw [contentAt?_directory_cons] at hdir
    obtain ⟨inner, hlookup, hinner⟩ := Option.bind_eq_some_iff.1 hdir
    rw [List.cons_append, contentAt?_directory_cons, hlookup, Option.bind_some] at hfresh
    have hback := ih hinner hfresh
    obtain ⟨first, rest, hrest⟩ : ∃ first rest, ds ++ [name] = first :: rest :=
      List.exists_cons_of_ne_nil (by simp)
    rw [hrest] at hback
    rw [List.cons_append, hrest, put, hlookup, Option.getD_some, erase]
    simp only [lookup_setEntry_self, setEntry_setEntry]
    rw [hback, setEntry_of_lookup hlookup]

end FileNode

namespace FileSystem

variable {fs fs' : FileSystem} {here l target : Location} {part path : String} {content : Bytes}
  {parts : List String}

def contentAt? (fs : FileSystem) (l : Location) : Option (Option Bytes) := fs.root.contentAt? l

theorem follow_eq_ok_iff : fs.follow here part = .ok l ↔ fs.contentAt? here = some none ∧
    if part = "" ∨ part = "." then here = l else if part = ".." then here.dropLast = l
    else part.utf8ByteSize ≤ maxName ∧ (fs.contentAt? (here ++ [part])).isSome = true ∧
      here ++ [part] = l := by
  rw [contentAt?, contentAt?, FileNode.contentAt?, FileNode.contentAt?, FileNode.find?_append,
    follow]
  cases hfind : fs.root.find? here with
  | none => simp
  | some node =>
    cases node with
    | file before => simp [FileNode.content?]
    | directory entries =>
      have hchild : (FileNode.find? [part] (.directory entries)) = entries.lookup part := by
        cases hlookup : entries.lookup part <;> simp [FileNode.find?, FileNode.child?, hlookup]
      simp only [Option.bind_some, hchild, Option.map_some, FileNode.content?, true_and,
        Option.isSome_map]
      by_cases hstay : part = "" ∨ part = "."
      · simp [hstay]
      · by_cases hup : part = ".."
        · simp [hup]
        · by_cases hlong : maxName < part.utf8ByteSize
          · simp [hstay, hup, hlong, Nat.not_le.2 hlong]
          · by_cases hthere : (entries.lookup part).isSome = true <;>
              simp [hstay, hup, hlong, Nat.not_lt.1 hlong, hthere]

theorem followAll_cons_eq_ok_iff : fs.followAll here (part :: parts) = .ok l ↔
    ∃ next, fs.follow here part = .ok next ∧ fs.followAll next parts = .ok l :=
  Except.bind_eq_ok

theorem followAll_append_eq_ok_iff {parts' : List String} :
    fs.followAll here (parts ++ parts') = .ok l ↔
      ∃ next, fs.followAll here parts = .ok next ∧ fs.followAll next parts' = .ok l := by
  induction parts generalizing here with
  | nil => simp [followAll]
  | cons part parts ih =>
    rw [List.cons_append, followAll_cons_eq_ok_iff]
    simp only [followAll_cons_eq_ok_iff, ih]
    constructor
    · rintro ⟨next, hnext, last, hlast, hl⟩
      exact ⟨last, ⟨next, hnext, hlast⟩, hl⟩
    · rintro ⟨last, ⟨next, hnext, hlast⟩, hl⟩
      exact ⟨next, hnext, last, hlast, hl⟩

theorem read_eq_ok_iff : fs.read path = .ok content ↔
    ∃ l, fs.locate path = .ok l ∧ fs.contentAt? l = some (some content) := by
  rw [read, Except.bind_eq_ok]
  refine exists_congr fun l => and_congr_right fun _ => ?_
  rw [contentAt?, FileNode.contentAt?]
  cases fs.root.find? l with
  | none => simp
  | some node => cases node <;> simp [FileNode.content?, pure, Except.pure]

/-- The second file system is the first one with a file at a location, where no directory was. -/
structure Replaces (fs fs' : FileSystem) (target : Location) (content : Bytes) : Prop where
  current : fs'.current = fs.current
  noDirectory : fs.contentAt? target ≠ some none
  written : fs'.contentAt? target = some (some content)
  elsewhere (l : Location) (h : l ≠ target) : fs'.contentAt? l = fs.contentAt? l

namespace Replaces

theorem directory_iff (h : fs.Replaces fs' target content) :
    fs'.contentAt? l = some none ↔ fs.contentAt? l = some none := by
  by_cases hl : l = target
  · subst hl
    simp [h.written, h.noDirectory]
  · rw [h.elsewhere l hl]

theorem isSome_of_isSome (h : fs.Replaces fs' target content)
    (hl : (fs.contentAt? l).isSome = true) : (fs'.contentAt? l).isSome = true := by
  by_cases he : l = target
  · rw [he, h.written, Option.isSome_some]
  · rwa [h.elsewhere l he]

theorem follow (h : fs.Replaces fs' target content) (hl : fs.follow here part = .ok l) :
    fs'.follow here part = .ok l := by
  obtain ⟨hdir, hpart⟩ := follow_eq_ok_iff.1 hl
  refine follow_eq_ok_iff.2 ⟨h.directory_iff.2 hdir, ?_⟩
  split at hpart
  · rwa [if_pos ‹_›]
  · split at hpart
    · rwa [if_neg ‹_›, if_pos ‹_›]
    · rw [if_neg ‹_›, if_neg ‹_›]
      exact ⟨hpart.1, h.isSome_of_isSome hpart.2.1, hpart.2.2⟩

theorem follow_of_ne (h : fs.Replaces fs' target content) (hl : fs'.follow here part = .ok l)
    (hne : l ≠ target) : fs.follow here part = .ok l := by
  obtain ⟨hdir, hpart⟩ := follow_eq_ok_iff.1 hl
  refine follow_eq_ok_iff.2 ⟨h.directory_iff.1 hdir, ?_⟩
  split at hpart
  · rwa [if_pos ‹_›]
  · split at hpart
    · rwa [if_neg ‹_›, if_pos ‹_›]
    · rw [if_neg ‹_›, if_neg ‹_›]
      obtain ⟨hshort, hthere, rfl⟩ := hpart
      rw [h.elsewhere _ hne] at hthere
      exact ⟨hshort, hthere, rfl⟩

theorem followAll (h : fs.Replaces fs' target content) (hl : fs.followAll here parts = .ok l) :
    fs'.followAll here parts = .ok l := by
  induction parts generalizing here with
  | nil => exact hl
  | cons part parts ih =>
    obtain ⟨next, hnext, hl⟩ := followAll_cons_eq_ok_iff.1 hl
    exact followAll_cons_eq_ok_iff.2 ⟨next, h.follow hnext, ih hl⟩

/-- A path that does not end at the new file does not lead through it either. -/
theorem followAll_of_ne (h : fs.Replaces fs' target content)
    (hl : fs'.followAll here parts = .ok l) (hne : l ≠ target) :
    fs.followAll here parts = .ok l := by
  induction parts generalizing here with
  | nil => exact hl
  | cons part parts ih =>
    obtain ⟨next, hnext, hl⟩ := followAll_cons_eq_ok_iff.1 hl
    have hnextNe : next ≠ target := by
      rintro rfl
      cases parts with
      | nil =>
        cases hl
        exact hne rfl
      | cons more parts =>
        obtain ⟨_, hmore, _⟩ := followAll_cons_eq_ok_iff.1 hl
        rw [follow_eq_ok_iff, h.written] at hmore
        cases hmore.1
    exact followAll_cons_eq_ok_iff.2 ⟨next, h.follow_of_ne hnext hnextNe, ih hl⟩

theorem start_eq (h : fs.Replaces fs' target content) (path : String) :
    fs'.start path = fs.start path := by
  rw [start, start, h.current]

theorem locate (h : fs.Replaces fs' target content) (hl : fs.locate path = .ok l) :
    fs'.locate path = .ok l := by
  obtain ⟨⟨here, parts⟩, hstart, hl⟩ := Except.bind_eq_ok.1 hl
  exact Except.bind_eq_ok.2 ⟨_, (h.start_eq path).trans hstart, h.followAll hl⟩

theorem locate_of_ne (h : fs.Replaces fs' target content) (hl : fs'.locate path = .ok l)
    (hne : l ≠ target) : fs.locate path = .ok l := by
  obtain ⟨⟨here, parts⟩, hstart, hl⟩ := Except.bind_eq_ok.1 hl
  exact Except.bind_eq_ok.2 ⟨_, (h.start_eq path).symm.trans hstart, h.followAll_of_ne hl hne⟩

end Replaces

theorem replaces_put {dir : Location} {name : String} (hdir : fs.contentAt? dir = some none)
    (hplace : fs.contentAt? (dir ++ [name]) ≠ some none) (content : Bytes) :
    fs.Replaces (fs.put content (dir ++ [name])) (dir ++ [name]) content where
  current := rfl
  noDirectory := hplace
  written := by
    have hput := FileNode.contentAt?_put content hdir hplace (dir ++ [name])
    rwa [if_pos rfl] at hput
  elsewhere l hne := by
    have hput := FileNode.contentAt?_put content hdir hplace l
    rwa [if_neg hne] at hput

/-- The way to a file that can be made or replaced: a directory, and a name in it. -/
theorem place_eq_name {dir : Location} {name : String}
    (h : fs.place path = .ok (dir, .name name false)) :
    ∃ here front, fs.start path = .ok (here, front ++ [name]) ∧
      fs.followAll here front = .ok dir ∧ fs.contentAt? dir = some none ∧
      ¬ (name = "" ∨ name = ".") ∧ name ≠ ".." ∧ name.utf8ByteSize ≤ maxName := by
  obtain ⟨⟨here, parts⟩, hstart, h⟩ := Except.bind_eq_ok.1 h
  dsimp only at h
  split at h
  · cases h
  · rename_i last front hback
    obtain ⟨inner, hinner, h⟩ := Except.bind_eq_ok.1 h
    obtain ⟨again, hagain, h⟩ := Except.bind_eq_ok.1 h
    obtain ⟨hdir, hstay⟩ := follow_eq_ok_iff.1 hagain
    rw [if_pos (.inr rfl)] at hstay
    split at h
    · cases h
    · rename_i hdots
      split at h
      · cases h
      · rename_i hshort
        simp only [pure, Except.pure, Except.ok.injEq, Prod.mk.injEq, LastName.name.injEq,
          decide_eq_false_iff_not] at h
        obtain ⟨rfl, rfl, hlength⟩ := h
        have hparts : parts.reverse = last :: front := by
          rw [← hback]
          refine ((List.dropWhile_suffix _).eq_of_length_le ?_).symm
          rw [List.length_reverse]
          exact Nat.not_lt.1 hlength
        have hname : last ≠ "" := by
          have hhead :=
            List.head?_dropWhile_not (fun part : String => decide (part = "")) parts.reverse
          rw [hback] at hhead
          simpa using hhead
        have hnotDots : last ≠ "." ∧ last ≠ ".." := by simpa using hdots
        refine ⟨here, front.reverse, ?_, ?_, ?_, ?_, hnotDots.2, Nat.not_lt.1 hshort⟩
        · rw [hstart, ← List.reverse_cons, ← hparts, List.reverse_reverse]
        · rw [hinner, hstay]
        · rw [← hstay, hdir]
        · simp [hname, hnotDots.1]

theorem Replaces.locate_target {dir : Location} {name : String} {front : List String}
    (h : fs.Replaces fs' (dir ++ [name]) content)
    (hstart : fs.start path = .ok (here, front ++ [name])) (hfront : fs.followAll here front = .ok dir)
    (hdir : fs.contentAt? dir = some none) (hstay : ¬ (name = "" ∨ name = ".")) (hup : name ≠ "..")
    (hshort : name.utf8ByteSize ≤ maxName) : fs'.locate path = .ok (dir ++ [name]) := by
  refine Except.bind_eq_ok.2 ⟨_, (h.start_eq path).trans hstart, ?_⟩
  refine followAll_append_eq_ok_iff.2 ⟨dir, h.followAll hfront, ?_⟩
  refine followAll_cons_eq_ok_iff.2 ⟨_, follow_eq_ok_iff.2 ⟨?_, ?_⟩, rfl⟩
  · exact h.directory_iff.2 hdir
  · rw [if_neg hstay, if_neg hup]
    exact ⟨hshort, by rw [h.written, Option.isSome_some], rfl⟩

end FileSystem

end RuleMachine

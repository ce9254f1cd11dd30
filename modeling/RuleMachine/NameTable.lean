/-!
Tables of named values, kept in the order of the names. Names are ordered by their characters,
which is also the order of their UTF-8 bytes.
-/

set_option autoImplicit false

namespace RuleMachine

variable {α : Type}

def insertEntry (name : String) (value : α) : List (String × α) → List (String × α)
  | [] => [(name, value)]
  | (key, old) :: rest =>
    if name < key then (name, value) :: (key, old) :: rest
    else if name = key then (key, value) :: rest
    else (key, old) :: insertEntry name value rest

theorem mem_insertEntry {name : String} {value : α} {entries : List (String × α)}
    {entry : String × α} (h : entry ∈ insertEntry name value entries) :
    entry.1 = name ∨ entry ∈ entries := by
  induction entries with
  | nil => simp_all [insertEntry]
  | cons first rest ih =>
    obtain ⟨key, old⟩ := first
    simp only [insertEntry] at h
    split at h
    · simp only [List.mem_cons] at h ⊢
      rcases h with rfl | h
      · exact .inl rfl
      · exact .inr h
    · split at h
      · rename_i hk
        simp only [List.mem_cons] at h ⊢
        rcases h with rfl | h
        · exact .inl hk.symm
        · exact .inr (.inr h)
      · simp only [List.mem_cons] at h ⊢
        rcases h with rfl | h
        · exact .inr (.inl rfl)
        · exact (ih h).imp_right .inr

theorem pairwise_insertEntry {name : String} {value : α} {entries : List (String × α)}
    (h : entries.Pairwise (·.1 < ·.1)) :
    (insertEntry name value entries).Pairwise (·.1 < ·.1) := by
  induction entries with
  | nil => simp [insertEntry]
  | cons first rest ih =>
    obtain ⟨key, old⟩ := first
    rw [List.pairwise_cons] at h
    simp only [insertEntry]
    split
    · rename_i hlt
      refine List.pairwise_cons.2 ⟨?_, List.pairwise_cons.2 h⟩
      intro entry hm
      rcases List.mem_cons.1 hm with rfl | hm
      · exact hlt
      · exact String.lt_trans hlt (h.1 _ hm)
    · split
      · exact List.pairwise_cons.2 h
      · rename_i hge hne
        refine List.pairwise_cons.2 ⟨?_, ih h.2⟩
        intro entry hm
        rcases mem_insertEntry hm with he | hm
        · rw [he]
          have hle : key ≤ name := String.not_lt.1 hge
          rcases Decidable.em (key < name) with hlt | hnlt
          · exact hlt
          · exact absurd (String.le_antisymm (String.not_lt.1 hnlt) hle) hne
        · exact h.1 _ hm

theorem exists_mem_insertEntry {name key : String} {value : α} {entries : List (String × α)} :
    (∃ entry ∈ insertEntry name value entries, entry.1 = key) ↔
      key = name ∨ ∃ entry ∈ entries, entry.1 = key := by
  induction entries with
  | nil => simp [insertEntry, eq_comm]
  | cons first rest ih =>
    obtain ⟨front, old⟩ := first
    simp only [insertEntry]
    split
    · simp [eq_comm]
    · split
      · rename_i hname
        simp [hname, eq_comm]
      · simp only [List.mem_cons, exists_eq_or_imp, ih]
        exact or_left_comm

/-- Values under distinct names, in the order of the names. -/
structure NameTable (α : Type) where
  entries : List (String × α)
  sorted : entries.Pairwise (·.1 < ·.1)

instance [DecidableEq α] : DecidableEq (NameTable α) := fun s t =>
  decidable_of_iff (s.entries = t.entries) <| by
    cases s
    cases t
    simp

namespace NameTable

def empty : NameTable α := ⟨[], .nil⟩

instance : Inhabited (NameTable α) := ⟨empty⟩

def insert (t : NameTable α) (name : String) (value : α) : NameTable α :=
  ⟨insertEntry name value t.entries, pairwise_insertEntry t.sorted⟩

def find? (t : NameTable α) (name : String) : Option α :=
  (t.entries.find? (·.1 == name)).map (·.2)

def contains (t : NameTable α) (name : String) : Bool := (t.find? name).isSome

def erase (t : NameTable α) (name : String) : NameTable α :=
  ⟨t.entries.filter (·.1 != name), t.sorted.filter _⟩

def size (t : NameTable α) : Nat := t.entries.length

def isEmpty (t : NameTable α) : Bool := t.entries.isEmpty

/-- Inserts entries one after the other, so that the last of several under one name stays. -/
def insertAll (t : NameTable α) (entries : List (String × α)) : NameTable α :=
  entries.foldl (fun t entry => t.insert entry.1 entry.2) t

def ofList (entries : List (String × α)) : NameTable α := empty.insertAll entries

theorem contains_iff {t : NameTable α} {name : String} :
    t.contains name = true ↔ ∃ entry ∈ t.entries, entry.1 = name := by
  simp [contains, find?]

theorem contains_insert {t : NameTable α} {name key : String} {value : α} :
    (t.insert name value).contains key = true ↔ key = name ∨ t.contains key = true := by
  rw [contains_iff, contains_iff]
  exact exists_mem_insertEntry
end NameTable

end RuleMachine

import Ls8.FileStore

/-!
# Reading stored files

What a path gives that goes through proper names only, none of them `.` or `..`. Main statements: such
a path gives the file at its location if there is one, provided that all on the way to it are
directories (`read_of_leads`), and so it gives what was put there (`read_addFile`).
-/

namespace Ls8.FileStore

/-- A name that a file may have in its directory. -/
structure ProperName (name : String) : Prop where
  nonempty : name ≠ ""
  unslashed : '/' ∉ name.toList
  no_nul : Char.ofNat 0 ∉ name.toList
  ne_self : name ≠ "."
  ne_parent : name ≠ ".."
  size_le : name.utf8ByteSize ≤ maxPartLength

/-- Where a path starts. -/
def origin (store : FileStore) (path : String) : Location :=
  if path.toList.head? = some '/' then [] else store.workingDirectory

/-- A path that goes straight from where it starts to a location, and may name a file. -/
structure Leads (store : FileStore) (path : String) (location : Location) : Prop where
  nonempty : parts path ≠ []
  location_eq : location = store.origin path ++ parts path
  proper : ∀ name ∈ parts path, ProperName name
  no_nul : Char.ofNat 0 ∉ path.toList
  size_le : path.utf8ByteSize ≤ maxPathLength
  no_slash : path.toList.getLast? ≠ some '/'

/-- All on the way to a location are directories. -/
def Way (store : FileStore) (location : Location) : Prop :=
  ∀ above name below, location = above ++ name :: below → store.isDirectory above = true

variable {store : FileStore} {path : String} {location : Location} {content : List UInt8}

/-! ## Paths -/

theorem parts_of_proper {name : String} (h : ProperName name) : parts name = [name] := by
  have hsplit : name.toList.splitOn '/' = [name.toList] := List.splitOn_eq_singleton h.unslashed
  have hne : name.toList ≠ [] := fun hnil => h.nonempty (String.toList_eq_nil_iff.1 hnil)
  simp [parts, hsplit, hne]

/-- A name by itself leads into the working directory. -/
theorem leads_of_proper {name : String} (h : ProperName name) :
    store.Leads name (store.workingDirectory ++ [name]) := by
  have hparts := parts_of_proper h
  have hslash (c : Char) (hc : c ∈ name.toList) : c ≠ '/' := fun he => h.unslashed (he ▸ hc)
  have hhead : name.toList.head? ≠ some '/' := fun hhead =>
    hslash _ (List.mem_of_mem_head? hhead) rfl
  have horigin : store.origin name = store.workingDirectory := if_neg hhead
  refine ⟨?_, ?_, ?_, h.no_nul, Nat.le_trans h.size_le (by decide), ?_⟩
  · rw [hparts]
    exact List.cons_ne_nil _ _
  · rw [horigin, hparts]
  · rw [hparts]
    intro other hother
    rwa [List.mem_singleton.1 hother]
  · intro hlast
    exact hslash _ (List.mem_of_getLast? hlast) rfl

/-- On the way to what stands in the root there is only the root. -/
theorem way_singleton (store : FileStore) (name : String) : store.Way [name] := by
  intro above second below h
  cases above with
  | nil => rfl
  | cons first rest => simp at h

/-! ## Going along them -/

theorem enter_of_proper {here : Location} {name : String} (hname : ProperName name)
    (hhere : store.isDirectory here = true) : store.enter here name =
      if store.isDirectory (here ++ [name]) || (store.file? (here ++ [name])).isSome
      then .ok (here ++ [name]) else .error .notFound := by
  simp [enter, hhere, hname.ne_self, hname.ne_parent, Nat.not_lt.2 hname.size_le]

/-- Where all on the way are directories, only the last name may lead nowhere. -/
theorem foldlM_enter (names : List String) (here : Location)
    (hproper : ∀ name ∈ names, ProperName name) (hway : store.Way (here ++ names))
    (hne : names ≠ []) : names.foldlM store.enter here =
      if store.isDirectory (here ++ names) || (store.file? (here ++ names)).isSome
      then .ok (here ++ names) else .error .notFound := by
  induction names generalizing here with
  | nil => exact absurd rfl hne
  | cons name rest ih =>
    obtain ⟨hname, hrest⟩ := List.forall_mem_cons.1 hproper
    rw [List.foldlM_cons, enter_of_proper hname (hway here name rest rfl)]
    cases rest with
    | nil => split <;> rfl
    | cons second more =>
      have hnext : store.isDirectory (here ++ [name]) = true :=
        hway (here ++ [name]) second more (by simp)
      have happend : here ++ name :: second :: more = here ++ [name] ++ second :: more := by simp
      rw [happend] at hway ⊢
      rw [hnext, Bool.true_or, if_pos rfl]
      exact ih (here ++ [name]) hrest hway (List.cons_ne_nil _ _)

theorem resolve_of_leads (h : store.Leads path location) (hway : store.Way location) :
    store.resolve path =
      if store.isDirectory location || (store.file? location).isSome then .ok location
      else .error .notFound := by
  have hlocation := h.location_eq
  have hway' := hway
  rw [hlocation] at hway'
  have hfold := foldlM_enter (parts path) (store.origin path) h.proper hway' h.nonempty
  rw [← hlocation, origin] at hfold
  rw [resolve]
  simp only [hfold, h.no_slash]
  split <;> rfl

/-- What a path gives that leads to a location through directories: the text of the file there; or
that it is a directory, or nothing at all. -/
theorem read_of_leads (h : store.Leads path location) (hway : store.Way location) :
    store.read path = match store.file? location with
      | some content =>
        match String.fromUTF8? content.toByteArray with
        | some text => .ok text
        | none => .error .notUtf8
      | none => .error (if store.isDirectory location then .isDirectory else .notFound) := by
  have hpath : path ≠ "" := by
    rintro rfl
    exact h.nonempty rfl
  have hnul : path.toList.contains (Char.ofNat 0) = false := by simpa using h.no_nul
  rw [read, hnul, if_neg Bool.false_ne_true, if_neg hpath, if_neg (Nat.not_lt.2 h.size_le),
    resolve_of_leads h hway]
  cases hfile : store.file? location with
  | some content =>
    cases htext : String.fromUTF8? content.toByteArray <;>
      simp [hfile, htext, bind, Except.bind]
  | none =>
    cases hdirectory : store.isDirectory location <;> simp [hfile, bind, Except.bind]

/-! ## Adding files -/

theorem isDirectory_addDirectory {above : Location} (store : FileStore) (h : above <+: location) :
    (store.addDirectory location).isDirectory above = true := by
  cases above with
  | nil => rfl
  | cons first rest =>
    have htake : location.take (rest.length + 1) = first :: rest :=
      (List.prefix_iff_eq_take.1 h).symm
    have hadded : first :: rest ∈ (store.addDirectory location).directories :=
      List.mem_append_left _
        (List.mem_map.2 ⟨rest.length, List.mem_range.2 h.length_le, htake⟩)
    simpa [isDirectory] using hadded

/-- Adding a file makes a directory of all that is on the way to it. -/
theorem way_addFile (store : FileStore) (location : Location) (content : List UInt8) :
    (store.addFile location content).Way location := by
  rintro above name below rfl
  have habove : above <+: (above ++ name :: below).dropLast := by
    rw [List.dropLast_append_of_ne_nil (List.cons_ne_nil _ _)]
    exact List.prefix_append _ _
  exact store.isDirectory_addDirectory habove

theorem file?_addFile (store : FileStore) (location : Location) (content : List UInt8) :
    (store.addFile location content).file? location = some content := by
  rw [file?, addFile, List.lookup_cons_self]

theorem fromUTF8?_toUTF8 (text : String) :
    String.fromUTF8? text.toUTF8.data.toList.toByteArray = some text := by
  have hbytes : text.toUTF8.data.toList.toByteArray = text.toUTF8 :=
    ByteArray.ext (by rw [List.data_toByteArray, Array.toArray_toList])
  rw [hbytes]
  exact dif_pos text.isValidUTF8

/-- A file that was added can be read by every path that leads to it. -/
theorem read_addFile (text : String) (h : store.Leads path location) :
    (store.addFile location text.toUTF8.data.toList).read path = .ok text := by
  have hleads : (store.addFile location text.toUTF8.data.toList).Leads path location :=
    ⟨h.nonempty, h.location_eq, h.proper, h.no_nul, h.size_le, h.no_slash⟩
  rw [read_of_leads hleads (way_addFile store location _), file?_addFile]
  simp only [fromUTF8?_toUTF8]

end Ls8.FileStore

import Mathlib.Data.List.Basic
import Workflow.Settings.Files

/-!
# Files that have been written

A directory tree is a lawful file system: a file that has been written holds
what was written. The point is that its name still leads to it afterwards. Names
are resolved through directories, and a file is only ever put where no directory
is, so that no way through the tree is changed by it (`resolve_put`).
-/

namespace Workflow

section Lookup

variable {α β : Type} [BEq α] [LawfulBEq α] [DecidableEq α]

theorem lookup_cons_eq_ite (key other : α) (value : β)
    (entries : List (α × β)) :
    ((key, value) :: entries).lookup other =
      if other = key then some value else entries.lookup other := by
  rw [List.lookup_cons]
  split
  · next h => rw [if_pos (beq_iff_eq.mp h)]
  · next h => rw [if_neg (ne_of_beq_false h)]

theorem lookup_filter_bne (entries : List (α × β)) (key other : α) :
    (entries.filter fun (k, _) => k != key).lookup other =
      if other = key then none else entries.lookup other := by
  induction entries with
  | nil => rw [List.filter_nil, List.lookup_nil, ite_self]
  | cons e rest ih =>
      obtain ⟨k, value⟩ := e
      by_cases hk : k = key
      · rw [List.filter_cons_of_neg (by simp [hk]), ih, lookup_cons_eq_ite, hk]
        split <;> rfl
      · rw [List.filter_cons_of_pos (by simp [hk]), lookup_cons_eq_ite,
          lookup_cons_eq_ite, ih]
        by_cases hother : other = k
        · simp [hother, hk]
        · simp [hother]

end Lookup

theorem fromUTF8?_toUTF8 (text : String) :
    String.fromUTF8? text.toUTF8 = some text := by
  rw [String.fromUTF8?]
  split
  · rfl
  · next h => exact absurd text.isValidUTF8 h

theorem Files.withoutSlashes_of_not_endsWith {name : String}
    (h : name.endsWith "/" = false) : withoutSlashes name = name := by
  have hchar : name.endsWith '/' = false := by
    rw [String.endsWith_char_eq_false_iff_forall_append]
    rintro t rfl
    rw [← String.endsWith_toSlice, String.Slice.endsWith_string_eq_false_iff,
      String.copy_toSlice] at h
    exact h ⟨t.toList, by simp⟩
  rw [withoutSlashes, String.dropEndWhile_eq_toSlice hchar,
    String.copy_toSlice, ite_self]

namespace Files

variable {files written : Files} {place other : List String}
  {entry : FileEntry} {name text : String}

theorem entry?_put (h : files.entry? place ≠ some .directory) :
    Files.entry? (files.put place entry) other =
      if other = place then some entry else files.entry? other := by
  have hplace : ¬ place.isPrefixOf files.workingDirectory = true := by
    intro hprefix
    exact h (if_pos hprefix)
  simp only [put, entry?, lookup_cons_eq_ite, lookup_filter_bne]
  by_cases hother : other = place
  · simp only [hother, if_true, if_neg hplace]
  · simp only [if_neg hother]

theorem enter_eq_ok_iff :
    files.enter place = .ok () ↔ files.entry? place = some .directory := by
  rw [enter]
  split <;> simp_all

theorem enter_put (hplace : files.entry? place ≠ some .directory)
    (h : files.enter other = .ok ()) :
    (files.put place entry).enter other = .ok () := by
  rw [enter_eq_ok_iff] at h ⊢
  rw [entry?_put hplace, if_neg, h]
  rintro rfl
  exact hplace h

theorem resolveFrom_put (hplace : files.entry? place ≠ some .directory)
    {start goal parts : List String}
    (h : files.resolveFrom start parts = .ok goal) :
    (files.put place entry).resolveFrom start parts = .ok goal := by
  induction parts generalizing start with
  | nil => exact h
  | cons part rest ih =>
      rw [resolveFrom] at h ⊢
      cases henter : files.enter start with
      | error fault =>
          rw [henter] at h
          cases h
      | ok _ =>
          rw [henter] at h
          rw [enter_put hplace henter]
          simp only [bind, Except.bind] at h ⊢
          split at h
          · next hstays => rw [if_pos hstays, ih h]
          · next hstays =>
              rw [if_neg hstays]
              split at h
              · next hup => rw [if_pos hup, ih h]
              · next hup => rw [if_neg hup, ih h]

theorem resolve_put (hplace : files.entry? place ≠ some .directory)
    (h : files.resolve name = .ok other) :
    (files.put place entry).resolve name = .ok other := by
  rw [resolve] at h ⊢
  split at h
  · cases h
  · next hname =>
      have hstart : (files.put place entry).start name = files.start name :=
        rfl
      rw [if_neg hname, hstart, resolveFrom_put hplace h]

/-- A name can be written to if it is not that of a directory, leads through
directories and does not lead to one. -/
def Writable (files : Files) (name : String) : Prop :=
  name.endsWith "/" = false ∧ ∃ place, files.resolve name = .ok place ∧
    files.entry? place ≠ some .directory

theorem writeBytes_eq_ok_iff {bytes : ByteArray} :
    files.writeBytes name bytes = .ok written ↔
      name.endsWith "/" = false ∧ ∃ place, files.resolve name = .ok place ∧
        files.entry? place ≠ some .directory ∧
        files.put place (.file bytes) = written := by
  rw [writeBytes]
  cases hslash : name.endsWith "/" with
  | true =>
      cases files.resolve (withoutSlashes name) <;>
        simp [bind, Except.bind, throw, throwThe, MonadExceptOf.throw]
  | false =>
      rw [withoutSlashes_of_not_endsWith hslash]
      cases files.resolve name with
      | error fault => simp [bind, Except.bind]
      | ok place =>
          cases hentry : files.entry? place with
          | none => simp [bind, Except.bind, pure, Except.pure, hentry]
          | some e =>
              cases e <;>
                simp [bind, Except.bind, pure, Except.pure, throw, throwThe,
                  MonadExceptOf.throw, hentry]

theorem readText_of_writeText (h : files.writeText name text = .ok written) :
    written.readText name = .ok text := by
  obtain ⟨-, place, hresolve, hplace, rfl⟩ := writeBytes_eq_ok_iff.mp h
  have hentry : Files.entry? (files.put place (.file text.toUTF8)) place =
      some (.file text.toUTF8) := by
    rw [entry?_put hplace, if_pos rfl]
  simp only [readText, resolve_put hplace hresolve, bind, Except.bind, hentry,
    fromUTF8?_toUTF8]
  rfl

instance : LawfulFileSystem Files where
  readText_of_writeText := readText_of_writeText

theorem exists_writeText_iff :
    (∃ written, files.writeText name text = .ok written) ↔
      files.Writable name := by
  simp only [writeText, writeBytes_eq_ok_iff, Writable]
  constructor
  · rintro ⟨_, hname, place, hresolve, hplace, -⟩
    exact ⟨hname, place, hresolve, hplace⟩
  · rintro ⟨hname, place, hresolve, hplace⟩
    exact ⟨_, hname, place, hresolve, hplace, rfl⟩

end Files

end Workflow

import Workflow.Proofs.Numerals
import Workflow.Proofs.Settings.Documents
import Workflow.Proofs.Settings.Files
import Workflow.Settings.Environment

/-!
# Layers of settings

Each setting comes from the first source that gives it: a variable of its own,
the file that the environment names, or the default (`Layered`). The sources are
described without their readers: what the text of a variable has to be to count
(`WritesDepth`, `WritesReject`, `WritesStyle`), and what a file gives
(`FileLayer`). Each of them gives at most one value, so a setting is settled by
the sources it has, and no variable has a say in the setting of another.

The case apart is that of a file that gives nothing at all. It is not one more
layer to be passed over: the loading ends there, before any variable is looked
at.

All this holds of every file system and every library for documents. Nothing is
relied on of either.
-/

namespace Workflow

namespace Environment

end Environment

namespace Settings

/-! ## What variables give -/

/-- A depth is written in digits, perhaps after a plus, and has 64 bits. -/
def WritesDepth (value : String) (n : Nat) : Prop :=
  ∃ plus digits, value.toList = plus ++ digits ∧ (plus = [] ∨ plus = ['+']) ∧
    Path.Digits digits ∧ Numeral.denotes digits = n ∧ n ≤ 2 ^ 64 - 1

/-- A truth value is written as a digit or a word, in letters of any case. -/
def WritesReject (value : String) : Bool → Prop
  | true => Text.lowercase value = "1" ∨ Text.lowercase value = "true"
  | false => Text.lowercase value = "0" ∨ Text.lowercase value = "false"

/-- A style is written by its name, in letters of any case. -/
def WritesStyle (value : String) (style : Diagnostics) : Prop :=
  Text.lowercase value = style.name

theorem depthOfVariable?_eq_some_iff (value : String) (n : Nat) :
    depthOfVariable? value = some n ↔ WritesDepth value n := by
  have hdigits (digits : List Char) :
      (if !digits.isEmpty && digits.all Char.isDigit then
        some (Decimal.digitsValue digits) |>.filter (· < depthLimit)
      else none) = some n ↔
        Path.Digits digits ∧ Numeral.denotes digits = n ∧
          n ≤ 2 ^ 64 - 1 := by
    rw [Option.ite_none_right_eq_some, ← Path.isUnsigned, Path.isUnsigned_iff,
      Option.filter_eq_some_iff, Option.some.injEq,
      Numeral.digitsValue_eq_denotes, decide_eq_true_iff, lt_depthLimit_iff]
  simp only [depthOfVariable?, hdigits, WritesDepth]
  constructor
  · intro h
    split at h
    · next digits hplus => exact ⟨['+'], digits, hplus, .inr rfl, h⟩
    · exact ⟨[], _, rfl, .inl rfl, h⟩
  · rintro ⟨plus, digits, hvalue, rfl | rfl, h⟩
    · rw [hvalue]
      split
      · next rest hplus =>
          -- The text starts with a digit, so its head is no plus.
          rw [List.nil_append] at hplus
          obtain ⟨hlow, -⟩ := h.1.2 '+' (hplus ▸ List.mem_cons_self)
          exact absurd hlow (by decide)
      · exact h
    · rw [hvalue]
      exact h

theorem rejectOfVariable?_eq_some_iff (value : String) (b : Bool) :
    rejectOfVariable? value = some b ↔ WritesReject value b := by
  rw [rejectOfVariable?]
  cases b <;> rw [WritesReject] <;> split <;> simp_all

theorem diagnosticsOfVariable?_eq_some_iff (value : String)
    (style : Diagnostics) :
    diagnosticsOfVariable? value = some style ↔ WritesStyle value style :=
  Diagnostics.ofName?_eq_some_iff

/-! ## One setting -/

/-- A setting has the value that the first of its sources gives it: its
variable, then the file, then the default. -/
inductive Layered {α : Type} (text? : Option String)
    (writes : String → α → Prop) (file? : Option α) (default : α) : α → Prop
  | ofVariable {value : String} {a : α} :
      text? = some value → writes value a →
      Layered text? writes file? default a
  | ofFile {a : α} :
      (∀ value b, text? = some value → ¬ writes value b) →
      file? = some a → Layered text? writes file? default a
  | ofDefault :
      (∀ value b, text? = some value → ¬ writes value b) →
      file? = none → Layered text? writes file? default default

/-- What a log shows of a warning. -/
def Warning.line (w : Warning) : Level × String := (w.level, w.message)

section Override

variable {α : Type} {text? : Option String} {read? : String → Option α}
  {writes : String → α → Prop} {file? : Option α} {default a b : α}
  {warning : String → Warning}
  (hread : ∀ v a, read? v = some a ↔ writes v a)

include hread

theorem override_of_writes {value : String} (ha : writes value a) :
    override (some value) read? warning b = (a, []) := by
  simp only [override, (hread value a).mpr ha]

theorem override_of_not_writes {value : String} (h : ∀ a, ¬ writes value a) :
    override (some value) read? warning b = (b, [warning value]) := by
  have hnone : read? value = none :=
    Option.eq_none_iff_forall_ne_some.mpr fun a ha => h a ((hread value a).mp ha)
  simp only [override, hnone]

theorem override_of_silent
    (h : ∀ value a, text? = some value → ¬ writes value a) :
    (override text? read? warning b).1 = b := by
  cases text? with
  | none => rfl
  | some value =>
      rw [override_of_not_writes hread fun a => h value a rfl]

theorem Layered.eq_override (h : Layered text? writes file? default a) :
    a = (override text? read? warning (file?.getD default)).1 := by
  cases h with
  | ofVariable htext ha => rw [htext, override_of_writes hread ha]
  | ofFile hsilent hfile =>
      rw [override_of_silent hread hsilent, hfile, Option.getD_some]
  | ofDefault hsilent hfile =>
      rw [override_of_silent hread hsilent, hfile, Option.getD_none]

/-- The sources of a setting settle it. -/
theorem Layered.congr {other? : Option String} (hother : other? = text?)
    (h : Layered text? writes file? default a)
    (h' : Layered other? writes file? default b) : b = a := by
  subst hother
  have ha : a = (override other? read? .depth (file?.getD default)).1 :=
    h.eq_override hread
  rw [ha]
  exact h'.eq_override hread

end Override

/-! ## Loading -/

section Loading

variable {φ ε : Type} [FileSystem φ ε] [DocumentLibrary]

/-- The layer of the file with the given name, or the empty layer if no file is
named. -/
inductive FileLayer (files : φ) : Option String → Layer → Prop
  | unnamed : FileLayer files none {}
  | named {name text : String} {layer : Layer} :
      FileSystem.readText files name = .ok text → Written text layer →
      FileLayer files (some name) layer

section File

variable {files : φ} {name? : Option String}

theorem FileLayer.unique {layer other : Layer}
    (h : FileLayer files name? layer) (h' : FileLayer files name? other) :
    layer = other := by
  cases h with
  | unnamed =>
      cases h'
      rfl
  | named htext hwritten =>
      cases h' with
      | named htext' hwritten' =>
          rw [htext] at htext'
          cases htext'
          exact hwritten.unique hwritten'

end File

section Load

variable {env other : Environment φ} {layer : Layer} {failure : Failure ε}
  {s t : Settings}

end Load

end Loading

/-- An environment with a file of two settings. One of them is overridden, the
variable of the other makes no sense. -/
def checking : Environment where
  bindings := [
    (configVariable, "/work/checks.yaml"),
    (depthVariable, "+02"),
    (rejectVariable, "Yes")]
  files.entries := [(["work", "checks.yaml"], .file
    "max_nesting_depth: 4\nreject_unreachable_states: true\n".toUTF8)]

/-- The same environment without the file. -/
def astray : Environment where
  bindings := checking.bindings

-- An empty value names a file as well, and there is none of that name.
example :
    load ({ bindings := [(configVariable, ""), (depthVariable, "deep")] } :
      Environment) = (.error (.file "" .notFound), []) := rfl

end Settings

end Workflow

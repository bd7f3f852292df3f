import Mathlib.Data.List.Nodup
import Mathlib.Data.List.Perm.Subperm
import Mathlib.Data.Set.List
import Workflow.Proofs.Settings.Layers
import Workflow.Proofs.Yaml.Library

/-!
# Settings that are read back

Settings are written down in two ways, as a document and as the values of
environment variables, and both ways they are read back as they were
(`round_trip`). For a document that holds line by line: any of its lines, in any
order, give the settings that they name, and the others take their defaults.

The files are those of any lawful file system, and the documents those of any
library that reads and writes lines (`LineLibrary`). Keys and values of the
saved text are words, so the library reads the lines for what they are. What is
left is that the words mean what they were written for, each setting asking for
a value of another kind.
-/

namespace Workflow

/-! ## The lines of the saved text -/

/-- The settings by name. -/
inductive Setting where
  | depth
  | reject
  | diagnostics
deriving DecidableEq, Repr

namespace Setting

def all : List Setting := [.depth, .reject, .diagnostics]

/-- The key of a setting in a document. -/
def key : Setting → String
  | .depth => "max_nesting_depth"
  | .reject => "reject_unreachable_states"
  | .diagnostics => "diagnostics"

theorem key_injective : Function.Injective key := by
  rintro (_ | _ | _) (_ | _ | _) h <;> first | rfl | exact absurd h (by decide)

end Setting

namespace Settings

open Document

variable {s : Settings}

/-- The lines of the saved text, one per setting. -/
def lines (s : Settings) : List String :=
  ["max_nesting_depth: " ++ toString s.maxNestingDepth,
    "reject_unreachable_states: " ++
      (if s.rejectUnreachableStates then "true" else "false"),
    "diagnostics: " ++ s.diagnostics.name]

/-- The text that a setting is saved as. -/
def valueText (s : Settings) : Setting → String
  | .depth => toString s.maxNestingDepth
  | .reject => if s.rejectUnreachableStates then "true" else "false"
  | .diagnostics => s.diagnostics.name

/-- The entry of a setting. -/
def entry (s : Settings) (x : Setting) : String × String :=
  (x.key, s.valueText x)

/-- The line of a setting. -/
def line (s : Settings) (x : Setting) : String := Document.line (s.entry x)

theorem lines_eq (s : Settings) : s.lines = Setting.all.map s.line := by
  simp only [lines, Setting.all, line, Document.line, entry, valueText,
    Setting.key, List.map_cons, List.map_nil]
  rfl

theorem line_injective (s : Settings) : Function.Injective s.line := by
  have hhead (x : Setting) : (s.line x).toList.head? = x.key.toList.head? := by
    cases x <;> simp [line, Document.line, entry, Setting.key]
  intro x y h
  have hxy : x.key.toList.head? = y.key.toList.head? := by
    rw [← hhead, ← hhead, h]
  cases x <;> cases y <;> first | rfl | exact absurd hxy (by decide)

theorem isEntry_entry (s : Settings) (x : Setting) : IsEntry (s.entry x) := by
  have hkey : IsWord x.key.toList ∧ x.key.toList.length ≤ 1024 := by
    cases x <;>
      exact ⟨⟨by decide, List.all_eq_true.mp (by decide)⟩, by decide⟩
  have hvalue : IsWord (s.valueText x).toList := by
    cases x with
    | depth =>
        rw [valueText, Numeral.toList_toString]
        obtain ⟨hne, hdigits⟩ := Numeral.digits_toDigits s.maxNestingDepth
        refine ⟨hne, fun c hc => ?_⟩
        rw [isWordChar, Char.isAlphanum, Path.isDigit_iff.mpr (hdigits c hc),
          Bool.or_true, Bool.true_or]
    | reject =>
        rw [valueText]
        split <;> exact ⟨by decide, List.all_eq_true.mp (by decide)⟩
    | diagnostics =>
        rw [valueText]
        cases s.diagnostics <;>
          exact ⟨by decide, List.all_eq_true.mp (by decide)⟩
  exact ⟨hkey.1, hkey.2, hvalue⟩

/-! ## What is left of the lines -/

/-- The settings that some lines of the saved text keep; all others take their
defaults. -/
def keeping (s : Settings) (ls : List String) : Settings where
  maxNestingDepth := if s.line .depth ∈ ls then s.maxNestingDepth else 0
  rejectUnreachableStates :=
    if s.line .reject ∈ ls then s.rejectUnreachableStates else false
  diagnostics := if s.line .diagnostics ∈ ls then s.diagnostics else .split

/-- The layer that some settings give. -/
def layer (s : Settings) (kept : List Setting) : Layer where
  depth := if .depth ∈ kept then some s.maxNestingDepth else none
  reject := if .reject ∈ kept then some s.rejectUnreachableStates else none
  style := if .diagnostics ∈ kept then some s.diagnostics else none

/-- What has been read for each of some settings, in their order. -/
def Read (s : Settings) (kept : List Setting)
    (entries : List (String × Value)) : Prop :=
  List.Forall₂ (fun x e => e.1 = x.key ∧ Plain (s.valueText x) e.2) kept entries

theorem Read.map_fst {kept : List Setting} {entries : List (String × Value)}
    (h : s.Read kept entries) :
    entries.map Prod.fst = kept.map Setting.key := by
  induction h with
  | nil => rfl
  | cons hentry _ ih => rw [List.map_cons, List.map_cons, hentry.1, ih]

/-- The entry of one setting among those of others. -/
theorem Read.exists_of_append {before after : List Setting} {x : Setting}
    {entries : List (String × Value)}
    (h : s.Read (before ++ x :: after) entries) :
    ∃ front v back, entries = front ++ (x.key, v) :: back ∧
      Plain (s.valueText x) v ∧ s.Read (before ++ after) (front ++ back) := by
  induction before generalizing entries with
  | nil =>
      obtain _ | ⟨⟨hkey, hplain⟩, hrest⟩ := h
      exact ⟨[], _, _, by rw [← hkey]; rfl, hplain, hrest⟩
  | cons y before ih =>
      obtain _ | ⟨hentry, hrest⟩ := h
      obtain ⟨front, v, back, rfl, hplain, hothers⟩ := ih hrest
      exact ⟨_ :: front, v, back, rfl, hplain, .cons hentry hothers⟩

theorem Read.ne_key {kept : List Setting} {entries : List (String × Value)}
    (h : s.Read kept entries) {x : Setting} (hx : x ∉ kept) :
    ∀ e ∈ entries, e.1 ≠ x.key := by
  intro e he heq
  have hmem : e.1 ∈ kept.map Setting.key := by
    rw [← h.map_fst]
    exact List.mem_map_of_mem he
  rw [heq, List.mem_map_of_injective Setting.key_injective] at hmem
  exact hx hmem

/-- Of entries for different settings, at most one is for a given setting. -/
theorem Read.given {α : Type} {kept : List Setting}
    {entries : List (String × Value)} (h : s.Read kept entries)
    (hnodup : kept.Nodup) (x : Setting) {means : Value → α → Prop} {a : α}
    (hmeans : ∀ v, Plain (s.valueText x) v → means v a) :
    Given entries x.key means (if x ∈ kept then some a else none) := by
  split
  · next hx =>
      obtain ⟨before, after, rfl⟩ := List.append_of_mem hx
      rw [List.nodup_middle, List.nodup_cons] at hnodup
      obtain ⟨front, v, back, rfl, hplain, hothers⟩ := h.exists_of_append
      exact .once rfl (hothers.ne_key hnodup.1) (hmeans v hplain)
  · next hx => exact .out (h.ne_key hx)

theorem Read.gives (hs : s.maxNestingDepth ≤ 2 ^ 64 - 1) {kept : List Setting}
    {entries : List (String × Value)} (h : s.Read kept entries)
    (hnodup : kept.Nodup) : Gives entries (s.layer kept) where
  depth := by
    refine h.given hnodup .depth fun v hv => ?_
    have hnumber := hv.number
    rw [valueText, Numeral.toList_toString, Numeral.denotes_toDigits] at hnumber
    exact ⟨hnumber (Numeral.canonical_toDigits _) hs, hs⟩
  reject := by
    refine h.given hnodup .reject fun v hv => ?_
    have htruth := hv.truth
    have hfalsity := hv.falsity
    rw [valueText] at htruth hfalsity
    rw [MeansReject]
    cases hb : s.rejectUnreachableStates with
    | false => exact hfalsity (by rw [hb]; rfl)
    | true => exact htruth (by rw [hb]; rfl)
  style := h.given hnodup .diagnostics fun _ hv => hv.name

theorem ofText?_of_nodup [DocumentLibrary] [LineLibrary]
    (hs : s.maxNestingDepth ≤ 2 ^ 64 - 1) {kept : List Setting}
    (hne : kept ≠ []) (hnodup : kept.Nodup) :
    ofText? (ofLines (kept.map s.line)) = some ((s.layer kept).over {}) := by
  have hentries : kept.map s.entry ≠ [] := by simpa using hne
  obtain ⟨entries, hread, hplain⟩ := LineLibrary.read?_lines hentries
    (List.forall_mem_map.mpr fun x _ => s.isEntry_entry x)
  rw [List.map_map] at hread
  rw [List.forall₂_map_left_iff] at hplain
  exact ofText?_eq_some_iff.mpr
    ⟨_, ⟨entries, hread, Read.gives hs hplain hnodup⟩, rfl⟩

theorem keeping_map_line (s : Settings) (kept : List Setting) :
    s.keeping (kept.map s.line) = (s.layer kept).over {} := by
  have hmem (x : Setting) : s.line x ∈ kept.map s.line ↔ x ∈ kept :=
    List.mem_map_of_injective s.line_injective
  simp only [keeping, layer, Layer.over, hmem]
  congr 1 <;> split <;> rfl

section Library

variable [DocumentLibrary] [LineLibrary]

/-- Any lines of the saved text, but at least one, are read in any order as the
settings that they keep. -/
theorem ofText?_of_subperm (hs : s.maxNestingDepth ≤ 2 ^ 64 - 1)
    {ls : List String} (hls : ls.Subperm s.lines) (hne : ls ≠ []) :
    ofText? (ofLines ls) = some (s.keeping ls) := by
  have hnodup : ls.Nodup := by
    obtain ⟨ms, hperm, hsub⟩ := hls
    rw [← hperm.nodup_iff]
    refine hsub.nodup ?_
    rw [lines_eq]
    exact (List.nodup_map_iff s.line_injective).mpr (by decide)
  have hrange : ls ∈ Set.range (List.map s.line) := by
    rw [Set.range_list_map]
    intro l hl
    have hmem := hls.subset hl
    rw [lines_eq] at hmem
    obtain ⟨x, -, rfl⟩ := List.mem_map.mp hmem
    exact ⟨x, rfl⟩
  obtain ⟨kept, rfl⟩ := hrange
  rw [keeping_map_line, ofText?_of_nodup hs _ (List.Nodup.of_map _ hnodup)]
  rintro rfl
  exact hne rfl

theorem ofText?_lines (hs : s.maxNestingDepth ≤ 2 ^ 64 - 1) :
    ofText? (ofLines s.lines) = some s := by
  have hne : s.lines ≠ [] := List.cons_ne_nil _ _
  have hall : s.keeping s.lines = s := by
    rw [lines_eq, keeping_map_line]
    rfl
  rw [ofText?_of_subperm hs (List.Subperm.refl _) hne, hall]

theorem text?_eq (hs : s.maxNestingDepth ≤ 2 ^ 64 - 1) :
    s.text? = some (ofLines s.lines) := by
  have hlines :
      s.entries.map (fun e => Document.line (e.1, e.2.text)) = s.lines := by
    rw [lines_eq]
    rfl
  rw [text?, LineLibrary.write?_entries hs, hlines]

end Library

/-! ## Saved files -/

section Save

variable {φ ε : Type} [FileSystem φ ε] [DocumentLibrary] [LineLibrary]
  {files written : φ} {name : String}

theorem save_eq_ok_iff (hs : s.maxNestingDepth ≤ 2 ^ 64 - 1) :
    s.save files name = .ok written ↔
      FileSystem.writeText files name (ofLines s.lines) = .ok written := by
  simp only [save, text?_eq hs]
  cases FileSystem.writeText files name (ofLines s.lines) with
  | ok _ => simp
  | error _ => simp

theorem ofFile_of_save [LawfulFileSystem φ]
    (hs : s.maxNestingDepth ≤ 2 ^ 64 - 1)
    (h : s.save files name = .ok written) : ofFile written name = .ok s := by
  have hread := LawfulFileSystem.readText_of_writeText
    ((save_eq_ok_iff hs).mp h)
  simp only [ofFile, hread, ofText?_lines hs]

end Save

end Settings

/-! ## Variables -/

namespace Text

/-- Among the ASCII characters, the table has the first row's capitals only. -/
theorem find?_capitals_of_lt {n : Nat} (hn : n < 128) :
    (capitals.find? fun r =>
      r.first ≤ n && n ≤ r.last && (n - r.first) % r.stride == 0) =
      if 0x41 ≤ n ∧ n ≤ 0x5A then some ⟨0x41, 0x5A, 1, 32⟩ else none := by
  have hbeyond : capitals.tail.all (128 ≤ ·.first) := by decide +kernel
  have htail : (capitals.tail.find? fun r =>
      r.first ≤ n && n ≤ r.last && (n - r.first) % r.stride == 0) = none := by
    refine List.find?_eq_none.mpr fun r hr => ?_
    have hfirst : 128 ≤ r.first := by
      simpa using List.all_eq_true.mp hbeyond r hr
    simp only [Bool.and_eq_true, decide_eq_true_eq, not_and]
    omega
  rw [show capitals = ⟨0x41, 0x5A, 1, 32⟩ :: capitals.tail from rfl,
    List.find?_cons, htail, Nat.mod_one, BEq.rfl, Bool.and_true,
    ← Bool.decide_and]
  by_cases hcapital : 0x41 ≤ n ∧ n ≤ 0x5A
  · rw [decide_eq_true hcapital, if_pos hcapital]
  · rw [decide_eq_false hcapital, if_neg hcapital]

theorem smallLetter_of_ascii {c : Char} (hc : c.toNat < 128) :
    smallLetter c = c.toLower := by
  have hlower : ∀ n : Fin 128,
      (if 0x41 ≤ n.val ∧ n.val ≤ 0x5A then Char.ofNat (n + 32)
        else Char.ofNat n) = (Char.ofNat n).toLower := by
    decide +kernel
  have hn := hlower ⟨c.toNat, hc⟩
  rw [Char.ofNat_toNat] at hn
  rw [smallLetter, find?_capitals_of_lt hc, ← hn]
  by_cases hcapital : 0x41 ≤ c.toNat ∧ c.toNat ≤ 0x5A
  · rw [if_pos hcapital, if_pos hcapital]
    rfl
  · rw [if_neg hcapital, if_neg hcapital]

theorem lowerAfter_of_ascii {cs : List Char} (hcs : ∀ c ∈ cs, c.toNat < 128)
    (before : List Char) : lowerAfter before cs = cs.map Char.toLower := by
  induction cs generalizing before with
  | nil => rfl
  | cons c cs ih =>
      rw [List.forall_mem_cons] at hcs
      have hsigma : c ≠ 'Σ' := by
        rintro rfl
        exact absurd hcs.1 (by decide)
      have hdotted : c ≠ 'İ' := by
        rintro rfl
        exact absurd hcs.1 (by decide)
      rw [lowerAfter, if_neg hsigma, if_neg hdotted,
        smallLetter_of_ascii hcs.1, ih hcs.2]
      rfl

theorem toNat_lt_of_toLower {c : Char} (h : c.toLower.toNat < 128) :
    c.toNat < 128 := by
  by_cases hupper : c.val ≥ 'A'.val ∧ c.val ≤ 'Z'.val
  · have hhigh : c.toNat ≤ 'Z'.toNat := hupper.2
    exact hhigh.trans_lt (by decide)
  · have hsame : c.toLower = c := dif_neg hupper
    rwa [hsame] at h

/-- A word of ASCII letters is found in letters of any case. -/
theorem lowercase_of_toLower {value word : String}
    (hword : word.toList.all (·.toNat < 128)) (h : value.toLower = word) :
    lowercase value = word := by
  have hlist : value.toList.map Char.toLower = word.toList := by
    rw [← h]
    exact (String.toList_map ..).symm
  have hascii : ∀ c ∈ value.toList, c.toNat < 128 := by
    intro c hc
    have hmem : c.toLower ∈ word.toList := by
      rw [← hlist]
      exact List.mem_map_of_mem hc
    exact toNat_lt_of_toLower (by simpa using List.all_eq_true.mp hword _ hmem)
  rw [lowercase, lowerAfter_of_ascii hascii, hlist, String.ofList_toList]

end Text

namespace Settings

open Document

theorem writesDepth_toString {n : Nat} (hn : n ≤ 2 ^ 64 - 1) :
    WritesDepth (toString n) n :=
  ⟨[], Nat.toDigits 10 n, Numeral.toList_toString n, .inl rfl,
    Numeral.digits_toDigits n, Numeral.denotes_toDigits n, hn⟩

section Variables

variable {φ ε : Type} [FileSystem φ ε] [DocumentLibrary] {s : Settings}
  {env : Environment φ}

/-- The variables of an environment write settings out, the words in letters of
any case, and the file that it names, if any, can be loaded. -/
structure Spelled (s : Settings) (env : Environment φ) : Prop where
  depth : env.get? depthVariable = some (toString s.maxNestingDepth)
  reject : ∃ value, env.get? rejectVariable = some value ∧
    value.toLower = if s.rejectUnreachableStates then "true" else "false"
  diagnostics : ∃ value, env.get? diagnosticsVariable = some value ∧
    value.toLower = s.diagnostics.name
  file : ∀ name, env.get? configVariable = some name →
    ∃ t, ofFile env.files name = .ok t

/-- Where every setting has its variable, it does not matter what they are
written over. -/
theorem Spelled.withOverrides (h : s.Spelled env)
    (hs : s.maxNestingDepth ≤ 2 ^ 64 - 1) (t : Settings) :
    t.withOverrides env = (s, []) := by
  obtain ⟨reject, hreject, hcase⟩ := h.reject
  obtain ⟨style, hstyle, hstylecase⟩ := h.diagnostics
  have hwritesReject : WritesReject reject s.rejectUnreachableStates := by
    cases hb : s.rejectUnreachableStates <;> rw [hb] at hcase <;>
      exact .inr (Text.lowercase_of_toLower (by decide) hcase)
  have hwritesStyle : WritesStyle style s.diagnostics := by
    refine Text.lowercase_of_toLower ?_ hstylecase
    cases s.diagnostics <;> decide
  simp only [Settings.withOverrides, h.depth, hreject, hstyle,
    override_of_writes depthOfVariable?_eq_some_iff (writesDepth_toString hs),
    override_of_writes rejectOfVariable?_eq_some_iff hwritesReject,
    override_of_writes diagnosticsOfVariable?_eq_some_iff hwritesStyle,
    List.append_nil]

theorem Spelled.load (h : s.Spelled env)
    (hs : s.maxNestingDepth ≤ 2 ^ 64 - 1) :
    Settings.load env = (.ok s, []) := by
  rw [Settings.load]
  cases hname : env.get? configVariable with
  | none => simp only [ofVariables, h.withOverrides hs]
  | some name =>
      obtain ⟨t, ht⟩ := h.file name hname
      simp only [ht, h.withOverrides hs]

/-! ## The round trip -/

/-- Settings whose depth has 64 bits are saved as their lines. They are read
back from this text, and from the file if it could be written. Any lines of the
text, but at least one, are read in any order as the settings that they keep.
And where the variables of an environment spell settings out, they are
loaded. -/
theorem round_trip [LawfulFileSystem φ] [LineLibrary] (s : Settings)
    (hs : s.maxNestingDepth ≤ 2 ^ 64 - 1) :
    (s.text? = some (ofLines s.lines) ∧
      ofInlineText (ofLines s.lines) = (.ok s : Except (Failure ε) Settings)) ∧
    (∀ (files : φ) (name : String),
      ((∃ written, s.save files name = .ok written) ↔
        ∃ written,
          FileSystem.writeText files name (ofLines s.lines) = .ok written) ∧
      ∀ written, s.save files name = .ok written →
        ofFile written name = .ok s) ∧
    (∀ ls : List String, ls.Subperm s.lines → ls ≠ [] →
      ofInlineText (ofLines ls) =
        (.ok (s.keeping ls) : Except (Failure ε) Settings)) ∧
    ∀ env : Environment φ, s.Spelled env → load env = (.ok s, []) := by
  refine ⟨⟨text?_eq hs, ?_⟩, fun files name => ⟨?_, ?_⟩, fun ls hls hne => ?_,
    fun env h => h.load hs⟩
  · simp only [ofInlineText, ofText?_lines hs]
  · simp only [save_eq_ok_iff hs]
  · exact fun written => ofFile_of_save hs
  · simp only [ofInlineText, ofText?_of_subperm hs hls hne]

end Variables

/-- The settings with the deepest limit there is. -/
def deepest : Settings := ⟨2 ^ 64 - 1, true, .unified⟩

/-- An environment that spells them out over a file of other settings. -/
def spelling : Environment where
  bindings := [
    (configVariable, "checks.yaml"),
    (depthVariable, "18446744073709551615"),
    (rejectVariable, "True"),
    (diagnosticsVariable, "UNIFIED")]
  files.entries := [(["work", "checks.yaml"],
    .file "max_nesting_depth: 3\n".toUTF8)]

theorem round_trip_deepest :
    deepest.maxNestingDepth ≤ 2 ^ 64 - 1 ∧
    ofInlineText (ofLines deepest.lines) =
      (.ok deepest : Except Failure Settings) ∧
    (∃ written : Files, deepest.save {} "/work/checks.yaml" = .ok written ∧
      ofFile written "/work/checks.yaml" = .ok deepest) ∧
    ofInlineText
        "diagnostics: unified\nmax_nesting_depth: 18446744073709551615\n" =
      (.ok ⟨2 ^ 64 - 1, false, .unified⟩ : Except Failure Settings) ∧
    load spelling = (.ok deepest, []) := by
  have hdepth : deepest.maxNestingDepth ≤ 2 ^ 64 - 1 := le_refl _
  obtain ⟨⟨-, htext⟩, hfile, hlines, hload⟩ :=
    round_trip (φ := Files) deepest hdepth
  have hwritable : Files.Writable {} "/work/checks.yaml" :=
    ⟨by decide +kernel, ["work", "checks.yaml"], by decide +kernel, nofun⟩
  obtain ⟨written, hwritten⟩ := (hfile {} "/work/checks.yaml").1.mpr
    (Files.exists_writeText_iff.mpr hwritable)
  have hspelled : deepest.Spelled spelling := by
    refine ⟨rfl, ⟨_, rfl, by decide +kernel⟩, ⟨_, rfl, by decide +kernel⟩, ?_⟩
    rintro name ⟨⟩
    exact ⟨⟨3, false, .split⟩, by decide +kernel⟩
  refine ⟨hdepth, htext, ⟨written, hwritten, (hfile _ _).2 _ hwritten⟩, ?_,
    hload _ hspelled⟩
  exact hlines [deepest.line .diagnostics, deepest.line .depth]
    (by decide +kernel) (by simp)

end Settings

end Workflow

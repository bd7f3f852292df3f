import Mathlib.Algebra.Group.Nat.Hom
import Workflow.Settings.Document
import Workflow.Yaml.Library

/-!
# What a document gives

A settings document need not give every setting, so what it comes to is not
settings but a layer of them. `Gives` tells which layer the entries of a
document give, without the reader: they are asked for each of the three keys.
The reader then accepts just the entries that give a layer, and what it returns
is that layer on top of the defaults.

How the entries are found in a text is the library's affair, and nothing is
asked of it here.
-/

namespace Workflow

/-- A text names at most one style. -/
theorem Diagnostics.ofName?_eq_some_iff {text : String} {style : Diagnostics} :
    ofName? text = some style ↔ text = style.name := by
  constructor
  · intro h
    rw [ofName?] at h
    have hname := List.find?_some h
    exact (beq_iff_eq.mp hname).symm
  · rintro rfl
    cases style <;> decide

namespace Settings

open Document

/-- What one source gives of the settings. -/
structure Layer where
  depth : Option Nat := none
  reject : Option Bool := none
  style : Option Diagnostics := none

/-- The settings that a layer makes of those below it. -/
def Layer.over (l : Layer) (s : Settings) : Settings :=
  ⟨l.depth.getD s.maxNestingDepth, l.reject.getD s.rejectUnreachableStates,
    l.style.getD s.diagnostics⟩

/-! ## Documents and layers -/

/-- What entries give under a key: nothing if none has it, and what its value
means if one has it. If several have the key, or its value means nothing, there
is no answer. -/
inductive Given {α : Type} (entries : List (String × Value)) (key : String)
    (means : Value → α → Prop) : Option α → Prop
  | out : (∀ e ∈ entries, e.1 ≠ key) → Given entries key means none
  | once {before after : List (String × Value)} {value : Value} {a : α} :
      entries = before ++ (key, value) :: after →
      (∀ e ∈ before ++ after, e.1 ≠ key) → means value a →
      Given entries key means (some a)

/-- A depth is a number of 64 bits. -/
def MeansDepth (value : Value) (n : Nat) : Prop :=
  value.number? = some n ∧ n ≤ 2 ^ 64 - 1

def MeansReject (value : Value) (b : Bool) : Prop := value.truth? = some b

def MeansStyle (value : Value) (style : Diagnostics) : Prop :=
  value.name? = some style.name

/-- The layer that the entries of a settings document give. -/
structure Gives (entries : List (String × Value)) (layer : Layer) : Prop where
  depth : Given entries "max_nesting_depth" MeansDepth layer.depth
  reject : Given entries "reject_unreachable_states" MeansReject layer.reject
  style : Given entries "diagnostics" MeansStyle layer.style

/-- A text is that of a settings document. -/
def Written [DocumentLibrary] (text : String) (layer : Layer) : Prop :=
  ∃ entries, DocumentLibrary.read? text = some entries ∧ Gives entries layer

/-! ## Values -/

theorem lt_depthLimit_iff {n : Nat} : n < depthLimit ↔ n ≤ 2 ^ 64 - 1 := by
  rw [depthLimit, Nat.pow_eq]
  omega

theorem depthOfValue?_eq_some_iff (value : Value) (n : Nat) :
    depthOfValue? value = some n ↔ MeansDepth value n := by
  rw [depthOfValue?, Option.filter_eq_some_iff, decide_eq_true_iff,
    lt_depthLimit_iff, MeansDepth]

theorem styleOfValue?_eq_some_iff (value : Value) (style : Diagnostics) :
    styleOfValue? value = some style ↔ MeansStyle value style := by
  rw [styleOfValue?, Option.bind_eq_some_iff, MeansStyle]
  simp only [Diagnostics.ofName?_eq_some_iff, exists_eq_right]

/-! ## Entries -/

section Entries

variable {α : Type} {entries : List (String × Value)} {key : String}
  {means : Value → α → Prop} {read? : Value → Option α}

theorem lookUp?_eq_some_none_iff :
    lookUp? entries key = some none ↔ ∀ e ∈ entries, e.1 ≠ key := by
  have hnone : entries.filter (fun e => e.1 == key) = [] ↔
      ∀ e ∈ entries, e.1 ≠ key := by
    simp only [List.filter_eq_nil_iff, beq_iff_eq, ne_eq]
  rw [← hnone, lookUp?]
  split
  · next h => exact iff_of_true rfl h
  · next h => exact iff_of_false nofun fun hnil => nomatch h.symm.trans hnil
  · next h _ => exact iff_of_false nofun h

theorem lookUp?_eq_some_some_iff {value : Value} :
    lookUp? entries key = some (some value) ↔
      ∃ before after, entries = before ++ (key, value) :: after ∧
        ∀ e ∈ before ++ after, e.1 ≠ key := by
  have hone : entries.filter (fun e => e.1 == key) = [(key, value)] ↔
      ∃ before after, entries = before ++ (key, value) :: after ∧
        ∀ e ∈ before ++ after, e.1 ≠ key := by
    simp only [List.filter_eq_cons_iff, List.filter_eq_nil_iff, beq_iff_eq,
      List.forall_mem_append, ne_eq, true_and]
  rw [← hone, lookUp?]
  split
  · next h => exact iff_of_false nofun fun hone => nomatch h.symm.trans hone
  · next k v h =>
      have hmem := List.mem_singleton_self (k, v)
      rw [← h, List.mem_filter] at hmem
      have hk : (k == key) = true := hmem.2
      rw [beq_iff_eq] at hk
      subst hk
      constructor
      · intro hv
        cases hv
        exact h
      · intro hone
        cases h.symm.trans hone
        rfl
  · next h => exact iff_of_false nofun (h key value)

theorem given_iff {given : Option α} :
    Given entries key means given ↔
      (lookUp? entries key = some none ∧ given = none) ∨
        ∃ value a, lookUp? entries key = some (some value) ∧ means value a ∧
          given = some a := by
  constructor
  · rintro (hout | ⟨hentries, hother, hmeans⟩)
    · exact .inl ⟨lookUp?_eq_some_none_iff.mpr hout, rfl⟩
    · exact .inr ⟨_, _, lookUp?_eq_some_some_iff.mpr ⟨_, _, hentries, hother⟩,
        hmeans, rfl⟩
  · rintro (⟨hout, rfl⟩ | ⟨value, a, hfound, hmeans, rfl⟩)
    · exact .out (lookUp?_eq_some_none_iff.mp hout)
    · obtain ⟨before, after, hentries, hother⟩ :=
        lookUp?_eq_some_some_iff.mp hfound
      exact .once hentries hother hmeans

/-- What a setting comes to is what the entries give of it. -/
theorem setting?_eq_some_iff (hread : ∀ v a, read? v = some a ↔ means v a)
    {default a : α} :
    setting? entries key default read? = some a ↔
      ∃ given, Given entries key means given ∧ a = given.getD default := by
  simp only [given_iff, setting?, Option.bind_eq_bind, Option.bind_eq_some_iff]
  constructor
  · rintro ⟨_ | value, hfound, h⟩
    · exact ⟨none, .inl ⟨hfound, rfl⟩, (Option.some.inj h).symm⟩
    · exact ⟨some a, .inr ⟨value, a, hfound, (hread value a).mp h, rfl⟩, rfl⟩
  · rintro ⟨given, ⟨hout, rfl⟩ | ⟨value, b, hfound, hmeans, rfl⟩, rfl⟩
    · exact ⟨none, hout, rfl⟩
    · exact ⟨some value, hfound, (hread value _).mpr hmeans⟩

theorem Given.unique (hread : ∀ v a, read? v = some a ↔ means v a)
    {given other : Option α} (h : Given entries key means given)
    (h' : Given entries key means other) : given = other := by
  rw [given_iff] at h h'
  obtain ⟨hout, rfl⟩ | ⟨value, a, hfound, hmeans, rfl⟩ := h
  · obtain ⟨-, rfl⟩ | ⟨_, _, hfound, -⟩ := h'
    · rfl
    · rw [hout] at hfound
      cases hfound
  · obtain ⟨hout, -⟩ | ⟨_, b, hfound', hmeans', rfl⟩ := h'
    · rw [hout] at hfound
      cases hfound
    · rw [hfound] at hfound'
      cases hfound'
      rw [← (hread value a).mpr hmeans, (hread value b).mpr hmeans']

end Entries

/-! ## Documents -/

/-- Entries are read just if they give a layer, and then as that layer on top of
the defaults. -/
theorem ofEntries?_eq_some_iff {entries : List (String × Value)}
    {s : Settings} :
    ofEntries? entries = some s ↔
      ∃ layer, Gives entries layer ∧ s = layer.over {} := by
  have hreject (v : Value) (b : Bool) : v.truth? = some b ↔ MeansReject v b :=
    .rfl
  simp only [ofEntries?, Option.bind_eq_bind, Option.bind_eq_some_iff,
    setting?_eq_some_iff depthOfValue?_eq_some_iff,
    setting?_eq_some_iff hreject,
    setting?_eq_some_iff styleOfValue?_eq_some_iff]
  constructor
  · rintro ⟨_, ⟨depth, hdepth, rfl⟩, _, ⟨reject, hreject, rfl⟩, _,
      ⟨style, hstyle, rfl⟩, h⟩
    exact ⟨⟨depth, reject, style⟩, ⟨hdepth, hreject, hstyle⟩,
      (Option.some.inj h).symm⟩
  · rintro ⟨layer, ⟨hdepth, hreject, hstyle⟩, rfl⟩
    exact ⟨_, ⟨_, hdepth, rfl⟩, _, ⟨_, hreject, rfl⟩, _, ⟨_, hstyle, rfl⟩, rfl⟩

theorem Gives.unique {entries : List (String × Value)} {layer other : Layer}
    (h : Gives entries layer) (h' : Gives entries other) : layer = other := by
  have hdepth := h.depth.unique depthOfValue?_eq_some_iff h'.depth
  have hreject := h.reject.unique (fun _ _ => .rfl) h'.reject
  have hstyle := h.style.unique styleOfValue?_eq_some_iff h'.style
  cases layer
  cases other
  simp_all

section Text

variable [DocumentLibrary] {text : String}

theorem ofText?_eq_some_iff {s : Settings} :
    ofText? text = some s ↔ ∃ layer, Written text layer ∧ s = layer.over {} := by
  rw [ofText?, Option.bind_eq_some_iff]
  constructor
  · intro h
    obtain ⟨entries, hread, h⟩ := h
    obtain ⟨layer, hgives, rfl⟩ := ofEntries?_eq_some_iff.mp h
    exact ⟨layer, ⟨entries, hread, hgives⟩, rfl⟩
  · intro h
    obtain ⟨layer, ⟨entries, hread, hgives⟩, rfl⟩ := h
    exact ⟨entries, hread, ofEntries?_eq_some_iff.mpr ⟨layer, hgives, rfl⟩⟩

theorem Written.unique {layer other : Layer} (h : Written text layer)
    (h' : Written text other) : layer = other := by
  obtain ⟨entries, hread, h⟩ := h
  obtain ⟨entries', hread', h'⟩ := h'
  rw [hread] at hread'
  cases hread'
  exact h.unique h'

end Text

example : ofText? "diagnostics: unified\nowner: me\nmax_nesting_depth: 4\n" =
    some ⟨4, false, .unified⟩ := by decide +kernel

end Settings

end Workflow

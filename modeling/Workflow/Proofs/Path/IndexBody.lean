import Mathlib.Data.List.TakeWhile
import Workflow.Proofs.Path.Grammar

/-!
# What an index bracket may hold

`closeIndex` judges the body of a bracket that is neither quoted nor an
expression by trying one reading after the other: a wildcard, an index, then
by the separators in it a slice or a union, last an index from the end. The
grammar has no such order. That the order does no harm is `closeIndex_iff`:
a body passes if and only if it is that of one of the four kinds of segment,
because what one kind may hold keeps the readings before its own from
claiming it.
-/

namespace Workflow

namespace Path

theorem isDigit_iff {c : Char} : c.isDigit = true ↔ '0' ≤ c ∧ c ≤ '9' := by
  simp [Char.isDigit, Char.le_def]

theorem isUnsigned_iff {cs : List Char} : isUnsigned cs = true ↔ Digits cs := by
  simp only [isUnsigned, Digits, Bool.and_eq_true, Bool.not_eq_true',
    List.isEmpty_eq_false_iff, List.all_eq_true, isDigit_iff]

theorem isSigned_iff {cs : List Char} : isSigned cs = true ↔ Signed cs := by
  constructor
  · intro h
    rw [isSigned.eq_def] at h
    split at h
    · next ds => exact ⟨true, ds, rfl, isUnsigned_iff.mp h⟩
    · exact ⟨false, cs, rfl, isUnsigned_iff.mp h⟩
  · intro h
    obtain ⟨negative, ds, rfl, hds⟩ := h
    cases negative with
    | true => exact isUnsigned_iff.mpr hds
    | false =>
        rw [isSigned.eq_def]
        split
        · next es heq =>
            -- The text starts with a digit, so its head is no minus.
            obtain ⟨hlow, -⟩ := hds.2 '-' (by simp [sign] at heq; simp [heq])
            exact absurd hlow (by decide)
        · exact isUnsigned_iff.mpr hds

/-! ## Characters of a body -/

/-- A character that the body of an index bracket may hold. -/
def BodyChar (c : Char) : Prop :=
  ('0' ≤ c ∧ c ≤ '9') ∨ c = '-' ∨ Text.isBlank c = true

theorem Digits.bodyChar {cs : List Char} (h : Digits cs) :
    ∀ c ∈ cs, BodyChar c := fun c hc => .inl (h.2 c hc)

theorem Signed.bodyChar {cs : List Char} (h : Signed cs) :
    ∀ c ∈ cs, BodyChar c := by
  obtain ⟨negative, ds, rfl, hds⟩ := h
  intro c hc
  rcases List.mem_append.mp hc with hc | hc
  · cases negative with
    | true => exact .inr (.inl (List.mem_singleton.mp hc))
    | false => exact absurd hc List.not_mem_nil
  · exact hds.bodyChar c hc

theorem Padded.bodyChar {cs : List Char} (h : Padded cs) :
    ∀ c ∈ cs, BodyChar c := by
  obtain ⟨before, number, after, rfl, hnumber, hbefore, hafter⟩ := h
  intro c hc
  rcases List.mem_append.mp hc with hc | hc
  · rcases List.mem_append.mp hc with hc | hc
    · exact .inr (.inr (hbefore c hc))
    · exact hnumber.bodyChar c hc
  · exact .inr (.inr (hafter c hc))

theorem BodyChar.ne_colon {c : Char} (h : BodyChar c) : c ≠ ':' := by
  intro hc
  subst hc
  revert h
  unfold BodyChar
  decide

theorem BodyChar.ne_comma {c : Char} (h : BodyChar c) : c ≠ ',' := by
  intro hc
  subst hc
  revert h
  unfold BodyChar
  decide

theorem BodyChar.ne_star {c : Char} (h : BodyChar c) : c ≠ '*' := by
  intro hc
  subst hc
  revert h
  unfold BodyChar
  decide

theorem mem_intercalate {sep : Char} {parts : List (List Char)} {c : Char}
    (h : c ∈ [sep].intercalate parts) :
    c = sep ∨ ∃ part ∈ parts, c ∈ part := by
  induction parts with
  | nil => cases h
  | cons part rest ih =>
      cases rest with
      | nil => exact .inr ⟨part, by simp, by simpa using h⟩
      | cons next rest =>
          simp only [List.intercalate_cons_cons, List.mem_append,
            List.mem_singleton] at h
          rcases h with (h | h) | h
          · exact .inr ⟨part, by simp, h⟩
          · exact .inl h
          · rcases ih h with h | ⟨p, hp, hc⟩
            · exact .inl h
            · exact .inr ⟨p, List.mem_cons_of_mem _ hp, hc⟩

theorem sep_mem_intercalate (sep : Char) {parts : List (List Char)}
    (h : 2 ≤ parts.length) : sep ∈ [sep].intercalate parts := by
  rcases parts with _ | ⟨part, _ | ⟨next, rest⟩⟩
  · simp at h
  · simp at h
  · simp [List.intercalate_cons_cons]

theorem two_le_length_splitOn {sep : Char} {cs : List Char} (h : sep ∈ cs) :
    2 ≤ (cs.splitOn sep).length := by
  obtain ⟨as, bs, rfl⟩ := List.append_of_mem h
  rw [List.splitOn_append_cons_self, List.length_append]
  have ha := List.length_pos_iff.mpr (List.splitOn_ne_nil sep as)
  have hb := List.length_pos_iff.mpr (List.splitOn_ne_nil sep bs)
  omega

/-! ## Blanks around an item -/

theorem Signed.not_blank {cs : List Char} (h : Signed cs) :
    ∀ c ∈ cs, Text.isBlank c = false := by
  have hdigit : ∀ c : Char, '0' ≤ c ∧ c ≤ '9' → Text.isBlank c = false := by
    intro c hc
    have hlow : '0'.toNat ≤ c.toNat := Char.le_def.mp hc.1
    have hhigh : c.toNat ≤ '9'.toNat := Char.le_def.mp hc.2
    have h0 : '0'.toNat = 48 := rfl
    have h9 : '9'.toNat = 57 := rfl
    simp only [Text.isBlank, Bool.or_eq_false_iff, Bool.and_eq_false_iff,
      decide_eq_false_iff_not, beq_eq_false_iff_ne]
    omega
  obtain ⟨negative, ds, rfl, hds⟩ := h
  intro c hc
  rcases List.mem_append.mp hc with hc | hc
  · cases negative with
    | true =>
        rw [List.mem_singleton.mp hc]
        decide
    | false => exact absurd hc List.not_mem_nil
  · exact hdigit c (hds.2 c hc)

theorem Signed.ne_nil {cs : List Char} (h : Signed cs) : cs ≠ [] := by
  obtain ⟨negative, ds, rfl, hds⟩ := h
  simp [hds.1]

theorem dropWhile_isBlank {before number rest : List Char}
    (hbefore : ∀ c ∈ before, Text.isBlank c = true) (hne : number ≠ [])
    (hnumber : ∀ c ∈ number, Text.isBlank c = false) :
    (before ++ (number ++ rest)).dropWhile Text.isBlank = number ++ rest := by
  rw [List.dropWhile_append_of_pos hbefore]
  cases number with
  | nil => exact absurd rfl hne
  | cons c cs =>
      rw [List.cons_append, List.dropWhile_cons_of_neg]
      rw [hnumber c (by simp)]
      decide

/-- Trimming blanks leaves a number if and only if blanks surround one. -/
theorem signed_trim_iff {cs : List Char} :
    Signed (Text.trim cs) ↔ Padded cs := by
  constructor
  · intro h
    have hfront : cs.takeWhile Text.isBlank ++ cs.dropWhile Text.isBlank = cs :=
      List.takeWhile_append_dropWhile
    have hback : (cs.dropWhile Text.isBlank).reverse.takeWhile Text.isBlank ++
        (cs.dropWhile Text.isBlank).reverse.dropWhile Text.isBlank =
        (cs.dropWhile Text.isBlank).reverse :=
      List.takeWhile_append_dropWhile
    refine ⟨cs.takeWhile Text.isBlank, Text.trim cs,
      ((cs.dropWhile Text.isBlank).reverse.takeWhile Text.isBlank).reverse,
      ?_, h, ?_, ?_⟩
    · rw [List.append_assoc, Text.trim, ← List.reverse_append, hback,
        List.reverse_reverse, hfront]
    · intro c hc
      exact List.mem_takeWhile_imp hc
    · intro c hc
      exact List.mem_takeWhile_imp (List.mem_reverse.mp hc)
  · intro h
    obtain ⟨before, number, after, rfl, hnumber, hbefore, hafter⟩ := h
    have hafter' : ∀ c ∈ after.reverse, Text.isBlank c = true :=
      fun c hc => hafter c (List.mem_reverse.mp hc)
    have hnumber' : ∀ c ∈ number.reverse, Text.isBlank c = false :=
      fun c hc => hnumber.not_blank c (List.mem_reverse.mp hc)
    have hne : number.reverse ≠ [] := by simpa using hnumber.ne_nil
    have htrim : Text.trim (before ++ number ++ after) = number := by
      rw [Text.trim, List.append_assoc,
        dropWhile_isBlank hbefore hnumber.ne_nil hnumber.not_blank,
        List.reverse_append]
      have hrest : number.reverse = number.reverse ++ [] := by simp
      rw [hrest, dropWhile_isBlank hafter' hne hnumber', ← hrest,
        List.reverse_reverse]
    rw [htrim]
    exact hnumber

/-! ## Judging a body -/

/-- The body of a segment in an index bracket. -/
def Segment.body? : Segment → Option (List Char)
  | .all => some ['*']
  | .index negative digits => some (sign negative ++ digits)
  | .slice bounds => some ([':'].intercalate bounds)
  | .union items => some ([','].intercalate items)
  | .name .. | .wildcard _ | .quoted .. | .expression .. => none

theorem text_of_body? {s : Segment} {body : List Char}
    (h : s.body? = some body) : s.text = bracketed body := by
  cases s <;> simp_all [Segment.body?, Segment.text]

/-- A character that some segment in an index bracket may hold. -/
def IndexChar (c : Char) : Prop := c = '*' ∨ c = ':' ∨ c = ',' ∨ BodyChar c

theorem IndexChar.ne_close {c : Char} (h : IndexChar c) : c ≠ ']' := by
  intro hc
  subst hc
  revert h
  unfold IndexChar BodyChar
  decide

theorem indexChar_of_body? {s : Segment} {body : List Char}
    (h : s.body? = some body) (hwf : s.WellFormed) :
    ∀ c ∈ body, IndexChar c := by
  intro c hc
  cases s with
  | all =>
      injection h with h
      subst h
      exact .inl (List.mem_singleton.mp hc)
  | index negative ds =>
      injection h with h
      subst h
      have hsigned : Signed (sign negative ++ ds) := ⟨negative, ds, rfl, hwf⟩
      exact .inr (.inr (.inr (hsigned.bodyChar c hc)))
  | slice bounds =>
      injection h with h
      subst h
      rcases mem_intercalate hc with hc | ⟨bound, hbound, hc⟩
      · exact .inr (.inl hc)
      · rcases hwf.2 bound hbound with rfl | hsigned
        · cases hc
        · exact .inr (.inr (.inr (hsigned.bodyChar c hc)))
  | union items =>
      injection h with h
      subst h
      rcases mem_intercalate hc with hc | ⟨item, hitem, hc⟩
      · exact .inr (.inr (.inl hc))
      · exact .inr (.inr (.inr ((hwf.2 item hitem).bodyChar c hc)))
  | name _ _ | wildcard _ | quoted _ _ | expression _ _ => cases h

theorem ne_nil_of_body? {s : Segment} {body : List Char}
    (h : s.body? = some body) (hwf : s.WellFormed) : body ≠ [] := by
  cases s with
  | all => injection h with h; subst h; simp
  | index negative ds =>
      injection h with h
      subst h
      simp [hwf.1]
  | slice bounds =>
      injection h with h
      subst h
      have hlength : 2 ≤ bounds.length := by
        rcases hwf.1 with hlength | hlength <;> omega
      exact List.ne_nil_of_mem (sep_mem_intercalate ':' hlength)
  | union items =>
      injection h with h
      subst h
      exact List.ne_nil_of_mem (sep_mem_intercalate ',' hwf.1)
  | name _ _ | wildcard _ | quoted _ _ | expression _ _ => cases h

theorem allow_bind_eq_ok_iff {d : Dialect} {position : Nat}
    {construct : Construct} {α : Type} {next : Unit → Except Fault α} {a : α} :
    (Dialect.allow d position construct >>= next) = .ok a ↔
      d = .general ∧ next () = .ok a := by
  cases d <;> simp [Dialect.allow, bind, Except.bind]

theorem ne_star_of_sep {sep : Char} (hsep : sep ≠ '*') {body : List Char}
    (h : sep ∈ body) : body ≠ ['*'] := by
  intro hbody
  subst hbody
  exact hsep (List.mem_singleton.mp h)

theorem not_unsigned_of_sep {sep : Char} {body : List Char} (h : sep ∈ body)
    (hsep : ¬ ('0' ≤ sep ∧ sep ≤ '9')) : ¬ isUnsigned body = true :=
  fun hbody => hsep ((isUnsigned_iff.mp hbody).2 sep h)

section Shapes

variable {d : Dialect} {start : Nat}

theorem closeIndex_all (hallowed : Segment.all.Allowed d) :
    Stage.closeIndex d start ['*'] = .ok .between := by
  rw [Stage.closeIndex, if_pos rfl, allow_bind_eq_ok_iff]
  exact ⟨hallowed.eq_general (by simp [Segment.Plain]), rfl⟩

/-- A minus is what tells an index that counts from the end. -/
theorem closeIndex_minus {ds : List Char} (hds : Digits ds) :
    Stage.closeIndex d start ('-' :: ds) = (do
      Dialect.allow d start .negativeIndex
      return .between) := by
  have hsigned : Signed ('-' :: ds) := ⟨true, ds, rfl, hds⟩
  have hchar := hsigned.bodyChar
  have hunsigned : ¬ isUnsigned ('-' :: ds) = true := by
    intro h
    have hdigit := (isUnsigned_iff.mp h).2 '-' (by simp)
    revert hdigit
    decide
  rw [Stage.closeIndex,
    if_neg (fun heq => (hchar '*' (by rw [heq]; simp)).ne_star rfl),
    if_neg hunsigned, if_neg (fun hmem => (hchar ':' hmem).ne_colon rfl),
    if_neg (fun hmem => (hchar ',' hmem).ne_comma rfl),
    if_pos (isSigned_iff.mpr hsigned)]

/-- A colon makes the body a slice, whatever else it holds. -/
theorem closeIndex_colon {body : List Char} (hcolon : ':' ∈ body) :
    Stage.closeIndex d start body = (do
      Dialect.allow d start .slice
      if (body.splitOn ':').length ≤ 3 ∧
          (body.splitOn ':').all fun b => b.isEmpty || isSigned b then
        return .between
      else throw (.invalidBracket start)) := by
  rw [Stage.closeIndex, if_neg (ne_star_of_sep (by decide) hcolon),
    if_neg (not_unsigned_of_sep hcolon (by decide)), if_pos hcolon]

theorem closeIndex_comma {body : List Char} (hcolon : ':' ∉ body)
    (hcomma : ',' ∈ body) :
    Stage.closeIndex d start body = (do
      Dialect.allow d start .union
      if (body.splitOn ',').all fun item => isSigned (Text.trim item) then
        return .between
      else throw (.invalidBracket start)) := by
  rw [Stage.closeIndex, if_neg (ne_star_of_sep (by decide) hcomma),
    if_neg (not_unsigned_of_sep hcomma (by decide)), if_neg hcolon,
    if_pos hcomma]

theorem closeIndex_index {negative : Bool} {ds : List Char} (hds : Digits ds)
    (hallowed : (Segment.index negative ds).Allowed d) :
    Stage.closeIndex d start (sign negative ++ ds) = .ok .between := by
  cases negative with
  | true =>
      obtain rfl := hallowed.eq_general (by simp [Segment.Plain])
      change Stage.closeIndex .general start ('-' :: ds) = .ok .between
      rw [closeIndex_minus hds]
      rfl
  | false =>
      have hstar : ds ≠ ['*'] :=
        fun heq => (hds.bodyChar '*' (by rw [heq]; simp)).ne_star rfl
      change Stage.closeIndex d start ds = .ok .between
      rw [Stage.closeIndex, if_neg hstar, if_pos (isUnsigned_iff.mpr hds)]
      rfl

/-- No bound holds a colon, so splitting at colons gives the bounds back. -/
theorem splitOn_bounds {bounds : List (List Char)}
    (hwf : (Segment.slice bounds).WellFormed) :
    ([':'].intercalate bounds).splitOn ':' = bounds := by
  obtain ⟨hlength, hbounds⟩ := hwf
  refine List.splitOn_intercalate ':' (fun bound hbound hmem => ?_) ?_
  · rcases hbounds bound hbound with rfl | hsigned
    · cases hmem
    · exact (hsigned.bodyChar ':' hmem).ne_colon rfl
  · intro hnil
    subst hnil
    simp at hlength

theorem closeIndex_slice {bounds : List (List Char)}
    (hwf : (Segment.slice bounds).WellFormed)
    (hallowed : (Segment.slice bounds).Allowed d) :
    Stage.closeIndex d start ([':'].intercalate bounds) = .ok .between := by
  have hsplit := splitOn_bounds hwf
  obtain ⟨hlength, hbounds⟩ := hwf
  rw [closeIndex_colon (sep_mem_intercalate ':' (by omega)),
    allow_bind_eq_ok_iff]
  refine ⟨hallowed.eq_general (by simp [Segment.Plain]), ?_⟩
  simp only [hsplit]
  rw [if_pos]
  · rfl
  · refine ⟨by omega, List.all_eq_true.mpr fun bound hbound => ?_⟩
    rcases hbounds bound hbound with rfl | hsigned
    · rfl
    · simp [isSigned_iff.mpr hsigned]

theorem splitOn_items {items : List (List Char)}
    (hwf : (Segment.union items).WellFormed) :
    ([','].intercalate items).splitOn ',' = items := by
  obtain ⟨hlength, hitems⟩ := hwf
  refine List.splitOn_intercalate ',' (fun item hitem hmem => ?_) ?_
  · exact ((hitems item hitem).bodyChar ',' hmem).ne_comma rfl
  · intro hnil
    subst hnil
    simp at hlength

theorem colon_not_mem_items {items : List (List Char)}
    (hwf : (Segment.union items).WellFormed) :
    ':' ∉ [','].intercalate items := by
  intro hmem
  rcases mem_intercalate hmem with hc | ⟨item, hitem, hc⟩
  · cases hc
  · exact ((hwf.2 item hitem).bodyChar ':' hc).ne_colon rfl

theorem closeIndex_union {items : List (List Char)}
    (hwf : (Segment.union items).WellFormed)
    (hallowed : (Segment.union items).Allowed d) :
    Stage.closeIndex d start ([','].intercalate items) = .ok .between := by
  have hsplit := splitOn_items hwf
  have hcolon := colon_not_mem_items hwf
  obtain ⟨hlength, hitems⟩ := hwf
  rw [closeIndex_comma hcolon (sep_mem_intercalate ',' hlength),
    allow_bind_eq_ok_iff]
  refine ⟨hallowed.eq_general (by simp [Segment.Plain]), ?_⟩
  rw [hsplit, if_pos]
  · rfl
  · refine List.all_eq_true.mpr fun item hitem => ?_
    exact isSigned_iff.mpr (signed_trim_iff.mpr (hitems item hitem))

theorem closeIndex_of_body? {s : Segment} {body : List Char}
    (h : s.body? = some body) (hwf : s.WellFormed) (hallowed : s.Allowed d) :
    Stage.closeIndex d start body = .ok .between := by
  cases s with
  | all =>
      injection h with h
      subst h
      exact closeIndex_all hallowed
  | index negative ds =>
      injection h with h
      subst h
      exact closeIndex_index hwf hallowed
  | slice bounds =>
      injection h with h
      subst h
      exact closeIndex_slice hwf hallowed
  | union items =>
      injection h with h
      subst h
      exact closeIndex_union hwf hallowed
  | name _ _ | wildcard _ | quoted _ _ | expression _ _ => cases h

end Shapes

theorem exists_segment_of_closeIndex {d : Dialect} {start : Nat}
    {body : List Char} {next : Stage}
    (h : Stage.closeIndex d start body = .ok next) :
    next = .between ∧ ∃ s : Segment, s.body? = some body ∧ s.WellFormed ∧
      s.Allowed d := by
  have hallowed : ∀ s : Segment, d = .general → s.Allowed d := by
    intro s hd
    rw [hd]
    exact s.allowed_general
  rw [Stage.closeIndex] at h
  split at h
  · next hstar =>
      rw [allow_bind_eq_ok_iff] at h
      obtain ⟨hd, h⟩ := h
      injection h with h
      exact ⟨h.symm, .all, by rw [hstar]; rfl, trivial, hallowed _ hd⟩
  split at h
  · next hunsigned =>
      injection h with h
      exact ⟨h.symm, .index false body, rfl, isUnsigned_iff.mp hunsigned,
        fun _ => rfl⟩
  split at h
  · next hcolon =>
      rw [allow_bind_eq_ok_iff] at h
      obtain ⟨hd, h⟩ := h
      simp only [] at h
      split at h
      · next hparts =>
          injection h with h
          have htwo := two_le_length_splitOn hcolon
          refine ⟨h.symm, .slice (body.splitOn ':'), ?_, ⟨by omega, ?_⟩,
            hallowed _ hd⟩
          · rw [Segment.body?, List.intercalate_splitOn]
          · intro bound hbound
            have hbound := List.all_eq_true.mp hparts.2 bound hbound
            rw [Bool.or_eq_true, List.isEmpty_iff, isSigned_iff] at hbound
            exact hbound
      · cases h
  split at h
  · next hcomma =>
      rw [allow_bind_eq_ok_iff] at h
      obtain ⟨hd, h⟩ := h
      split at h
      · next hparts =>
          injection h with h
          refine ⟨h.symm, .union (body.splitOn ','), ?_,
            ⟨two_le_length_splitOn hcomma, ?_⟩, hallowed _ hd⟩
          · rw [Segment.body?, List.intercalate_splitOn]
          · intro item hitem
            have hitem := List.all_eq_true.mp hparts item hitem
            exact signed_trim_iff.mp (isSigned_iff.mp hitem)
      · cases h
  split at h
  · next hsigned =>
      rw [allow_bind_eq_ok_iff] at h
      obtain ⟨hd, h⟩ := h
      injection h with h
      obtain ⟨negative, ds, rfl, hds⟩ := isSigned_iff.mp hsigned
      exact ⟨h.symm, .index negative ds, rfl, hds, hallowed _ hd⟩
  · cases h

/-- A body passes if and only if it is that of a well-formed segment that the
dialect has. -/
theorem closeIndex_iff {d : Dialect} {start : Nat} {body : List Char}
    {next : Stage} :
    Stage.closeIndex d start body = .ok next ↔
      next = .between ∧ ∃ s : Segment, s.body? = some body ∧ s.WellFormed ∧
        s.Allowed d := by
  constructor
  · exact exists_segment_of_closeIndex
  · intro h
    obtain ⟨rfl, s, hbody, hwf, hallowed⟩ := h
    exact closeIndex_of_body? hbody hwf hallowed

end Path

end Workflow

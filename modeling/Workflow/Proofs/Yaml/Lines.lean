import Mathlib.Order.Basic
import Workflow.Proofs.Settings.Lines
import Workflow.Yaml.Reader

/-!
# Lines of a key and a value

The reader of documents knows two layouts, two sorts of quotes and scalars over
several lines. Of all that, the simplest document needs nothing: one line after
the other, each of a key, a colon and a value, where keys and values are words
of letters, digits and underscores. Such a document is read as the mapping of
just these keys and values (`read?_lines`).

What has to be seen is that the state in which a line ends is, but for the
tokens, the state in which it started. It is not quite: the value is still open
then, because it might go on in the next line. The first character of that line
settles that it does not (`run?_endPlain`).
-/

namespace Workflow.Yaml

open Document

/-! ## Words -/

section WordChar

variable {c d : Char} {ahead : List Char} (hc : isWordChar c = true)

include hc

theorem notMem_of_isWordChar {cs : List Char}
    (hcs : cs.any isWordChar = false) : c ∉ cs := by
  intro hmem
  rw [List.any_eq_false] at hcs
  exact hcs c hmem hc

theorem ne_of_isWordChar (hd : isWordChar d = false) : c ≠ d := by
  rintro rfl
  rw [hc] at hd
  cases hd

theorem bounds_of_isWordChar : 0x30 ≤ c.toNat ∧ c.toNat ≤ 0x7A := by
  have hword : ((c.isUpper || c.isLower) || c.isDigit) || decide (c = '_') :=
    hc
  simp only [Bool.or_eq_true, decide_eq_true_eq] at hword
  rcases hword with ((hupper | hlower) | hdigit) | rfl
  · have hbounds : 65 ≤ c.toNat ∧ c.toNat ≤ 90 := of_decide_eq_true hupper
    omega
  · obtain ⟨hlow, hhigh⟩ := Bool.and_eq_true_iff.mp hlower
    have hbounds : 97 ≤ c.toNat ∧ c.toNat ≤ 122 :=
      ⟨of_decide_eq_true hlow, of_decide_eq_true hhigh⟩
    omega
  · have hbounds : 48 ≤ c.toNat ∧ c.toNat ≤ 57 :=
      Char.isDigit_iff_toNat.mp hdigit
    omega
  · decide

theorem isPrintable_of_isWordChar : isPrintable c = true := by
  have hbounds := bounds_of_isWordChar hc
  simp only [isPrintable, Bool.or_eq_true, Bool.and_eq_true, decide_eq_true_eq]
  omega

theorem utf8Size_of_isWordChar : c.utf8Size = 1 := by
  rw [Char.utf8Size_eq_one_iff, UInt32.le_iff_toNat_le]
  change c.toNat ≤ 127
  have hbounds := bounds_of_isWordChar hc
  omega

theorem isBlank_of_isWordChar : isBlank c = false := by
  rw [isBlank, decide_eq_false (ne_of_isWordChar hc (by decide)),
    decide_eq_false (ne_of_isWordChar hc (by decide)), Bool.or_false]

theorem isMarker_of_isWordChar : isMarker (c :: ahead) = false := by
  have hdash := ne_of_isWordChar hc (d := '-') (by decide)
  have hdot := ne_of_isWordChar hc (d := '.') (by decide)
  rw [isMarker.eq_def]
  split
  · next h => exact absurd (List.cons.inj h).1 hdash
  · next h => exact absurd (List.cons.inj h).1 hdot
  · rfl

theorem startsPlain_of_isWordChar {inBrackets : Bool} :
    startsPlain inBrackets (c :: ahead) = true := by
  have hindicator : isIndicator c = false := by
    rw [isIndicator, isFlowIndicator,
      decide_eq_false (notMem_of_isWordChar hc (by decide)),
      decide_eq_false (notMem_of_isWordChar hc (by decide)), Bool.or_false]
  rw [startsPlain, hindicator, isBlank_of_isWordChar hc,
    decide_eq_false (ne_of_isWordChar hc (d := '\n') (by decide))]
  rfl

end WordChar

/-! ## Reading a word -/

/-- The position after so many characters of one byte each. -/
def Place.past (p : Place) (n : Nat) : Place :=
  ⟨p.line, p.column + n, p.offset + n⟩

theorem Place.after_of_isWordChar (p : Place) {c : Char}
    (hc : isWordChar c = true) : p.after c = p.past 1 := by
  rw [Place.after, if_neg (ne_of_isWordChar hc (by decide)),
    utf8Size_of_isWordChar hc, past]

namespace Lexer

variable {s : Lexer} {c : Char} {ahead rest : List Char}

/-- Outside brackets, and in no collection that is indented. -/
structure AtMargin (s : Lexer) : Prop where
  outer : s.outer = []
  columns : ∀ n ∈ s.columns, n = 0

theorem closeWhile_of_atMargin (hs : s.AtMargin) :
    s.closeWhile (s.place.column < ·) = s := by
  have hhead : s.columns.takeWhile (s.place.column < ·) = [] ∧
      s.columns.dropWhile (s.place.column < ·) = s.columns := by
    have hcolumns := hs.columns
    cases hlist : s.columns with
    | nil => exact ⟨rfl, rfl⟩
    | cons n ns =>
        rw [hlist, List.forall_mem_cons] at hcolumns
        have hn : decide (s.place.column < n) = false := by
          rw [hcolumns.1, decide_eq_false (Nat.not_lt_zero _)]
        rw [List.takeWhile_cons, List.dropWhile_cons, hn]
        exact ⟨rfl, rfl⟩
  rw [closeWhile, hhead.1, hhead.2]
  rfl

theorem between?_of_isWordChar (hs : s.AtMargin) (hc : isWordChar c = true) :
    s.between? c ahead = s.startScalar? (.plain (({} : Draft).add c)) := by
  have hskips : s.skips c = false := by
    rw [skips, decide_eq_false (ne_of_isWordChar hc (by decide)),
      decide_eq_false (ne_of_isWordChar hc (by decide)),
      decide_eq_false (ne_of_isWordChar hc (by decide))]
    rfl
  have hne {d : Char} (hd : isWordChar d = false) : c ≠ d :=
    ne_of_isWordChar hc hd
  rw [between?, if_neg (hne (by decide)), if_neg (hne (by decide)), hskips,
    if_neg Bool.false_ne_true, token?, inBrackets, hs.outer]
  simp [closeWhile_of_atMargin hs, isMarker_of_isWordChar hc,
    startsPlain_of_isWordChar hc, hne (d := '[') (by decide),
    hne (d := ']') (by decide), hne (d := '{') (by decide),
    hne (d := '}') (by decide), hne (d := ',') (by decide),
    hne (d := '-') (by decide), hne (d := ':') (by decide),
    hne (d := '\'') (by decide), hne (d := '"') (by decide)]

theorem plain?_of_isWordChar {text : List Char} (hs : s.AtMargin)
    (hc : isWordChar c = true) :
    s.plain? ⟨text, .blanks []⟩ c ahead =
      some { s with mode := .plain ⟨c :: text, .blanks []⟩ } := by
  have hne {d : Char} (hd : isWordChar d = false) : c ≠ d :=
    ne_of_isWordChar hc hd
  simp [plain?, endsPlain, inBrackets, hs.outer, isBlank_of_isWordChar hc,
    isMarker_of_isWordChar hc, hne (d := '\n') (by decide),
    hne (d := '#') (by decide), hne (d := ':') (by decide), Gap.isBroken,
    Gap.isEmpty, Draft.add, Draft.joined, Gap.text]

theorem run?_of_step {t : Lexer} (h : s.step? c rest = some t) :
    s.run? (c :: rest) = t.run? rest := by
  rw [run?, h, Option.bind_some]

/-- The rest of a word is read into its scalar. -/
theorem run?_plain {w text : List Char} (hs : s.AtMargin)
    (hmode : s.mode = .plain ⟨text, .blanks []⟩)
    (hw : ∀ c ∈ w, isWordChar c = true) :
    s.run? (w ++ rest) =
      Lexer.run? { s with
        place := s.place.past w.length
        mode := .plain ⟨w.reverse ++ text, .blanks []⟩ } rest := by
  induction w generalizing s text with
  | nil =>
      cases s
      cases hmode
      rfl
  | cons c w ih =>
      rw [List.forall_mem_cons] at hw
      have hstep : s.step? c (w ++ rest) = some { s with
          place := s.place.past 1
          mode := .plain ⟨c :: text, .blanks []⟩ } := by
        rw [step?, hmode]
        simp only [plain?_of_isWordChar hs hw.1, Option.map_some,
          s.place.after_of_isWordChar hw.1]
      calc s.run? (c :: w ++ rest)
        _ = _ := run?_of_step hstep
        _ = _ := ih ⟨hs.outer, hs.columns⟩ rfl hw.2
        _ = _ := by simp [Place.past, Nat.add_assoc, Nat.add_comm 1]

/-- The state in a scalar after reading a word. -/
def inWord (s : Lexer) (level : Level) (w : String) : Lexer :=
  { s with
    place := s.place.past w.toList.length
    level
    keyAllowed := false
    mode := .plain ⟨w.toList.reverse, .blanks []⟩ }

/-- A word between tokens is read as the start of a scalar. -/
theorem run?_word {w : String} {level : Level} (hs : s.AtMargin)
    (hmode : s.mode = .between) (hkey : s.startKey? = some { s with level })
    (hw : IsWord w.toList) :
    s.run? (w.toList ++ rest) = (s.inWord level w).run? rest := by
  obtain ⟨hne, hchars⟩ := hw
  rw [inWord]
  cases hlist : w.toList with
  | nil => exact absurd hlist hne
  | cons c cs =>
      rw [hlist, List.forall_mem_cons] at hchars
      have hstep : s.step? c (cs ++ rest) = some { s with
          place := s.place.past 1
          level
          keyAllowed := false
          mode := .plain ⟨[c], .blanks []⟩ } := by
        rw [step?, hmode]
        simp only [between?_of_isWordChar hs hchars.1, startScalar?, hkey,
          Option.map_some, s.place.after_of_isWordChar hchars.1]
        rfl
      calc s.run? (c :: cs ++ rest)
        _ = _ := run?_of_step hstep
        _ = _ := run?_plain ⟨hs.outer, hs.columns⟩ rfl hchars.2
        _ = _ := by simp [Place.past, Nat.add_assoc, Nat.add_comm 1]

/-! ## Reading a line -/

/-- The columns of a document that is a mapping, once it has an entry: that of
the entries. -/
def withEntry (columns : List Nat) : List Nat :=
  if columns = [] then [0] else columns

/-- The tokens that make a key of what has been read since one may have
started: the first key starts the mapping. -/
def keyTokens (columns : List Nat) : List Token :=
  if columns = [] then [.mappingStart, .key] else [.key]

theorem isDeeper_zero (hs : s.AtMargin) :
    s.isDeeper 0 = decide (s.columns = []) := by
  have hcolumns := hs.columns
  rw [isDeeper]
  cases hlist : s.columns with
  | nil => rfl
  | cons n ns =>
      rw [hlist, List.forall_mem_cons] at hcolumns
      simp [hcolumns.1]

theorem colon?_of_keyStart {k : KeyStart} (hs : s.AtMargin)
    (hkey : s.level.keyStart = some k) (hcolumn : k.place.column = 0)
    (hreaches : k.reaches s.place = true) :
    s.colon? = some { s with
      columns := withEntry s.columns
      level := (s.level.insert (keyTokens s.columns)).push .colon
      keyAllowed := false } := by
  by_cases hcolumns : s.columns = [] <;>
    simp [colon?, hkey, hreaches, hcolumn, inBrackets, hs.outer,
      isDeeper_zero hs, withEntry, keyTokens, hcolumns]

theorem between?_colon (hs : s.AtMargin) :
    s.between? ':' (' ' :: rest) = s.colon? := by
  simp [between?, skips, byteOrderMark, token?, inBrackets, hs.outer,
    closeWhile_of_atMargin hs, isMarker, endsToken, isBlank]

/-- The state after a key, the colon and the blank. -/
def withKey (s : Lexer) (key : String) : Lexer :=
  { s with
    place := s.place.past 2
    columns := withEntry s.columns
    level :=
      ((s.level.push (.scalar true key)).insert (keyTokens s.columns)).push
        .colon
    keyAllowed := false
    mode := .between }

theorem endPlain_eq {text : String} {gap : Gap} :
    s.endPlain ⟨text.toList.reverse, gap⟩ = { s with
      level := s.level.push (.scalar true text)
      keyAllowed := gap.isBroken
      mode := .between } := by
  rw [endPlain, endScalar, Draft.trimmed, List.reverse_reverse,
    String.ofList_toList]

/-- The colon after a key, and the blank after the colon. -/
theorem run?_colon {key : String} {k : KeyStart} (hs : s.AtMargin)
    (hmode : s.mode = .plain ⟨key.toList.reverse, .blanks []⟩)
    (hkey : s.level.keyStart = some k) (hcolumn : k.place.column = 0)
    (hreaches : k.reaches s.place = true) :
    s.run? (':' :: ' ' :: rest) = (s.withKey key).run? rest := by
  have hmargin : (s.endPlain ⟨key.toList.reverse, .blanks []⟩).AtMargin :=
    ⟨hs.outer, hs.columns⟩
  have hplain : s.plain? ⟨key.toList.reverse, .blanks []⟩ ':' (' ' :: rest) =
      (s.endPlain ⟨key.toList.reverse, .blanks []⟩).between? ':'
        (' ' :: rest) := by
    simp [plain?, endsPlain, endsToken, isBlank]
  have hcolon : s.step? ':' (' ' :: rest) =
      some { s.withKey key with place := s.place.past 1 } := by
    rw [step?, hmode]
    simp only [hplain]
    rw [between?_colon hmargin,
      colon?_of_keyStart hmargin hkey hcolumn hreaches, endPlain_eq]
    rfl
  calc s.run? (':' :: ' ' :: rest)
    _ = _ := run?_of_step hcolon
    _ = _ := run?_of_step rfl

/-- The state at the start of the line after a value. -/
def nextLine (s : Lexer) (value : String) : Lexer :=
  { s with
    place := ⟨s.place.line + 1, 0, s.place.offset + 1⟩
    level := s.level.push (.scalar true value)
    keyAllowed := true
    mode := .between }

/-- The next line starts in the column of the entries, so that the value of the
last one is over. -/
theorem run?_endPlain {d : Draft} (hs : s.AtMargin) (hmode : s.mode = .plain d)
    (hgap : d.gap.isBroken = true) (hcolumn : s.place.column < s.floor)
    (hrest : ∀ c ∈ rest.head?, isWordChar c = true) :
    s.run? rest = (s.endPlain d).run? rest := by
  cases rest with
  | nil =>
      rw [run?, run?, finish?, finish?, hmode]
      rfl
  | cons c rest =>
      have hc := hrest c rfl
      have hne := ne_of_isWordChar hc (d := '\n') (by decide)
      have hplain : s.plain? d c rest = (s.endPlain d).between? c rest := by
        simp [plain?, hne, isBlank_of_isWordChar hc, endsPlain, hgap,
          inBrackets, hs.outer, hcolumn]
      rw [run?, run?, step?, step?, hmode]
      simp only [hplain]
      rfl

theorem run?_nextLine {value : String} (hs : s.AtMargin)
    (hmode : s.mode = .plain ⟨value.toList.reverse, .blanks []⟩)
    (hfloor : 0 < s.floor)
    (hrest : ∀ c ∈ rest.head?, isWordChar c = true) :
    s.run? ('\n' :: rest) = (s.nextLine value).run? rest := by
  have hbreak : s.step? '\n' rest = some { s with
      place := ⟨s.place.line + 1, 0, s.place.offset + 1⟩
      mode := .plain ⟨value.toList.reverse, .breaks 1 false⟩ } := by
    rw [step?, hmode]
    rfl
  calc s.run? ('\n' :: rest)
    _ = _ := run?_of_step hbreak
    _ = _ := run?_endPlain ⟨hs.outer, hs.columns⟩ rfl rfl hfloor hrest
    _ = _ := by rw [endPlain_eq]; rfl

end Lexer

/-- The characters of the line of an entry. -/
def lineChars (e : String × String) : List Char :=
  e.1.toList ++ ':' :: ' ' :: (e.2.toList ++ ['\n'])

/-- The tokens of an entry. -/
def entryTokens (e : String × String) : List Token :=
  [.key, .scalar true e.1, .colon, .scalar true e.2]

namespace Lexer

variable {s : Lexer} {e : String × String}

/-- At the start of a line outside brackets, with nothing left open in the line
before. -/
structure AtLine (s : Lexer) : Prop extends s.AtMargin where
  mode : s.mode = .between
  column : s.place.column = 0
  keyStart : s.level.keyStart = none
  keyAllowed : s.keyAllowed = true

/-- Where a key starts, it is noted. -/
def keyLevel (s : Lexer) : Level :=
  ⟨s.level.tokens, some ⟨s.place, s.columns.head? = some 0⟩, []⟩

theorem AtLine.startKey? (hs : s.AtLine) :
    s.startKey? = some { s with level := s.keyLevel } := by
  simp [Lexer.startKey?, Level.startKey?, Level.dropKey?, hs.keyAllowed,
    hs.keyStart, hs.column, inBrackets, hs.outer, Level.tokens, keyLevel]

/-- The state after the colon of an entry. -/
def afterKey (s : Lexer) (e : String × String) : Lexer :=
  (s.inWord s.keyLevel e.1).withKey e.1

/-- The state after the line of an entry. -/
def afterLine (s : Lexer) (e : String × String) : Lexer :=
  ((s.afterKey e).inWord (s.afterKey e).level e.2).nextLine e.2

theorem AtMargin.afterKey (hs : s.AtMargin) : (s.afterKey e).AtMargin where
  outer := hs.outer
  columns := by
    change ∀ n ∈ withEntry s.columns, n = 0
    rw [withEntry]
    split
    · simp
    · exact hs.columns

theorem AtLine.afterLine (hs : s.AtLine) : (s.afterLine e).AtLine :=
  ⟨⟨hs.outer, hs.toAtMargin.afterKey.columns⟩, rfl, rfl, rfl, rfl⟩

theorem columns_afterLine (s : Lexer) (e : String × String) :
    (s.afterLine e).columns = withEntry s.columns := rfl

theorem tokens_afterLine (s : Lexer) (e : String × String) :
    (s.afterLine e).level.tokens.reverse =
      s.level.tokens.reverse ++ (keyTokens s.columns).dropLast ++
        entryTokens e := by
  by_cases h : s.columns = [] <;>
    simp [Lexer.afterLine, nextLine, inWord, Lexer.afterKey, withKey, keyLevel,
      Level.push, Level.insert, Level.tokens, keyTokens, entryTokens, h]

/-- From the start of a line to the start of the next, an entry is read. -/
theorem AtLine.run?_line (hs : s.AtLine) (he : IsEntry e) {rest : List Char}
    (hrest : ∀ c ∈ rest.head?, isWordChar c = true) :
    s.run? (lineChars e ++ rest) = (s.afterLine e).run? rest := by
  obtain ⟨hkey, hshort, hvalue⟩ := he
  have hmargin : (s.afterKey e).AtMargin := hs.toAtMargin.afterKey
  have hreaches : KeyStart.reaches ⟨s.place, s.columns.head? = some 0⟩
      (s.place.past e.1.toList.length) = true := by
    simpa [KeyStart.reaches, Place.past] using hshort
  have hfloor : 0 < (s.afterKey e).floor := by
    change 0 < (withEntry s.columns).head?.elim 0 (· + 1)
    cases s.columns <;> simp [withEntry]
  calc s.run? (lineChars e ++ rest)
    _ = s.run? (e.1.toList ++ ':' :: ' ' :: (e.2.toList ++ '\n' :: rest)) := by
        simp [lineChars]
    _ = (s.inWord s.keyLevel e.1).run?
          (':' :: ' ' :: (e.2.toList ++ '\n' :: rest)) :=
        run?_word hs.toAtMargin hs.mode hs.startKey? hkey
    _ = (s.afterKey e).run? (e.2.toList ++ '\n' :: rest) :=
        run?_colon ⟨hs.outer, hs.columns⟩ rfl rfl hs.column hreaches
    _ = ((s.afterKey e).inWord (s.afterKey e).level e.2).run? ('\n' :: rest) :=
        run?_word hmargin rfl rfl hvalue
    _ = (s.afterLine e).run? rest :=
        run?_nextLine ⟨hmargin.outer, hmargin.columns⟩ rfl hfloor hrest

theorem head?_lineChars {es : List (String × String)}
    (hes : ∀ e ∈ es, IsEntry e) :
    ∀ c ∈ (es.flatMap lineChars).head?, isWordChar c = true := by
  cases es with
  | nil => exact nofun
  | cons e es =>
      obtain ⟨hne, hchars⟩ := (hes e List.mem_cons_self).key
      obtain ⟨d, ds, hkey⟩ := List.exists_cons_of_ne_nil hne
      rw [hkey] at hchars
      rw [List.flatMap_cons, lineChars, hkey]
      rintro c ⟨⟩
      exact hchars d List.mem_cons_self

/-- From the start of a line after an entry, further entries are read up to the
end of the text. -/
theorem AtLine.run?_lines {es : List (String × String)} (hs : s.AtLine)
    (hcolumns : s.columns = [0]) (hes : ∀ e ∈ es, IsEntry e) :
    s.run? (es.flatMap lineChars) =
      some (s.level.tokens.reverse ++
        (es.flatMap entryTokens ++ [.collectionEnd])) := by
  induction es generalizing s with
  | nil =>
      simp [run?, finish?, hs.mode, closeWhile, hcolumns, inBrackets, hs.outer,
        Level.dropKey?, Level.push, Level.tokens, hs.keyStart]
  | cons e es ih =>
      rw [List.forall_mem_cons] at hes
      have hnext : (s.afterLine e).columns = [0] := by
        rw [columns_afterLine, hcolumns]
        rfl
      rw [List.flatMap_cons, hs.run?_line hes.1 (head?_lineChars hes.2),
        ih hs.afterLine hnext hes.2, tokens_afterLine, hcolumns]
      simp [keyTokens]

end Lexer

/-- The tokens of lines of entries are those of a mapping. -/
theorem tokens?_lines {es : List (String × String)} (hne : es ≠ [])
    (hes : ∀ e ∈ es, IsEntry e) :
    tokens? (es.flatMap lineChars) =
      some (.mappingStart :: (es.flatMap entryTokens ++ [.collectionEnd])) := by
  cases es with
  | nil => exact absurd rfl hne
  | cons e es =>
      rw [List.forall_mem_cons] at hes
      have hstart : Lexer.AtLine {} := ⟨⟨rfl, nofun⟩, rfl, rfl, rfl, rfl⟩
      rw [tokens?, List.flatMap_cons,
        hstart.run?_line hes.1 (Lexer.head?_lineChars hes.2),
        hstart.afterLine.run?_lines rfl hes.2, Lexer.tokens_afterLine]
      rfl

/-! ## The mapping -/

/-- The entries of a mapping whose keys and values are written plain. -/
def plainEntry (e : String × String) : Node × Node :=
  (.scalar true e.1, .scalar true e.2)

theorem takePair?_entryTokens {fuel : Nat} (hfuel : 3 ≤ fuel)
    (e : String × String) (rest : List Token) :
    takePair? fuel (.scalar true e.1 :: .colon :: .scalar true e.2 :: rest) =
      some (plainEntry e, rest) := by
  obtain ⟨fuel, rfl⟩ := Nat.exists_eq_add_of_le' hfuel
  rfl

theorem takeEntries?_entryTokens {es : List (String × String)} {fuel : Nat}
    (hfuel : es.length + 3 ≤ fuel) (rest : List Token) :
    takeEntries? fuel
        (es.flatMap entryTokens ++ .collectionEnd :: rest) =
      some (es.map plainEntry, .collectionEnd :: rest) := by
  induction es generalizing fuel with
  | nil =>
      obtain ⟨fuel, rfl⟩ := Nat.exists_eq_add_of_le' hfuel
      rfl
  | cons e es ih =>
      rw [List.length_cons] at hfuel
      obtain ⟨fuel, rfl⟩ := Nat.exists_eq_add_one_of_ne_zero
        (show fuel ≠ 0 by omega)
      rw [List.flatMap_cons, entryTokens]
      simp only [List.cons_append, List.nil_append, takeEntries?]
      rw [takePair?_entryTokens (by omega), Option.bind_eq_bind,
        Option.bind_some, ih (by omega)]
      rfl

theorem ofTokens?_lines (es : List (String × String)) :
    Node.ofTokens?
        (.mappingStart :: (es.flatMap entryTokens ++ [.collectionEnd])) =
      some (.mapping (es.map plainEntry)) := by
  have hlength : (es.flatMap entryTokens).length = es.length * 4 := by
    simp [List.length_flatMap, entryTokens, List.map_const']
  have hbound : stepBound
      (.mappingStart :: (es.flatMap entryTokens ++ [.collectionEnd])) =
        12 * es.length + 8 + 1 := by
    rw [stepBound, List.length_cons, List.length_append, hlength,
      List.length_singleton]
    omega
  have hnode : takeDocument?
      (.mappingStart :: (es.flatMap entryTokens ++ [.collectionEnd])) =
        some (.mapping (es.map plainEntry), []) := by
    rw [takeDocument?, hbound, takeNode?, takeEntries?_entryTokens (by omega)]
    · rfl
    · exact nofun
    · exact nofun
  rw [Node.ofTokens?, hnode]
  rfl

/-! ## The text -/

theorem normalizeBreaks_of_notMem {cs : List Char}
    (hcs : ∀ c ∈ cs, c ∉ ['\r', '\u0085', '\u2028', '\u2029']) :
    normalizeBreaks cs = cs := by
  induction cs with
  | nil => rfl
  | cons c cs ih =>
      rw [List.forall_mem_cons] at hcs
      rw [normalizeBreaks, if_neg hcs.1, ih hcs.2]
      rintro - rfl
      exact absurd List.mem_cons_self hcs.1

/-- The characters of lines of entries may stand in a document, and none but the
line feed is a line break. -/
theorem forall_mem_lines {es : List (String × String)}
    (hes : ∀ e ∈ es, IsEntry e) {p : Char → Prop}
    (hword : ∀ c, isWordChar c = true → p c)
    (hcolon : p ':') (hblank : p ' ') (hfeed : p '\n') :
    ∀ c ∈ es.flatMap lineChars, p c := by
  intro c hc
  obtain ⟨e, he, hc⟩ := List.mem_flatMap.mp hc
  have hentry := hes e he
  simp only [lineChars, List.mem_append, List.mem_cons, List.not_mem_nil,
    or_false] at hc
  rcases hc with hc | rfl | rfl | hc | rfl
  · exact hword c (hentry.key.chars c hc)
  · exact hcolon
  · exact hblank
  · exact hword c (hentry.value.chars c hc)
  · exact hfeed

/-- A text of one line for each entry is read as the mapping of the entries. -/
theorem read?_lines {es : List (String × String)} (hne : es ≠ [])
    (hes : ∀ e ∈ es, IsEntry e) :
    read? (ofLines (es.map line)) = some (.mapping (es.map plainEntry)) := by
  have hchars : (ofLines (es.map line)).toList = es.flatMap lineChars := by
    rw [ofLines, String.toList_join, List.map_map, List.flatMap_map]
    refine congrArg (es.flatMap ·) (funext fun e => ?_)
    simp [lineChars, line]
  have hprintable : (es.flatMap lineChars).all isPrintable = true := by
    rw [List.all_eq_true]
    exact forall_mem_lines hes (fun _ => isPrintable_of_isWordChar)
      (by decide) (by decide) (by decide)
  have hbreaks : normalizeBreaks (es.flatMap lineChars) =
      es.flatMap lineChars :=
    normalizeBreaks_of_notMem (forall_mem_lines hes
      (fun _ hc => notMem_of_isWordChar hc (by decide))
      (by decide) (by decide) (by decide))
  rw [read?, hchars, if_pos hprintable, hbreaks, tokens?_lines hne hes,
    Option.bind_some, ofTokens?_lines]

end Workflow.Yaml

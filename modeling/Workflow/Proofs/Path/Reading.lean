import Workflow.Proofs.Path.IndexBody

/-!
# What the reader accepts from each stage

For every stage there is one lemma: the reader accepts a text from this stage
if and only if the text starts with what the stage still waits for, and the
rest is accepted from the stage after it. The stage between two segments is
where all of them end, so reading on from any stage is a question about one
segment and then about a rest between segments (`reads_between_iff`).

Positions are carried along: what is read takes its bytes, and the rest is
read from the position behind it.
-/

namespace Workflow

namespace Path

/-- What reading the rest of a text from a stage comes to. -/
def outcome (d : Dialect) (position : Nat) (stage : Stage)
    (cs : List Char) : Except Fault Unit :=
  scan d position stage cs >>= Stage.finish

/-- Reading the rest of a text from a stage finds no fault. -/
def Reads (d : Dialect) (position : Nat) (stage : Stage)
    (cs : List Char) : Prop :=
  (scan d position stage cs >>= Stage.finish) = .ok ()

variable {d : Dialect} {position start : Nat} {c q : Char} {cs : List Char}

theorem outcome_cons_of_step {stage next : Stage}
    (h : stage.step d position c = .ok next) :
    outcome d position stage (c :: cs) =
      outcome d (position + c.utf8Size) next cs := by
  rw [outcome, scan, h]
  rfl

theorem outcome_cons_of_error {stage : Stage} {fault : Fault}
    (h : stage.step d position c = .error fault) :
    outcome d position stage (c :: cs) = .error fault := by
  rw [outcome, scan, h]
  rfl

theorem reads_iff_outcome {stage : Stage} :
    Reads d position stage cs ↔ outcome d position stage cs = .ok () := Iff.rfl

theorem reads_nil_iff {stage : Stage} :
    Reads d position stage [] ↔ stage.finish = .ok () := Iff.rfl

theorem reads_cons_iff {stage : Stage} :
    Reads d position stage (c :: cs) ↔
      ∃ next, stage.step d position c = .ok next ∧
        Reads d (position + c.utf8Size) next cs := by
  rw [Reads, scan]
  cases stage.step d position c with
  | error e => simp [bind, Except.bind]
  | ok next => simp [bind, Except.bind, Reads]

/-- Two stages that take the next character alike read it alike. -/
theorem reads_cons_congr {stage stage' : Stage}
    (h : stage.step d position c = stage'.step d position c) :
    Reads d position stage (c :: cs) ↔ Reads d position stage' (c :: cs) := by
  rw [reads_cons_iff, reads_cons_iff, h]

theorem reads_cons_of_step {stage next : Stage}
    (h : stage.step d position c = .ok next) :
    Reads d position stage (c :: cs) ↔
      Reads d (position + c.utf8Size) next cs := by
  rw [reads_iff_outcome, reads_iff_outcome, outcome_cons_of_step h]

theorem not_reads_of_step_error {stage : Stage} {fault : Fault}
    (h : stage.step d position c = .error fault) :
    ¬ Reads d position stage (c :: cs) := by
  rw [reads_iff_outcome, outcome_cons_of_error h]
  intro heq
  cases heq

/-! ## Names -/

theorem step_name_of_nameChar (h : NameChar c) :
    (Stage.name start).step d position c = .ok (.name start) := by
  obtain ⟨hdot, hopen, hclose, hblank⟩ := h
  simp [Stage.step, hdot, hopen, hclose, hblank]

theorem step_name_of_not_nameChar (h : ¬ NameChar c) :
    (Stage.name start).step d position c =
      Stage.between.step d position c := by
  rw [Stage.step, Stage.step]
  split
  · rfl
  split
  · rfl
  split
  · rfl
  · next hdot hopen hrest =>
      rw [not_or] at hrest
      exact absurd ⟨hdot, hopen, hrest.1, by simpa using hrest.2⟩ h

/-- A name takes what it may hold; between segments it makes no difference
whether it was a name that went before. -/
theorem reads_name_iff :
    Reads d position (.name start) cs ↔
      ∃ word rest, cs = word ++ rest ∧ (∀ c ∈ word, NameChar c) ∧
        Reads d (position + byteLength word) .between rest := by
  constructor
  · intro h
    induction cs generalizing position with
    | nil => exact ⟨[], [], rfl, by simp, rfl⟩
    | cons c cs ih =>
        by_cases hc : NameChar c
        · rw [reads_cons_of_step (step_name_of_nameChar hc)] at h
          obtain ⟨word, rest, rfl, hword, hrest⟩ := ih h
          refine ⟨c :: word, rest, rfl, ?_, ?_⟩
          · intro x hx
            rcases List.mem_cons.mp hx with rfl | hx
            · exact hc
            · exact hword x hx
          · rw [byteLength, ← Nat.add_assoc]
            exact hrest
        · rw [reads_cons_congr (step_name_of_not_nameChar hc)] at h
          exact ⟨[], c :: cs, rfl, by simp, h⟩
  · intro h
    obtain ⟨word, rest, rfl, hword, hrest⟩ := h
    induction word generalizing position with
    | nil =>
        cases rest with
        | nil => rfl
        | cons c rest =>
            by_cases hc : NameChar c
            · obtain ⟨hdot, hopen, -, -⟩ := hc
              have hstep : Stage.between.step d (position + byteLength []) c =
                  .error (.unexpectedChar (position + byteLength []) c) := by
                rw [Stage.step, if_neg hdot, if_neg hopen]
              exact absurd hrest (not_reads_of_step_error hstep)
            · rw [List.nil_append,
                reads_cons_congr (step_name_of_not_nameChar hc)]
              exact hrest
    | cons c word ih =>
        rw [List.cons_append,
          reads_cons_of_step (step_name_of_nameChar (hword c (by simp)))]
        refine ih (fun x hx => hword x (List.mem_cons_of_mem _ hx)) ?_
        rw [byteLength, ← Nat.add_assoc] at hrest
        exact hrest

/-- What may follow the dots of a segment. -/
def Word (d : Dialect) (word : List Char) : Prop :=
  word = ['*'] ∧ d = .general ∨
    word ≠ [] ∧ word.head? ≠ some '*' ∧ ∀ c ∈ word, NameChar c

theorem startName_of_nameChar (hstar : c ≠ '*') (h : NameChar c) :
    Stage.startName d start position c = .ok (.name start) := by
  obtain ⟨hdot, hopen, hclose, hblank⟩ := h
  simp [Stage.startName, hstar, hdot, hopen, hclose, hblank, pure, Except.pure]

theorem of_startName {next : Stage}
    (h : Stage.startName d start position c = .ok next) :
    (c = '*' ∧ d = .general ∧ next = .between) ∨
      (c ≠ '*' ∧ NameChar c ∧ next = .name start) := by
  rw [Stage.startName] at h
  split at h
  · next hstar =>
      rw [allow_bind_eq_ok_iff] at h
      obtain ⟨hd, h⟩ := h
      injection h with h
      exact .inl ⟨hstar, hd, h.symm⟩
  split at h
  · cases h
  split at h
  · cases h
  · next hstar hopen hclose =>
      injection h with h
      rw [not_or] at hopen hclose
      exact .inr ⟨hstar, ⟨hopen.1, hopen.2, hclose.1, by simpa using hclose.2⟩,
        h.symm⟩

theorem Word.ne_nil {word : List Char} (h : Word d word) : word ≠ [] := by
  rcases h with ⟨rfl, -⟩ | ⟨hne, -, -⟩
  · simp
  · exact hne

theorem reads_startName_iff {stage : Stage}
    (hstep : stage.step d position c = Stage.startName d start position c) :
    Reads d position stage (c :: cs) ↔
      ∃ word rest, c :: cs = word ++ rest ∧ Word d word ∧
        Reads d (position + byteLength word) .between rest := by
  rw [reads_cons_iff, hstep]
  constructor
  · intro h
    obtain ⟨next, hnext, h⟩ := h
    rcases of_startName hnext with ⟨rfl, hd, rfl⟩ | ⟨hstar, hc, rfl⟩
    · exact ⟨['*'], cs, rfl, .inl ⟨rfl, hd⟩, h⟩
    · obtain ⟨word, rest, rfl, hword, hrest⟩ := reads_name_iff.mp h
      refine ⟨c :: word, rest, rfl, .inr ⟨by simp, by simpa using hstar, ?_⟩,
        ?_⟩
      · intro x hx
        rcases List.mem_cons.mp hx with rfl | hx
        · exact hc
        · exact hword x hx
      · rw [byteLength, ← Nat.add_assoc]
        exact hrest
  · intro h
    obtain ⟨word, rest, heq, hword, hrest⟩ := h
    rcases hword with ⟨rfl, rfl⟩ | ⟨hne, hstar, hchars⟩
    · obtain ⟨rfl, rfl⟩ := List.cons_eq_cons.mp heq
      exact ⟨.between, rfl, hrest⟩
    · cases word with
      | nil => exact absurd rfl hne
      | cons x word =>
          obtain ⟨rfl, rfl⟩ := List.cons_eq_cons.mp heq
          refine ⟨.name start, startName_of_nameChar (by simpa using hstar)
            (hchars c (by simp)), reads_name_iff.mpr ⟨word, rest, rfl,
              fun x hx => hchars x (List.mem_cons_of_mem _ hx), ?_⟩⟩
          rw [byteLength, ← Nat.add_assoc] at hrest
          exact hrest

theorem reads_deepDot_iff :
    Reads d position (.deepDot start) cs ↔
      ∃ word rest, cs = word ++ rest ∧ Word d word ∧
        Reads d (position + byteLength word) .between rest := by
  cases cs with
  | nil =>
      refine iff_of_false (by simp [reads_nil_iff, Stage.finish]) ?_
      intro h
      obtain ⟨word, rest, heq, hword, _⟩ := h
      exact hword.ne_nil (List.append_eq_nil_iff.mp heq.symm).1
  | cons c cs => exact reads_startName_iff rfl

/-- After a dot, another dot makes the scan deep; all else is a word. -/
theorem reads_dot_iff :
    Reads d position (.dot start) cs ↔
      (∃ rest, cs = '.' :: rest ∧ d = .general ∧
        Reads d (position + '.'.utf8Size) (.deepDot start) rest) ∨
      ∃ word rest, cs = word ++ rest ∧ Word d word ∧
        Reads d (position + byteLength word) .between rest := by
  cases cs with
  | nil =>
      refine iff_of_false (by simp [reads_nil_iff, Stage.finish]) ?_
      intro h
      rcases h with ⟨_, heq, _⟩ | ⟨word, rest, heq, hword, _⟩
      · cases heq
      · exact hword.ne_nil (List.append_eq_nil_iff.mp heq.symm).1
  | cons c cs =>
      by_cases hc : c = '.'
      · subst hc
        constructor
        · intro h
          obtain ⟨next, hnext, h⟩ := reads_cons_iff.mp h
          rw [Stage.step, if_pos rfl, allow_bind_eq_ok_iff] at hnext
          obtain ⟨hd, hnext⟩ := hnext
          injection hnext with hnext
          rw [← hnext] at h
          exact .inl ⟨cs, rfl, hd, h⟩
        · intro h
          rcases h with ⟨rest, heq, rfl, h⟩ | ⟨word, rest, heq, hword, h⟩
          · obtain ⟨-, rfl⟩ := List.cons_eq_cons.mp heq
            exact (reads_cons_of_step rfl).mpr h
          · -- No word starts with a dot.
            exfalso
            rcases hword with ⟨rfl, -⟩ | ⟨hne, -, hchars⟩
            · cases heq
            · cases word with
              | nil => exact hne rfl
              | cons x word =>
                  obtain ⟨rfl, -⟩ := List.cons_eq_cons.mp heq
                  exact (hchars '.' (by simp)).1 rfl
      · have hstep : (Stage.dot start).step d position c =
            Stage.startName d start position c := by
          rw [Stage.step, if_neg hc]
        rw [reads_startName_iff hstep]
        refine ⟨.inr, ?_⟩
        intro h
        rcases h with ⟨rest, heq, _⟩ | h
        · exact absurd (List.cons_eq_cons.mp heq).1 hc
        · exact h

/-! ## Quoted names -/

section Quoted

variable {isEmpty : Bool}

theorem step_quoted_close :
    (Stage.quoted start q false).step d position q =
      .ok (.closedQuote start q) := by
  rw [Stage.step, if_pos rfl]
  rfl

theorem step_quoted_empty :
    (Stage.quoted start q true).step d position q =
      .error (.emptySegment start) := by
  rw [Stage.step, if_pos rfl]
  rfl

theorem step_quoted_escape (hq : q ≠ '\\') :
    (Stage.quoted start q isEmpty).step d position '\\' =
      .ok (.escaped start q) := by
  rw [Stage.step, if_neg (Ne.symm hq), if_pos rfl]

theorem step_quoted_plain (hc : c ≠ q) (hescape : c ≠ '\\') :
    (Stage.quoted start q isEmpty).step d position c =
      .ok (.quoted start q false) := by
  rw [Stage.step, if_neg hc, if_neg hescape]

/-- An open quote takes a body, which must not be empty if nothing of it has
been read, and the quote that closes it. -/
theorem exists_body_of_reads_quoted :
    ∀ {cs : List Char} {position : Nat} {isEmpty : Bool},
      Reads d position (.quoted start q isEmpty) cs →
      ∃ body rest, cs = body ++ q :: rest ∧ QuotedBody q body ∧
        (isEmpty = true → body ≠ []) ∧
        Reads d (position + byteLength (body ++ [q]))
          (.closedQuote start q) rest
  | [], _, _, h => by cases h
  | c :: cs, position, isEmpty, h => by
      by_cases hq : c = q
      · subst hq
        cases isEmpty with
        | true => exact absurd h (not_reads_of_step_error step_quoted_empty)
        | false =>
            rw [reads_cons_of_step step_quoted_close] at h
            exact ⟨[], cs, rfl, .nil, by simp, h⟩
      by_cases hescape : c = '\\'
      · subst hescape
        rw [reads_cons_of_step (step_quoted_escape (Ne.symm hq))] at h
        cases cs with
        | nil => cases h
        | cons c cs =>
            rw [reads_cons_of_step rfl] at h
            obtain ⟨body, rest, rfl, hbody, -, hrest⟩ :=
              exists_body_of_reads_quoted h
            refine ⟨'\\' :: c :: body, rest, rfl, .escape c hbody, by simp, ?_⟩
            simpa [byteLength, Nat.add_assoc] using hrest
      · rw [reads_cons_of_step (step_quoted_plain hq hescape)] at h
        obtain ⟨body, rest, rfl, hbody, -, hrest⟩ :=
          exists_body_of_reads_quoted h
        refine ⟨c :: body, rest, rfl, .plain hq hescape hbody, by simp, ?_⟩
        simpa [byteLength, Nat.add_assoc] using hrest

/-- A body between quotes is passed over up to the quote that closes it. -/
theorem outcome_body (hq : q ≠ '\\') {body : List Char}
    (hbody : QuotedBody q body) (hne : isEmpty = true → body ≠ [])
    (rest : List Char) :
    outcome d position (.quoted start q isEmpty) (body ++ q :: rest) =
      outcome d (position + byteLength (body ++ [q])) (.closedQuote start q)
        rest := by
  induction hbody generalizing position isEmpty with
  | nil =>
      cases isEmpty with
      | true => exact absurd rfl (hne rfl)
      | false => exact outcome_cons_of_step step_quoted_close
  | escape c _ ih =>
      rw [List.cons_append, outcome_cons_of_step (step_quoted_escape hq),
        List.cons_append, outcome_cons_of_step rfl, ih (by simp)]
      simp only [List.cons_append, byteLength, Nat.add_assoc]
  | plain hc hescape _ ih =>
      rw [List.cons_append, outcome_cons_of_step
        (step_quoted_plain hc hescape), ih (by simp)]
      simp only [List.cons_append, byteLength, Nat.add_assoc]

theorem reads_quoted_of_body (hq : q ≠ '\\') {body rest : List Char}
    (hbody : QuotedBody q body) (hne : isEmpty = true → body ≠ [])
    (hrest : Reads d (position + byteLength (body ++ [q]))
      (.closedQuote start q) rest) :
    Reads d position (.quoted start q isEmpty) (body ++ q :: rest) := by
  rw [reads_iff_outcome, outcome_body hq hbody hne]
  exact hrest

end Quoted

/-- After a quoted name the bracket closes, or a comma and the next one
follow. -/
theorem reads_closedQuote_iff :
    Reads d position (.closedQuote start q) cs ↔
      (∃ rest, cs = ']' :: rest ∧
        Reads d (position + ']'.utf8Size) .between rest) ∨
      ∃ rest, cs = ',' :: q :: rest ∧ d = .general ∧
        Reads d (position + ','.utf8Size + q.utf8Size) (.quoted start q true)
          rest := by
  constructor
  · intro h
    cases cs with
    | nil => cases h
    | cons c cs =>
        obtain ⟨next, hnext, h⟩ := reads_cons_iff.mp h
        rw [Stage.step] at hnext
        split at hnext
        · next hclose =>
            injection hnext with hnext
            subst hclose hnext
            exact .inl ⟨cs, rfl, h⟩
        split at hnext
        · next hcomma =>
            rw [allow_bind_eq_ok_iff] at hnext
            obtain ⟨hd, hnext⟩ := hnext
            injection hnext with hnext
            subst hcomma hnext
            cases cs with
            | nil => cases h
            | cons c cs =>
                obtain ⟨next, hnext, h⟩ := reads_cons_iff.mp h
                rw [Stage.step] at hnext
                split at hnext
                · next hquote =>
                    injection hnext with hnext
                    subst hquote hnext
                    exact .inr ⟨cs, rfl, hd, h⟩
                · cases hnext
        · cases hnext
  · intro h
    rcases h with ⟨rest, rfl, h⟩ | ⟨rest, rfl, rfl, h⟩
    · exact (reads_cons_of_step rfl).mpr h
    · have hstep : (Stage.comma start q).step .general
          (position + ','.utf8Size) q = .ok (.quoted start q true) := by
        rw [Stage.step, if_pos rfl]
      rw [reads_cons_of_step rfl, reads_cons_of_step hstep]
      exact h

/-- The bodies of the quoted names that a bracket may hold. -/
def Bodies (d : Dialect) (q : Char) (bodies : List (List Char)) : Prop :=
  bodies ≠ [] ∧ (∀ body ∈ bodies, body ≠ [] ∧ QuotedBody q body) ∧
    (d = .reference → bodies.length = 1)

/-- The text of quoted names with commas between them. -/
def quotes (q : Char) (bodies : List (List Char)) : List Char :=
  [','].intercalate (bodies.map (quote q))

theorem quote_append (body rest : List Char) :
    quote q body ++ rest = q :: (body ++ q :: rest) := by
  simp [quote]

theorem quotes_singleton (body : List Char) :
    quotes q [body] = quote q body := by
  simp [quotes]

theorem quotes_cons {body : List Char} {bodies : List (List Char)}
    (h : bodies ≠ []) :
    quotes q (body :: bodies) = quote q body ++ ',' :: quotes q bodies := by
  rw [quotes, List.map_cons, List.intercalate_cons_of_ne_nil (by simpa using h)]
  simp [quotes]

theorem exists_quotes_append (q : Char) {bodies : List (List Char)}
    (h : bodies ≠ []) (rest : List Char) :
    ∃ tail, quotes q bodies ++ rest = q :: tail := by
  rcases bodies with _ | ⟨body, _ | ⟨next, bodies⟩⟩
  · exact absurd rfl h
  · exact ⟨_, by rw [quotes_singleton, quote_append]⟩
  · exact ⟨_, by rw [quotes_cons (by simp), List.append_assoc, quote_append]⟩

/-- A bracket that has opened a quote, which stands at `position`, takes
quoted names with commas between them. -/
theorem exists_bodies_of_reads_quoted {cs : List Char} {position : Nat}
    (h : Reads d (position + q.utf8Size) (.quoted start q true) cs) :
    ∃ bodies rest, Bodies d q bodies ∧
      q :: cs = quotes q bodies ++ ']' :: rest ∧
      Reads d (position + byteLength (quotes q bodies ++ [']'])) .between
        rest := by
  induction hn : cs.length using Nat.strong_induction_on
    generalizing cs position with
  | _ n ih =>
      obtain ⟨body, rest, rfl, hbody, hne, hrest⟩ :=
        exists_body_of_reads_quoted h
      rcases reads_closedQuote_iff.mp hrest with
        ⟨rest, rfl, hread⟩ | ⟨rest, rfl, rfl, hread⟩
      · refine ⟨[body], rest, ⟨by simp, ?_, fun _ => rfl⟩, ?_, ?_⟩
        · intro b hb
          rw [List.mem_singleton.mp hb]
          exact ⟨hne rfl, hbody⟩
        · simp [quotes_singleton, quote]
        · simpa [quotes_singleton, quote, byteLength, byteLength_append,
            Nat.add_assoc] using hread
      · obtain ⟨bodies, rest', ⟨hnil, hbodies, -⟩, heq, hread⟩ :=
          ih rest.length (by simp at hn; omega) hread rfl
        refine ⟨body :: bodies, rest', ⟨by simp, ?_, (by intro h; cases h)⟩,
          ?_, ?_⟩
        · intro b hb
          rcases List.mem_cons.mp hb with rfl | hb
          · exact ⟨hne rfl, hbody⟩
          · exact hbodies b hb
        · rw [quotes_cons hnil, List.append_assoc, List.cons_append, ← heq]
          simp [quote]
        · rw [quotes_cons hnil]
          simpa [quote, byteLength, byteLength_append, Nat.add_assoc]
            using hread

theorem reads_quoted_of_bodies (hq : q ≠ '\\')
    {bodies : List (List Char)} {rest : List Char}
    (hbodies : Bodies d q bodies)
    (hrest : Reads d (position + byteLength (quotes q bodies ++ [']']))
      .between rest)
    (heq : q :: cs = quotes q bodies ++ ']' :: rest) :
    Reads d (position + q.utf8Size) (.quoted start q true) cs := by
  induction bodies generalizing position cs with
  | nil => exact absurd rfl hbodies.1
  | cons body bodies ih =>
      obtain ⟨-, hall, hone⟩ := hbodies
      obtain ⟨hne, hbody⟩ := hall body (by simp)
      cases bodies with
      | nil =>
          rw [quotes_singleton] at heq hrest
          rw [quote_append] at heq
          obtain ⟨-, rfl⟩ := List.cons_eq_cons.mp heq
          refine reads_quoted_of_body hq hbody (fun _ => hne) ?_
          refine reads_closedQuote_iff.mpr (.inl ⟨rest, rfl, ?_⟩)
          simpa [quote, byteLength, byteLength_append, Nat.add_assoc]
            using hrest
      | cons next bodies =>
          have hd : d = .general := by
            cases d with
            | general => rfl
            | reference => exact absurd (hone rfl) (by simp)
          subst hd
          rw [quotes_cons (by simp)] at heq hrest
          have hnil : next :: bodies ≠ [] := by simp
          obtain ⟨tail, htail⟩ := exists_quotes_append q hnil (']' :: rest)
          rw [List.append_assoc, List.cons_append, htail, quote_append] at heq
          obtain ⟨-, rfl⟩ := List.cons_eq_cons.mp heq
          refine reads_quoted_of_body hq hbody (fun _ => hne) ?_
          refine reads_closedQuote_iff.mpr (.inr ⟨tail, rfl, rfl, ?_⟩)
          refine ih ⟨by simp, fun b hb => hall b (List.mem_cons_of_mem _ hb),
            (by intro h; cases h)⟩ ?_ htail.symm
          simpa [quote, byteLength, byteLength_append, Nat.add_assoc]
            using hrest

/-! ## Expressions -/

theorem Closes.ne_zero {now : Nat × Option Char} {body : List Char}
    (h : Closes now body) : now.1 ≠ 0 :=
  h.1 [] List.nil_prefix

/-- Only a closing parenthesis outside quotes closes the last open one. -/
theorem eq_of_nest_eq_zero {depth : Nat} {open? : Option Char}
    (hdepth : depth ≠ 0) (h : (nest (depth, open?) c).1 = 0) : c = ')' := by
  cases open? with
  | some q => exact absurd h hdepth
  | none =>
      rw [nest] at h
      split at h
      · exact absurd h hdepth
      split at h
      · exact absurd h (Nat.succ_ne_zero depth)
      split at h
      · next hclose => exact hclose
      · exact absurd h hdepth

theorem closes_nil_iff {now : Nat × Option Char} :
    Closes now [] ↔ now.1 ≠ 0 ∧ (nest now ')').1 = 0 := by
  simp [Closes, openAfter]

theorem closes_cons_iff {now : Nat × Option Char} {body : List Char} :
    Closes now (c :: body) ↔ now.1 ≠ 0 ∧ Closes (nest now c) body := by
  constructor
  · intro h
    obtain ⟨hopen, hlast⟩ := h
    refine ⟨hopen [] List.nil_prefix, fun part hpart => ?_, hlast⟩
    exact hopen (c :: part) (List.cons_prefix_cons.mpr ⟨rfl, hpart⟩)
  · intro h
    obtain ⟨hnow, hopen, hlast⟩ := h
    refine ⟨fun part hpart => ?_, hlast⟩
    cases part with
    | nil => exact hnow
    | cons x part =>
        obtain ⟨rfl, htail⟩ := List.cons_prefix_cons.mp hpart
        exact hopen part htail

/-- A step of an expression counts as `nest` does, and ends the body where the
count comes to nothing. -/
theorem expressionStep_eq {depth : Nat} {open? : Option Char} {blank : Bool}
    (hdepth : depth ≠ 0) :
    Stage.expressionStep start depth open? blank c =
      if (nest (depth, open?) c).1 = 0 then
        if blank then .error (.invalidBracket start)
        else .ok (.closedExpression start)
      else .ok (.expression start (nest (depth, open?) c).1
        (nest (depth, open?) c).2 (blank && Text.isBlank c)) := by
  cases open? with
  | some q => simp [Stage.expressionStep, nest, hdepth]
  | none =>
      by_cases hquote : c = '\'' ∨ c = '"'
      · simp [Stage.expressionStep, nest, hquote, hdepth]
      by_cases hopen : c = '('
      · simp [Stage.expressionStep, nest, hopen]
      by_cases hclose : c = ')'
      · subst hclose
        by_cases hone : 1 < depth
        · simp [Stage.expressionStep, nest, hone, Nat.sub_ne_zero_of_lt]
        · have hzero : depth - 1 = 0 := by omega
          simp [Stage.expressionStep, nest, hone, hzero]
      · simp [Stage.expressionStep, nest, hquote, hopen, hclose, hdepth]

theorem reads_closedExpression_iff :
    Reads d position (.closedExpression start) cs ↔
      ∃ rest, cs = ']' :: rest ∧
        Reads d (position + ']'.utf8Size) .between rest := by
  cases cs with
  | nil => exact iff_of_false (by intro h; cases h) (by simp)
  | cons c cs =>
      by_cases hc : c = ']'
      · subst hc
        rw [reads_cons_of_step rfl]
        simp
      · have hstep : (Stage.closedExpression start).step d position c =
            .error (.invalidBracket start) := by
          rw [Stage.step, if_neg hc]
        exact iff_of_false (not_reads_of_step_error hstep) (by simp [hc])

/-- What an open expression takes: a body that the next parenthesis closes,
which must not be blank if nothing but blanks has been read, and `)]`. -/
def TakesBody (d : Dialect) (position : Nat) (now : Nat × Option Char)
    (blank : Bool) (cs : List Char) : Prop :=
  ∃ body rest, cs = body ++ ')' :: ']' :: rest ∧ Closes now body ∧
    (blank = true → ∃ c ∈ body, Text.isBlank c = false) ∧
    Reads d (position + byteLength (body ++ [')', ']'])) .between rest

/-- Before a parenthesis that closes the last open one there is nothing. -/
theorem eq_nil_of_closes {now : Nat × Option Char} {body rest : List Char}
    (hzero : (nest now ')').1 = 0) (hcloses : Closes now body)
    (heq : ')' :: cs = body ++ ')' :: ']' :: rest) :
    body = [] ∧ cs = ']' :: rest := by
  cases body with
  | nil => exact ⟨rfl, (List.cons_eq_cons.mp heq).2⟩
  | cons x body =>
      obtain ⟨rfl, -⟩ := List.cons_eq_cons.mp heq
      exact absurd hzero (closes_cons_iff.mp hcloses).2.ne_zero

theorem reads_expression_close_iff {depth : Nat} {open? : Option Char}
    {blank : Bool} (hdepth : depth ≠ 0)
    (hzero : (nest (depth, open?) ')').1 = 0) :
    Reads d position (.expression start depth open? blank) (')' :: cs) ↔
      TakesBody d position (depth, open?) blank (')' :: cs) := by
  have hstep : (Stage.expression start depth open? blank).step d position ')'
      = _ := expressionStep_eq hdepth
  rw [if_pos hzero] at hstep
  cases blank with
  | true =>
      refine iff_of_false (not_reads_of_step_error hstep) ?_
      intro h
      obtain ⟨body, rest, heq, hcloses, hblank, _⟩ := h
      obtain ⟨rfl, -⟩ := eq_nil_of_closes hzero hcloses heq
      obtain ⟨_, hmem, _⟩ := hblank rfl
      cases hmem
  | false =>
      rw [if_neg (by decide)] at hstep
      rw [reads_cons_of_step hstep, reads_closedExpression_iff]
      constructor
      · intro h
        obtain ⟨rest, heq, hrest⟩ := h
        exact ⟨[], rest, by rw [heq]; rfl,
          closes_nil_iff.mpr ⟨hdepth, hzero⟩, by simp, hrest⟩
      · intro h
        obtain ⟨body, rest, heq, hcloses, _, hrest⟩ := h
        obtain ⟨rfl, hcs⟩ := eq_nil_of_closes hzero hcloses heq
        exact ⟨rest, hcs, hrest⟩

/-- A character that closes nothing is the first of the body. -/
theorem takesBody_cons_iff {now : Nat × Option Char} {blank : Bool}
    (hnow : now.1 ≠ 0) (hzero : (nest now c).1 ≠ 0) :
    TakesBody d (position + c.utf8Size) (nest now c)
        (blank && Text.isBlank c) cs ↔
      TakesBody d position now blank (c :: cs) := by
  constructor
  · intro h
    obtain ⟨body, rest, heq, hcloses, hblank, hrest⟩ := h
    refine ⟨c :: body, rest, by rw [heq]; rfl,
      closes_cons_iff.mpr ⟨hnow, hcloses⟩, fun hb => ?_, ?_⟩
    · by_cases hc : Text.isBlank c = false
      · exact ⟨c, by simp, hc⟩
      · obtain ⟨x, hx, hxb⟩ := hblank (by simpa [hb] using hc)
        exact ⟨x, List.mem_cons_of_mem _ hx, hxb⟩
    · simpa [byteLength, Nat.add_assoc] using hrest
  · intro h
    obtain ⟨body, rest, heq, hcloses, hblank, hrest⟩ := h
    cases body with
    | nil =>
        obtain ⟨rfl, -⟩ := List.cons_eq_cons.mp heq
        exact absurd (closes_nil_iff.mp hcloses).2 hzero
    | cons x body =>
        obtain ⟨rfl, rfl⟩ := List.cons_eq_cons.mp heq
        refine ⟨body, rest, rfl, (closes_cons_iff.mp hcloses).2,
          fun hb => ?_, ?_⟩
        · rw [Bool.and_eq_true] at hb
          obtain ⟨x, hx, hxb⟩ := hblank hb.1
          rcases List.mem_cons.mp hx with rfl | hx
          · rw [hb.2] at hxb
            cases hxb
          · exact ⟨x, hx, hxb⟩
        · simpa [byteLength, Nat.add_assoc] using hrest

theorem reads_expression_iff {depth : Nat} {open? : Option Char} {blank : Bool}
    (hdepth : depth ≠ 0) :
    Reads d position (.expression start depth open? blank) cs ↔
      TakesBody d position (depth, open?) blank cs := by
  induction cs generalizing position depth open? blank with
  | nil => exact iff_of_false (by intro h; cases h) (by simp [TakesBody])
  | cons c cs ih =>
      by_cases hzero : (nest (depth, open?) c).1 = 0
      · obtain rfl := eq_of_nest_eq_zero hdepth hzero
        exact reads_expression_close_iff hdepth hzero
      · have hstep : (Stage.expression start depth open? blank).step d position
            c = _ := expressionStep_eq hdepth
        rw [if_neg hzero] at hstep
        rw [reads_cons_of_step hstep, ih hzero]
        exact takesBody_cons_iff hdepth hzero

/-! ## Index brackets -/

theorem reads_index_iff {front : List Char} :
    Reads d position (.index start front) cs ↔
      ∃ body rest, cs = body ++ ']' :: rest ∧ ']' ∉ body ∧
        Stage.closeIndex d start (front ++ body) = .ok .between ∧
        Reads d (position + byteLength (body ++ [']'])) .between rest := by
  induction cs generalizing position front with
  | nil => exact iff_of_false (by intro h; cases h) (by simp)
  | cons c cs ih =>
      by_cases hclose : c = ']'
      · subst hclose
        rw [reads_cons_iff, Stage.step, if_pos rfl]
        constructor
        · intro h
          obtain ⟨next, hnext, h⟩ := h
          obtain ⟨rfl, -⟩ := closeIndex_iff.mp hnext
          exact ⟨[], cs, rfl, by simp, by rw [List.append_nil]; exact hnext, h⟩
        · intro h
          obtain ⟨body, rest, heq, hbody, hnext, h⟩ := h
          cases body with
          | nil =>
              obtain ⟨-, rfl⟩ := List.cons_eq_cons.mp heq
              rw [List.append_nil] at hnext
              exact ⟨.between, hnext, h⟩
          | cons x body =>
              obtain ⟨rfl, -⟩ := List.cons_eq_cons.mp heq
              exact absurd List.mem_cons_self hbody
      · have hstep : (Stage.index start front).step d position c =
            .ok (.index start (front ++ [c])) := by
          rw [Stage.step, if_neg hclose]
        rw [reads_cons_of_step hstep, ih]
        constructor
        · intro h
          obtain ⟨body, rest, heq, hbody, hnext, h⟩ := h
          refine ⟨c :: body, rest, by rw [heq]; rfl, ?_, ?_, ?_⟩
          · simpa using ⟨Ne.symm hclose, hbody⟩
          · simpa using hnext
          · simpa [byteLength, Nat.add_assoc] using h
        · intro h
          obtain ⟨body, rest, heq, hbody, hnext, h⟩ := h
          cases body with
          | nil => exact absurd (List.cons_eq_cons.mp heq).1 hclose
          | cons x body =>
              obtain ⟨rfl, rfl⟩ := List.cons_eq_cons.mp heq
              refine ⟨body, rest, rfl, ?_, by simpa using hnext, ?_⟩
              · exact fun hmem => hbody (List.mem_cons_of_mem _ hmem)
              · simpa [byteLength, Nat.add_assoc] using h

end Path

end Workflow

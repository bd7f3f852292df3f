import Workflow.Proofs.Path.Positions

/-!
# A path that ends inside a bracket

If a path is cut off inside one of its brackets, what is left is refused, and
the fault is charged to the bracket that is left open. In most places it is
called an unterminated bracket. In three it is called an invalid one, because
the reader has just seen a character that only one other may follow and judges
the end of the text like a wrong character there: behind the mark of a filter,
behind a comma between two names and behind the parenthesis that closes an
expression (`StopsShort`). The main statement says which cuts are which
(`check_cut`); that it is not the same everywhere is `cut_at_comma`.

The cut is anywhere in the bracket, so each shape of segment is read up to an
arbitrary part of its body.
-/

namespace Workflow

namespace Path

variable {d : Dialect} {position start : Nat} {c q : Char}

/-! ## Behind an accepted text -/

theorem exists_leads_of_ok {read : List Char}
    (h : checkChars d read = .ok ()) :
    ∃ stage, Leads d read stage ∧ stage.opening? = none := by
  cases read with
  | nil => cases h
  | cons c cs =>
      by_cases hroot : c = '$'
      · subst hroot
        rcases (Leads.root (d := d)).leads_or_fails cs with
          ⟨last, hlast⟩ | ⟨before, c, after, last, fault, heq, hlast, hstep⟩
        · exact ⟨last, hlast, finish_eq_ok_iff.mp (hlast.checkChars_eq ▸ h)⟩
        · rw [← List.singleton_append, heq,
            hlast.checkChars_of_step_error hstep] at h
          cases h
      · rw [checkChars, if_neg hroot] at h
        cases h

/-- Behind an accepted text, a bracket opens. -/
theorem checkChars_append_bracket {read : List Char}
    (h : checkChars d read = .ok ()) (rest : List Char) :
    checkChars d (read ++ '[' :: rest) =
      outcome d (byteLength read + 1) (.bracket (byteLength read)) rest := by
  obtain ⟨stage, hleads, hclosed⟩ := exists_leads_of_ok h
  have hstep : stage.step d (byteLength read) '[' =
      .ok (.bracket (byteLength read)) := by
    cases stage with
    | between | name _ => rfl
    | dot _ | deepDot _ | bracket _ | quoted _ _ _ | escaped _ _
    | closedQuote _ _ | comma _ _ | question _ | expression _ _ _ _
    | closedExpression _ | index _ _ => cases hclosed
  rw [hleads.checkChars_append, outcome_cons_of_step hstep]
  rfl

/-! ## Parts of a bracket -/

theorem outcome_index_open {front part : List Char} (hpart : ']' ∉ part) :
    outcome d position (.index start front) part =
      .error (.unterminatedBracket start) := by
  induction part generalizing position front with
  | nil => rfl
  | cons c part ih =>
      rw [List.mem_cons, not_or] at hpart
      have hstep : (Stage.index start front).step d position c =
          .ok (.index start (front ++ [c])) := by
        rw [Stage.step, if_neg (Ne.symm hpart.1)]
      rw [outcome_cons_of_step hstep, ih hpart.2]

/-- Inside an expression every character is passed over. -/
theorem outcome_expression {body : List Char} {depth : Nat}
    {open? : Option Char} {blank : Bool}
    (hopen : ∀ part, part <+: body → openAfter (depth, open?) part ≠ 0)
    (rest : List Char) :
    outcome d position (.expression start depth open? blank) (body ++ rest) =
      outcome d (position + byteLength body)
        (.expression start (body.foldl nest (depth, open?)).1
          (body.foldl nest (depth, open?)).2
          (blank && body.all Text.isBlank)) rest := by
  induction body generalizing position depth open? blank with
  | nil => simp [byteLength]
  | cons c body ih =>
      have hdepth : depth ≠ 0 := hopen [] List.nil_prefix
      have hnest : (nest (depth, open?) c).1 ≠ 0 :=
        hopen [c] (List.cons_prefix_cons.mpr ⟨rfl, List.nil_prefix⟩)
      have hstep : (Stage.expression start depth open? blank).step d position
          c = _ := expressionStep_eq hdepth
      rw [if_neg hnest] at hstep
      rw [List.cons_append, outcome_cons_of_step hstep, ih]
      · simp [byteLength, Nat.add_assoc, Bool.and_assoc]
      · intro part hpart
        exact hopen (c :: part) (List.cons_prefix_cons.mpr ⟨rfl, hpart⟩)

theorem outcome_expression_open {part : List Char} {depth : Nat}
    {open? : Option Char} {blank : Bool}
    (hopen : ∀ p, p <+: part → openAfter (depth, open?) p ≠ 0) :
    outcome d position (.expression start depth open? blank) part =
      .error (.unterminatedBracket start) := by
  have hread : outcome d position (.expression start depth open? blank)
      (part ++ []) = _ := outcome_expression hopen []
  rw [List.append_nil] at hread
  rw [hread]
  rfl

/-- Once its parenthesis is closed, an expression only waits for its bracket. -/
theorem outcome_expression_closed {filter : Bool} {body : List Char}
    (hwf : (Segment.expression filter body).WellFormed) :
    outcome d position (.expression start 1 none true) (body ++ [')']) =
      .error (.invalidBracket start) := by
  obtain ⟨⟨hopen, hclose⟩, x, hx, hblank⟩ := hwf
  have hall : body.all Text.isBlank = false :=
    List.all_eq_false.mpr ⟨x, hx, by simp [hblank]⟩
  have hdepth : (body.foldl nest (1, none)).1 ≠ 0 :=
    hopen body List.prefix_rfl
  have hzero : (nest (body.foldl nest (1, none)) ')').1 = 0 := by
    rwa [openAfter, List.foldl_append] at hclose
  rw [outcome_expression hopen, hall]
  have hstep : (Stage.expression start (body.foldl nest (1, none)).1
      (body.foldl nest (1, none)).2 (true && false)).step d
      (position + byteLength body) ')' = _ := expressionStep_eq hdepth
  rw [if_pos hzero] at hstep
  rw [outcome_cons_of_step hstep]
  rfl

/-- A body between quotes that is not read to its end leaves the quote open. -/
theorem outcome_body_open (hq : q ≠ '\\') {body part : List Char}
    (hbody : QuotedBody q body) (hpart : part <+: body) {isEmpty : Bool} :
    outcome d position (.quoted start q isEmpty) part =
      .error (.unterminatedBracket start) := by
  induction hbody generalizing position part isEmpty with
  | nil =>
      rw [List.prefix_nil.mp hpart]
      rfl
  | escape c _ ih =>
      rcases List.prefix_cons_iff.mp hpart with rfl | ⟨part, rfl, hrest⟩
      · rfl
      rw [outcome_cons_of_step (step_quoted_escape hq)]
      rcases List.prefix_cons_iff.mp hrest with rfl | ⟨part, rfl, htail⟩
      · rfl
      rw [outcome_cons_of_step rfl]
      exact ih htail
  | plain hc hescape _ ih =>
      rcases List.prefix_cons_iff.mp hpart with rfl | ⟨part, rfl, hrest⟩
      · rfl
      rw [outcome_cons_of_step (step_quoted_plain hc hescape)]
      exact ih hrest

/-! ## Quoted names

A name begins behind the bracket or behind a comma. What the two stages have in
common is that the quote leads both to a name of which nothing has been read. -/

section Quotes

variable {stage : Stage} {bodies : List (List Char)} {part : List Char}

/-- A quoted name that is not followed by anything yet leaves the bracket
open. -/
theorem outcome_quote_open (hq : q ≠ '\\')
    (hstep : ∀ position, stage.step d position q = .ok (.quoted start q true))
    {body : List Char} (hne : body ≠ []) (hbody : QuotedBody q body)
    (hpart : part <+: quote q body) (hpart' : part ≠ []) :
    outcome d position stage part = .error (.unterminatedBracket start) := by
  rcases List.prefix_cons_iff.mp hpart with rfl | ⟨part, rfl, hrest⟩
  · exact absurd rfl hpart'
  rw [outcome_cons_of_step (hstep position)]
  rcases List.prefix_concat_iff.mp hrest with rfl | hrest
  · rw [outcome_body hq hbody fun _ => hne]
    rfl
  · exact outcome_body_open hq hbody hrest

theorem outcome_quote (hq : q ≠ '\\')
    (hstep : ∀ position, stage.step d position q = .ok (.quoted start q true))
    {body : List Char} (hne : body ≠ []) (hbody : QuotedBody q body)
    (rest : List Char) :
    outcome d position stage (quote q body ++ rest) =
      outcome d (position + byteLength (quote q body)) (.closedQuote start q)
        rest := by
  rw [quote_append, outcome_cons_of_step (hstep position),
    outcome_body hq hbody fun _ => hne]
  simp only [quote, byteLength, Nat.add_assoc]

theorem step_comma_quote (position : Nat) :
    (Stage.comma start q).step d position q = .ok (.quoted start q true) := by
  rw [Stage.step, if_pos rfl]

/-- Behind a comma, no more than one character may follow. -/
theorem outcome_quotes_comma (hq : q ≠ '\\')
    (hstep : ∀ position,
      stage.step .general position q = .ok (.quoted start q true))
    (hne : bodies ≠ [])
    (hbodies : ∀ body ∈ bodies, body ≠ [] ∧ QuotedBody q body) :
    outcome .general position stage (quotes q bodies ++ [',']) =
      .error (.invalidBracket start) := by
  induction bodies generalizing position stage with
  | nil => exact absurd rfl hne
  | cons body bodies ih =>
      rw [List.forall_mem_cons] at hbodies
      obtain ⟨⟨hbody, hquoted⟩, hbodies⟩ := hbodies
      by_cases hlast : bodies = []
      · subst hlast
        rw [quotes_singleton, outcome_quote hq hstep hbody hquoted]
        rfl
      · rw [quotes_cons hlast, List.append_assoc,
          outcome_quote hq hstep hbody hquoted, List.cons_append,
          outcome_cons_of_step rfl]
        exact ih step_comma_quote hlast hbodies

/-- Anywhere else the bracket is left open. -/
theorem outcome_quotes_open (hq : q ≠ '\\')
    (hstep : ∀ position,
      stage.step .general position q = .ok (.quoted start q true))
    (hbodies : ∀ body ∈ bodies, body ≠ [] ∧ QuotedBody q body)
    (hpart : part <+: quotes q bodies) (hne : part ≠ [])
    (hcomma : ∀ front back, front ≠ [] → back ≠ [] → bodies = front ++ back →
      part ≠ quotes q front ++ [',']) :
    outcome .general position stage part =
      .error (.unterminatedBracket start) := by
  induction bodies generalizing position stage part with
  | nil => exact absurd (List.prefix_nil.mp hpart) hne
  | cons body bodies ih =>
      rw [List.forall_mem_cons] at hbodies
      obtain ⟨⟨hbody, hquoted⟩, hbodies⟩ := hbodies
      by_cases hlast : bodies = []
      · subst hlast
        rw [quotes_singleton] at hpart
        exact outcome_quote_open hq hstep hbody hquoted hpart hne
      rw [quotes_cons hlast] at hpart
      rcases List.prefix_or_prefix_of_prefix hpart
        (List.prefix_append (quote q body) _) with hfirst | ⟨part, rfl⟩
      · exact outcome_quote_open hq hstep hbody hquoted hfirst hne
      rw [List.prefix_append_right_inj] at hpart
      rw [outcome_quote hq hstep hbody hquoted]
      rcases List.prefix_cons_iff.mp hpart with rfl | ⟨part, rfl, hrest⟩
      · rfl
      rw [outcome_cons_of_step rfl]
      refine ih step_comma_quote hbodies hrest ?_ ?_
      · rintro rfl
        exact hcomma [body] bodies (by simp) hlast rfl
          (by rw [quotes_singleton])
      · rintro front back hfront hback rfl rfl
        refine hcomma (body :: front) back (by simp) hback rfl ?_
        rw [quotes_cons hfront]
        simp

end Quotes

/-! ## Where the end of the text is judged like a wrong character -/

/-- The part of a bracket ends behind the mark of a filter, behind a comma
between two names or behind the parenthesis that closes an expression. -/
inductive Segment.StopsShort : Segment → List Char → Prop
  | question (body : List Char) : StopsShort (.expression true body) ['?']
  | comma (q : Char) {front back : List (List Char)} :
      front ≠ [] → back ≠ [] →
      StopsShort (.quoted q (front ++ back)) (quotes q front ++ [','])
  | parenthesis (filter : Bool) (body : List Char) :
      StopsShort (.expression filter body)
        (mark filter ++ '(' :: (body ++ [')']))

variable {s : Segment} {inner part : List Char}

theorem bracketed_inj {body body' : List Char} :
    bracketed body = bracketed body' ↔ body = body' := by
  simp [bracketed]

/-- What a bracket comes to if the text ends behind the given part of it. -/
def CutAt (start : Nat) (s : Segment) (part : List Char)
    (result : Except Fault Unit) : Prop :=
  (s.StopsShort part → result = .error (.invalidBracket start)) ∧
    (¬ s.StopsShort part → result = .error (.unterminatedBracket start))

theorem cutAt_of_body? (hbody : s.body? = some inner) (hwf : s.WellFormed)
    (hpart : part <+: inner) :
    CutAt start s part (outcome d position (.bracket start) part) := by
  have hchar := indexChar_of_body? hbody hwf
  refine ⟨fun h => ?_, fun _ => ?_⟩
  · cases h <;> cases hbody
  · cases part with
    | nil => rfl
    | cons c part =>
        have hpart := hpart.subset
        rw [outcome_cons_of_step (hchar c (hpart (by simp))).step_bracket]
        exact outcome_index_open fun hmem =>
          (hchar ']' (hpart (List.mem_cons_of_mem _ hmem))).ne_close rfl

theorem cutAt_quoted {bodies : List (List Char)}
    (hwf : (Segment.quoted q bodies).WellFormed)
    (hpart : part <+: quotes q bodies) :
    CutAt start (.quoted q bodies) part
      (outcome .general position (.bracket start) part) := by
  obtain ⟨hquote, -, hbodies⟩ := hwf
  have hescape : q ≠ '\\' := by rcases hquote with rfl | rfl <;> decide
  have hstep (position : Nat) : (Stage.bracket start).step .general position q =
      .ok (.quoted start q true) := by
    rcases hquote with rfl | rfl <;> rfl
  refine ⟨fun h => ?_, fun h => ?_⟩
  · cases h with
    | comma _ hfront hback =>
        exact outcome_quotes_comma hescape hstep hfront fun body hbody =>
          hbodies body (List.mem_append_left _ hbody)
  · by_cases hne : part = []
    · subst hne
      rfl
    · refine outcome_quotes_open hescape hstep hbodies hpart hne ?_
      rintro front back hfront hback rfl rfl
      exact h (.comma q hfront hback)

theorem outcome_mark (filter : Bool) (rest : List Char) :
    outcome .general position (.bracket start) (mark filter ++ '(' :: rest) =
      outcome .general (position + byteLength (mark filter ++ ['(']))
        (.expression start 1 none true) rest := by
  cases filter <;> rfl

/-- Inside the parentheses of an expression, the bracket is left open. -/
theorem outcome_mark_open {filter : Bool} {body tail : List Char}
    (hwf : (Segment.expression filter body).WellFormed)
    (htail : tail <+: body ++ [')'])
    (hclosed : tail ≠ body ++ [')']) :
    outcome .general position (.bracket start) (mark filter ++ '(' :: tail) =
      .error (.unterminatedBracket start) := by
  have htail := (List.prefix_concat_iff.mp htail).resolve_left hclosed
  rw [outcome_mark]
  exact outcome_expression_open fun p hp => hwf.1.1 p (hp.trans htail)

theorem cutAt_expression {filter : Bool} {body : List Char}
    (hwf : (Segment.expression filter body).WellFormed)
    (hpart : part <+: mark filter ++ '(' :: (body ++ [')'])) :
    CutAt start (.expression filter body) part
      (outcome .general position (.bracket start) part) := by
  refine ⟨fun h => ?_, fun h => ?_⟩
  · cases h with
    | question body => rfl
    | parenthesis filter body =>
        rw [outcome_mark]
        exact outcome_expression_closed hwf
  cases filter with
  | false =>
      rcases List.prefix_cons_iff.mp hpart with rfl | ⟨tail, rfl, htail⟩
      · rfl
      refine outcome_mark_open hwf htail ?_
      rintro rfl
      exact h (.parenthesis false body)
  | true =>
      rcases List.prefix_cons_iff.mp hpart with rfl | ⟨rest, rfl, hrest⟩
      · rfl
      rcases List.prefix_cons_iff.mp hrest with rfl | ⟨tail, rfl, htail⟩
      · exact absurd (.question body) h
      refine outcome_mark_open hwf htail ?_
      rintro rfl
      exact h (.parenthesis true body)

theorem cutAt_of_prefix (hwf : s.WellFormed) (htext : s.text = bracketed inner)
    (hpart : part <+: inner) :
    CutAt start s part (outcome .general position (.bracket start) part) := by
  have hindexed (body : List Char) (hbody : s.body? = some body) :
      CutAt start s part (outcome .general position (.bracket start) part) := by
    rw [text_of_body? hbody, bracketed_inj] at htext
    exact cutAt_of_body? hbody hwf (htext ▸ hpart)
  cases s with
  | name deep word => cases deep <;> cases htext
  | wildcard deep => cases deep <;> cases htext
  | quoted q bodies =>
      obtain rfl := bracketed_inj.mp htext
      exact cutAt_quoted hwf hpart
  | expression filter body =>
      obtain rfl := bracketed_inj.mp htext
      exact cutAt_expression hwf hpart
  | all => exact hindexed _ rfl
  | index _ _ => exact hindexed _ rfl
  | slice _ => exact hindexed _ rfl
  | union _ => exact hindexed _ rfl

/-! ## Cuts of a text -/

/-- Of two parts of one text from its front, the one of fewer bytes is a part of
the other. -/
theorem prefix_of_byteLength_lt {cs ds whole : List Char}
    (hcs : cs <+: whole) (hds : ds <+: whole)
    (h : byteLength cs < byteLength ds) : cs <+: ds := by
  rcases List.prefix_or_prefix_of_prefix hcs hds with hprefix | ⟨rest, rfl⟩
  · exact hprefix
  · rw [byteLength_append] at h
    omega

/-- A cut behind the opening bracket of a segment and in front of its closing
one leaves the bracket and a part of its body. -/
theorem exists_part_of_cut {front back cut : List Char}
    (hcut : cut <+: front ++ bracketed inner ++ back)
    (hopen : byteLength front < byteLength cut)
    (hclose : byteLength cut < byteLength (front ++ bracketed inner)) :
    ∃ part, part <+: inner ∧ cut = front ++ '[' :: part := by
  have hwhole : front ++ bracketed inner <+:
      front ++ bracketed inner ++ back := List.prefix_append _ _
  obtain ⟨part, rfl⟩ := prefix_of_byteLength_lt
    ((List.prefix_append _ _).trans hwhole) hcut hopen
  have hpart := prefix_of_byteLength_lt hcut hwhole hclose
  rw [List.prefix_append_right_inj, bracketed] at hpart
  rcases List.prefix_cons_iff.mp hpart with rfl | ⟨part, rfl, hrest⟩
  · rw [List.append_nil] at hopen
    exact absurd hopen (Nat.lt_irrefl _)
  rcases List.prefix_concat_iff.mp hrest with rfl | hrest
  · exact absurd hclose (Nat.lt_irrefl _)
  · exact ⟨part, hrest, rfl⟩

/-- A path that is cut off inside a bracket is refused, and the fault is charged
to that bracket. The bracket is unterminated unless the text stops short of the
one character that may follow; then it is invalid. -/
theorem check_cut {path : String} (hpath : check .general path = .ok ()) :
    (∃ segments, Spells segments path) ∧
    ∀ before s after inner, Spells (before ++ s :: after) path →
      s.text = bracketed inner →
      ∀ start, start = byteLength ('$' :: before.flatMap Segment.text) →
      ∀ cut : String, cut.toList <+: path.toList →
      start < cut.utf8ByteSize →
      cut.utf8ByteSize < start + byteLength s.text →
      ∃ part, part <+: inner ∧
        cut.toList = '$' :: before.flatMap Segment.text ++ '[' :: part ∧
        (s.StopsShort part →
          check .general cut = .error (.invalidBracket start)) ∧
        (¬ s.StopsShort part →
          check .general cut = .error (.unterminatedBracket start)) := by
  refine ⟨exists_spells_of_check hpath, ?_⟩
  rintro before s after inner ⟨hwf, hspelt⟩ htext _ rfl cut hcut hopen hclose
  rw [List.forall_mem_append, List.forall_mem_cons] at hwf
  obtain ⟨hbefore, hs, -⟩ := hwf
  have hwhole : path.toList = '$' :: before.flatMap Segment.text ++
      bracketed inner ++ after.flatMap Segment.text := by
    rw [hspelt, List.flatMap_append, List.flatMap_cons, htext]
    simp
  have hbytes : cut.utf8ByteSize = byteLength cut.toList := by
    rw [byteLength_eq_utf8ByteSize, String.ofList_toList]
  rw [hbytes] at hopen hclose
  rw [htext, ← byteLength_append] at hclose
  obtain ⟨part, hpart, heq⟩ := exists_part_of_cut (hwhole ▸ hcut) hopen hclose
  have haccepted :
      checkChars .general ('$' :: before.flatMap Segment.text) = .ok () := by
    rw [← check_ofList, check_eq_ok_iff]
    exact ⟨before, fun t ht => ⟨hbefore t ht, t.allowed_general⟩,
      String.toList_ofList⟩
  refine ⟨part, hpart, heq, ?_⟩
  rw [check, heq, checkChars_append_bracket haccepted]
  exact cutAt_of_prefix hs htext hpart

theorem spells_union :
    Spells [.quoted '\'' [['a'], ['b']]] "$['a','b']" := by
  refine ⟨fun s hs => ?_, by decide⟩
  rw [List.mem_singleton.mp hs]
  refine ⟨.inl rfl, by simp, ?_⟩
  have hbody (c : Char) (hc : c ≠ '\'') (hescape : c ≠ '\\') :
      [c] ≠ [] ∧ QuotedBody '\'' [c] :=
    ⟨by simp, .plain hc hescape .nil⟩
  rw [List.forall_mem_cons, List.forall_mem_singleton]
  exact ⟨hbody 'a' (by decide) (by decide), hbody 'b' (by decide) (by decide)⟩

/-- Behind the first name of a union, the bracket may close or a comma may
follow. -/
theorem check_cut_name :
    check .general "$['a','b']" = .ok () ∧
    Spells [.quoted '\'' [['a'], ['b']]] "$['a','b']" ∧
    (Segment.quoted '\'' [['a'], ['b']]).text =
      bracketed "'a','b'".toList ∧
    1 = byteLength ['$'] ∧
    "$['a'".toList <+: "$['a','b']".toList ∧
    1 < "$['a'".utf8ByteSize ∧
    "$['a'".utf8ByteSize <
      1 + byteLength (Segment.quoted '\'' [['a'], ['b']]).text ∧
    ∃ part, part <+: "'a','b'".toList ∧
      "$['a'".toList = ['$'] ++ '[' :: part ∧
      ((Segment.quoted '\'' [['a'], ['b']]).StopsShort part →
        check .general "$['a'" = .error (.invalidBracket 1)) ∧
      (¬ (Segment.quoted '\'' [['a'], ['b']]).StopsShort part →
        check .general "$['a'" = .error (.unterminatedBracket 1)) :=
  have haccepted : check .general "$['a','b']" = .ok () := by decide
  have hcut : "$['a'".toList <+: "$['a','b']".toList := by decide
  ⟨haccepted, spells_union, by decide, rfl, hcut, by decide, by decide,
    (check_cut haccepted).2 [] _ [] _ spells_union (by decide) 1 rfl _ hcut
      (by decide) (by decide)⟩

/-- The end of the text is not judged alike everywhere in a bracket: behind a
comma it makes the bracket an invalid one. -/
theorem cut_at_comma :
    ¬ ∀ (path : String) (before : List Segment) (s : Segment)
      (after : List Segment) (inner : List Char) (cut : String),
      check .general path = .ok () → Spells (before ++ s :: after) path →
      s.text = bracketed inner → cut.toList <+: path.toList →
      byteLength ('$' :: before.flatMap Segment.text) < cut.utf8ByteSize →
      cut.utf8ByteSize < byteLength ('$' :: before.flatMap Segment.text) +
        byteLength s.text →
      check .general cut = .error (.unterminatedBracket
        (byteLength ('$' :: before.flatMap Segment.text))) := by
  intro h
  have hcut := h "$['a','b']" [] (.quoted '\'' [['a'], ['b']]) []
    "'a','b'".toList "$['a'," (by decide) spells_union (by decide) (by decide)
    (by decide) (by decide)
  have hinvalid : check .general "$['a'," = .error (.invalidBracket 1) := by
    decide
  rw [hinvalid] at hcut
  cases hcut

end Path

end Workflow

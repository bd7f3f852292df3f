import Workflow.Path.Cursor
import Workflow.Proofs.Path.Positions

/-!
# What can be said of a reader at a cursor

A reader gives nothing if it gets stuck, and nothing if it does not end, so to
show that it gives something is to show that neither happens. The statement to
be carried through a reader (`Ends`) says this of every place of the text that
it may start from, and that whatever it does on its way is safe. The offsets
that it meets are those of places, and a place holds the proof that the text in
front of it and the text behind it make up the whole.

Each thing a reader can do has one rule here. That of a loop is the one with an
argument in it: a turn that goes on must leave less of the text to be read, and
then the loop comes to its end before it has taken more turns than there are
bytes (`ends_loopFor`).
-/

namespace Workflow

namespace Path

/-! ## Borders of characters -/

/-- The offset is that of a place between two characters, or at one of the ends
of the text. -/
def AtBorder (path : String) (offset : Nat) : Prop :=
  offset ≤ path.utf8ByteSize ∧ String.Pos.Raw.IsValid path ⟨offset⟩

theorem atBorder_iff {text : List Char} {n : Nat} :
    AtBorder (String.ofList text) n ↔
      ∃ before after, text = before ++ after ∧ byteLength before = n := by
  rw [AtBorder, String.Pos.Raw.isValid_iff_exists_append]
  constructor
  · rintro ⟨-, s, t, heq, hn⟩
    refine ⟨s.toList, t.toList, ?_, ?_⟩
    · rw [← String.toList_append, ← heq, String.toList_ofList]
    · rw [byteLength_eq_utf8ByteSize, String.ofList_toList]
      exact (congrArg String.Pos.Raw.byteIdx hn).symm
  · rintro ⟨before, after, rfl, rfl⟩
    refine ⟨?_, String.ofList before, String.ofList after,
      String.ofList_append, ?_⟩
    · rw [← byteLength_eq_utf8ByteSize, byteLength_append]
      exact Nat.le_add_right _ _
    · rw [byteLength_eq_utf8ByteSize]
      rfl

/-! ## Parts of a text -/

theorem dropBytes?_cons (c : Char) (n : Nat) (cs : List Char) :
    dropBytes? (c.utf8Size + n) (c :: cs) = dropBytes? n cs := by
  obtain ⟨k, hk⟩ := Nat.exists_eq_succ_of_ne_zero c.utf8Size_pos.ne'
  have hrest : k + n + 1 - k.succ = n := by omega
  rw [hk, Nat.succ_add, dropBytes?, hk, if_pos (by omega), hrest]

theorem takeBytes?_cons (c : Char) (n : Nat) (cs : List Char) :
    takeBytes? (c.utf8Size + n) (c :: cs) =
      (takeBytes? n cs).map (c :: ·) := by
  obtain ⟨k, hk⟩ := Nat.exists_eq_succ_of_ne_zero c.utf8Size_pos.ne'
  have hrest : k + n + 1 - k.succ = n := by omega
  rw [hk, Nat.succ_add, takeBytes?, hk, if_pos (by omega), hrest]

theorem dropBytes?_eq_some_iff {n : Nat} {text after : List Char} :
    dropBytes? n text = some after ↔
      ∃ before, text = before ++ after ∧ byteLength before = n := by
  constructor
  · intro h
    fun_induction dropBytes? n text with
    | case1 cs => exact ⟨[], Option.some.inj h, rfl⟩
    | case2 => cases h
    | case3 n c cs hle ih =>
        obtain ⟨before, rfl, hn⟩ := ih h
        exact ⟨c :: before, rfl, by rw [byteLength, hn]; omega⟩
    | case4 => cases h
  · intro h
    obtain ⟨before, rfl, rfl⟩ := h
    induction before with
    | nil => rw [byteLength, dropBytes?, List.nil_append]
    | cons c before ih =>
        rw [List.cons_append, byteLength, dropBytes?_cons, ih]

theorem takeBytes?_eq_some_iff {n : Nat} {text part : List Char} :
    takeBytes? n text = some part ↔
      ∃ after, text = part ++ after ∧ byteLength part = n := by
  constructor
  · intro h
    fun_induction takeBytes? n text generalizing part with
    | case1 cs =>
        obtain rfl := Option.some.inj h
        exact ⟨cs, rfl, rfl⟩
    | case2 => cases h
    | case3 n c cs hle ih =>
        obtain ⟨part, hpart, rfl⟩ := Option.map_eq_some_iff.mp h
        obtain ⟨after, rfl, hn⟩ := ih hpart
        exact ⟨after, rfl, by rw [byteLength, hn]; omega⟩
    | case4 => cases h
  · intro h
    obtain ⟨after, rfl, rfl⟩ := h
    induction part with
    | nil => rw [byteLength, takeBytes?]
    | cons c part ih =>
        rw [List.cons_append, byteLength, takeBytes?_cons, ih]
        rfl

theorem slice?_eq_some_iff {start stop : Nat} {text part : List Char} :
    slice? start stop text = some part ↔
      ∃ before after, text = before ++ (part ++ after) ∧
        byteLength before = start ∧ start + byteLength part = stop := by
  rw [slice?, Option.ite_none_right_eq_some, Option.bind_eq_some_iff]
  simp only [dropBytes?_eq_some_iff, takeBytes?_eq_some_iff]
  constructor
  · intro h
    obtain ⟨hle, _, ⟨before, rfl, hstart⟩, after, rfl, hpart⟩ := h
    exact ⟨before, after, rfl, hstart, by omega⟩
  · intro h
    obtain ⟨before, after, rfl, hstart, hstop⟩ := h
    exact ⟨by omega, _, ⟨before, rfl, hstart⟩, after, rfl, by omega⟩

theorem byteLength_pos {cs : List Char} (h : cs ≠ []) : 0 < byteLength cs := by
  cases cs with
  | nil => exact absurd rfl h
  | cons c cs =>
      rw [byteLength]
      exact Nat.add_pos_left c.utf8Size_pos _

/-- The first byte of a longer character is no part of the text. -/
example : slice? 1 2 "$ö".toList = none := by decide

/-! ## What may be done at a cursor -/

/-- The act is one that no reader gets stuck at and no loop goes on for ever
with: the cursor stays at borders, parts of the text are taken between borders
that are in order, nothing is taken away from zero, and a turn of a loop that is
followed by another has moved the cursor on. -/
def Act.Safe (path : String) : Act → Prop
  | .move source target => AtBorder path source ∧ AtBorder path target
  | .slice start stop =>
    start ≤ stop ∧ AtBorder path start ∧ AtBorder path stop
  | .lower count => 0 < count
  | .turn before after => before < after

/-- A place in a text. -/
structure Place (text : List Char) where
  before : List Char
  after : List Char
  append_eq : before ++ after = text

namespace Place

variable {text : List Char}

/-- The offset of a place. -/
def offset (p : Place text) : Nat := byteLength p.before

/-- The place behind a part of the text. -/
def behind (p : Place text) (part : List Char) {rest : List Char}
    (h : p.after = part ++ rest) : Place text where
  before := p.before ++ part
  after := rest
  append_eq := by rw [List.append_assoc, ← h, p.append_eq]

theorem offset_behind (p : Place text) {part rest : List Char}
    (h : p.after = part ++ rest) :
    (p.behind part h).offset = p.offset + byteLength part :=
  byteLength_append _ _

/-- What lies behind one place and in front of another grows with the second. -/
theorem before_behind {s p : Place text} {body part rest : List Char}
    (hbefore : p.before = s.before ++ body) (h : p.after = part ++ rest) :
    (p.behind part h).before = s.before ++ (body ++ part) :=
  (congrArg (· ++ part) hbefore).trans (List.append_assoc _ _ _)

theorem offset_le_of_before {p q : Place text} {part : List Char}
    (h : q.before = p.before ++ part) : p.offset ≤ q.offset := by
  rw [offset, offset, h, byteLength_append]
  exact Nat.le_add_right _ _

theorem atBorder (p : Place text) : AtBorder (String.ofList text) p.offset :=
  atBorder_iff.mpr ⟨p.before, p.after, p.append_eq.symm, rfl⟩

theorem offset_le (p : Place text) : p.offset ≤ byteLength text := by
  have hlength := byteLength_append p.before p.after
  rw [p.append_eq] at hlength
  rw [offset, hlength]
  exact Nat.le_add_right _ _

end Place

open Reader

variable {α β σ : Type} {text : List Char}

/-- What is asked of the result of a reader and the place it is left at. -/
abbrev Post (text : List Char) (α : Type) := Except Fault α → Place text → Prop

/-- From the place the reader comes to an end without getting stuck, and does
nothing on its way that is not safe; its result and the place it ends at are as
they should be. -/
def Ends (r : Reader α) (p : Place text) (post : Post text α) : Prop :=
  ∀ acts, ∃ result q done,
    r.runAt ⟨p.offset, acts⟩ = some (result, ⟨q.offset, acts ++ done⟩) ∧
      (∀ a ∈ done, a.Safe (String.ofList text)) ∧ post result q

/-- What is asked of the first of two readers: that the second ends well from
where it leads. -/
def Post.seq (next : α → Reader β) (post : Post text β) : Post text α
  | .ok a, q => Ends (next a) q post
  | .error fault, q => post (.error fault) q

/-! ## Rules -/

section Rules

variable {p : Place text} {post : Post text α}

theorem Ends.mono {post' : Post text α} {r : Reader α} (h : Ends r p post)
    (hpost : ∀ result q, post result q → post' result q) :
    Ends r p post' := by
  intro acts
  obtain ⟨result, q, done, hrun, hsafe, hq⟩ := h acts
  exact ⟨result, q, done, hrun, hsafe, hpost result q hq⟩

theorem ends_pure {a : α} (h : post (.ok a) p) : Ends (pure a) p post := by
  intro acts
  exact ⟨.ok a, p, [], by rw [List.append_nil]; rfl, by simp, h⟩

theorem ends_throw {fault : Fault} (h : post (.error fault) p) :
    Ends (throw fault) p post := by
  intro acts
  exact ⟨.error fault, p, [], by rw [List.append_nil]; rfl, by simp, h⟩

theorem ends_ofExcept {result : Except Fault α} (h : post result p) :
    Ends (ofExcept result) p post := by
  cases result with
  | ok a => exact ends_pure h
  | error fault => exact ends_throw h

theorem runAt_bind (r : Reader α) (next : α → Reader β) (c : Cursor) :
    (r >>= next).runAt c = (r.runAt c).bind fun
      | (.ok a, c') => (next a).runAt c'
      | (.error fault, c') => some (.error fault, c') := by
  cases h : r.runAt c with
  | none => exact congrArg (Option.bind · _) h
  | some result =>
      obtain ⟨a | fault, c'⟩ := result
      · exact (congrArg (Option.bind · _) h)
      · exact (congrArg (Option.bind · _) h)

theorem Ends.bind {r : Reader α} {next : α → Reader β} {post : Post text β}
    (h : Ends r p (post.seq next)) : Ends (r >>= next) p post := by
  intro acts
  obtain ⟨result, q, done, hrun, hsafe, hq⟩ := h acts
  rw [runAt_bind, hrun]
  cases result with
  | ok a =>
      obtain ⟨result, q', done', hrun', hsafe', hq'⟩ := hq (acts ++ done)
      refine ⟨result, q', done ++ done', ?_, ?_, hq'⟩
      · rw [← List.append_assoc]
        exact hrun'
      · exact List.forall_mem_append.mpr ⟨hsafe, hsafe'⟩
  | error fault => exact ⟨.error fault, q, done, rfl, hsafe, hq⟩

/-- On either side of a test. -/
theorem Ends.ite {P : Prop} [Decidable P] {r r' : Reader α}
    (hpos : P → Ends r p post) (hneg : ¬ P → Ends r' p post) :
    Ends (if P then r else r') p post := by
  split
  · next h => exact hpos h
  · next h => exact hneg h

end Rules

/-! ## What is done at a cursor -/

section Primitives

variable {p : Place text}

theorem ends_note {a : Act} {post : Post text Unit}
    (hsafe : a.Safe (String.ofList text)) (h : post (.ok ()) p) :
    Ends (note a) p post := by
  intro acts
  exact ⟨.ok (), p, [a], rfl, by simpa using hsafe, h⟩

theorem ends_offset {post : Post text Nat} (h : post (.ok p.offset) p) :
    Ends offset p post := by
  intro acts
  exact ⟨.ok p.offset, p, [], by rw [List.append_nil]; rfl, by simp, h⟩

theorem ends_moveTo {target : Nat} {q : Place text} {post : Post text Unit}
    (htarget : q.offset = target) (h : post (.ok ()) q) :
    Ends (moveTo target) p post := by
  subst htarget
  refine Ends.bind (ends_offset ?_)
  refine Ends.bind (ends_note ⟨p.atBorder, q.atBorder⟩ ?_)
  intro acts
  exact ⟨.ok (), q, [], by rw [List.append_nil]; rfl, by simp, h⟩

theorem ends_advance {n : Nat} {rest : List Char} {post : Post text Unit}
    (part : List Char) (hpart : p.after = part ++ rest)
    (hn : byteLength part = n) (h : post (.ok ()) (p.behind part hpart)) :
    Ends (advance n) p post := by
  refine Ends.bind (ends_offset ?_)
  refine ends_moveTo ?_ h
  rw [Place.offset_behind, hn]

theorem ends_slice {q : Place text} {part : List Char}
    {post : Post text (List Char)} (hpart : q.before = p.before ++ part)
    {r : Place text} (h : post (.ok part) r) :
    Ends (slice text p.offset q.offset) r post := by
  have hoffset : p.offset + byteLength part = q.offset := by
    rw [Place.offset, Place.offset, hpart, byteLength_append]
  have hslice : slice? p.offset q.offset text = some part :=
    slice?_eq_some_iff.mpr ⟨p.before, q.after,
      by rw [← List.append_assoc, ← hpart, q.append_eq], rfl, hoffset⟩
  refine Ends.bind (ends_note ⟨by omega, p.atBorder, q.atBorder⟩ ?_)
  rw [hslice]
  exact ends_pure h

/-- The place behind the whole text. -/
def Place.last (text : List Char) : Place text where
  before := text
  after := []
  append_eq := List.append_nil text

theorem ends_rest {post : Post text (List Char)} (h : post (.ok p.after) p) :
    Ends (rest text) p post := by
  refine Ends.bind (ends_offset ?_)
  exact ends_slice (q := Place.last text) p.append_eq.symm h

theorem ends_peek {c? : Option Char} {post : Post text (Option Char)}
    (hc : p.after.head? = c?) (h : post (.ok c?) p) :
    Ends (peek text) p post := by
  subst hc
  exact Ends.bind (ends_rest (ends_pure h))

/-- Either the text is at its end, or there is a character to go by. -/
theorem Ends.peek {next : Option Char → Reader β} {post : Post text β}
    (hend : p.after = [] → Ends (next none) p post)
    (hchar : ∀ c cs, p.after = c :: cs → Ends (next (some c)) p post) :
    Ends (peek text >>= next) p post := by
  refine Ends.bind (ends_peek rfl ?_)
  cases hafter : p.after with
  | nil => exact hend hafter
  | cons c cs => exact hchar c cs hafter

/-- Either the character is the one that is looked for, or it is not. -/
theorem Ends.peekFor {c : Char} {r r' : Reader β} {post : Post text β}
    (hfound : ∀ cs, p.after = c :: cs → Ends r p post)
    (hmissing : p.after.head? ≠ some c → Ends r' p post) :
    Ends (Reader.peek text >>= fun c? => if c? = some c then r else r') p
      post := by
  refine Ends.bind (ends_peek rfl (Ends.ite (fun hhead => ?_) hmissing))
  obtain ⟨cs, hafter⟩ := List.head?_eq_some_iff.mp hhead
  exact hfound cs hafter

theorem ends_lower {count : Nat} {post : Post text Nat} (hcount : count ≠ 0)
    (h : post (.ok (count - 1)) p) : Ends (lower count) p post := by
  obtain ⟨less, rfl⟩ := Nat.exists_eq_succ_of_ne_zero hcount
  exact Ends.bind (ends_note (Nat.succ_pos less) (ends_pure h))

end Primitives

/-! ## Loops -/

/-- What is asked of a turn of a loop: that it goes on only from a place that
lies behind the one it began at, with what is kept from turn to turn, and that
it leaves with what is asked of the loop. -/
def Post.turn (kept : σ → Place text → Prop) (before : Nat)
    (post : Post text β) : Post text (Turn σ β)
  | .ok (.again s), q => kept s q ∧ before < q.offset
  | .ok (.leave result), q => post (.ok result) q
  | .error fault, q => post (.error fault) q

/-- A loop ends, since there is less and less of the text behind the cursor. -/
theorem ends_loopFor {turn : σ → Reader (Turn σ β)}
    {kept : σ → Place text → Prop} {post : Post text β}
    (hturn : ∀ s p, kept s p → Ends (turn s) p (.turn kept p.offset post))
    {turns : Nat} {s : σ} {p : Place text} (h : kept s p)
    (hturns : byteLength text - p.offset < turns) :
    Ends (loopFor turn turns s) p post := by
  induction turns generalizing s p with
  | zero => exact absurd hturns (Nat.not_lt_zero _)
  | succ turns ih =>
      refine Ends.bind (ends_offset ?_)
      refine Ends.bind ((hturn s p h).mono fun result q hq => ?_)
      obtain (fault | next | result) := result
      · exact hq
      · obtain ⟨hkept, hlt⟩ := hq
        refine Ends.bind (ends_offset (Ends.bind (ends_note hlt ?_)))
        have hle := q.offset_le
        exact ih hkept (by omega)
      · exact ends_pure hq

theorem ends_loop {turn : σ → Reader (Turn σ β)} {kept : σ → Place text → Prop}
    {post : Post text β}
    (hturn : ∀ s p, kept s p → Ends (turn s) p (.turn kept p.offset post))
    {s : σ} {p : Place text} (h : kept s p) : Ends (loop text turn s) p post :=
  ends_loopFor hturn h (by omega)

end Path

end Workflow

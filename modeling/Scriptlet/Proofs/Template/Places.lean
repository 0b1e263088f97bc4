import Scriptlet.Proofs.Expr.Parts
import Scriptlet.Template

/-!
# Where the holes of a template stand

The expression of a hole is cut out of the source. It is not empty, there are no blanks around it,
and it stands at the place that the segment says (`Segment.StandsIn`).

Every segment takes a character at least, and a hole stands within what its segment takes
(`Template.takes_segment`). So no expression begins before the one in front of it has ended
(`Segment.Before`), and there are no more segments than characters, however many steps are allowed
(`Template.split_located`).
-/

namespace Scriptlet

open Text

variable {offset n : Nat} {cs s : List Char}

/-! ## Trimming -/

namespace Text

theorem trimEnd_append (s : List Char) : trimEnd s ++ (s.reverse.takeWhile isBlank).reverse = s := by
  rw [trimEnd, ← List.reverse_append, List.takeWhile_append_dropWhile, List.reverse_reverse]

/-- Trimming takes a front and a back off, and the front is all that `trimStart` takes off. -/
theorem exists_of_trim (s : List Char) :
    ∃ front back, s = front ++ trim s ++ back ∧
      byteSize front = byteSize s - byteSize (trimStart s) := by
  have hs : s = s.takeWhile isBlank ++ trimStart s := List.takeWhile_append_dropWhile.symm
  refine ⟨s.takeWhile isBlank, ((trimStart s).reverse.takeWhile isBlank).reverse, ?_, ?_⟩
  · rw [List.append_assoc, trim, trimEnd_append, ← hs]
  · have hsize := congrArg byteSize hs
    rw [byteSize_append] at hsize
    omega

theorem head?_trim (s : List Char) : ∀ c ∈ (trim s).head?, isBlank c = false := by
  intro c hc
  have hfirst := List.head?_dropWhile_not isBlank s
  rw [← trimStart, ← trimEnd_append (trimStart s), ← trim, List.head?_append, hc] at hfirst
  simpa using hfirst

theorem getLast?_trim (s : List Char) : ∀ c ∈ (trim s).getLast?, isBlank c = false := by
  intro c hc
  have hlast := List.head?_dropWhile_not isBlank (trimStart s).reverse
  rw [trim, trimEnd, List.getLast?_reverse] at hc
  rw [hc] at hlast
  simpa using hlast

end Text

/-! ## Places -/

namespace Segment

/-- If a segment is a hole, its expression stands at the place that it says, in a text at `offset`. It
    is not empty and has no blanks around it. -/
def StandsIn (offset : Nat) (cs : List Char) : Segment → Prop
  | literal _ => True
  | hole text place _ _ => text ≠ [] ∧ (∀ c ∈ text.head?, isBlank c = false) ∧
      (∀ c ∈ text.getLast?, isBlank c = false) ∧
      ∃ before after, cs = before ++ text ++ after ∧ place = offset + byteSize before

/-- If two segments are holes, the expression of the first ends before that of the second begins. -/
def Before : Segment → Segment → Prop
  | hole text place _ _, hole _ place' _ _ => place + byteSize text ≤ place'
  | _, _ => True

namespace StandsIn

variable {p q : Segment}

theorem append_left (front : List Char) (h : p.StandsIn (offset + byteSize front) cs) :
    p.StandsIn offset (front ++ cs) := by
  cases p with
  | literal => trivial
  | hole text place =>
    obtain ⟨hne, hfirst, hlast, before, after, rfl, rfl⟩ := h
    refine ⟨hne, hfirst, hlast, front ++ before, after, by simp only [List.append_assoc], ?_⟩
    rw [byteSize_append, Nat.add_assoc]

theorem of_take (h : p.StandsIn offset (cs.take n)) : p.StandsIn offset cs := by
  cases p with
  | literal => trivial
  | hole text place =>
    obtain ⟨hne, hfirst, hlast, before, after, hcs, rfl⟩ := h
    refine ⟨hne, hfirst, hlast, before, after ++ cs.drop n, ?_, rfl⟩
    rw [← List.append_assoc, ← hcs, List.take_append_drop]

theorem of_drop (h : p.StandsIn (offset + byteSize (cs.take n)) (cs.drop n)) :
    p.StandsIn offset cs := by
  have := append_left (cs.take n) h
  rwa [List.take_append_drop] at this

theorem before (hp : p.StandsIn offset cs) (hq : q.StandsIn (offset + byteSize cs) s) :
    p.Before q := by
  cases p with
  | literal => trivial
  | hole text place =>
    cases q with
    | literal => trivial
    | hole text' place' =>
      obtain ⟨-, -, -, before, after, rfl, rfl⟩ := hp
      obtain ⟨-, -, -, before', after', -, rfl⟩ := hq
      simp only [Before, byteSize_append]
      omega

end StandsIn

end Segment

/-- The marks in front of a body are of one byte each. -/
theorem Delimiters.byteSize_take_opening {d : Delimiters} (hd : Delimiters.of? cs = some d) :
    byteSize (cs.take d.opening) = d.opening := by
  unfold Delimiters.of? at hd
  split at hd <;> cases hd <;> rfl

namespace Template

variable {style : StringStyle} {body lexeme : List Char} {start steps m : Nat}
  {segments : List Segment}

/-! ## One segment -/

/-- Nothing in a hole is marked behind the brace that closes it. -/
theorem marks_le_close {i depth : Nat} {comma colon : Option Nat} (hcomma : ∀ k ∈ comma, k ≤ i)
    (hcolon : ∀ k ∈ colon, k ≤ i) :
    Ends (fun marks => (∀ k ∈ marks.comma, k ≤ marks.close) ∧ ∀ k ∈ marks.colon, k ≤ marks.close)
      (fun _ => True) (holeMarks start steps offset i depth comma colon cs) := by
  induction steps generalizing offset i depth comma colon cs with
  | zero => trivial
  | succ steps ih =>
    cases cs with
    | nil => trivial
    | cons c cs =>
      have hlater {o : Option Nat} {j : Nat} (ho : ∀ k ∈ o, k ≤ i) (hij : i ≤ j) : ∀ k ∈ o, k ≤ j :=
        fun k hk => (ho k hk).trans hij
      have hhere : ∀ k ∈ some i, k ≤ i + 1 := by simp
      rw [holeMarks]
      repeat' split
      all_goals first
        | trivial
        | exact ⟨hcomma, hcolon⟩
        | exact ih (hlater hcomma (by omega)) (hlater hcolon (by omega))
        | exact ih hhere (hlater hcolon (by omega))
        | exact ih (hlater hcomma (by omega)) hhere

/-- A segment takes some characters of a body at `offset` and stands there. -/
def Takes (offset : Nat) (body : List Char) (r : Segment × Nat) : Prop :=
  0 < r.2 ∧ r.1.StandsIn offset (body.take r.2)

theorem takes_hole : Ends (Takes offset ('\x7b' :: cs)) (fun _ => True) (hole offset cs) := by
  refine (marks_le_close (by simp) (by simp)).bind fun marks hmarks => ?_
  -- The expression ends in front of the brace, whichever mark ends it.
  have hend : (marks.comma.or marks.colon).getD marks.close ≤ marks.close := by
    cases hc : marks.comma with
    | some k => exact hmarks.1 k hc
    | none =>
      cases ho : marks.colon with
      | some k => exact hmarks.2 k ho
      | none => exact Nat.le_refl _
  dsimp only
  generalize (marks.comma.or marks.colon).getD marks.close = k at hend
  split
  case isTrue => trivial
  case isFalse hempty =>
    have hstands (alignment : Option Int) (format : Option (List Char)) :
        Takes offset ('\x7b' :: cs) (.hole (trim (cs.take k))
          (offset + 1 + (byteSize (cs.take k) - byteSize (trimStart (cs.take k)))) alignment format,
          marks.close + 2) := by
      obtain ⟨front, back, hfront, hsize⟩ := exists_of_trim (cs.take k)
      refine ⟨Nat.succ_pos _, fun h => hempty (List.isEmpty_iff.2 h), head?_trim _, getLast?_trim _,
        '\x7b' :: front, back ++ (cs.take (marks.close + 1)).drop k, ?_, ?_⟩
      · have htake : cs.take k = (cs.take (marks.close + 1)).take k := by
          rw [List.take_take, Nat.min_eq_left (by omega)]
        rw [List.take_succ_cons, List.cons_append, List.cons_append, ← List.append_assoc, ← hfront,
          htake, List.take_append_drop]
      · rw [byteSize_cons, ← hsize, Nat.add_assoc]
        rfl
    split
    · exact hstands _ _
    · split
      · exact hstands _ _
      · trivial

theorem literalRun_singleton (c : Char) : literalRun style offset [c] =
    if c = '\\' ∧ style = .quoted then pure ([c], 1)
    else if c = '\x7b' ∨ c = '\x7d' then
      if c = '\x7b' then pure ([], 0) else throw (.malformedTemplate offset .strayBrace)
    else pure ([c], 1) :=
  rfl

theorem literalRun_cons_cons (c d : Char) : literalRun style offset (c :: d :: cs) =
    if c = '\\' ∧ style = .quoted then
      (fun x => (c :: d :: x.1, x.2 + 2)) <$> literalRun style (offset + 1 + d.utf8Size) cs
    else if c = '\x7b' ∨ c = '\x7d' then
      if c = d then (fun x => (c :: x.1, x.2 + 2)) <$> literalRun style (offset + 2) cs
      else if c = '\x7b' then pure ([], 0)
      else throw (.malformedTemplate offset .strayBrace)
    else (fun x => (c :: x.1, x.2 + 1)) <$> literalRun style (offset + c.utf8Size) (d :: cs) :=
  rfl

/-- Literal text that does not begin with a hole is not empty. -/
theorem literalRun_pos {c : Char} (h : c = '\x7b' → cs.head? = some '\x7b') :
    Ends (fun r => 0 < r.2) (fun _ => True) (literalRun style offset (c :: cs)) := by
  cases cs with
  | nil =>
    have hc : c ≠ '\x7b' := fun hc => absurd (h hc) nofun
    rw [literalRun_singleton]
    repeat' split
    all_goals first | exact Nat.one_pos | contradiction | trivial
  | cons d cs =>
    rw [literalRun_cons_cons]
    repeat' split
    case isFalse.isTrue.isFalse.isTrue hd hc => exact absurd (hc.trans (Option.some.inj (h hc)).symm) hd
    all_goals first | exact (Ends.trivial _).map fun _ _ => Nat.succ_pos _ | trivial

theorem takes_literal {c : Char} (h : c = '\x7b' → cs.head? = some '\x7b') :
    Ends (Takes offset (c :: cs)) (fun _ => True) (literal style offset (c :: cs)) := by
  refine (literalRun_pos h).bind fun r hr => ?_
  cases style with
  | quoted => exact (Ends.trivial _).bind fun text _ => ⟨hr, trivial⟩
  | verbatim | raw => exact ⟨hr, trivial⟩

/-- The segment at the front of a body takes some of it, and stands there. -/
theorem takes_segment (style : StringStyle) (offset : Nat) (hbody : body ≠ []) :
    Ends (Takes offset body) (fun _ => True) (segment style offset body) := by
  unfold segment
  split
  case h_1 => exact takes_literal fun _ => rfl
  case h_2 => exact takes_hole
  case h_3 hdouble hsingle =>
    obtain ⟨c, cs, rfl⟩ := List.exists_cons_of_ne_nil hbody
    exact takes_literal fun hc => absurd (hc ▸ rfl) (hsingle cs)

/-! ## All segments -/

/-- More steps than there are characters make no difference. -/
theorem segmentsFrom_congr {steps' : Nat} (h : body.length ≤ steps) (h' : body.length ≤ steps') :
    segmentsFrom style steps offset body = segmentsFrom style steps' offset body := by
  induction steps generalizing steps' offset body with
  | zero =>
    obtain rfl := List.length_eq_zero_iff.1 (Nat.le_zero.1 h)
    cases steps' <;> rfl
  | succ steps ih =>
    cases body with
    | nil => cases steps' <;> rfl
    | cons c cs =>
      obtain ⟨steps', rfl⟩ : ∃ m, steps' = m + 1 := ⟨steps' - 1, by simp at h'; omega⟩
      have htakes := takes_segment style offset (List.cons_ne_nil c cs)
      rw [segmentsFrom, segmentsFrom]
      split
      · rfl
      · rename_i r n hr
        rw [hr] at htakes
        have hn : 0 < n := htakes.1
        simp only [List.length_cons] at h h'
        rw [ih]
        all_goals
          simp only [List.length_drop, List.length_cons]
          omega

/-- The holes of a body stand in it one after the other. -/
theorem located_of_segmentsFrom (h : (segmentsFrom style steps offset body).mapM id = .ok segments) :
    (∀ s ∈ segments, s.StandsIn offset body) ∧ segments.Pairwise Segment.Before := by
  induction steps generalizing offset body segments with
  | zero =>
    cases h
    exact ⟨List.forall_mem_nil _, .nil⟩
  | succ steps ih =>
    cases body with
    | nil =>
      cases h
      exact ⟨List.forall_mem_nil _, .nil⟩
    | cons c cs =>
      have htakes := takes_segment style offset (List.cons_ne_nil c cs)
      rw [segmentsFrom] at h
      split at h
      · cases h
      · rename_i s n hs
        rw [hs] at htakes
        rw [List.mapM_cons] at h
        obtain ⟨_, ⟨⟩, h⟩ := exists_of_bind_eq_ok h
        obtain ⟨later, hlater, ⟨⟩⟩ := exists_of_bind_eq_ok h
        obtain ⟨hstand, hordered⟩ := ih hlater
        have hfront : s.StandsIn offset ((c :: cs).take n) := htakes.2
        exact ⟨List.forall_mem_cons.2 ⟨hfront.of_take, fun t ht => (hstand t ht).of_drop⟩,
          hordered.cons fun t ht => hfront.before (hstand t ht)⟩

/-- Only a template is split, and what is split is its body. -/
theorem exists_of_split (h : split lexeme start = .ok segments) :
    ∃ d, Delimiters.of? lexeme = some d ∧
      (segmentsFrom d.style (d.body lexeme).length (start + d.opening) (d.body lexeme)).mapM id =
        .ok segments := by
  unfold split at h
  split at h
  · rename_i d hd
    split at h
    · exact ⟨d, hd, h⟩
    · cases h
  · cases h

/-- The holes of a template stand in it. -/
theorem standsIn_of_split (h : split lexeme start = .ok segments) :
    ∀ s ∈ segments, s.StandsIn start lexeme := by
  obtain ⟨d, hd, h⟩ := exists_of_split h
  intro s hs
  have hstand := (located_of_segmentsFrom h).1 s hs
  rw [← d.byteSize_take_opening hd, Delimiters.body, List.drop_take] at hstand
  exact hstand.of_take.of_drop

/-- A template that is split has each of its expressions where the segment says, without blanks around
    it. The expressions follow one another without overlap, and a body has no further segments,
    whatever number of steps is allowed. -/
theorem split_located (h : split lexeme start = .ok segments) :
    (∀ s ∈ segments, s.StandsIn start lexeme) ∧ segments.Pairwise Segment.Before ∧
      ∀ style offset body steps, body.length ≤ steps →
        segmentsFrom style steps offset body = Template.segments style offset body := by
  obtain ⟨d, -, hd⟩ := exists_of_split h
  exact ⟨standsIn_of_split h, (located_of_segmentsFrom hd).2,
    fun style offset body steps hsteps => segmentsFrom_congr hsteps (Nat.le_refl _)⟩

/-- Two expressions with a blank beside each, behind a character of two bytes. -/
theorem split_located_two_holes :
    ∃ lexeme segments, split lexeme 5 = .ok segments ∧
      segments = [.literal ['ä'], .hole ['a'] 11 none none, .hole ['b'] 14 none (some [])] ∧
      (∀ s ∈ segments, s.StandsIn 5 lexeme) ∧ segments.Pairwise Segment.Before := by
  have h : split ['$', '"', 'ä', '\x7b', ' ', 'a', '\x7d', '\x7b', 'b', ' ', ':', '\x7d', '"'] 5 =
      .ok [.literal ['ä'], .hole ['a'] 11 none none, .hole ['b'] 14 none (some [])] := rfl
  exact ⟨_, _, h, rfl, (split_located h).1, (split_located h).2.1⟩

end Template

end Scriptlet

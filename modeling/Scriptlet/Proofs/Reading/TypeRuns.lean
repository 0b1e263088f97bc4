import Scriptlet.Proofs.Reading.Runs
import Scriptlet.Reading.Lambda

/-!
# How types and heads of lambdas run

The readings that decline where there is no type, no head of a lambda or no pending lambda
are level: whether they decline or not, they keep what is around, and brackets are balanced
in what they have read. The name of a type is read on as long as it may become longer, and
then the cursor goes back behind the longest part that names a type; that part was reached
along tokens too (`Reading.typeNameAfter_reaches`).
-/

namespace Scriptlet.Reading

variable {α β : Type} (d : Directory)

theorem exists_of_bind {r : Reading α} {k : α → Reading β} {p q : Position} {b : β}
    (h : (r >>= k) p = .ok b q) : ∃ a p', r p = .ok a p' ∧ k a p' = .ok b q := by
  rcases hr : r p with ⟨a, p'⟩ | ⟨e, p'⟩
  · exact ⟨a, p', rfl, by rwa [bind_ok hr] at h⟩
  · rw [bind_error hr] at h
    cases h

/-! ## What stands behind the name -/

instance : Level declaresNext := by
  refine .skip fun t => ?_
  split
  · refine (Level.ahead ((runs_token 0).anywhere.bind fun _ => ?_)).bind inferInstance
    exact Runs.anywhere (x := some 0) (y := fun _ => some 0) inferInstance
  · infer_instance

instance : Level missingMark :=
  Runs.peekIs_bind (fun _ ht => RunsBefore.bind (.levelAttempt (.token_bind (.of_is ht rfl
    (.skip fun _ => .skip inferInstance)))) inferInstance) (.pure rfl)

instance : Level arrayBrackets := by
  refine Runs.peekIs_bind (fun t ht => ?_) (.pure rfl)
  refine RunsBefore.levelAttempt (.token_bind (.of_is ht rfl ?_))
  refine .rounds fun rank => .token_bind fun t _ => ?_
  split
  · exact .of_is ‹_› rfl (.pure rfl)
  · split
    · exact .of_is ‹_› rfl (.pure rfl)
    · exact .giveUp rfl

instance (t : Ty) : Level (typeMarks t) := by
  refine .rounds fun _ => .skip fun b => ?_
  split
  · infer_instance
  · exact .skip fun rank => by cases rank <;> infer_instance

/-! ## Names -/

section

variable {inner : Reading (Option Ty)} [Level inner]

instance : Level (typeArguments inner) := by
  refine Runs.peekIs_bind (fun t ht => ?_) (.pure rfl)
  refine RunsBefore.levelAttempt (.token_bind (.of_is ht rfl (.rounds fun args => .skip fun arg => ?_)))
  cases arg with
  | none => exact .giveUp rfl
  | some t =>
    refine .accept_bind rfl (.pure rfl) (.skip fun b => ?_)
    cases b with
    | true => exact .pure rfl
    | false => exact .giveUp rfl

/-- A point and a name behind it. -/
theorem level_nextPart : Level nextPart :=
  .attempt (.accept_bind rfl
    (.token_bind fun _ _ => .giveIf fun h => Token.brackets_of_isIdentifier h 0) (.giveUp rfl))

/-- The longest part of a name that names a type is reached along tokens. -/
theorem typeNameAfter_reaches (first : Token) (p : Position) :
    Ends (typeNameAfter d inner first) p fun o _ =>
      ∀ t behind, o = some (t, behind) → p.cursor.Reaches { p.cursor with place := behind } := by
  refine Ends.iterate
    (J := fun part q => p.cursor.Reaches q.cursor ∧ ∀ t behind, part.best = some (t, behind) →
      p.cursor.Reaches { p.cursor with place := behind })
    ⟨.refl _, nofun⟩ fun part q ⟨hq, hbest⟩ => ?_
  -- The name read so far is the longest part if it names a type, with arguments or without.
  have hnamed : ∀ args c, p.cursor.Reaches c → ∀ t behind,
      ((d.instantiate? part.name args).map fun t => (t, c.place)).or part.best = some (t, behind) →
        p.cursor.Reaches { p.cursor with place := behind } := by
    intro args c hc t behind h
    rcases hinst : d.instantiate? part.name args with _ | t'
    · rw [hinst] at h
      exact hbest t behind h
    · rw [hinst] at h
      cases h
      rwa [Cursor.moved_of_unplaced hc.unplaced.symm]
  have hargs : Level (typeArguments inner) := inferInstance
  refine (hargs.ends q).bind fun o q₁ _ hq₁ => ?_
  have hreach := hq.trans hq₁
  cases o with
  | some args => exact .of_ok rfl (.refl _) (hnamed args q₁.cursor hreach)
  | none =>
    refine .goOn (bind_ok rfl) (.refl q₁) ((level_nextPart.ends q₁).bind fun o q₂ _ hq₂ => ?_)
    cases o with
    | some t => exact .of_ok rfl (.refl _) ⟨hreach.trans hq₂, hnamed [] q₁.cursor hreach⟩
    | none => exact .of_ok rfl (.refl _) (hnamed [] q₁.cursor hreach)

instance (first : Token) : Level (typeAfterWith d inner first) := by
  refine ⟨fun n p => ?_⟩
  have hname := @typeNameAfter_reaches d inner _ first p
  refine .goOn (bind_ok rfl) (.refl p) (hname.bind fun o q hq hreach => ?_)
  have hback := (hname.follows o q hq).cursor
  match o with
  | none =>
    refine .of_ok ((bind_ok (moveTo_ok (c := p.cursor) hback)).trans rfl) (.of_cursor hback.symm) ?_
    exact .stay
  | some (t, behind) =>
    have hmarks : Level (some <$> typeMarks t) := inferInstance
    have hmove := moveTo_ok (c := { p.cursor with place := behind }) (s := q.scopes) hback
    refine .goOn (bind_ok hmove) (.of_cursor hback.symm) ?_
    refine (hmarks.moves n _).imp fun o q' hwalks m hm => ?_
    obtain ⟨k, hk, hwalk⟩ := hwalks m hm
    cases hk
    exact ⟨_, rfl, ((hreach t behind rfl).walk _).trans hwalk⟩

instance : Level (typeNameWith d inner) := by
  refine Runs.peek_bind fun t ht => ?_
  split
  · refine .levelAttempt (.token_bind ?_)
    rw [ht.brackets ‹_› 0]
    exact Level.whenGiven inferInstance
  · exact Runs.before (.pure rfl) t

end

instance (word : String) : Level (namesValue d word) := .skip inferInstance

instance (depth : Nat) : Level (typeWithin d depth) := by
  induction depth <;> unfold typeWithin <;> infer_instance

instance : Level typeDepth := .skip inferInstance

instance : Level (type? d) := .skip inferInstance

instance : Level (typeArguments? d) := .skip inferInstance

instance (first : Token) : Level (typeAfter? d first) := .skip inferInstance

instance : Level (requiredType d) :=
  .skip fun _ => .skip fun _ => .skip fun t => by cases t <;> infer_instance

instance (name : String) : Level (namedType d name) := by
  unfold namedType
  split <;> infer_instance

/-! ## Heads -/

theorem runs_parameter : Runs (some 0) (given 0) (parameter d) := by
  refine .token_bind fun first hfirst => ?_
  split
  · exact .giveUp rfl
  · rename_i hword
    rw [hfirst.brackets (by simpa using hword) 0]
    refine .skip fun next => ?_
    split
    · infer_instance
    · refine .skip fun o => ?_
      cases o with
      | none => exact .giveUp rfl
      | some t =>
        exact .token_bind fun _ _ => .giveIf fun h => Token.brackets_of_isIdentifier h 0

/-- Parameters are read with their closing bracket. -/
theorem runs_parameters : Runs (some 1) (given 0) (parameters d) := by
  refine .accept_bind rfl (.pure rfl) (.rounds fun params => ?_)
  refine (Runs.further (runs_parameter d) 1).bind fun o => ?_
  cases o with
  | none => exact .giveUp rfl
  | some p => exact .accept_bind rfl (.pure rfl) (.accept_bind rfl (.pure rfl) (.giveUp rfl))

theorem runs_headRest : Runs (some 1) (givenOr 0 1) (headRest d) := by
  refine .attempt ((runs_parameters d).bind fun o => ?_)
  cases o with
  | none => exact .giveUp rfl
  | some params => exact .skip (x := some 0) inferInstance

instance : Level (head d) := by
  refine Runs.peek_bind fun next _ => ?_
  split
  · rename_i hnext
    refine .levelAttempt (.token_bind ?_)
    rw [Token.brackets_of_isIdentifier hnext]
    infer_instance
  · split
    · exact .levelAttempt (.token_bind (.of_is ‹_› rfl (runs_headRest d).whenGiven))
    · exact Runs.before (.pure rfl) next

/-! ## Bodies that are read later -/

/-- Whether the body of a lambda ends in front of a token. -/
def endsBody (depth : Nat) (t : Token) : Bool :=
  t.isEof || (depth == 0 && ([")", "]", "\x7d"].any (t.is ·) || t.is "," || t.is ";"))

/-- Up to its end, the depth within a body is the number of open brackets. -/
theorem brackets_of_endsBody {depth : Nat} {t : Token} (h : endsBody depth t = false) :
    t.brackets depth =
      some (if ["(", "[", "\x7b"].any (t.is ·) then depth + 1
        else if [")", "]", "\x7d"].any (t.is ·) then depth - 1 else depth) := by
  obtain ⟨heof, hdepth⟩ := Bool.or_eq_false_iff.mp h
  rw [Token.brackets_eq heof]
  split
  · rfl
  · split
    · rename_i hcloses
      rw [hcloses, Bool.true_or, Bool.true_or, Bool.and_true, beq_eq_false_iff_ne] at hdepth
      rw [if_neg hdepth]
    · rfl

/-- One round of passing over a body. -/
def skipRound (depth : Nat) : Reading (Round Nat Unit) := do
  let next ← peek
  if endsBody depth next then pure (.done ())
  else
    let _ ← token
    pure (.again (if ["(", "[", "\x7b"].any (next.is ·) then depth + 1
      else if [")", "]", "\x7d"].any (next.is ·) then depth - 1 else depth))

theorem skipBody_eq : skipBody = iterate skipRound 0 := rfl

theorem runs_skipRound (depth : Nat) :
    Runs (some depth) (inRounds some fun _ => some 0) (skipRound depth) := by
  refine Runs.peek_bind fun next _ => ?_
  split
  · rename_i hend
    intro n p hp
    refine .of_ok rfl (.refl p) ?_
    rintro _ ⟨⟩
    refine ⟨n + depth, rfl, ?_⟩
    -- Where the source ends, brackets may be open that are never closed.
    rcases Bool.or_eq_true_iff.mp hend with heof | hdepth
    · exact .ended hp heof .stay
    · obtain rfl : depth = 0 := by simpa using (Bool.and_eq_true_iff.mp hdepth).1
      exact .stay
  · rename_i hon
    refine .token_bind ?_
    rw [brackets_of_endsBody (Bool.eq_false_iff.mpr hon)]
    exact .pure rfl

instance : Level skipBody := Runs.iterate (I := some) runs_skipRound

instance : Level (pendingLambda d) :=
  .skip fun _ => .skip fun o => by cases o <;> infer_instance

end Scriptlet.Reading

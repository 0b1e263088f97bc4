import Scriptlet.Proofs.Reading.ProgramRuns
import Scriptlet.Proofs.Reading.Yields

/-!
# What trying leaves behind

Where the next tokens tell only after a while what they are, a reading is tried. If it
declines, the cursor is where it was; if it does not, it has gone on, but the stack of
places is as it was (`Reading.Speculative`). This holds of all readings that are tried
(`Surroundings.speculative_readings`), nested as they are.

A lambda is read for each method that is tried with it. Whether it can be read or not, the
cursor and the scopes are as they were (`Surroundings.bind_undisturbed`), so the next method
is tried from the same position.
-/

namespace Scriptlet

open Reading

namespace Reading

variable {α β : Type}

/-! ## Declining -/

/-- A reading whose answers with `no` leave the cursor where it was. -/
def Declines (no : α → Prop) (r : Reading α) : Prop :=
  ∀ p a q, r p = .ok a q → no a → q.cursor = p.cursor

/-- A reading that is tried: it leaves the stack of places as it was, and if its answer is
    negative, it leaves the whole cursor as it was. -/
def Speculative (no : α → Prop) (r : Reading α) : Prop :=
  ∀ p a q, r p = .ok a q → q.cursor.saved = p.cursor.saved ∧ (no a → q.cursor = p.cursor)

theorem Declines.speculative {r : Reading α} {no : α → Prop} [Plain r]
    (hno : Declines no r) : Speculative no r :=
  fun p a q hr => ⟨Cursor.saved_of_unplaced (Plain.balanced p a q hr).1, hno p a q hr⟩

theorem Runs.speculative {x : Option Nat} {y : α → Option Nat} {r : Reading α} {no : α → Prop}
    (h : Runs x y r) (hno : Declines no r) : Speculative no r :=
  fun p a q hr => ⟨Cursor.saved_of_unplaced ((h.moves 0 p).follows a q hr).cursor, hno p a q hr⟩

namespace Declines

variable {no : α → Prop}

theorem attempt {r : Reading (Option α)} [Plain r] : Declines (· = none) (Reading.attempt r) := by
  rintro p _ q h rfl
  exact cursor_of_attempt h

theorem pure {a : α} : Declines no (Pure.pure a : Reading α) := by
  rintro p _ q ⟨⟩ _
  rfl

/-- What is only looked at in front of a reading does not matter. -/
theorem still_bind {r : Reading β} {k : β → Reading α} (hr : ∀ p, r.stop p = p)
    (hk : ∀ b, Declines no (k b)) : Declines no (r >>= k) := by
  intro p a q h ha
  obtain ⟨b, p', hb, h'⟩ := exists_of_bind h
  obtain rfl : p' = p := stop_ok hb ▸ hr p
  exact hk b p' a q h' ha

/-- An answer that is negative only if something was declined. -/
theorem bind_pure {r : Reading β} {f : β → α} {no' : β → Prop} (hr : Declines no' r)
    (hf : ∀ p b q, r p = .ok b q → no (f b) → no' b) :
    Declines no (r >>= fun b => Pure.pure (f b)) := by
  intro p a q h ha
  obtain ⟨b, p', hb, h'⟩ := exists_of_bind h
  cases h'
  exact hr p b q hb (hf p b q hb ha)

end Declines

/-! ## Types and heads -/

theorem stop_peekIs (w : String) (p : Position) : (peekIs w).stop p = p :=
  stop_bind (stop_peek p) fun _ => rfl

theorem declines_missingMark : Declines (· = false) missingMark := by
  refine .still_bind (stop_peekIs "?") fun b => ?_
  split
  · refine Declines.attempt.bind_pure fun _ mark _ _ hmark => ?_
    cases mark with
    | none => rfl
    | some _ => cases hmark
  · exact .pure

theorem declines_arrayBrackets : Declines (· = none) arrayBrackets := by
  refine .still_bind (stop_peekIs "[") fun b => ?_
  split
  · exact .attempt
  · exact .pure

section

variable {inner : Reading (Option Ty)} (d : Directory)

theorem declines_typeArguments [Plain inner] : Declines (· = none) (typeArguments inner) := by
  refine .still_bind (stop_peekIs "<") fun b => ?_
  split
  · exact .attempt
  · exact .pure

/-- There are no empty type arguments. -/
theorem yields_typeArguments :
    Yields (fun o => ∀ args, o = some args → args ≠ []) (typeArguments inner) := by
  refine .skip fun b => ?_
  split
  · refine .attempt (.skip fun _ => .iterate (I := fun _ => True) (fun args _ => ?_) trivial)
    refine .skip fun arg => ?_
    cases arg with
    | none => exact .pure nofun
    | some t =>
      refine .skip fun more => ?_
      split
      · exact .pure trivial
      · refine .skip fun closed => ?_
        split
        · refine .pure ?_
          rintro _ ⟨⟩
          exact List.append_ne_nil_of_right_ne_nil args (List.cons_ne_nil t [])
        · exact .pure nofun
  · exact .pure nofun

variable [Plain inner]

theorem declines_typeAfterWith (first : Token) :
    Declines (· = none) (typeAfterWith d inner first) := by
  rintro p _ q h rfl
  obtain ⟨entry, _, hentry, hread⟩ := exists_of_bind h
  cases hentry
  obtain ⟨o, q', hname, hrest⟩ := exists_of_bind hread
  match o with
  | none =>
    have hback := moveTo_ok (s := q'.scopes) (Plain.balanced p none q' hname).1
    obtain ⟨_, _, hmove, hnone⟩ := exists_of_bind hrest
    cases hback.symm.trans hmove
    cases hnone
    rfl
  | some (t, behind) =>
    obtain ⟨_, q₁, -, hmarks⟩ := exists_of_bind hrest
    rw [map_eq_pure_bind] at hmarks
    obtain ⟨t', q₂, -, hsome⟩ := exists_of_bind hmarks
    cases hsome

theorem declines_typeNameWith : Declines (· = none) (typeNameWith d inner) := by
  refine .still_bind stop_peek fun t => ?_
  split
  · exact .attempt
  · exact .pure

theorem declines_typeWithin (depth : Nat) : Declines (· = none) (typeWithin d depth) := by
  cases depth with
  | zero => exact .pure
  | succ depth =>
    refine .still_bind stop_peek fun t => ?_
    split
    · exact .pure
    · refine .still_bind (fun _ => rfl) fun b => ?_
      split
      · exact .pure
      · exact declines_typeNameWith d

theorem declines_head : Declines (· = none) (head d) := by
  refine .still_bind stop_peek fun next => ?_
  split
  · exact .attempt
  · split
    · exact .attempt
    · exact .pure

end

end Reading

namespace Grammar

variable (g : Grammar)

/-! ## Type arguments of calls and casts -/

theorem yields_explicitTypes_trial :
    Yields (fun o => ∀ args, o = some args → args ≠ []) (do
      match ← typeArguments? g.directory with
      | some args => do pure (if ← peekIs "(" then some args else none)
      | none => pure none) := by
  refine Yields.bind (.skip fun _ => yields_typeArguments) fun o ho => ?_
  cases o with
  | none => exact .pure nofun
  | some args =>
    refine .skip fun b => .pure ?_
    cases b with
    | true => exact ho
    | false => nofun

theorem declines_explicitTypes : Declines (· = []) g.explicitTypes := by
  refine Declines.attempt.bind_pure fun p types q htypes hempty => ?_
  cases types with
  | none => rfl
  | some args =>
    -- Arguments that are found are not empty.
    exact absurd hempty (g.yields_explicitTypes_trial.attempt p _ q htypes args rfl)

/-- Reads the rest of a cast, whose bracket has been read. -/
def castRest? (offset : Nat) : Reading (Option Expr) := do
  match ← g.castTarget with
  | some t => do some <$> ofExcept (Expr.cast (← g.unaryOperand) t offset)
  | none => pure none

/-- A bracket opens a lambda, a cast or a group. -/
theorem bracketRest_eq (offset : Nat) :
    g.bracketRest offset = (do
      match ← headRest g.directory with
      | some params => g.typedLambdaRest params offset
      | none =>
        match ← g.castRest? offset with
        | some e => pure e
        | none => g.enclosed ")") := by
  unfold bracketRest castRest?
  congr 1
  funext o
  cases o with
  | some params => rfl
  | none =>
    dsimp only
    rw [bind_assoc]
    congr 1
    funext o
    cases o with
    | none => rw [pure_bind]
    | some t =>
      dsimp only
      rw [bind_assoc]
      congr 1
      funext e
      simp only [map_eq_pure_bind, bind_assoc, pure_bind, bind_pure]

theorem declines_castRest? (offset : Nat) : Declines (· = none) (g.castRest? offset) := by
  rintro p _ q h rfl
  obtain ⟨o, p', ho, hrest⟩ := exists_of_bind h
  cases o with
  | none =>
    cases hrest
    exact cursor_of_attempt ho
  | some t =>
    obtain ⟨e, p₁, -, hcast⟩ := exists_of_bind hrest
    rw [map_eq_pure_bind] at hcast
    obtain ⟨e', p₂, -, hsome⟩ := exists_of_bind hcast
    cases hsome

variable {g}

theorem runs_castRest? [g.IsLevel] (offset : Nat) :
    Runs (some 1) (givenOr 0 1) (g.castRest? offset) := by
  refine runs_castTarget.bind fun o => ?_
  cases o with
  | none => exact .pure rfl
  | some t => exact .skip fun _ => Runs.map (inferInstanceAs (Level (ofExcept _)))

/-! ## Lambdas that are read to try a method -/

/-- A lambda is read at its body, with the scopes that there are. -/
theorem bind_apply (l : PendingLambda Deferred) (types : List Ty) (ret : Option Ty) (p : Position) :
    g.bind l types ret p =
      match g.lambdaBody (l.params.map (·.2)) types ret l.body.offset
          { p with cursor := l.body.cursor } with
      | .ok e q => .ok (.ok (some e)) { q with cursor := p.cursor }
      | .error e q => .ok (.error e) { q with cursor := p.cursor } := by
  unfold Grammar.bind outcome
  rw [map_eq_pure_bind]
  rcases hbody : g.lambdaBody (l.params.map (·.2)) types ret l.body.offset
    { p with cursor := l.body.cursor } with ⟨e, q⟩ | ⟨e, q⟩
  · have helse : elsewhere l.body.cursor (g.lambdaBody (l.params.map (·.2)) types ret l.body.offset)
        p = .ok e { q with cursor := p.cursor } := by
      rw [elsewhere, hbody]
    rw [bind_ok helse, hbody]
    rfl
  · have helse : elsewhere l.body.cursor (g.lambdaBody (l.params.map (·.2)) types ret l.body.offset)
        p = .error e { q with cursor := p.cursor } := by
      rw [elsewhere, hbody]
    rw [bind_error helse, hbody]

end Grammar

namespace Surroundings

variable (s : Surroundings) (levels : Nat)

/-- Whatever is tried while a program is read leaves the stack of places as it was, and the
    cursor where it was if there is no such thing: the head of a lambda, with its bracket or
    behind it; a cast; a type, one that may be a value, and one whose first word has been
    read; the type arguments of a type and of a call; and the brackets of an array type and
    the mark of a type with a missing value. -/
theorem speculative_readings :
    Speculative (· = none) (head (s.grammar levels).directory) ∧
    Speculative (· = none) (headRest (s.grammar levels).directory) ∧
    (∀ offset, Speculative (· = none) ((s.grammar levels).castRest? offset)) ∧
    Speculative (· = none) (type? (s.grammar levels).directory) ∧
    (∀ depth, Speculative (· = none) (typeNameWith (s.grammar levels).directory
      (typeWithin (s.grammar levels).directory depth))) ∧
    (∀ first, Speculative (· = none) (typeAfter? (s.grammar levels).directory first)) ∧
    Speculative (· = none) (typeArguments? (s.grammar levels).directory) ∧
    Speculative (· = []) (s.grammar levels).explicitTypes ∧
    Speculative (· = none) arrayBrackets ∧
    Speculative (· = false) missingMark := by
  have hg : (s.grammar levels).IsLevel := s.isLevel_grammar levels
  generalize s.grammar levels = g at hg ⊢
  have hdepth : ∀ p, typeDepth.stop p = p := fun _ => rfl
  refine ⟨?_, ?_, fun offset => ?_, ?_, fun depth => ?_, fun first => ?_, ?_, ?_, ?_, ?_⟩
  · exact (declines_head g.directory).speculative
  · exact Declines.attempt.speculative
  · exact (Grammar.runs_castRest? offset).speculative (g.declines_castRest? offset)
  · exact (Declines.still_bind hdepth fun _ => declines_typeWithin _ _).speculative
  · exact (declines_typeNameWith _).speculative
  · exact (Declines.still_bind hdepth fun _ => declines_typeAfterWith _ first).speculative
  · exact (Declines.still_bind hdepth fun _ => declines_typeArguments).speculative
  · exact g.declines_explicitTypes.speculative
  · exact declines_arrayBrackets.speculative
  · exact declines_missingMark.speculative

end Surroundings

end Scriptlet

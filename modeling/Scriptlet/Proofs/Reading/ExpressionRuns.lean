import Scriptlet.Proofs.Reading.CallRuns
import Scriptlet.Reading.Operand

/-!
# How expressions run

The readings of names, declarations, new objects, templates and operators are level. Those
that start behind a bracket read up to the bracket that closes it. Which of them that is, is
told by the word in front: `bracketsAfter word 0` brackets are open behind a word that an
operand starts with (`Grammar.runs_operandRest`) or that follows one (`Follow.brackets`).
-/

namespace Scriptlet

open Reading

namespace Grammar

variable {g : Grammar} [g.IsLevel] {t : Ty} {e : Expr} {offset : Nat}

/-! ## Names and declarations -/

instance : Level (g.initialValue t offset) := by
  unfold initialValue
  split
  · refine .skip fun o => ?_
    cases o with
    | none => infer_instance
    | some l =>
      dsimp only
      split
      · infer_instance
      · exact .skip fun x => .skip fun o => by cases o <;> infer_instance
  · infer_instance

instance : Level (g.declarator t) := by
  unfold declarator
  infer_instance

instance : Level (g.declaration t) := .skip fun es => by split <;> infer_instance

instance : Level g.inferredDeclaration := by
  unfold inferredDeclaration
  infer_instance

instance : Level (g.afterType t) := by
  unfold afterType
  infer_instance

instance (t : Token) : Level (g.name t) := by
  refine .skip fun v => ?_
  split
  · infer_instance
  · infer_instance
  · infer_instance
  · exact .skip fun o => by cases o <;> infer_instance

/-! ## New objects and arrays -/

instance : Level (g.memberBinding t) := by
  unfold memberBinding
  infer_instance

instance : Closes (g.memberBindings t) := by
  unfold memberBindings
  infer_instance

instance : Closes (g.addedItems e offset) := by
  unfold addedItems
  split
  · infer_instance
  · exact .close fun items => .skip fun selections => by split <;> infer_instance

theorem level_twoAhead : Level (ahead (do pure (← token, ← token))) :=
  .ahead ((runs_token 0).anywhere.bind fun _ => (runs_token 0).anywhere.bind fun _ => .giveUp rfl)

instance : Level (g.initializer e) := by
  have := level_twoAhead
  unfold initializer
  infer_instance

instance : Closes (g.untypedArrayRest offset) := by
  unfold untypedArrayRest
  infer_instance

instance : Closes (g.sizedArrayRest t offset) := .close fun bounds => by split <;> infer_instance

instance (rank : Nat) : Level (g.arrayRest t rank offset) := by
  unfold arrayRest
  infer_instance

instance : Level (g.objectRest t offset) := by
  unfold objectRest
  -- Arguments can be left out in front of an initializer.
  cases g.directory.constructors t <;> dsimp only <;> infer_instance

instance : Level (g.creation offset) := by
  unfold creation
  refine .accept_bind (m := 1) rfl inferInstance
    (.skip fun t => .accept_bind (m := 1) rfl inferInstance ?_)
  rw [if_neg Bool.false_ne_true]
  split <;> infer_instance

/-! ## Templates -/

instance (text : List Char) : Level (g.hole text offset) := by
  unfold hole
  infer_instance

instance (alignment : Option Int) (format : Option (List Char)) :
    Level (g.formatted e alignment format offset) := by
  unfold formatted
  infer_instance

instance (s : Segment) : Level (g.templatePart s) := by
  unfold templatePart
  split <;> infer_instance

instance (t : Token) : Level (g.template t) := by
  refine .skip fun segments => .skip fun parts => ?_
  unfold template.concat
  split <;> infer_instance

end Grammar

/-! ## What follows an operand -/

namespace Follow

/-- The number of brackets that it opens. -/
def opened : Follow → Nat
  | index | invoke => 1
  | _ => 0

theorem bracketsAfter_of_ofWord? {word : String} {f : Follow} (h : ofWord? word = some f) :
    bracketsAfter word 0 = some f.opened := by
  unfold ofWord? at h
  split at h
  all_goals try (cases h; rfl)
  split at h
  · rename_i op hop
    cases h
    have hsymbol := List.find?_some hop
    rw [beq_iff_eq] at hsymbol
    rw [← hsymbol]
    cases op <;> rfl
  · obtain ⟨op, hop, rfl⟩ := Option.map_eq_some_iff.mp h
    have hsymbol := List.find?_some hop
    rw [beq_iff_eq] at hsymbol
    rw [← hsymbol]
    cases op <;> rfl

/-- The brackets behind a token that follows an operand. -/
theorem brackets {t : Token} {f : Follow} (h : ofToken? t = some f) : t.brackets 0 = some f.opened := by
  unfold ofToken? at h
  split at h
  · rw [Token.brackets_of_kind ‹_›, bracketsAfter_of_ofWord? h]
  · cases h

end Follow

namespace Grammar

variable {g : Grammar} [g.IsLevel] {e : Expr} {offset : Nat}

instance (op : BinaryOp) : Level (g.binaryRest op e offset) := by
  unfold binaryRest
  infer_instance

instance : Level (g.conditionalRest e offset) := by
  unfold conditionalRest
  infer_instance

omit [g.IsLevel] in
instance : Level (g.typeIsRest e) := by
  unfold typeIsRest
  infer_instance

omit [g.IsLevel] in
instance : Level (g.typeAsRest e offset) := by
  unfold typeAsRest
  infer_instance

instance (op : Option BinaryOp) : Level (g.assignRest op e offset) := by
  refine .skip fun (value, _) => ?_
  dsimp only
  split
  · exact .skip fun value => by split <;> infer_instance
  · cases op <;> infer_instance

instance : Closes (g.indexRest e offset) := by
  refine .close fun indices => ?_
  split
  · infer_instance
  · split <;> infer_instance

instance (arg : Arg) (t : Ty) (refused : Error) :
    Level (g.delegateArgument arg t refused offset) := by
  unfold delegateArgument
  split
  · infer_instance
  · exact .skip fun x => .skip fun o => by cases o <;> infer_instance
  · infer_instance

instance : Closes (g.invokeRest e offset) := by
  unfold invokeRest
  split
  · exact .close fun args => by dsimp only; infer_instance
  · infer_instance

theorem runs_follow (f : Follow) :
    Runs (some f.opened) (fun _ => some 0) (g.follow f e offset) := by
  cases f <;> unfold follow Follow.opened <;> infer_instance

/-- One round of what follows an operand. -/
theorem runs_followRound (floor : Nat) (closing : List String) (left : Expr) :
    Runs (some 0) (inRounds (fun _ => some 0) fun _ => some 0) (do
      let next ← peek
      if closing.any (next.is ·) then pure (.done (left, true))
      else
        match Follow.ofToken? next with
        | none => pure (.done (left, false))
        | some f =>
          if f.level ≤ floor then pure (.done (left, false))
          else
            let _ ← token
            pure (.again (← g.follow f left next.start)) : Reading (Round Expr (Expr × Bool))) := by
  refine .peek_bind fun next _ => ?_
  split
  · exact Runs.before (.pure rfl) next
  · split
    · exact Runs.before (.pure rfl) next
    · rename_i f hf
      split
      · exact Runs.before (.pure rfl) next
      · refine .token_bind ?_
        rw [Follow.brackets hf]
        exact (runs_follow f).bind inferInstance

instance (floor : Nat) (closing : List String) : Level (g.followAll floor closing e) :=
  .rounds (runs_followRound floor closing)

/-- Where what follows an operand is closed, a closing symbol is next. -/
theorem closed_followAll (floor : Nat) (closing : List String) (left : Expr) (p : Position) :
    Ends (g.followAll floor closing left) p fun x q =>
      x.2 = true → ∃ t, q.cursor.peek = .ok t ∧ closing.any (t.is ·) = true := by
  -- Only the last round tells whether it is closed, so nothing is kept from round to round.
  refine Ends.iterate (J := fun _ _ => True) trivial fun left p _ => ?_
  have hround := (runs_followRound (g := g) floor closing left).moves 0 p
  refine ⟨hround.keeps, hround.follows, fun o q ho => ?_⟩
  obtain ⟨next, p', hnext, hrest⟩ := exists_of_bind ho
  obtain ⟨hpeek, rfl⟩ := peek_eq_ok hnext
  split at hrest
  · cases hrest
    exact fun _ => ⟨next, hpeek, ‹_›⟩
  · cases hf : Follow.ofToken? next with
    | none =>
      rw [hf] at hrest
      cases hrest
      nofun
    | some f =>
      rw [hf] at hrest
      dsimp only at hrest
      split at hrest
      · cases hrest
        nofun
      · obtain ⟨_, q₁, -, hrest⟩ := exists_of_bind hrest
        obtain ⟨_, q₂, -, hrest⟩ := exists_of_bind hrest
        cases hrest
        trivial

/-! ## Operands -/

omit [g.IsLevel] in
theorem runs_castTarget : Runs (some 1) (givenOr 0 1) g.castTarget :=
  .attempt (.skip fun o => by cases o <;> infer_instance)

instance : Level g.unaryOperand := by
  unfold unaryOperand
  infer_instance

instance (params : Params) : Level (g.typedLambdaRest params offset) := by
  unfold typedLambdaRest
  split <;> infer_instance

instance : Closes (g.bracketRest offset) := by
  refine (runs_headRest g.directory).bind fun o => ?_
  cases o with
  | some params => exact inferInstanceAs (Level (g.typedLambdaRest params offset))
  | none =>
    refine runs_castTarget.bind fun o => ?_
    cases o with
    | some t => exact .skip (x := some 0) inferInstance
    | none => exact inferInstanceAs (Closes (g.enclosed ")"))

instance (op : UnaryOp) : Level (g.unaryRest op offset) := by
  unfold unaryRest
  infer_instance

instance : Level (g.negateRest offset) := .skip fun e => by split <;> infer_instance

omit [g.IsLevel] in
instance : Level g.bracketedType := by
  unfold bracketedType
  infer_instance

omit [g.IsLevel] in
instance : Level (g.sizeRest offset) := .skip fun t => by split <;> infer_instance

/-- The rest of an operand closes the bracket that its first word may be. -/
theorem runs_operandRest {word : String} {r : Reading Expr}
    (h : g.operandRest? word offset = some r) :
    Runs (bracketsAfter word 0) (fun _ => some 0) r := by
  unfold operandRest? at h
  split at h
  all_goals cases h
  · exact inferInstanceAs (Closes _)
  all_goals exact inferInstanceAs (Level _)

end Grammar

end Scriptlet

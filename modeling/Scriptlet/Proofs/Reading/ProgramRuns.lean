import Scriptlet.Proofs.Reading.ExpressionRuns
import Scriptlet.Reading.Program

/-!
# How programs run

Jumps, loops and the other statements are level, so the grammar is level on every level of
nesting (`Surroundings.isLevel_grammar`).
-/

namespace Scriptlet

open Reading

namespace Grammar

variable {g : Grammar} [g.IsLevel] {r : Reading Expr} {t : Token} {offset : Nat}

/-! ## Jumps -/

instance : Level g.valueIfAny := by
  unfold valueIfAny
  infer_instance

instance : Level (g.throwRest offset) := .skip fun o => by cases o <;> infer_instance

instance : Level (g.returnRest offset) := by
  refine .skip fun value => .skip fun p => ?_
  split
  · infer_instance
  · exact .skip fun _ => Level.bind (level_modifyLambda (fun _ => rfl) fun _ => rfl) inferInstance

instance (kind : JumpKind) (target : Scopes → Option Label) (outside : Misuse) :
    Level (leaveTo kind target outside offset) :=
  .skip fun p => by split <;> infer_instance

instance : Level gotoRest := by
  unfold gotoRest
  infer_instance

theorem runs_jumpRest {word : String} (h : g.jumpRest? word offset = some r) :
    Runs (bracketsAfter word 0) (fun _ => some 0) r := by
  unfold jumpRest? at h
  split at h
  all_goals cases h
  all_goals exact inferInstanceAs (Level _)

/-! ## Loops -/

instance : Level loopLabels := by
  unfold loopLabels
  infer_instance

section

variable {labels : LoopLabels} {source : Expr} {declared : Option Ty} {name : Token} {type : Ty}

instance {α : Type} {r : Reading α} [h : Level r] : Level (withinLoop labels r) := .within nofun h

instance : Level (g.loopBody labels) := by
  unfold loopBody
  infer_instance

instance : Level g.whileRest := by
  unfold whileRest
  infer_instance

instance : Level g.doRest := by
  unfold doRest
  infer_instance

instance : Level g.forStart := by
  unfold forStart
  infer_instance

instance : Level (g.forTest offset) := by
  unfold forTest
  infer_instance

instance : Closes g.forSteps := by
  unfold forSteps
  infer_instance

instance : Closes (g.forParts labels offset) := by
  unfold forParts
  infer_instance

instance : Level (g.forRest offset) :=
  .skip fun labels => .expect_bind (m := 1) rfl <|
    Runs.bind (y := fun _ => some 0) (.within (by decide) inferInstance) inferInstance

instance : Level (g.itemBody labels name type) := by
  unfold itemBody
  infer_instance

instance : Level (g.arrayLoop labels source type declared name offset) := by
  unfold arrayLoop
  infer_instance

instance (t : Ty) : Level (g.enumeration t offset) := by
  unfold enumeration
  split
  · infer_instance
  · exact .skip fun start => by split <;> infer_instance

instance : Level (g.enumeratorLoop labels source declared name offset) := by
  unfold enumeratorLoop
  infer_instance

end

instance : Level (g.foreachRest offset) := by
  have hrest (labels : LoopLabels) (declared : Option Ty) : Closes (do
      let name ← identifier
      expect "in"
      let source ← g.enclosed ")"
      match source.type with
      | .array element 1 => g.arrayLoop labels source element declared name offset
      | _ => g.enumeratorLoop labels source declared name offset) :=
    .skip fun name => .expect_bind rfl (.close fun source => by split <;> infer_instance)
  unfold foreachRest
  infer_instance

/-! ## Branches and handlers -/

instance : Level g.scopedStatement :=
  Runs.bind (y := fun _ => some 0) (.within (by decide) inferInstance) inferInstance

instance : Level g.ifRest := by
  unfold ifRest
  infer_instance

instance : Level g.caseBody := by
  unfold caseBody
  infer_instance

instance (t : Ty) : Level (g.caseTests t offset) := by
  unfold caseTests
  infer_instance

instance (t : Ty) : Closes (g.switchCases t) := by
  refine .rounds fun c => .accept_bind rfl (.pure rfl) (.token_bind fun first _ => ?_)
  split
  · exact .of_is (m := 1) ‹_› rfl inferInstance
  · split
    · exact .of_is (m := 1) ‹_› rfl inferInstance
    · infer_instance

instance : Level g.switchRest := by
  have (label : Label) (t : Ty) : Closes (within (.ofSwitch label) (g.switchCases t)) :=
    .within nofun inferInstance
  unfold switchRest
  infer_instance

instance : Level g.caughtType := by
  unfold caughtType
  infer_instance

instance : Closes g.typedHandler := by
  -- What is caught can have a name, by which the block of its handler knows it.
  have (t : Ty) (name : Option Token) : Closes (within {} do
      let binder ← name.mapM fun name => declare name t
      pure (binder, ← g.blockRest)) :=
    .within (by decide) inferInstance
  unfold typedHandler
  infer_instance

instance : Level g.handler := by
  unfold handler
  infer_instance

instance : Level (g.tryRest offset) := by
  unfold tryRest
  infer_instance

/-! ## Statements -/

theorem runs_compoundRest {word : String} (h : g.compoundRest? word offset = some r) :
    Runs (bracketsAfter word 0) (fun _ => some 0) r := by
  unfold compoundRest? at h
  split at h
  all_goals cases h
  · exact inferInstanceAs (Closes _)
  all_goals exact inferInstanceAs (Level _)

theorem runs_compound (h : g.compound? t = some r) : Runs (t.brackets 0) (fun _ => some 0) r := by
  unfold compound? at h
  split at h
  · rw [Token.brackets_of_kind ‹_›]
    exact runs_compoundRest h
  · cases h

/-- What starts with a symbol or reserved word closes the bracket that it may be. -/
theorem runs_wordRest (ht : t.Genuine) (hkind : (t.kind.isSymbol || t.kind.isKeyword) = true) :
    Runs (t.brackets 0) (fun _ => some 0)
      (match ((g.operandRest? t.word t.start).or (g.jumpRest? t.word t.start)).or (g.compound? t) with
      | some rest => rest
      | none => if t.isWord then g.name t else throw (.unknownSymbol t.start t.word)) := by
  split
  · rename_i rest hrest
    rcases Option.or_eq_some_iff.mp hrest with hrest | ⟨-, hrest⟩
    · rw [Token.brackets_of_kind hkind]
      rcases Option.or_eq_some_iff.mp hrest with hrest | ⟨-, hrest⟩
      · exact runs_operandRest hrest
      · exact runs_jumpRest hrest
    · exact runs_compound hrest
  · split
    · rw [ht.brackets ‹_›]
      infer_instance
    · exact .throw

theorem runs_start (ht : t.Genuine) : Runs (t.brackets 0) (fun _ => some 0) (g.start t) := by
  obtain ⟨kind, lexeme, start⟩ := t
  cases kind with
  | symbol | keyword => exact runs_wordRest ht rfl
  | template => exact inferInstanceAs (Level (g.template _))
  | identifier => exact inferInstanceAs (Level (g.name _))
  | number | string | char => exact .pure rfl
  | eof | comment | blank => exact .throw

instance level_labelName : Level labelName := by
  refine Runs.peek_bind fun t _ => ?_
  split
  · refine .levelAttempt (.token_bind ?_)
    rw [Token.brackets_of_isIdentifier ‹_›]
    infer_instance
  · exact Runs.before (.pure rfl) t

theorem cursor_of_labelName {p q : Position} (h : labelName p = .ok none q) :
    q.cursor = p.cursor := by
  obtain ⟨t, p', ht, hrest⟩ := exists_of_bind h
  obtain ⟨-, rfl⟩ := peek_eq_ok ht
  split at hrest
  · exact cursor_of_attempt hrest
  · cases hrest
    rfl

instance : Level g.expressionStatement := by
  unfold expressionStatement
  infer_instance

instance : Level g.anyStatement := by
  refine Runs.peek_bind fun next _ => ?_
  split
  · exact .token_bind (.of_is ‹_› rfl (.pure rfl))
  · refine fun n p hp => (level_labelName.moves n p).bind fun o q hq => ?_
    cases o with
    | some name =>
      have hlabel : Level (do pure (Expr.labelAt (← onScopes (·.label name.word)) none)) :=
        inferInstance
      exact hlabel.moves n q
    | none =>
      -- Where there is no label, the token that was seen is still the next one.
      have hnext : q.cursor.peek = .ok next := by rw [cursor_of_labelName hq, hp]
      dsimp only
      split
      · exact RunsBefore.token_bind (runs_compound ‹_›) n q hnext
      · exact (inferInstance : Level g.expressionStatement).moves n q

instance (floor : Nat) (closing : List String) : Level (g.anyOperand floor closing) :=
  .token_bind fun _ ht => (runs_start ht).bind inferInstance

theorem closed_anyOperand {floor : Nat} {closing : List String} {p q : Position} {e : Expr}
    (h : g.anyOperand floor closing p = .ok (e, true) q) :
    ∃ t, q.cursor.peek = .ok t ∧ closing.any (t.is ·) = true := by
  obtain ⟨t, p₁, -, h⟩ := exists_of_bind h
  obtain ⟨left, p₂, -, h⟩ := exists_of_bind h
  exact (closed_followAll floor closing left p₂).gives _ q h rfl

end Grammar

/-- The grammar is level on every level of nesting. -/
instance Surroundings.isLevel_grammar (s : Surroundings) (levels : Nat) :
    (s.grammar levels).IsLevel := by
  have htooDeep : ∀ {α : Type}, Level (tooDeep : Reading α) := .skip inferInstance
  -- The parts of a construct are read one level below it.
  induction levels with
  | zero => exact ⟨fun _ _ => htooDeep, nofun, htooDeep⟩
  | succ levels ih =>
    exact ⟨inferInstanceAs (∀ floor closing, Level ((s.grammar levels).anyOperand floor closing)),
      fun _ _ _ _ _ => Grammar.closed_anyOperand,
      inferInstanceAs (Level (s.grammar levels).anyStatement)⟩

end Scriptlet

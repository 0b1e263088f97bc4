import Mathlib
import Scriptlet.Engine
import Scriptlet.Proofs.Reading.Located

/-!
# Where errors are reported

The parts of every construct are located if its operands and statements are (`Grammar.Locates`), so
all levels of the grammar are (`Surroundings.locates_grammar`) and so is a program. An error in a
program is reported at a place within its text (`offset_le_of_parse`), also if it is found in the
hole of a template or in the body of a lambda that is read again for another method.
-/

namespace Scriptlet

open Std.Do Reading Text

set_option mvcgen.warning false

/-! ## Operators and conversions -/

@[grind ←]
theorem ErrorsUpTo.mapM {α β : Type} {n : Nat} {f : α → Except Error β} {as : List α}
    (h : ∀ a ∈ as, ErrorsUpTo n (f a)) : ErrorsUpTo n (as.mapM f) :=
  (Scriptlet.Ends.mapM (R := fun _ _ => True) h).imp fun _ _ => trivial

section

variable {n k : Nat} (h : k ≤ n)

include h

@[grind ←]
theorem Expr.errorsUpTo_applyBinary (op : BinaryOp) (l r : Expr) :
    ErrorsUpTo n (applyBinary op l r k) := by
  unfold applyBinary
  dsimp only
  repeat' split
  all_goals first | exact True.intro | exact .of rfl h

@[grind ←]
theorem Expr.errorsUpTo_applyUnary (op : UnaryOp) (e : Expr) :
    ErrorsUpTo n (applyUnary op e k) := by
  unfold applyUnary
  dsimp only
  repeat' split
  all_goals first | exact True.intro | exact .of rfl h

@[grind ←]
theorem Expr.errorsUpTo_cast (e : Expr) (t : Ty) : ErrorsUpTo n (cast e t k) := by
  unfold cast
  split
  · trivial
  · exact .of rfl h

@[grind ←]
theorem Expr.errorsUpTo_choose (test a b : Expr) : ErrorsUpTo n (choose test a b k) := by
  unfold choose
  split
  · exact .of rfl h
  split
  · trivial
  · exact .of rfl h

@[grind ←]
theorem Expr.errorsUpTo_asIndex (e : Expr) : ErrorsUpTo n (e.asIndex k) := by
  unfold asIndex
  split
  · trivial
  · trivial
  · exact .of rfl h

@[grind ←]
theorem Directory.errorsUpTo_coerce (d : Directory) (e : Expr) (t : Ty) :
    ErrorsUpTo n (d.coerce e t k) := by
  unfold coerce
  split
  · trivial
  split
  · trivial
  · exact .of rfl h

@[grind ←]
theorem Directory.errorsUpTo_arrayOf (d : Directory) (t : Ty) (items : List Expr) :
    ErrorsUpTo n (d.arrayOf t items k) :=
  (ErrorsUpTo.mapM fun e _ => d.errorsUpTo_coerce h e t).bind fun _ _ => trivial

@[grind ←]
theorem Directory.errorsUpTo_commonType (d : Directory) (items : List Expr) :
    ErrorsUpTo n (d.commonType items k) := by
  cases items with
  | nil => exact .of rfl h
  | cons e es =>
    unfold commonType
    dsimp only
    generalize e.type = t
    induction es generalizing t with
    | nil => trivial
    | cons e es ih =>
      rw [List.foldlM_cons]
      refine Scriptlet.Ends.bind (P := fun _ => True) ?_ fun s _ => ih s
      unfold commonOf
      split
      · trivial
      split
      · trivial
      · exact .of rfl h

end

/-! ## Expressions -/

/-- The parts of a construct are read, or refused, no further on than a place. -/
class Grammar.Locates (n : Nat) (g : Grammar) : Prop where
  operand : ∀ m floor closing, Located n m (g.operand floor closing)
  statement : ∀ m, Located n m g.statement

namespace Grammar

variable {n m k : Nat} {g : Grammar} [hg : g.Locates n]

@[spec]
theorem located_operand (floor : Nat) (closing : List String) :
    Located n m (g.operand floor closing) := hg.operand m floor closing

@[spec]
theorem located_statement : Located n m g.statement := hg.statement m

@[spec]
theorem located_expressionUpTo (closing : List String) :
    Located n m (g.expressionUpTo closing) := by
  mvcgen [expressionUpTo]

@[spec]
theorem located_expression : Located n m g.expression := located_expressionUpTo []

@[spec]
theorem located_enclosed (close : String) : Located n m (g.enclosed close) := by
  mvcgen [enclosed] with grind

@[spec]
theorem located_items (close : String) : Located n m (g.items close) := by
  mvcgen [items] with grind

@[spec]
theorem located_condition : Located n m g.condition := by
  mvcgen [condition] with grind

omit hg in
@[spec]
theorem located_coerce (h : k ≤ n) (e : Expr) (t : Ty) : Located n m (g.coerce e t k) :=
  located_ofExcept (g.directory.errorsUpTo_coerce h e t)

@[spec]
theorem located_blockRest : Located n m g.blockRest := by
  mvcgen [blockRest] with grind

@[spec]
theorem located_block : Located n m g.block := by
  mvcgen [block] with grind

/-! ## Lambdas -/

omit hg in
@[grind ←]
theorem errorsUpTo_finish (h : k ≤ n) (params : List Variable) (body : Expr) (scope : Scope)
    (declared : Option Ty) : ErrorsUpTo n (g.finish params body scope declared k) := by
  unfold finish
  dsimp only
  split
  · trivial
  · exact (g.directory.errorsUpTo_coerce h body _).bind fun _ _ => trivial

omit hg in
@[spec]
theorem located_withinLambda (h : k ≤ n) (params : List Variable) (ret : Option Ty)
    {body : Reading Expr} (hbody : Located n m body) :
    Located n m (g.withinLambda params ret k body) := by
  have houtcome := located_outcome hbody
  mvcgen [withinLambda, houtcome] with grind

@[spec]
theorem located_lambdaBody (h : k ≤ n) (names : List String) (types : List Ty) (ret : Option Ty) :
    Located n m (g.lambdaBody names types ret k) := by
  mvcgen [lambdaBody] with grind

/-- A lambda may be read several times, each time where it stands. -/
theorem binds_bind : Overload.BindsUpTo n g.bind := by
  intro m l hl params ret
  obtain ⟨hoffset, j, hj⟩ := hl
  exact (located_outcome ((located_elsewhere hj (located_lambdaBody hoffset _ _ _)).map
    fun _ => id))

/-! ## Calls and members -/

@[spec]
theorem located_argument (close : String) : Located n m (g.argument close) (Argument.UpTo n) := by
  mvcgen [argument] with grind

@[spec]
theorem located_arguments (close : String) :
    Located n m (g.arguments close) fun args => ∀ a ∈ args, a.UpTo n := by
  have hargs : Located n m _ _ := located_separated (located_argument (g := g) close)
  mvcgen [arguments, hargs] with grind

@[spec]
theorem located_select (h : k ≤ n) (name : String) (cs : List Candidate) (explicit : List Ty)
    {args : List Arg} (hargs : ∀ a ∈ args, a.UpTo n) :
    Located n m (g.select name cs explicit args k) := by
  have hbind : Overload.BindsUpTo n g.bind := binds_bind
  mvcgen [select] with grind

@[spec]
theorem located_staticCall (h : k ≤ n) (t : Ty) (name : String) (explicit : List Ty)
    {args : List Arg} (hargs : ∀ a ∈ args, a.UpTo n) :
    Located n m (g.staticCall t name explicit args k) := by
  mvcgen [staticCall] with grind

@[spec]
theorem located_extensionCall (h : k ≤ n) (receiver : Expr) (name : String) (explicit : List Ty)
    {args : List Arg} (hargs : ∀ a ∈ args, a.UpTo n) :
    Located n m (g.extensionCall receiver name explicit args k) := by
  mvcgen [extensionCall] with grind

@[spec]
theorem located_instanceCall (h : k ≤ n) (receiver : Expr) (name : String) (explicit : List Ty)
    {args : List Arg} (hargs : ∀ a ∈ args, a.UpTo n) :
    Located n m (g.instanceCall receiver name explicit args k) := by
  mvcgen [instanceCall, located_outcome] with grind

omit hg in
@[spec]
theorem located_explicitTypes : Located n m g.explicitTypes := by
  mvcgen [explicitTypes] with grind

omit hg in
@[grind ←]
theorem errorsUpTo_property (h : k ≤ n) (target : Option Expr) (t : Ty) (name : String) :
    ErrorsUpTo n (g.property target t name k) := by
  unfold property
  split
  · exact .of rfl h
  · split <;> trivial

@[spec]
theorem located_memberAccess (target : Option Expr) (t : Ty) {name : Token} (h : name.UpTo n) :
    Located n m (g.memberAccess target t name) := by
  mvcgen [memberAccess] with grind

/-! ## What follows an operand -/

@[spec]
theorem located_binaryRest (h : k ≤ n) (op : BinaryOp) (l : Expr) :
    Located n m (g.binaryRest op l k) := by
  mvcgen [binaryRest] with grind

@[spec]
theorem located_conditionalRest (h : k ≤ n) (test : Expr) :
    Located n m (g.conditionalRest test k) := by
  mvcgen [conditionalRest] with grind

omit hg in
@[spec]
theorem located_typeIsRest (e : Expr) : Located n m (g.typeIsRest e) := by
  mvcgen [typeIsRest]

omit hg in
@[spec]
theorem located_typeAsRest (h : k ≤ n) (e : Expr) : Located n m (g.typeAsRest e k) := by
  mvcgen [typeAsRest] with grind

omit hg in
@[grind ←]
theorem errorsUpTo_assigned (h : k ≤ n) (op : Option BinaryOp) (target value : Expr) :
    ErrorsUpTo n (assigned op target value k) := by
  cases op with
  | none => trivial
  | some op => exact (Expr.errorsUpTo_applyBinary h op _ _).bind fun _ _ => trivial

@[spec]
theorem located_assignRest (h : k ≤ n) (op : Option BinaryOp) (target : Expr) :
    Located n m (g.assignRest op target k) := by
  mvcgen [assignRest] with grind

@[spec]
theorem located_indexRest (h : k ≤ n) (target : Expr) : Located n m (g.indexRest target k) := by
  mvcgen [indexRest] with grind

@[spec]
theorem located_delegateArgument (h : k ≤ n) {arg : Arg} (harg : arg.UpTo n) (t : Ty) {e : Error}
    (he : e.UpTo n) : Located n m (g.delegateArgument arg t e k) := by
  have hbind := fun (l : PendingLambda Deferred) (hl : l.body.UpTo n) =>
    binds_bind (n := n) (g := g) m l hl
  mvcgen [delegateArgument, hbind] with grind

@[spec]
theorem located_invokeRest (h : k ≤ n) (target : Expr) : Located n m (g.invokeRest target k) := by
  mvcgen [invokeRest] with grind [→ List.of_mem_zip]

@[spec]
theorem located_follow (h : k ≤ n) (f : Follow) (left : Expr) :
    Located n m (g.follow f left k) := by
  mvcgen [follow] with grind

@[spec]
theorem located_followAll (floor : Nat) (closing : List String) (left : Expr) :
    Located n m (g.followAll floor closing left) := by
  mvcgen [followAll] with grind

/-! ## New objects -/

omit hg in
@[grind ←]
theorem errorsUpTo_settable (t : Ty) {name : Token} (h : name.UpTo n) :
    ErrorsUpTo n (g.settable t name) := by
  unfold settable
  split
  · split
    · trivial
    · exact .of rfl h.start_le
  · exact .of rfl h.start_le

@[spec]
theorem located_memberBinding (t : Ty) : Located n m (g.memberBinding t) := by
  mvcgen [memberBinding] with grind

@[spec]
theorem located_memberBindings (t : Ty) : Located n m (g.memberBindings t) := by
  mvcgen [memberBindings] with grind

@[spec]
theorem located_addedItems (h : k ≤ n) (new : Expr) : Located n m (g.addedItems new k) := by
  mvcgen [addedItems] with grind

@[spec]
theorem located_initializer (new : Expr) : Located n m (g.initializer new) := by
  mvcgen [initializer, ahead] with grind

@[spec]
theorem located_untypedArrayRest (h : k ≤ n) : Located n m (g.untypedArrayRest k) := by
  mvcgen [untypedArrayRest] with grind

@[spec]
theorem located_sizedArrayRest (h : k ≤ n) (t : Ty) : Located n m (g.sizedArrayRest t k) := by
  mvcgen [sizedArrayRest] with grind

@[spec]
theorem located_arrayRest (h : k ≤ n) (t : Ty) (rank : Nat) :
    Located n m (g.arrayRest t rank k) := by
  mvcgen [arrayRest] with grind

@[spec]
theorem located_objectRest (h : k ≤ n) (t : Ty) : Located n m (g.objectRest t k) := by
  mvcgen [objectRest] with grind

@[spec]
theorem located_creation (h : k ≤ n) : Located n m (g.creation k) := by
  mvcgen [creation] with grind

/-! ## Names and declarations -/

@[spec]
theorem located_initialValue (h : k ≤ n) (t : Ty) : Located n m (g.initialValue t k) := by
  have hbind := fun (l : PendingLambda Deferred) (hl : l.body.UpTo n) =>
    binds_bind (n := n) (g := g) m l hl
  mvcgen [initialValue, hbind] with grind

@[spec]
theorem located_declarator (t : Ty) : Located n m (g.declarator t) := by
  mvcgen [declarator] with grind

@[spec]
theorem located_declaration (t : Ty) : Located n m (g.declaration t) := by
  mvcgen [declaration, located_separatedAny] with grind

@[spec]
theorem located_inferredDeclaration : Located n m g.inferredDeclaration := by
  mvcgen [inferredDeclaration] with grind

@[spec]
theorem located_afterType (t : Ty) : Located n m (g.afterType t) := by
  mvcgen [afterType] with grind

@[spec]
theorem located_name {t : Token} (h : t.UpTo n) : Located n m (g.name t) := by
  mvcgen [name] with grind

/-! ## Templates -/

@[spec]
theorem located_hole {text : List Char} (h : k + byteSize text ≤ n) :
    Located n m (g.hole text k) := by
  refine located_elsewhere (Cursor.within_ofSource h) ?_
  mvcgen with grind

@[spec]
theorem located_formatted (h : k ≤ n) (e : Expr) (alignment : Option Int)
    (format : Option (List Char)) : Located n m (g.formatted e alignment format k) := by
  mvcgen [formatted] with grind

@[spec]
theorem located_templatePart {s : Segment} (h : s.UpTo n) : Located n m (g.templatePart s) := by
  mvcgen [templatePart] with grind

@[spec]
theorem located_template {t : Token} (h : t.UpTo n) : Located n m (g.template t) := by
  refine (located_ofExcept (Template.ends_split h)).bind fun segments hsegments => ?_
  mvcgen [template.concat] with grind

/-! ## Operands -/

omit hg in
@[spec]
theorem located_castTarget : Located n m g.castTarget := by
  mvcgen [castTarget] with grind

@[spec]
theorem located_unaryOperand : Located n m g.unaryOperand := by
  mvcgen [unaryOperand]

@[spec]
theorem located_typedLambdaRest (h : k ≤ n) (params : Params) :
    Located n m (g.typedLambdaRest params k) := by
  unfold typedLambdaRest
  split
  · exact located_lambdaBody h _ _ _
  · mvcgen with grind

@[spec]
theorem located_bracketRest (h : k ≤ n) : Located n m (g.bracketRest k) := by
  mvcgen [bracketRest] with grind

@[spec]
theorem located_unaryRest (h : k ≤ n) (op : UnaryOp) : Located n m (g.unaryRest op k) := by
  mvcgen [unaryRest] with grind

@[spec]
theorem located_negateRest (h : k ≤ n) : Located n m (g.negateRest k) := by
  mvcgen [negateRest] with grind

omit hg in
@[spec]
theorem located_bracketedType : Located n m g.bracketedType := by
  mvcgen [bracketedType] with grind

omit hg in
@[spec]
theorem located_sizeRest (h : k ≤ n) : Located n m (g.sizeRest k) := by
  mvcgen [sizeRest] with grind

theorem located_operandRest? (h : k ≤ n) {word : String} {r : Reading Expr}
    (hr : g.operandRest? word k = some r) : Located n m r := by
  unfold operandRest? at hr
  split at hr
  all_goals cases hr
  all_goals mvcgen with grind

/-! ## Jumps -/

@[spec]
theorem located_valueIfAny : Located n m g.valueIfAny := by
  mvcgen [valueIfAny] with grind

@[spec]
theorem located_throwRest (h : k ≤ n) : Located n m (g.throwRest k) := by
  mvcgen [throwRest] with grind

omit hg in
@[grind ←]
theorem errorsUpTo_returned (h : k ≤ n) (value : Option Expr) (declared : Option Ty) :
    ErrorsUpTo n (g.returned value declared k) := by
  unfold returned
  split
  · exact (g.directory.errorsUpTo_coerce h _ _).map fun _ => id
  · trivial
  · split
    · trivial
    · exact .of rfl h
  · trivial

@[spec]
theorem located_returnRest (h : k ≤ n) : Located n m (g.returnRest k) := by
  mvcgen [returnRest] with grind

omit hg in
@[spec]
theorem located_leaveTo (h : k ≤ n) (kind : JumpKind) (target : Scopes → Option Label)
    (outside : Misuse) : Located n m (leaveTo kind target outside k) := by
  mvcgen [leaveTo] with grind

omit hg in
@[spec]
theorem located_gotoRest : Located n m gotoRest := by
  mvcgen [gotoRest, located_onScopes] with grind

theorem located_jumpRest? (h : k ≤ n) {word : String} {r : Reading Expr}
    (hr : g.jumpRest? word k = some r) : Located n m r := by
  unfold jumpRest? at hr
  split at hr
  all_goals cases hr
  all_goals mvcgen with grind

/-! ## Loops -/

omit hg in
@[spec]
theorem located_loopLabels : Located n m loopLabels := by
  mvcgen [loopLabels]

@[spec]
theorem located_loopBody (labels : LoopLabels) : Located n m (g.loopBody labels) := by
  mvcgen [loopBody, withinLoop] with grind

@[spec]
theorem located_whileRest : Located n m g.whileRest := by
  mvcgen [whileRest] with grind

@[spec]
theorem located_doRest : Located n m g.doRest := by
  mvcgen [doRest] with grind

@[spec]
theorem located_forStart : Located n m g.forStart := by
  mvcgen [forStart, located_separatedAny] with grind

@[spec]
theorem located_forTest (h : k ≤ n) : Located n m (g.forTest k) := by
  mvcgen [forTest] with grind

@[spec]
theorem located_forSteps : Located n m g.forSteps := by
  mvcgen [forSteps, located_separatedAny] with grind

@[spec]
theorem located_forParts (h : k ≤ n) (labels : LoopLabels) : Located n m (g.forParts labels k) := by
  mvcgen [forParts] with grind

@[spec]
theorem located_forRest (h : k ≤ n) : Located n m (g.forRest k) := by
  mvcgen [forRest] with grind

@[spec]
theorem located_itemBody (labels : LoopLabels) {name : Token} (h : name.UpTo n) (t : Ty) :
    Located n m (g.itemBody labels name t) := by
  mvcgen [itemBody, withinLoop] with grind

@[spec]
theorem located_arrayLoop (labels : LoopLabels) (source : Expr) (element : Ty)
    (declared : Option Ty) {name : Token} (hname : name.UpTo n) (h : k ≤ n) :
    Located n m (g.arrayLoop labels source element declared name k) := by
  mvcgen [arrayLoop] with grind

@[spec]
theorem located_enumeration (h : k ≤ n) (t : Ty) : Located n m (g.enumeration t k) := by
  mvcgen [enumeration] with grind

@[spec]
theorem located_enumeratorLoop (labels : LoopLabels) (source : Expr) (declared : Option Ty)
    {name : Token} (hname : name.UpTo n) (h : k ≤ n) :
    Located n m (g.enumeratorLoop labels source declared name k) := by
  mvcgen [enumeratorLoop] with grind

@[spec]
theorem located_foreachRest (h : k ≤ n) : Located n m (g.foreachRest k) := by
  mvcgen [foreachRest] with grind

/-! ## Statements -/

@[spec]
theorem located_scopedStatement : Located n m g.scopedStatement := by
  mvcgen [scopedStatement] with grind

@[spec]
theorem located_ifRest : Located n m g.ifRest := by
  mvcgen [ifRest] with grind

@[spec]
theorem located_caseBody : Located n m g.caseBody := by
  mvcgen [caseBody] with grind

@[spec]
theorem located_caseTests (h : k ≤ n) (t : Ty) : Located n m (g.caseTests t k) := by
  mvcgen [caseTests] with grind

@[spec]
theorem located_switchCases (t : Ty) : Located n m (g.switchCases t) := by
  mvcgen [switchCases] with grind

@[spec]
theorem located_switchRest : Located n m g.switchRest := by
  mvcgen [switchRest] with grind

omit hg in
@[spec]
theorem located_caughtType : Located n m g.caughtType := by
  mvcgen [caughtType] with grind

@[spec]
theorem located_typedHandler : Located n m g.typedHandler := by
  mvcgen [typedHandler] with grind

@[spec]
theorem located_handler : Located n m g.handler := by
  mvcgen [handler] with grind

@[spec]
theorem located_tryRest (h : k ≤ n) : Located n m (g.tryRest k) := by
  mvcgen [tryRest] with grind

theorem located_compoundRest? (h : k ≤ n) {word : String} {r : Reading Expr}
    (hr : g.compoundRest? word k = some r) : Located n m r := by
  unfold compoundRest? at hr
  split at hr
  all_goals cases hr
  all_goals mvcgen with grind

theorem located_compound? {t : Token} (h : t.UpTo n) {r : Reading Expr}
    (hr : g.compound? t = some r) : Located n m r := by
  unfold compound? at hr
  split at hr
  · exact located_compoundRest? h.start_le hr
  · cases hr

theorem located_start {t : Token} (h : t.UpTo n) : Located n m (g.start t) := by
  unfold start
  split
  case h_6 | h_7 =>
    split
    · rename_i hrest
      rcases Option.or_eq_some_iff.1 hrest with hrest | ⟨-, hrest⟩
      · rcases Option.or_eq_some_iff.1 hrest with hrest | ⟨-, hrest⟩
        · exact located_operandRest? h.start_le hrest
        · exact located_jumpRest? h.start_le hrest
      · exact located_compound? h hrest
    · mvcgen with grind
  all_goals mvcgen with grind

omit hg in
@[spec]
theorem located_labelName : Located n m labelName := by
  mvcgen [labelName] with grind

@[spec]
theorem located_expressionStatement : Located n m g.expressionStatement := by
  mvcgen [expressionStatement] with grind

theorem located_anyStatement : Located n m g.anyStatement := by
  refine located_peek.bind fun next hnext => ?_
  split
  · exact located_token.bind fun _ _ => .pure True.intro
  · refine located_labelName.skip fun label => ?_
    cases label with
    | some name => exact (located_onScopes _).skip fun _ => .pure True.intro
    | none =>
      dsimp only
      split
      · exact located_token.bind fun _ _ => located_compound? hnext ‹_›
      · exact located_expressionStatement

theorem located_anyOperand (floor : Nat) (closing : List String) :
    Located n m (g.anyOperand floor closing) :=
  located_token.bind fun _ ht => (located_start ht).skip fun _ => located_followAll _ _ _

@[spec]
theorem located_statementsToEnd : Located n m g.statementsToEnd := by
  mvcgen [statementsToEnd] with grind

end Grammar

/-! ## Programs -/

theorem Reading.located_tooDeep {α : Type} {n m : Nat} : Located n m (tooDeep : Reading α) := by
  mvcgen [tooDeep] with grind

instance Surroundings.locates_grammar (n : Nat) (s : Surroundings) :
    ∀ levels, (s.grammar levels).Locates n
  | 0 => ⟨fun _ _ _ => located_tooDeep, fun _ => located_tooDeep⟩
  | levels + 1 =>
    have := s.locates_grammar n levels
    ⟨fun _ => Grammar.located_anyOperand, fun _ => Grammar.located_anyStatement⟩

namespace Options

variable {n m : Nat} (o : Options) (d : Directory)

@[spec]
theorem located_writtenParameter (p : Option Ty × String) :
    Located n m (o.writtenParameter d p) := by
  mvcgen [writtenParameter]

@[spec]
theorem located_programParameters : Located n m (o.programParameters d) := by
  mvcgen [programParameters] with grind

@[spec]
theorem located_surroundings (params : List Variable) : Located n m (o.surroundings d params) := by
  mvcgen [surroundings] with grind

theorem located_program (levels : Nat) : Located n m (o.program d levels) := by
  mvcgen [program] with grind

end Options

theorem Text.byteSize_toList (s : String) : byteSize s.toList = s.utf8ByteSize := by
  have hencode : ∀ cs : List Char, byteSize cs = cs.utf8Encode.size := by
    intro cs
    induction cs with
    | nil => rfl
    | cons c cs ih =>
      rw [byteSize_cons, ih, List.utf8Encode_cons, ByteArray.size_append, List.utf8Encode_singleton]
      simp
  rw [hencode]
  simp

/-- The place of an error in a program lies within the text of the program. -/
theorem offset_le_of_parse (d : Directory) (o : Options) (first : Nat) (source : String)
    {e : Error} {k : Nat} (h : parse d o first source = .error e) (hk : e.offset? = some k) :
    k ≤ source.utf8ByteSize := by
  have hwithin : (Cursor.ofSource source.toList 0).Within source.utf8ByteSize _ :=
    Cursor.within_ofSource (by rw [byteSize_toList, Nat.zero_add])
  have hlocated := located_iff.1 (o.located_program d (2 * source.toList.length + 2))
    { cursor := .ofSource source.toList 0, scopes := { next := first } } hwithin
  unfold parse at h
  dsimp only at h
  split at h
  · cases h
  · rename_i e' q hq
    cases h
    exact (hlocated.2 e q hq).2 k hk

/-- An unknown name in the hole of a template that is itself in a hole. -/
def unknownInHole : String := "(int x) => $\"é\x7b$\"\x7bx + y\x7d\"\x7d\""

theorem offset_le_of_parse_hole :
    parse (Engine.directory {}) {} 0 unknownInHole = .error (.unknownSymbol 23 "y") ∧
      23 ≤ unknownInHole.utf8ByteSize := by
  have hfailure : Except.map (fun _ => ()) (parse (Engine.directory {}) {} 0 unknownInHole) =
      .error (.unknownSymbol 23 "y") := by decide +kernel
  have hparse : parse (Engine.directory {}) {} 0 unknownInHole =
      .error (.unknownSymbol 23 "y") := by
    cases hresult : parse (Engine.directory {}) {} 0 unknownInHole with
    | ok l => rw [hresult] at hfailure; cases hfailure
    | error e => rw [hresult] at hfailure; cases hfailure; rfl
  exact ⟨hparse, offset_le_of_parse _ _ _ _ hparse rfl⟩

end Scriptlet

import Scriptlet.Catalog.Directory
import Scriptlet.Evaluation.Operation
import Scriptlet.Evaluation.Operator

/-!
# Evaluating expressions

An expression is evaluated within a frame, and comes to a value unless it is left by
a signal (`Signal`): a jump, which the block or loop with the label takes up, an
exception, which a handler takes up, or a stop.

The parts of a construct are evaluated in their order, and only as far as they are
needed; each construct is described by what it does with the evaluations of its parts
(`Machine.evaluate`). Loops, and jumps within a block, take a bounded number of rounds;
functions are called by the machine.
-/

namespace Scriptlet

/-- What an evaluation is left by. -/
inductive Signal
  | halt (h : Halt)
  /-- A jump to a label, with a value if it carries one. -/
  | jump (label : Nat) (value : Option Value)
  | throw (exception : Value)

/-- Where an expression is evaluated. -/
structure Site where
  /-- The frame with the variables. -/
  frame : Nat
  /-- The exceptions that are being handled, the latest first. -/
  handling : List Value := []

/-- An evaluation. -/
abbrev Evaluation := ReaderT Site (EStateM Signal Store)

/-- What expressions are evaluated with. -/
structure Machine where
  directory : Directory
  host : Host
  /-- The number of rounds that a loop can take. -/
  rounds : Nat
  /-- Calls the function with a number. -/
  apply : Nat → List Value → Run Value

namespace Evaluation

/-- Something that runs, as an evaluation. -/
def ofRun {α : Type} (r : Run α) : Evaluation α := fun _ s =>
  match r s with
  | .ok a s => .ok a s
  | .error h s => .error (.halt h) s

/-- Stops with a fault. -/
def fault {α : Type} (f : Fault) : Evaluation α := ofRun (Run.fault f)

/-- Stops because there are no rounds left. -/
def exhausted {α : Type} : Evaluation α := ofRun (throw .exhausted)

/-- Leaves by a signal. -/
def leave {α : Type} (signal : Signal) : Evaluation α := fun _ s => .error signal s

/-- Evaluates within a new frame, with these slots. -/
def withinFrame {α : Type} (slots : List (Nat × Value)) (e : Evaluation α) : Evaluation α :=
  fun site s =>
    let (frame, s) := s.newFrame ⟨slots, some site.frame⟩
    e { site with frame } s

/-! ## Loops and blocks -/

/-- Repeats an evaluation until it jumps to a label. A jump to the other label, if
    there is one, only goes on with the next round. -/
def repeated (body : Evaluation Value) (breakLabel : Nat) (continueLabel : Option Nat) :
    (rounds : Nat) → Evaluation Value
  | 0, _, s => .error (.halt .exhausted) s
  | rounds + 1, site, s =>
    match body site s with
    | .ok _ s => repeated body breakLabel continueLabel rounds site s
    | .error (.jump label value) s =>
      if label = breakLabel then .ok (value.getD .null) s
      else if some label = continueLabel then
        repeated body breakLabel continueLabel rounds site s
      else .error (.jump label value) s
    | .error signal s => .error signal s

/-- A statement of a block: the label that it is, if it is one, and its evaluation. -/
abbrev Statement := Option Nat × Evaluation Value

/-- The statements of a block behind a label of it. -/
def behind? (label : Nat) : List Statement → Option (List Statement)
  | [] => none
  | (l, _) :: rest => if l = some label then some rest else behind? label rest

/-- What going through statements leads to: their end, or a label of the block. -/
inductive Passage
  | done (value : Value)
  | jumped (rest : List Statement) (value : Value)

/-- Goes through statements of a block, up to their end or a jump within the block. -/
def pass (block : List Statement) : (rest : List Statement) → (last : Value) → Evaluation Passage
  | [], last => pure (.done last)
  | (_, e) :: rest, _ => fun site s =>
    match e site s with
    | .ok v s => pass block rest v site s
    | .error (.jump label value) s =>
      match behind? label block with
      | some rest => .ok (.jumped rest (value.getD .null)) s
      | none => .error (.jump label value) s
    | .error signal s => .error signal s

/-- Goes through the statements of a block, from some of them on, as often as jumps
    lead back. -/
def passAll (block : List Statement) : (rounds : Nat) → (rest : List Statement) →
    (last : Value) → Evaluation Value
  | 0, _, _ => exhausted
  | rounds + 1, rest, last => do
    match ← pass block rest last with
    | .done v => pure v
    | .jumped rest v => passAll block rounds rest v

end Evaluation

/-! ## Types and exceptions -/

/-- The type of a value, as the catalog has it. -/
def Store.runtimeType? (s : Store) : Value → Option Ty
  | .null | .function _ => none
  | .bool _ => some .bool
  | .char _ => some .char
  | .number n => some (.numeric n.kind)
  | .string _ => some .string
  | .array r => some (.array (s.array r).element (s.array r).dims.length)
  | .list _ => some (.named "List" [.object])
  | .object r => some (.named (s.object r).typeName [])
  | .enumerator _ => some (.named "IEnumerator" [.object])

/-- The exception that a handler sees for an error. -/
def Error.exception? : Error → Option ObjectData
  | fault f => some ⟨f.exceptionName, [("Message", .string f.message)]⟩
  | thrown message => some ⟨"Exception", [("Message", .string message)]⟩
  | _ => none

namespace Machine

open Evaluation

variable (m : Machine)

/-- Whether a value is of a type. Numbers are of their own kind only. -/
def isInstance (s : Store) (v : Value) : Ty → Bool
  | .object => !v.isNull
  | .nullable t => isInstance s v t
  | t =>
    match v, t with
    | .function _, .function .. => true
    | v, t =>
      match s.runtimeType? v, t.definitionName? with
      | some actual, name =>
        actual = t || (!actual.isNumeric && name.any (m.directory.derivesFrom actual ·))
      | none, _ => false

/-! ## Handlers -/

/-- A handler, with its evaluation. -/
structure Catch where
  type : Ty
  binder : Option Variable
  body : Evaluation Value

/-- Handles an exception with the first handler for its type, if there is one. -/
def handle (catches : List Catch) (exception : Value) : Evaluation Value := fun site s =>
  match catches.find? fun c => m.isInstance s exception c.type with
  | none => .error (.throw exception) s
  | some c =>
    let slots := (c.binder.map fun v => (v.id, exception)).toList
    withinFrame slots c.body { site with handling := exception :: site.handling } s

/-- Evaluates with handlers. -/
def guarded (body : Evaluation Value) (catches : List Catch) : Evaluation Value := fun site s =>
  match body site s with
  | .error (.throw exception) s => m.handle catches exception site s
  | .error (.halt (.error e)) s =>
    match e.exception? with
    | some o =>
      let (exception, s) := s.newObject o
      m.handle catches exception site s
    | none => .error (.halt (.error e)) s
  | other => other

/-- Evaluates something behind something else, however that was left; only a machine
    that is exhausted stops at once. -/
def finishing (body : Evaluation Value) (last : Evaluation (Option Value)) : Evaluation Value :=
  fun site s =>
    match body site s with
    | .error (.halt .exhausted) s => .error (.halt .exhausted) s
    | .ok _ s =>
      match last site s with
      | .ok _ s => .ok .null s
      | .error signal s => .error signal s
    | .error signal s =>
      match last site s with
      | .ok _ s => .error signal s
      | .error signal s => .error signal s

/-- Throws an exception, or once more the one that is being handled. -/
def raise (rethrow : Bool) (v : Value) : Evaluation Value := do
  let site ← read
  match if rethrow then site.handling.head? else some v with
  | none => fault .nothingToRethrow
  | some .null => fault .nullValue
  | some exception => leave (.throw exception)

/-! ## Calls and members -/

/-- A new object, with its fields set from the arguments for parameters of the same
    name. -/
def construct (typeName : String) (fields : List (String × Ty)) (params : List Param)
    (args : List Value) : Run Value := do
  let start := fields.foldl (fun fs (name, t) => setField name (Value.defaultOf t) fs) []
  let set (fs : List (String × Value)) (p : Param × Value) : Run (List (String × Value)) :=
    match fields.find? fun f => Text.eqIgnoringCase f.1 p.1.name with
    | some (name, t) => do pure (setField name (← Run.ofFault (p.2.convertTo t)) fs)
    | none => pure fs
  let fields ← (params.zip args).foldlM set start
  Run.make (·.newObject ⟨typeName, fields⟩)

/-- Calls a method. -/
def callMethod (method : Method) (args : List Value) : Run Value :=
  match method.action with
  | .library op => op.run m.apply args
  | .host name => m.host.call name args
  | .record typeName fields => construct typeName fields method.params args

/-- An argument as the parameter with its number takes it, of so many arguments.
    Constants may have become narrower than the parameter. -/
def takeArgument (method : Method) (count : Nat) (i : Nat) (v : Value) : Run Value :=
  match (method.params.drop (method.params.length - count))[i]? with
  | some p => if p.type.isNumeric then Run.ofFault (v.convertTo p.type) else pure v
  | none => pure v

/-- Checks the value that a method is called on. -/
def takeReceiver (method : Method) (v : Value) : Run Unit :=
  if v.isNull && !method.isStatic then Run.fault .nullReference else pure ()

/-- Reads a member of a value. -/
def loadMember (receiver : Value) (member : Member) : Run Value :=
  match member.kind with
  | .constant c => pure c.toValue
  | .property getter =>
    if receiver.isNull && !member.isStatic then Run.fault .nullReference
    else
      match getter with
      | .library p => p.get receiver
      | .host name => m.host.get name receiver
  | .field =>
    match receiver with
    | .object r => do pure ((((← get).object r).fields.lookup member.name).getD .null)
    | _ => Run.fault .nullReference

/-- Sets a member of a value. -/
def storeMember (receiver : Value) (member : Member) (v : Value) : Run Unit :=
  match receiver, member.isField with
  | .object r, true => do
    let v ← Run.ofFault (v.convertTo member.type)
    let o := (← get).object r
    modify (·.setObject r { o with fields := setField member.name v o.fields })
  | .null, _ => Run.fault .nullReference
  | _, _ => Run.fault (.readOnlyMember member.name)

/-! ## Arrays -/

/-- An index, which has to be one. -/
def takeIndex (_ : Nat) (v : Value) : Run Value := do
  let i ← Run.look (·.asIndex v)
  pure (.number (.ofInt .long i))

/-- A bound of an array, which cannot be negative. -/
def takeBound (_ : Nat) (v : Value) : Run Value := do
  let i ← Run.look (·.asIndex v)
  if i < 0 then Run.fault .overflow else pure (.number (.ofInt .long i))

/-- The whole numbers that values are. -/
def wholeNumbers (vs : List Value) : List Int := vs.map fun v => (v.number?.bind (·.toInt?)).getD 0

/-- A new array of a size. -/
def sizedArray (element : Ty) (bounds : List Value) : Run Value :=
  let dims := (wholeNumbers bounds).map Int.toNat
  Run.make (·.newArray
    ⟨element, dims, List.replicate (dims.foldl (· * ·) 1) (Value.defaultOf element)⟩)

/-- The array that a value refers to. -/
def takeArray : Value → Run Nat
  | .array r => pure r
  | _ => Run.fault .nullReference

/-- Reads an item of an array. -/
def loadItem (array : Value) (indices : List Value) : Run Value := do
  let r ← takeArray array
  let a := (← get).array r
  let i ← Run.ofFault (a.slot (wholeNumbers indices))
  pure (a.items.getD i .null)

/-- Sets an item of an array. -/
def storeItem (array : Value) (indices : List Value) (v : Value) : Run Unit := do
  let r ← takeArray array
  let a := (← get).array r
  let i ← Run.ofFault (a.slot (wholeNumbers indices))
  let v ← Run.ofFault (v.convertTo a.element)
  modify (·.setArray r { a with items := a.items.set i v })

/-! ## Variables -/

/-- The value of a variable. -/
def loadVariable (v : Variable) : Evaluation Value := do
  let frame := (← read).frame
  ofRun (Run.look fun s => s.lookup frame v)

/-- Sets a variable. -/
def storeVariable (v : Variable) (value : Value) : Evaluation Unit := do
  let frame := (← read).frame
  ofRun do
    let value ← Run.ofFault (value.convertTo v.type)
    let r ← Run.look fun s => s.holder frame v
    modify (·.define r v value)

/-- A new function. -/
def newFunction (l : Lambda) : Evaluation Value := do
  let frame := (← read).frame
  ofRun (Run.make (·.newFunction ⟨l, frame⟩))

/-! ## Expressions -/

/-- The truth value that an evaluation comes to. -/
def truth (e : Evaluation Value) : Evaluation Bool := do
  let v ← e
  ofRun (Run.look (·.asBool v))

/-- An evaluation whose value is converted to a type. -/
def converted (e : Evaluation Value) (t : Ty) : Evaluation Value := do
  let v ← e
  ofRun (Run.ofFault (v.convertTo t))

/-- A binary operator on two evaluations. -/
def binary (op : BinaryOp) (l r : Evaluation Value) (t : Ty) : Evaluation Value :=
  match op with
  | .andAlso => do if ← truth l then r else pure (.bool false)
  | .orElse => do if ← truth l then pure (.bool true) else r
  | .coalesce => do
    let v ← l
    if v.isNull then converted r t else converted (pure v) t
  | op => do
    let a ← l
    let b ← r
    ofRun (op.onValues a b t)

/-- A block with its variables. -/
def block (rounds : Nat) (locals : List Variable) (statements : List Statement) (t : Ty) :
    Evaluation Value := do
  let slots := locals.foldl (fun slots v => Frame.set v.id (Value.defaultOf v.type) slots) []
  let v ← withinFrame slots (passAll statements rounds statements .null)
  pure (if t = .void then .null else v)

/-- The label that a statement is. -/
def labelOf : Expr → Option Nat
  | .label target _ _ => some target.id
  | _ => none

mutual

/-- Evaluates an expression. -/
def evaluate : Expr → Evaluation Value
  | .constant c => pure c.toValue
  | .default t => pure (Value.defaultOf t)
  | .parameter v => loadVariable v
  | .unary op e t =>
    if op.isMutation then do
      let old ← evaluate e
      let new ← ofRun (op.stepped old t)
      store e new
      pure (if op.yieldsOld then old else new)
    else do
      let v ← evaluate e
      ofRun (op.onValue v t)
  | .binary op l r t => binary op (evaluate l) (evaluate r) t
  | .convert e t => converted (evaluate e) t
  | .typeIs e t => do
    let v ← evaluate e
    pure (.bool (m.isInstance (← get) v t))
  | .typeAs e t => do
    let v ← evaluate e
    pure (if m.isInstance (← get) v t then v else .null)
  | .call method receiver args _ _ => do
    match ← evaluateOption receiver with
    | some v =>
      ofRun (takeReceiver method v)
      let vs ← evaluateAll (takeArgument method args.length) 0 args
      ofRun (m.callMethod method (v :: vs))
    | none =>
      let vs ← evaluateAll (takeArgument method args.length) 0 args
      ofRun (m.callMethod method vs)
  | .invoke target args _ => do
    let v ← evaluate target
    let f ← ofRun (Run.look (·.asFunction v))
    let vs ← evaluateAll (fun _ v => pure v) 0 args
    ofRun (m.apply f vs)
  | .new constructor args _ => do
    let vs ← evaluateAll (takeArgument constructor args.length) 0 args
    ofRun (m.callMethod constructor vs)
  | .memberInit new bindings _ => do
    let v ← evaluate new
    bindMembers v bindings
    pure v
  | .listInit new add items _ => do
    let v ← evaluate new
    let _ ← evaluateAll (fun _ item => m.callMethod add [v, item]) 0 items
    pure v
  | .arrayOfSize element bounds => do
    let vs ← evaluateAll takeBound 0 bounds
    ofRun (sizedArray element vs)
  | .arrayOfItems element items => do
    let vs ← evaluateAll (fun _ v => Run.ofFault (v.convertTo element)) 0 items
    ofRun (Run.make (·.newArray ⟨element, [vs.length], vs⟩))
  | .member target member _ _ => do
    let receiver ← evaluateOption target
    ofRun (m.loadMember (receiver.getD .null) member)
  | .index array indices _ => do
    let a ← evaluate array
    let is ← evaluateAll takeIndex 0 indices
    ofRun (loadItem a is)
  | .conditional test a b _ => do if ← truth (evaluate test) then evaluate a else evaluate b
  | .assign target value _ => do
    let v ← evaluate value
    store target v
    pure v
  | .block locals body t => block m.rounds locals (statements body) t
  | .loop body breakLabel continueLabel =>
    repeated (evaluate body) breakLabel.id (continueLabel.map (·.id)) m.rounds
  | .jump _ target value => do
    let v ← evaluateOption value
    leave (.jump target.id v)
  | .label _ default _ => do pure ((← evaluateOption default).getD .null)
  | .switch value cases default => do
    let v ← evaluate value
    if ← takeCase v cases then pure .null
    else
      let _ ← evaluateOption default
      pure .null
  | .tryCatch body handlers last =>
    finishing (m.guarded (evaluate body) (catches handlers)) (evaluateOption last)
  | .throw value => do
    let v ← evaluateOption value
    raise v.isNone (v.getD .null)
  | .lambda params body ret => newFunction ⟨params, body, ret⟩

/-- Sets what an expression stands for. -/
def store : Expr → Value → Evaluation Unit
  | .parameter v, value => storeVariable v value
  | .index array indices _, value => do
    let a ← evaluate array
    let is ← evaluateAll takeIndex 0 indices
    ofRun (storeItem a is value)
  | .member (some target) member _ _, value => do
    let receiver ← evaluate target
    ofRun (storeMember receiver member value)
  | _, _ => fault .assignmentTarget

/-- Evaluates expressions in their order, and does something with the value and the
    number of each. -/
def evaluateAll (f : Nat → Value → Run Value) : Nat → List Expr → Evaluation (List Value)
  | _, [] => pure []
  | i, e :: es => do
    let v ← evaluate e
    let w ← ofRun (f i v)
    let ws ← evaluateAll f (i + 1) es
    pure (w :: ws)

/-- Evaluates an expression, if there is one. -/
def evaluateOption : Option Expr → Evaluation (Option Value)
  | none => pure none
  | some e => do
    let v ← evaluate e
    pure (some v)

/-- Sets members of a new object. -/
def bindMembers (object : Value) : List (Binding Expr) → Evaluation Unit
  | [] => pure ()
  | ⟨member, value⟩ :: bindings => do
    let v ← evaluate value
    ofRun (storeMember object member v)
    bindMembers object bindings

/-- The statements of a block. -/
def statements : List Expr → List Statement
  | [] => []
  | e :: es => (labelOf e, evaluate e) :: statements es

/-- Whether one of some expressions equals a value; the first that does is the last
    that is evaluated. -/
def anyEquals (v : Value) : List Expr → Evaluation Bool
  | [] => pure false
  | e :: es => do
    let w ← evaluate e
    if w.equal v then pure true else anyEquals v es

/-- Evaluates the first case for a value; says whether there is one. -/
def takeCase (v : Value) : List (Case Expr) → Evaluation Bool
  | [] => pure false
  | ⟨tests, body⟩ :: cases => do
    if ← anyEquals v tests then
      let _ ← evaluate body
      pure true
    else takeCase v cases

/-- The handlers of a statement. -/
def catches : List (Handler Expr) → List Catch
  | [] => []
  | ⟨type, binder, body⟩ :: handlers => ⟨type, binder, evaluate body⟩ :: catches handlers

end

end Machine

end Scriptlet

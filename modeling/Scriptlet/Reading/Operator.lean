import Scriptlet.Reading.Call

/-!
# What follows an operand

An operand can be followed by an operator or by the access to a part of it
(`Follow`). Each binds with a level, and takes what is on its left as its first
operand. An operator that groups to the right lets operators of its own level
into its right operand.
-/

namespace Scriptlet

/-- The level at which a binary operator binds; higher ones bind tighter. -/
def BinaryOp.level : BinaryOp → Nat
  | coalesce => 47
  | orElse => 50
  | andAlso => 51
  | or => 60
  | exclusiveOr => 61
  | and => 62
  | equal | notEqual => 70
  | lessThan | lessThanOrEqual | greaterThan | greaterThanOrEqual => 80
  | leftShift | rightShift => 90
  | add | subtract => 100
  | multiply | divide | modulo => 110
  | power => 125

/-- Whether a binary operator groups to the right. -/
def BinaryOp.groupsRight : BinaryOp → Bool
  | power | coalesce => true
  | _ => false

/-- The level at which the operators in front of an operand bind. -/
def UnaryOp.level : Nat := 120

/-- What can follow an operand. -/
inductive Follow
  | binary (op : BinaryOp)
  | conditional
  /-- An assignment, of the result of an operator if there is one. -/
  | assign (op : Option BinaryOp)
  | typeIs
  | typeAs
  | member
  | index
  | invoke
  | increment (op : UnaryOp)
  deriving DecidableEq, Repr

namespace Follow

/-- The level at which it binds. -/
def level : Follow → Nat
  | binary op => op.level
  | conditional => 45
  | assign _ => 40
  | typeIs | typeAs => 80
  | member | index | invoke | increment _ => 130

/-- The floor for what is on its right. -/
def floor : Follow → Nat
  | binary op => if op.groupsRight then op.level - 1 else op.level
  | conditional => conditional.level - 1
  | assign op => (assign op).level - 1
  | f => f.level

/-- The operators that can be combined with an assignment. -/
def combined : List BinaryOp :=
  [.add, .subtract, .multiply, .divide, .modulo, .and, .or, .exclusiveOr, .leftShift, .rightShift,
    .coalesce]

/-- What a symbol or reserved word says about the operand in front of it. -/
def ofWord? : String → Option Follow
  | "." => some member
  | "[" => some index
  | "(" => some invoke
  | "++" => some (increment .postIncrement)
  | "--" => some (increment .postDecrement)
  | "is" => some typeIs
  | "as" => some typeAs
  | "?" => some conditional
  | "=" => some (assign none)
  | word =>
    match BinaryOp.ofSymbol? word with
    | some op => some (binary op)
    | none => (combined.find? fun op => op.symbol ++ "=" == word).map fun op => assign (some op)

/-- What a token says about the operand in front of it. -/
def ofToken? (t : Token) : Option Follow :=
  if t.kind.isSymbol || t.kind.isKeyword then ofWord? t.word else none

end Follow

namespace Grammar

open Reading

variable (g : Grammar)

/-! ## Operators -/

/-- Reads the rest of a binary operation. -/
def binaryRest (op : BinaryOp) (left : Expr) (offset : Nat) : Reading Expr := do
  let (right, _) ← g.operand (Follow.binary op).floor []
  ofExcept (Expr.applyBinary op left right offset)

/-- Reads the rest of a conditional. -/
def conditionalRest (test : Expr) (offset : Nat) : Reading Expr := do
  let (a, closed) ← g.operand 0 [":"]
  if closed then
    expect ":"
    let (b, _) ← g.operand Follow.conditional.floor []
    ofExcept (Expr.choose test a b offset)
  else missing ":"

/-- Reads the rest of the question whether a value is of a type. -/
def typeIsRest (e : Expr) : Reading Expr := do pure (.typeIs e (← requiredType g.directory))

/-- Reads the rest of a cast that may come to nothing. -/
def typeAsRest (e : Expr) (offset : Nat) : Reading Expr := do
  let t ← requiredType g.directory
  if t.acceptsNull then pure (.typeAs e t) else throw (.mismatch offset (.asValueType t))

/-! ## Assignments -/

/-- What is assigned: the value itself, or the result of an operator on the target
    and the value, converted to the type of the target. -/
def assigned (op : Option BinaryOp) (target value : Expr) (offset : Nat) : Except Error Expr :=
  match op with
  | none => pure value
  | some op => do pure ((← Expr.applyBinary op target value offset).convertTo target.type)

/-- The value and the arguments of an element that is got with a method. -/
def element? : Expr → Option (Expr × List Expr)
  | .call m (some receiver) args _ _ => if m.name == "get_Item" then some (receiver, args) else none
  | _ => none

/-- Reads the rest of an assignment. An element that is got with a method is set with
    a method too. -/
def assignRest (op : Option BinaryOp) (target : Expr) (offset : Nat) : Reading Expr := do
  let (value, _) ← g.operand (Follow.assign op).floor []
  match element? target with
  | some (receiver, args) =>
    let value ← ofExcept (assigned op target value offset)
    match g.directory.instanceMethods receiver.type "set_Item" with
    | [] => throw (.misuse offset .readOnlyTarget)
    | setters =>
      let s ← g.select "this[]" setters [] ((args ++ [value]).map .typed) offset
      pure (s.toCall (some receiver))
  | none =>
    if !target.isAssignable then throw (.misuse offset .assignmentTarget)
    else
      let value ←
        match op with
        | none => g.coerce value target.type offset
        | op => ofExcept (assigned op target value offset)
      pure (.assignTo target value)

/-! ## Parts -/

/-- The methods that get an element of a value. -/
def elementGetters (t : Ty) : List Candidate :=
  match g.directory.instanceMethods t "get_Item" with
  | [] => g.directory.instanceMethods t "get_Chars"
  | getters => getters

/-- Reads the rest of the access to an element. -/
def indexRest (target : Expr) (offset : Nat) : Reading Expr := do
  let indices ← g.items "]"
  match target.type with
  | .array element rank =>
    if indices.length ≠ rank then throw (.mismatch offset (.indexCount rank))
    else pure (.index target (← ofExcept (indices.mapM fun e => e.asIndex offset)) element)
  | t =>
    match g.elementGetters t with
    | [] => throw (.mismatch offset (.notIndexable t))
    | getters =>
      let s ← g.select "this[]" getters [] (indices.map .typed) offset
      pure (s.toCall (some target))

/-- The argument of a delegate, where a type is wanted. -/
def delegateArgument (arg : Arg) (t : Ty) (refused : Error) (offset : Nat) : Reading Expr := do
  match arg, t with
  | .typed e, t => g.coerce e t offset
  | .lambda l, .function params ret =>
    match ← ofExcept (← g.bind l params (some ret)) with
    | some e => pure e
    | none => throw refused
  | .lambda _, _ => throw refused

/-- Reads the rest of the call of a delegate. -/
def invokeRest (target : Expr) (offset : Nat) : Reading Expr := do
  match target.type with
  | .function params ret =>
    let args ← g.arguments ")"
    let refused : Error :=
      .noOverload offset "Invoke" (Text.showNat args.length ++ " arguments")
    if args.length ≠ params.length then throw refused
    else
      let args ← (args.zip params).mapM fun (arg, t) => g.delegateArgument arg t refused offset
      pure (.invoke target args ret)
  | t => throw (.mismatch offset (.notInvocable t))

/-- Reads what follows an operand. -/
def follow (f : Follow) (left : Expr) (offset : Nat) : Reading Expr :=
  match f with
  | .binary op => g.binaryRest op left offset
  | .conditional => g.conditionalRest left offset
  | .assign op => g.assignRest op left offset
  | .typeIs => g.typeIsRest left
  | .typeAs => g.typeAsRest left offset
  | .member => do g.memberAccess (some left) left.type (← memberName)
  | .index => g.indexRest left offset
  | .invoke => g.invokeRest left offset
  | .increment op => ofExcept (Expr.applyUnary op left offset)

/-- Reads all that follows an operand with a level above a floor, up to a closing
    symbol. -/
def followAll (floor : Nat) (closing : List String) (left : Expr) : Reading (Expr × Bool) :=
  iterate (fun left => do
    let next ← peek
    if closing.any (next.is ·) then pure (.done (left, true))
    else
      match Follow.ofToken? next with
      | none => pure (.done (left, false))
      | some f =>
        if f.level ≤ floor then pure (.done (left, false))
        else
          let _ ← token
          pure (.again (← g.follow f left next.start))) left

end Grammar

end Scriptlet

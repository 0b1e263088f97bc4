import Scriptlet.Evaluation.Evaluate

/-!
# Calling functions

A function is called in a frame of its own, within the frame that it was made in. An
exception that leaves it is an error for the caller, with the text of the exception as
its message.

Functions can call each other without end, so a machine is made for a depth
(`Machine.ofDepth`): the functions that it calls are called by a machine of a smaller
depth.
-/

namespace Scriptlet

namespace Machine

open Evaluation

/-- What a call comes to when the body of a function has been evaluated. -/
def conclude (ret : Ty) : EStateM.Result Signal Store Value → EStateM.Result Halt Store Value
  | .ok v s =>
    if ret = .void then .ok .null s
    else
      match v.convertTo ret with
      | .ok v => .ok v s
      | .error f => .error (.error (.fault f)) s
  | .error (.halt h) s => .error h s
  | .error (.throw v) s => .error (.error (.thrown (s.display v))) s
  | .error (.jump label _) s => .error (.error (.fault (.escapedJump label))) s

/-- The slots of the parameters of a function. -/
def parameterSlots (params : List Variable) (args : List Value) :
    Except Fault (List (Nat × Value)) :=
  (params.zip args).foldlM (fun slots (p, v) => do
    pure (Frame.set p.id (← v.convertTo p.type) slots)) []

/-- Calls a function. -/
def call (m : Machine) (f : FunctionData) (args : List Value) : Run Value :=
  if args.length ≠ f.lambda.params.length then
    Run.fault (.lambdaArity f.lambda.params.length args.length)
  else do
    let slots ← Run.ofFault (parameterSlots f.lambda.params args)
    fun s =>
      let (frame, s) := s.newFrame ⟨slots, some f.frame⟩
      conclude f.lambda.ret (m.evaluate f.lambda.body { frame } s)

/-- Calls the function with a number, as a delegate. -/
def applyWith (m : Machine) (r : Nat) (args : List Value) : Run Value := do
  let f := (← get).function r
  if args.length ≠ f.lambda.params.length then
    Run.fault (.delegateArity Store.functionName f.lambda.params.length args.length)
  else m.call f args

/-- The machine on which calls can be nested so many levels deep. -/
def ofDepth (d : Directory) (h : Host) (rounds : Nat) : (depth : Nat) → Machine
  | 0 => ⟨d, h, rounds, fun _ _ => throw .exhausted⟩
  | depth + 1 => ⟨d, h, rounds, fun r args => (ofDepth d h rounds depth).applyWith r args⟩

end Machine

/-- Calls a program. -/
def Lambda.invoke (m : Machine) (l : Lambda) (args : List Value) : Run Value := do
  let frame ← fun s =>
    let (frame, s) := s.newFrame {}
    .ok frame s
  m.call ⟨l, frame⟩ args

end Scriptlet

import Scriptlet.Value.Basic

/-!
# Frames

A frame holds the variables of a scope of the running program. A variable that it
does not hold is looked for in the frame around it, and so on outwards. Every
frame is made after the one around it, so the way outwards has an end.
-/

namespace Scriptlet

namespace Store

/-- A new frame within another. -/
def newFrame (s : Store) (f : Frame) : Nat × Store :=
  (s.frames.size, { s with frames := s.frames.push f })

/-- The frame with a number. -/
def frame (s : Store) (ref : Nat) : Frame := s.frames.getD ref {}

end Store

namespace Frame

/-- Sets a slot. -/
def set (id : Nat) (v : Value) : List (Nat × Value) → List (Nat × Value)
  | [] => [(id, v)]
  | (i, w) :: slots => if i = id then (i, v) :: slots else (i, w) :: set id v slots

end Frame

namespace Store

/-- The nearest frame, from one outwards, that holds a variable, if it is at most so
    many steps away. -/
def holderWithin (s : Store) (id : Nat) : (steps : Nat) → (ref : Nat) → Option Nat
  | 0, _ => none
  | steps + 1, ref =>
    let f := s.frame ref
    if (f.slots.lookup id).isSome then some ref
    else
      match f.enclosing with
      | some outer => holderWithin s id steps outer
      | none => none

/-- The nearest frame, from one outwards, that holds a variable. -/
def holder? (s : Store) (ref id : Nat) : Option Nat := s.holderWithin id s.frames.size ref

/-- Gives a variable a value in a frame, whether or not it holds the variable. -/
def define (s : Store) (ref : Nat) (v : Variable) (value : Value) : Store :=
  { s with
    frames := s.frames.modify ref fun f => { f with slots := Frame.set v.id value f.slots } }

/-- The frame that holds a variable. -/
def holder (s : Store) (ref : Nat) (v : Variable) : Except Fault Nat :=
  match s.holder? ref v.id with
  | some r => pure r
  | none => throw (.undefinedVariable v.name)

/-- The value of a variable. -/
def lookup (s : Store) (ref : Nat) (v : Variable) : Except Fault Value := do
  let r ← s.holder ref v
  pure (((s.frame r).slots.lookup v.id).getD .null)

/-- Gives a variable a value where it is held. -/
def assign (s : Store) (ref : Nat) (v : Variable) (value : Value) : Except Fault Store := do
  let r ← s.holder ref v
  pure (s.define r v value)

end Store

end Scriptlet

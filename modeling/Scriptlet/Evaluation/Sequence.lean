import Scriptlet.Evaluation.Number

/-!
# Operations on sequences

The methods of the library on lists and enumerators, and queries, some of which call
a function for every item.
-/

namespace Scriptlet

open Run

namespace Sequences

/-! ## Lists -/

/-- The list that an argument is, and its items. -/
def listArg (args : List Value) : Run (Nat × List Value) := do
  let r ← argAs Store.asList args 0
  pure (r, (← get).list r)

/-- Changes the items of a list. -/
def changeList (r : Nat) (items : List Value) : Run Value := do
  modify (·.setList r items)
  pure .null

/-- The place of an item with an index that has to be less than a bound. -/
def within (i : Int) (bound : Nat) (f : Fault) : Run Nat :=
  if 0 ≤ i ∧ i < bound then pure i.toNat else fault f

/-- The place of the item that an argument says. -/
def itemPlace (args : List Value) (items : List Value) : Run Nat := do
  within (← argAs Store.asIndex args 1) items.length .indexRange

/-- The place of an item that equals a value. -/
def placeOf (v : Value) (items : List Value) : Int :=
  match items.findIdx? (·.equal v) with
  | some i => i
  | none => -1

/-! ## Queries -/

/-- Calls the function with a number. -/
abbrev Apply := Nat → List Value → Run Value

/-- The items of the sequence that an argument is. -/
def sequence (args : List Value) : Run (List Value) := argAs Store.items args 0

/-- The numbers in the sequence that an argument is. -/
def numbers (args : List Value) : Run (List Number) := do
  let vs ← sequence args
  look fun s => vs.mapM s.asNumber

/-- The items for which a function holds. -/
def filterItems (apply : Apply) (f : Nat) : List Value → Run (List Value)
  | [] => pure []
  | v :: vs => do
    let result ← apply f [v]
    let keep ← look (·.asBool result)
    let rest ← filterItems apply f vs
    pure (if keep then v :: rest else rest)

/-- The items of a sequence for which a condition holds, if there is one. -/
def matching (apply : Apply) (args : List Value) : Run (List Value) := do
  let vs ← sequence args
  match args[1]? with
  | none => pure vs
  | some v => do filterItems apply (← look (·.asFunction v)) vs

/-- The results of a function for items. -/
def mapItems (apply : Apply) (f : Nat) : List Value → Run (List Value)
  | [] => pure []
  | v :: vs => do
    let w ← apply f [v]
    pure (w :: (← mapItems apply f vs))

/-- The sum of a function over items, added to a number. -/
def sumItems (apply : Apply) (f : Nat) : Float → List Value → Run Float
  | x, [] => pure x
  | x, v :: vs => do
    let w ← apply f [v]
    sumItems apply f (x + (← look (·.asDouble w))) vs

/-- So many whole numbers from one on. -/
def range (start count : Int) : Except Fault (List Value) :=
  if count < 0 then throw .negativeCount
  else pure ((List.range count.toNat).map fun (i : Nat) => .number (.int (start + i)))

end Sequences

end Scriptlet

import Mathlib.Data.Set.Basic
import Scriptlet.Evaluation.Evaluate
import Scriptlet.Expr.Traversal
import Scriptlet.Reading.Loop

/-!
# Where the jumps of an expression lead

The jumps of an expression are contained in a set of labels (`Expr.Contained`) if each of them
leads to one of those, to a label of a loop around it, or to a label that stands in a block
around it. The body of a lambda is on its own: no jump may lead out of it.

Nodes that are neither blocks, loops, jumps nor lambdas are contained if their parts are.
-/

namespace Scriptlet

namespace Expr

/-- Whether a node has to do with jumps, or is a lambda. -/
def isTurning : Expr → Bool
  | block .. | loop .. | jump .. | lambda .. => true
  | _ => false

/-- The labels that stand among statements. -/
def labelsIn (body : List Expr) : Set Nat := {id | some id ∈ body.map Machine.labelOf}

/-- The labels that a loop takes up jumps to. -/
def loopLabels (b : Label) (c : Option Label) : Set Nat := {id | id = b.id ∨ some id = c.map (·.id)}

/-- All jumps within an expression lead to labels of a set, or of loops and blocks within it. -/
inductive Contained : Set Nat → Expr → Prop
  | node {L : Set Nat} {e : Expr} : e.isTurning = false → (∀ c ∈ e.children, Contained L c) →
      Contained L e
  | block {L : Set Nat} {locals : List Variable} {body : List Expr} {t : Ty} :
      (∀ e ∈ body, Contained (L ∪ labelsIn body) e) → Contained L (block locals body t)
  | loop {L : Set Nat} {body : Expr} {b : Label} {c : Option Label} :
      Contained (L ∪ loopLabels b c) body → Contained L (loop body b c)
  | jump {L : Set Nat} {kind : JumpKind} {target : Label} {value : Option Expr} : target.id ∈ L →
      (∀ e ∈ value, Contained L e) → Contained L (jump kind target value)
  | lambda {L : Set Nat} {params : List Variable} {body : Expr} {ret : Ty} : Contained ∅ body →
      Contained L (lambda params body ret)

variable {L L' : Set Nat} {e : Expr}

theorem Contained.mono (h : e.Contained L) (hL : L ⊆ L') : e.Contained L' := by
  induction h generalizing L' with
  | node hturning _ ih => exact .node hturning fun c hc => ih c hc hL
  | block _ ih => exact .block fun e he => ih e he (Set.union_subset_union_left _ hL)
  | loop _ ih => exact .loop (ih (Set.union_subset_union_left _ hL))
  | jump htarget _ ih => exact .jump (hL htarget) fun e he => ih e he hL
  | lambda h _ => exact .lambda h

/-- Within a node, jumps lead where those of the node do. -/
theorem Contained.child (h : e.Contained L) (he : e.isTurning = false) {c : Expr}
    (hc : c ∈ e.children) : c.Contained L := by
  cases h with
  | node _ h => exact h c hc
  | _ => cases he

theorem mem_labelsIn {target : Label} {value : Option Expr} {es : List Expr}
    (h : labelAt target value ∈ es) : target.id ∈ labelsIn es :=
  List.mem_map_of_mem (f := Machine.labelOf) h

end Expr

end Scriptlet

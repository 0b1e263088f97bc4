import Scriptlet.Catalog.Library
import Scriptlet.Proofs.Code.Evaluation

/-!
# What templates come to

The parts of a template are put into an array, whose items the library joins. So a template is
a string, in which the texts of the values of its parts follow each other, and a missing value
has no text (`Machine.evaluate_concatenation`, `Store.display_null`). A part of type `string`
that is the only one stands for itself, and then the template may be missing.
-/

namespace Scriptlet

namespace Machine

open Evaluation

variable {m : Machine} {site : Site} {s s₁ s₂ : Store} {parts : List Expr} {vs : List Value}

/-- The method that joins the parts of templates. -/
def concatenation : Method :=
  Library.static "Concat" [Library.rest "args" (.arrayOf .object)] .string .concat

/-- The texts of the values of the parts are joined in their order. -/
theorem evaluate_concatenation (targs : List Ty) (t : Ty)
    (h : m.evaluateAll (fun _ v => Run.ofFault (v.convertTo .object)) 0 parts site s = .ok vs s₁)
    (hs : s₂ = (s₁.newArray ⟨.object, [vs.length], vs⟩).2) :
    m.evaluate (.call concatenation none [.arrayOfItems .object parts] targs t) site s =
      .ok (.string (String.join (vs.map s₂.display))) s₂ := by
  have hitems : (s₂.array s₁.arrays.size).items = vs := by
    simp [hs, Store.newArray, Store.array]
  have hnone : m.evaluateOption none site s = .ok none s := by
    rw [evaluateOption]
    rfl
  have harray : m.evaluate (.arrayOfItems .object parts) site s =
      .ok (.array s₁.arrays.size) s₂ := by
    rw [evaluate, bind_of_ok _ h, hs]
    rfl
  have hargs : m.evaluateAll (takeArgument concatenation 1) 0 [.arrayOfItems .object parts] site s =
      .ok [.array s₁.arrays.size] s₂ := by
    rw [evaluateAll, bind_of_ok _ harray]
    rfl
  have hcall : m.callMethod concatenation [.array s₁.arrays.size] s₂ = .ok (.string (String.join
      ((s₂.array s₁.arrays.size).items.map s₂.display))) s₂ := rfl
  rw [hitems] at hcall
  rw [evaluate, bind_of_ok _ hnone]
  dsimp only [List.length_singleton]
  rw [bind_of_ok _ hargs, ofRun_of_ok site hcall]

end Machine

/-- A missing value has no text. -/
theorem Store.display_null (s : Store) : s.display .null = "" := rfl

end Scriptlet

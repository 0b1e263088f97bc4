import Scriptlet.Engine
import Scriptlet.Proofs.Code.Basic
import Scriptlet.Proofs.Evaluation.Jumps
import Scriptlet.Proofs.Reading.ProgramTraits

/-!
# Structured jumps do not escape

A program without `goto` jumps by `break`, `continue` and `return` only, and each of these leads
to a label that is in its place: of a loop or behind a switch around it, or at the end of the
body of its lambda. So the jumps of a program that is read, and of each lambda in it, are
contained (`contained_of_parse`), and no call of them is left by a jump
(`Lambda.invoke_structured`).
-/

namespace Scriptlet

/-- The lambdas within a contained expression are contained on their own. -/
theorem Expr.Contained.lambda_body {L : Set Nat} {e : Expr} (h : e.Contained L) {l : Lambda}
    (hl : l.toExpr ∈ e.subexpressions) : l.body.Contained ∅ := by
  induction h with
  | node hturning _ ih =>
    rcases Expr.mem_subexpressions.1 hl with rfl | ⟨c, hc, hl⟩
    · cases hturning
    · exact ih c hc hl
  | block _ ih =>
    rcases Expr.mem_subexpressions.1 hl with heq | ⟨c, hc, hl⟩
    · cases heq
    · exact ih c hc hl
  | loop _ ih =>
    rcases Expr.mem_subexpressions.1 hl with heq | ⟨c, hc, hl⟩
    · cases heq
    · exact ih (List.mem_singleton.1 hc ▸ hl)
  | jump _ _ ih =>
    rcases Expr.mem_subexpressions.1 hl with heq | ⟨c, hc, hl⟩
    · cases heq
    · exact ih c (Option.mem_toList.1 hc) hl
  | lambda h ih =>
    rcases Expr.mem_subexpressions.1 hl with heq | ⟨c, hc, hl⟩
    · cases heq
      exact h
    · exact ih (List.mem_singleton.1 hc ▸ hl)

/-- However a program is called that was read from a text without `goto`, no jump is left over in
    its body, nor in that of a lambda in it, in whatever frame and with whatever arguments it is
    called. The functions that the program makes are such lambdas again. -/
theorem Lambda.invoke_structured {d : Directory} {o : Options} {first next : Nat} {source : String}
    {l : Lambda} (hgoto : (Cursor.ofSource source.toList 0).Lacks "goto")
    (h : parse d o first source = .ok (l, next)) (host : Host)
    (hcall : ∀ name args, Run.IsOrderly (host.call name args))
    (hget : ∀ name v, Run.IsOrderly (host.get name v)) (rounds depth : Nat) (args : List Value)
    {s : Store} (hs : s.IsContained) :
    (∀ label s', l.invoke (.ofDepth d host rounds depth) args s ≠
      .error (.error (.fault (.escapedJump label))) s') ∧
    (∀ f : FunctionData, f.lambda.toExpr ∈ l.body.subexpressions → ∀ args label s',
      (Machine.ofDepth d host rounds depth).call f args s ≠
        .error (.error (.fault (.escapedJump label))) s') ∧
    ∀ v s', l.invoke (.ofDepth d host rounds depth) args s = .ok v s' → s'.IsContained := by
  have hbody := contained_of_parse hgoto h
  have hm := Machine.orderly_ofDepth (d := d) hcall hget rounds depth
  have horderly {r : Run Value} (hr : r.IsOrderly) (label : Nat) (s' : Store) :
      r s ≠ .error (.error (.fault (.escapedJump label))) s' := by
    intro hescaped
    have hends := hr s hs
    rw [hescaped] at hends
    exact hends.1 label rfl
  have hinvoke := Lambda.orderly_invoke hm hbody args
  refine ⟨horderly hinvoke, fun f hf args => ?_, fun v s' hv => ?_⟩
  · exact horderly (Machine.orderly_call hm (hbody.lambda_body hf) args)
  · have hends := hinvoke s hs
    rw [hv] at hends
    exact hends.2

/-- A loop in a lambda in a loop: each has its own `break`, and the lambda its own `return`. -/
theorem Lambda.invoke_structured_nested :
    ∃ source, source = "(int n) => \x7b while (true) \x7b Func<int, int> f = k => \x7b
        while (true) \x7b if (k > n) break; k++; \x7d return k; \x7d;
        if (f(0) > n) break; \x7d return n; \x7d" ∧
      ∃ l next, parse (Engine.directory {}) {} 1 source = .ok (l, next) ∧
        (∀ args label s', l.invoke (Engine.machine {} .none) args {} ≠
          .error (.error (.fault (.escapedJump label))) s') ∧
        ∀ f : FunctionData, f.lambda.toExpr ∈ l.body.subexpressions → ∀ args label s',
          (Engine.machine {} .none).call f args {} ≠
            .error (.error (.fault (.escapedJump label))) s' := by
  refine exists_eq.imp fun source hsource => ⟨hsource, ?_⟩
  have hreads : (parse (Engine.directory {}) {} 1 source).isOk = true := by
    rw [hsource]
    decide +kernel
  have hgoto : (Cursor.ofSource source.toList 0).Lacks "goto" := by
    rw [hsource]
    exact Cursor.lacks_ofSource (by decide +kernel)
  cases hparse : parse (Engine.directory {}) {} 1 source with
  | error e =>
    rw [hparse] at hreads
    cases hreads
  | ok x =>
    have hhost (name : String) : Run.IsOrderly (Run.fault (.host name) : Run Value) :=
      Run.orderly_fault nofun
    have hstructured (args : List Value) := Lambda.invoke_structured hgoto hparse .none
      (fun name _ => hhost name) (fun name _ => hhost name) 1000000000000 1000000000 args
      (s := {}) nofun
    exact ⟨x.1, x.2, rfl, fun args => (hstructured args).1, (hstructured []).2.1⟩

end Scriptlet

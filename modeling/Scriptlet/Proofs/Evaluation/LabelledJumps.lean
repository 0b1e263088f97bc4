import Scriptlet.Engine
import Scriptlet.Proofs.Code.Evaluation
import Scriptlet.Proofs.Expr.Contained
import Scriptlet.Proofs.Reading.ProgramRuns
import Scriptlet.Proofs.Reading.Unscoped

/-!
# Where `goto` leads

The label that a `goto` leads to is found by its name. Whichever is read first, the `goto` or
the label, puts the label into the innermost scope of its place, and while that scope is entered,
also from within further scopes, the name means that label (`Scopes.label_behind`). So a `goto`
and a label of one name meet if the second of them stands within the scope of the first
(`Grammar.goto_meets_label`, `Grammar.label_meets_goto`); and a block in which the label stands
goes on behind it when a jump leads there (`Machine.passAll_goto`).

A scope that is left takes its labels along. So a `goto` in front of its label does not meet it
from within a scope of its own (`Scopes.label_forgotten`): that jump is left over
(`Engine.goto_out_of_scope`).
-/

namespace Scriptlet

/-! ## Names of labels -/

namespace Scopes

variable {s t : Scopes} {name : String}

/-- The scopes at a place behind another one, within the innermost scope of that one. -/
inductive Behind (s : Scopes) : Scopes → Prop
  | here : Behind s s
  | read {t u : Scopes} : Behind s t → t.Keeps u → Behind s u
  | enter {t : Scopes} {scope : Scope} : Behind s t → scope.labels = [] → Behind s (t.enter scope)

theorem label_of_seen {l : Label} (h : s.label? name = some l) : s.label name = (l, s) := by
  unfold label
  rw [show s.entered.findSome? (·.label? name) = some l from h]

/-- A name that has been looked up has been seen. -/
theorem label?_label (hs : s.entered ≠ []) :
    (s.label name).2.label? name = some (s.label name).1 := by
  cases hname : s.label? name with
  | some l =>
    rw [label_of_seen hname]
    exact hname
  | none =>
    obtain ⟨scope, outer, hentered⟩ := List.exists_cons_of_ne_nil hs
    have hscope : scope.label? name = none :=
      List.findSome?_eq_none_iff.1 hname scope (by rw [hentered]; exact List.mem_cons_self)
    unfold label
    rw [show s.entered.findSome? (·.label? name) = none from hname]
    dsimp only [freshLabel]
    rw [hentered]
    unfold label? Scope.label? at *
    rw [List.findSome?_cons, List.find?_append, hscope]
    simp

theorem Behind.label? {l : Label} (h : s.Behind t) (hl : s.label? name = some l) :
    t.label? name = some l := by
  induction h with
  | here => exact hl
  | read _ hkeeps ih => exact hkeeps.label? ih
  | enter _ hscope ih =>
    refine (List.findSome?_cons).trans ?_
    rw [Scope.label?, hscope]
    exact ih

/-- Behind the place where a name of a label is first read, it means the same label. -/
theorem label_behind (hs : s.entered ≠ []) (h : (s.label name).2.Behind t) :
    t.label name = ((s.label name).1, t) :=
  label_of_seen (h.label? (label?_label hs))

theorem label_of_new (h : s.label? name = none) : (s.label name).1 = ⟨s.next, name⟩ := by
  unfold label
  rw [show s.entered.findSome? (·.label? name) = none from h]
  dsimp only [freshLabel]
  cases s.entered <;> rfl

theorem next_label_of_new (h : s.label? name = none) : (s.label name).2.next = s.next + 1 := by
  unfold label
  rw [show s.entered.findSome? (·.label? name) = none from h]
  dsimp only [freshLabel]
  cases s.entered <;> rfl

/-- When a scope is left, a name that was first read in it does not mean its label any more. -/
theorem label_forgotten {scope : Scope} (hscope : scope.labels = []) (hname : s.label? name = none)
    (hkeeps : ((s.enter scope).label name).2.Keeps t)
    (hnext : ((s.enter scope).label name).2.next ≤ t.next) :
    (t.leave.2.label name).1 ≠ ((s.enter scope).label name).1 := by
  have hnew : (s.enter scope).label? name = none := by
    refine (List.findSome?_cons).trans ?_
    rw [Scope.label?, hscope]
    exact hname
  have hseen : ((s.enter scope).label name).2.label? name = some ((s.enter scope).label name).1 :=
    label?_label (List.cons_ne_nil _ _)
  obtain ⟨scope', hentered⟩ : ∃ scope', ((s.enter scope).label name).2.entered =
      scope' :: s.entered := by
    unfold label
    rw [show (s.enter scope).entered.findSome? (·.label? name) = none from hnew]
    exact ⟨_, rfl⟩
  -- in the scopes around nothing has been added for the name, as it had been seen
  obtain ⟨scope'', outer, hlabels, ht⟩ : ∃ scope'' outer,
      List.Forall₂ (Labelled (· ≠ name)) s.entered outer ∧ t.entered = scope'' :: outer := by
    have hall := hkeeps.labels
    rw [hentered] at hall
    obtain ⟨scope'', outer, -, houter, ht⟩ := List.forall₂_cons_left_iff.1 hall
    refine ⟨scope'', outer, houter.imp ?_, ht⟩
    rintro _ _ ⟨labels, hlabels, hnames⟩
    refine ⟨labels, hlabels, fun l hl hsame => ?_⟩
    have hnone := hnames l hl
    rw [hsame, hseen] at hnone
    cases hnone
  have hleft : t.leave.2.label? name = none := by
    change t.entered.tail.findSome? (·.label? name) = none
    rw [ht, List.tail_cons, findSome?_of_labelled hlabels]
    exact hname
  have hlater : s.next < t.next := by
    rw [next_label_of_new hnew] at hnext
    exact hnext
  rw [label_of_new hleft, label_of_new hnew]
  intro heq
  exact absurd (congrArg Label.id heq) (Nat.ne_of_gt hlater)

end Scopes

/-! ## Reading -/

namespace Grammar

open Reading

variable {g : Grammar} {p p₁ q q₁ : Position} {t u : Token}

theorem gotoRest_ok (h : identifier p = .ok t p₁) :
    gotoRest p = .ok (.jump .goto (p₁.scopes.label t.word).1 none)
      { p₁ with scopes := (p₁.scopes.label t.word).2 } :=
  (bind_ok h).trans rfl

/-- A statement that is a label. -/
theorem anyStatement_label (h : labelName p = .ok (some t) p₁) :
    g.anyStatement p = .ok (.labelAt (p₁.scopes.label t.word).1 none)
      { p₁ with scopes := (p₁.scopes.label t.word).2 } := by
  obtain ⟨next, p', hpeek, hrest⟩ := exists_of_bind h
  obtain rfl : p' = p := by rw [← stop_ok hpeek, stop_peek]
  have hnext : next.is ";" = false := by
    split at hrest
    · rename_i hidentifier
      cases hkind : next.kind <;> rw [hkind] at hidentifier <;>
        first | cases hidentifier; done | simp [Token.is, hkind, TokenKind.isSymbol, TokenKind.isKeyword]
    · cases hrest
  unfold anyStatement
  rw [bind_ok hpeek, hnext, if_neg Bool.false_ne_true, bind_ok h]
  rfl

theorem scopes_labelName (h : labelName p = .ok (some t) p₁) : p₁.scopes = p.scopes := by
  rw [← stop_ok h, Plain.unscoped p]

/-- A `goto` meets the label of its name that stands behind it within its scope. -/
theorem goto_meets_label (hgoto : identifier p = .ok t p₁) (hp : p₁.scopes.entered ≠ [])
    (hbehind : (p₁.scopes.label t.word).2.Behind q.scopes)
    (hlabel : labelName q = .ok (some u) q₁) (hname : u.word = t.word) :
    ∃ l p₂ q₂, gotoRest p = .ok (.jump .goto l none) p₂ ∧
      g.anyStatement q = .ok (.labelAt l none) q₂ := by
  have hstatement := anyStatement_label (g := g) hlabel
  rw [scopes_labelName hlabel, hname, Scopes.label_behind hp hbehind] at hstatement
  exact ⟨_, _, _, gotoRest_ok hgoto, hstatement⟩

/-- A `goto` meets the label of its name that stands in front of it, if it is within the scope of
    the label, in whatever further scopes. -/
theorem label_meets_goto (hlabel : labelName q = .ok (some u) q₁) (hq : q.scopes.entered ≠ [])
    (hbehind : (q.scopes.label u.word).2.Behind p₁.scopes) (hgoto : identifier p = .ok t p₁)
    (hname : t.word = u.word) :
    ∃ l p₂ q₂, g.anyStatement q = .ok (.labelAt l none) q₂ ∧
      gotoRest p = .ok (.jump .goto l none) p₂ := by
  have hstatement := anyStatement_label (g := g) hlabel
  rw [scopes_labelName hlabel] at hstatement
  have hjump := gotoRest_ok hgoto
  rw [hname, Scopes.label_behind hq hbehind] at hjump
  exact ⟨_, _, _, hstatement, hjump⟩

end Grammar

/-! ## Running -/

namespace Machine

open Evaluation

variable {m : Machine}

/-- The statements behind the only label of its name in a block. -/
theorem behind?_statements {front back : List Expr} {l : Label} {v : Option Expr}
    (hfront : l.id ∉ Expr.labelsIn front) :
    behind? l.id (m.statements (front ++ .labelAt l v :: back)) = some (m.statements back) := by
  induction front with
  | nil => exact if_pos rfl
  | cons e front ih =>
    have he : labelOf e ≠ some l.id := fun h => hfront (List.mem_cons.2 (.inl h.symm))
    refine (if_neg he).trans (ih fun h => hfront (List.mem_cons_of_mem _ h))

/-- When a statement of a block jumps to a label of the block, from however deep within, the block
    goes on with the statements behind the label. -/
theorem passAll_goto {front back rest : List Expr} {l : Label} {v : Option Expr} {e : Expr}
    (hfront : l.id ∉ Expr.labelsIn front) {site : Site} {s s' : Store} {value : Option Value}
    (he : m.evaluate e site s = .error (.jump l.id value) s') (rounds : Nat) (last : Value) :
    passAll (m.statements (front ++ .labelAt l v :: back)) (rounds + 1) (m.statements (e :: rest))
        last site s =
      passAll (m.statements (front ++ .labelAt l v :: back)) rounds (m.statements back)
        (value.getD .null) site s' := by
  have hpass : pass (m.statements (front ++ .labelAt l v :: back)) (m.statements (e :: rest)) last
      site s = .ok (.jumped (m.statements back) (value.getD .null)) s' := by
    simp only [statements, Evaluation.pass, he]
    rw [behind?_statements hfront]
  change EStateM.bind (pass _ (m.statements (e :: rest)) last site) _ s = _
  rw [EStateM.bind, hpass]

end Machine

/-! ## A jump that is left over -/

/-- A `goto` in front of its label, from within a scope of its own, does not lead there. -/
theorem Engine.goto_out_of_scope :
    (do
      let l ← ({} : Engine).parseAlone
        "() => \x7b int x = 0; if (x == 0) \x7b goto L; \x7d x = 1; L: return x; \x7d"
      let _ ← (l.invoke (Engine.machine {} .none) []).outcome {}) =
      (.error (.error (.fault (.escapedJump 3))) : Except Halt Unit) := by
  decide +kernel

end Scriptlet

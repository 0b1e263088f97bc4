import Scriptlet.Engine
import Scriptlet.Proofs.Simplification.Towers

/-!
# Simplifying keeps side effects

Expressions that count on and assign `int` variables, and compute with them by sums,
differences, products and negatives (`Counting`), leave every variable with the same value
when they are simplified (`lookup_simplify`), if

* no factor with side effects is dropped next to a zero, and operands whose order is
  exchanged do not change what the other one uses (`Expr.OrderlyWithin`), and
* there are not too many literals, so that their sums are exact in floating point.

Without that they need not (`simplify_changes_variables`).
-/

namespace Scriptlet

variable {s : Store} {v : Variable} {Γ : List Nat}

/-- Expressions with side effects on `int` variables. A name stands for one variable. -/
inductive Counting (ν : String → Nat) : Expr → Prop
  | literal (x : BitVec 32) : Counting ν (.number (.integral .int x))
  | read {v : Variable} : v.type = .int → v.id = ν v.name → Counting ν (.parameter v)
  | count {op : UnaryOp} {v : Variable} : op.isMutation → v.type = .int → v.id = ν v.name →
      Counting ν (.unary op (.parameter v) .int)
  | assign {v : Variable} {e : Expr} : v.type = .int → v.id = ν v.name → Counting ν e →
      Counting ν (.assign (.parameter v) e .int)
  | negate {e : Expr} : Counting ν e → Counting ν (.unary .negate e .int)
  | binary {op : BinaryOp} {l r : Expr} : op ∈ [BinaryOp.add, .subtract, .multiply] →
      Counting ν l → Counting ν r → Counting ν (.binary op l r .int)

namespace Counting

open Simplifier Expr

variable {ν : String → Nat} {e : Expr}

theorem mentioned_of_child {c : Expr} (hc : c ∈ e.children) : c.mentioned ⊆ e.mentioned :=
  fun _ hid => mem_mentioned.2 (.inr ⟨c, hc, hid⟩)

theorem code (h : Counting ν e) : Code ν e.mentioned e := by
  induction h with
  | literal x => exact .number (Number.isExact_int x)
  | read ht hν => exact .read ht hν (mem_mentioned.2 (.inl rfl))
  | @count op v hop ht hν =>
    refine .count hop ht hν (mem_mentioned.2 (.inl ?_))
    rw [usedHere, changedHere, if_pos hop]
    rfl
  | assign ht hν _ ih =>
    exact .assign ht hν (mem_mentioned.2 (.inl rfl))
      (ih.weaken (mentioned_of_child (by simp [children])))
  | negate _ ih => exact .negate (ih.weaken (mentioned_of_child (by simp [children])))
  | @binary op l r hop _ _ ihl ihr =>
    have hmodular : op.isModular := by
      revert op
      decide
    exact .binary hmodular (ihl.weaken (mentioned_of_child (by simp [children])))
      (ihr.weaken (mentioned_of_child (by simp [children])))

/-- Constants come from literals only. -/
theorem mass_le (h : Counting ν e) : e.mass ≤ 2 ^ 31 * e.literals := by
  induction h with
  | literal x => exact mass_int x
  | read _ _ => exact Nat.zero_le _
  | @count op v hop _ _ => cases op <;> first | exact Nat.zero_le _ | cases hop
  | @assign v e _ _ _ ih =>
    have htarget : (Expr.parameter v).mass = 0 := rfl
    rw [mass_eq, literals_eq]
    simp only [children, ownHeft, isConstant, constant?, List.map_cons, List.map_nil,
      List.sum_cons, List.sum_nil, Option.isSome_none, Bool.false_eq_true, if_false]
    omega
  | negate _ ih =>
    rw [mass_eq, literals_eq]
    simpa [children, ownHeft, isConstant, constant?] using ih
  | binary _ _ _ ihl ihr =>
    rw [mass_eq, literals_eq]
    simp only [children, ownHeft, isConstant, constant?, List.map_cons, List.map_nil,
      List.sum_cons, List.sum_nil, Option.isSome_none, Bool.false_eq_true, if_false]
    omega

theorem tallSum (h : Counting ν e) : Counting ν (tallSum e) :=
  .binary (by decide) (tower_induction h (fun _ _ hl hr => .binary (by decide) hl hr) 53) h

end Counting

theorem Value.ofBits_ne {x y : BitVec 32} (h : x ≠ y) :
    (Except.ok (.ofBits x) : Except Fault Value) ≠ .ok (.ofBits y) :=
  Value.ok_number_ne (k := .int) h

/-- Two stores that came of one, and in which some variables have the same values, have the
    same values in all variables. -/
theorem Advances.lookup_eq {s₁ s₂ : Store} {f : Nat} {ρ : Env}
    (h₁ : Advances f Γ s s₁) (h₂ : Advances f Γ s s₂) (hs₁ : Sees s₁ f Γ ρ) (hs₂ : Sees s₂ f Γ ρ)
    {g : Nat} (hv : (s.holder? g v.id).isSome) : s₂.lookup g v = s₁.lookup g v := by
  obtain ⟨r, hr⟩ := Option.isSome_iff_exists.1 hv
  rw [Store.lookup_of_holder? (h₁.found hr), Store.lookup_of_holder? (h₂.found hr)]
  by_cases hin : v.id ∈ Γ ∧ s.holder? f v.id = some r
  · -- a variable that the code may have changed
    obtain ⟨r₁, hr₁, hslot₁⟩ := hs₁ v.id hin.1
    obtain ⟨r₂, hr₂, hslot₂⟩ := hs₂ v.id hin.1
    rw [h₁.found hin.2, Option.some.injEq] at hr₁
    rw [h₂.found hin.2, Option.some.injEq] at hr₂
    rw [hr₁, hslot₁, ← hr₁, hr₂, hslot₂]
  · rw [h₁.kept (Store.slot_of_holder hr) hin, h₂.kept (Store.slot_of_holder hr) hin]

/-- Simplifying leaves all variables with the values that they would have had, and the
    expression with its value. -/
theorem lookup_simplify (catalog : Catalog) (m : Machine) {ν : String → Nat} {e e' : Expr}
    (he : Counting ν e) (hcount : e.literals ≤ 2 ^ 22)
    (horder : e.OrderlyWithin (.standard catalog) Simplifier.depth)
    (hs : (Simplifier.standard catalog).simplify e = .ok e') (site : Site) (s : Store)
    (henv : ∀ id ∈ e.mentioned, ∃ r x, s.holder? site.frame id = some r ∧
      s.slot? r id = some (.ofBits x)) :
    ∃ v v' s₁ s₂, m.evaluate e site s = .ok v s₁ ∧ m.evaluate e' site s = .ok v' s₂ ∧
      v'.convertTo .int = v.convertTo .int ∧
      ∀ frame (w : Variable), (s.holder? frame w.id).isSome →
        s₂.lookup frame w = s₁.lookup frame w := by
  have hmass : e.mass ≤ 2 ^ 53 := he.mass_le.trans (by omega)
  obtain ⟨hsettled, -⟩ := he.code.settledWithin horder hmass
  have hsimple := he.code.simplified hsettled hs
  -- the environment that the store shows
  classical
  choose! r x hr hx using henv
  have hsees : Sees s site.frame e.mentioned x := fun id hid => ⟨r id, hr id hid, hx id hid⟩
  obtain ⟨v, s₁, hv, hshows, hsees₁, hadvances₁⟩ :=
    he.code.tracks m site s x hsees
  obtain ⟨v', s₂, hv', hshows', hsees₂, hadvances₂⟩ :=
    hsimple.code.tracks m site s x hsees
  rw [hsimple.meaning] at hshows' hsees₂
  refine ⟨v, v', s₁, s₂, hv, hv', by rw [hshows.convertTo, hshows'.convertTo], ?_⟩
  exact fun frame w hw => hadvances₁.lookup_eq hadvances₂ hsees₁ hsees₂ hw

/-- A store with one frame that has two variables. -/
def twoVariables : Store :=
  (({} : Store).newFrame ⟨[(1, .ofBits 10), (2, .ofBits 7)], none⟩).2

/-- The names of the two variables. -/
def twoNames (name : String) : Nat := if name = "x" then 1 else 2

/-- The negative of a difference, `-(x - y++)`. -/
def countedDifference : Expr :=
  .unary .negate (.binary .subtract (.parameter ⟨1, "x", .int⟩)
    (.unary .postIncrement (.parameter ⟨2, "y", .int⟩) .int) .int) .int

/-- The operands of the difference are exchanged. -/
theorem lookup_simplify_exchanged :
    ∃ v v' s₁ s₂,
      (({} : Engine).machine .none).evaluate countedDifference ⟨0, []⟩ twoVariables = .ok v s₁ ∧
      (({} : Engine).machine .none).evaluate
        (.binary .subtract (.unary .postIncrement (.parameter ⟨2, "y", .int⟩) .int)
          (.parameter ⟨1, "x", .int⟩) .int)
        ⟨0, []⟩ twoVariables = .ok v' s₂ ∧
      v'.convertTo .int = v.convertTo .int ∧
      ∀ frame (w : Variable), (twoVariables.holder? frame w.id).isSome →
        s₂.lookup frame w = s₁.lookup frame w := by
  have horder : countedDifference.OrderlyWithin (.standard .standard) Simplifier.depth := by
    have hparts : countedDifference.subexpressions = [countedDifference,
        .binary .subtract (.parameter ⟨1, "x", .int⟩)
          (.unary .postIncrement (.parameter ⟨2, "y", .int⟩) .int) .int,
        .parameter ⟨1, "x", .int⟩, .unary .postIncrement (.parameter ⟨2, "y", .int⟩) .int,
        .parameter ⟨2, "y", .int⟩] := rfl
    have hsettled : ∀ x ∈ countedDifference.subexpressions, x.mapChildrenM
        ((Simplifier.standard .standard).simplifyWithin Simplifier.depth) = .ok x ∧ x.Orderly := by
      rw [hparts]
      simp only [List.forall_mem_cons]
      refine ⟨⟨?_, ?_⟩, ⟨rfl, ?_⟩, ⟨rfl, ?_⟩, ⟨rfl, ?_⟩, ⟨rfl, ?_⟩, List.forall_mem_nil _⟩
      · with_unfolding_all rfl
      · exact ⟨fun a b h => by cases h; decide, fun a h => by cases h⟩
      all_goals exact ⟨fun a b h => (by cases h), fun a h => (by cases h)⟩
    intro x hx x' hx'
    obtain ⟨hsame, horderly⟩ := hsettled x hx
    cases hsame.symm.trans hx'
    exact horderly
  refine lookup_simplify .standard _ (ν := twoNames) ?_ (by decide) horder ?_ _ _ ?_
  · exact .negate (.binary (by decide) (.read rfl rfl) (.count rfl rfl rfl))
  · with_unfolding_all rfl
  · have hids : countedDifference.mentioned = [1, 2, 2] := rfl
    intro id hid
    rw [hids] at hid
    simp only [List.mem_cons, List.not_mem_nil, or_false, or_self] at hid
    rcases hid with rfl | rfl
    · exact ⟨0, 10, rfl, rfl⟩
    · exact ⟨0, 7, rfl, rfl⟩

/-! ## Where the variables differ -/

/-- An expression that leaves a variable with another value once it is simplified. -/
def Expr.Unsettles (v : Variable) (e : Expr) : Prop :=
  Counting twoNames e ∧ ∃ e' w w' s₁ s₂, (Simplifier.standard .standard).simplify e = .ok e' ∧
    (({} : Engine).machine .none).evaluate e ⟨0, []⟩ twoVariables = .ok w s₁ ∧
    (({} : Engine).machine .none).evaluate e' ⟨0, []⟩ twoVariables = .ok w' s₂ ∧
    s₂.lookup 0 v ≠ s₁.lookup 0 v

/-- A factor with a side effect, next to a zero. -/
def countedFactor : Expr :=
  .binary .multiply (.unary .postIncrement (.parameter ⟨1, "x", .int⟩) .int)
    (.number (.integral .int 0)) .int

/-- Two assignments, of which the first is negated. -/
def assignedTwice : Expr :=
  .binary .add
    (.unary .negate (.assign (.parameter ⟨1, "x", .int⟩) (.number (.integral .int 1)) .int) .int)
    (.assign (.parameter ⟨1, "x", .int⟩) (.number (.integral .int 2)) .int) .int

/-- The assignment of a sum that is too great to be exact in floating point. -/
def assignedSum : Expr :=
  .assign (.parameter ⟨1, "x", .int⟩) (tallSum (.number (.integral .int 1))) .int

section Towers

open Simplifier

theorem counting_assignedSum : Counting twoNames assignedSum := by
  have hsum : Counting twoNames (tallSum (.number (.integral .int 1))) :=
    (Counting.literal 1).tallSum
  exact .assign rfl rfl hsum

theorem simplify_assignedSum :
    (standard .standard).simplify assignedSum =
      .ok (.assign (.parameter ⟨1, "x", .int⟩) (.number (.ofInt .long (1 * 2 ^ 53))) .int) := by
  have hbase : (standard .standard).simplifyWithin Simplifier.depth (.number (.integral .int 1)) =
      .ok (.number (.integral .int 1)) := rfl
  have hsum := simplifyWithin_tallSum (n := 999999) rfl rfl (.inl rfl) hbase
  have hparts : assignedSum.mapChildrenM ((standard .standard).simplifyWithin Simplifier.depth) =
      .ok (.assign (.parameter ⟨1, "x", .int⟩) (.number (.ofInt .long (1 * 2 ^ 53))) .int) :=
    Expr.mapChildrenM_eq_ok (.cons rfl (.cons hsum .nil)) rfl
  exact simplifyWithin_eq hparts

/-- Wrapping around, the sum comes to one. -/
theorem lookup_assignedSum (m : Machine) :
    ∃ w s, m.evaluate assignedSum ⟨0, []⟩ twoVariables = .ok w s ∧
      s.lookup 0 ⟨1, "x", .int⟩ = .ok (.ofBits 1) := by
  have hsees : Sees twoVariables 0 [1] (fun _ => 10) := by
    intro id hid
    obtain rfl := List.mem_singleton.1 hid
    exact ⟨0, rfl, rfl⟩
  have hone : Code twoNames [1] (.number (.integral .int 1)) :=
    .number (Number.isExact_int 1)
  have hadd : ∀ l r, Code twoNames [1] l → Code twoNames [1] r →
      Code twoNames [1] (.binary .add l r .int) := fun l r hl hr => .binary rfl hl hr
  have hsum : Code twoNames [1] (tallSum (.number (.integral .int 1))) :=
    hadd _ _ (tower_induction hone hadd 53) hone
  have hcode : Code twoNames [1] assignedSum :=
    .assign rfl rfl (List.mem_singleton_self 1) hsum
  obtain ⟨w, s, hw, -, hs, -⟩ := hcode.tracks m ⟨0, []⟩ _ _ hsees
  refine ⟨w, s, hw, ?_⟩
  have hbits : ∀ ρ, (Expr.number (.integral .int 1)).meaning ρ = (BitVec.ofInt 32 1, ρ) :=
    fun ρ => rfl
  have hvalue := meaning_tallSum hbits fun _ => 10
  rw [hs.lookup_eq (List.mem_singleton_self 1), assignedSum, Expr.meaning,
    Meaning.after, Meaning.bind_of_eq _ hvalue]
  rfl

end Towers

/-- A factor with side effects may not be dropped, operands may not be exchanged where the
    second one changes what the first one does, and sums have to be exact. -/
theorem simplify_changes_variables :
    countedFactor.Unsettles ⟨1, "x", .int⟩ ∧ assignedTwice.Unsettles ⟨1, "x", .int⟩ ∧
      assignedSum.Unsettles ⟨1, "x", .int⟩ := by
  refine ⟨⟨?_, ?_⟩, ⟨?_, ?_⟩, counting_assignedSum, ?_⟩
  · exact .binary (by decide) (.count rfl rfl rfl) (.literal 0)
  · refine ⟨.number ((Number.double 0).convert .int), .ofBits 0,
      .number ((Number.double 0).convert .int),
      twoVariables.define 0 ⟨1, "x", .int⟩ (.ofBits 11), twoVariables, ?_, ?_, rfl,
      Value.ofBits_ne (by decide)⟩
    · with_unfolding_all rfl
    · with_unfolding_all rfl
  · exact .binary (by decide) (.negate (.assign rfl rfl (.literal 1))) (.assign rfl rfl (.literal 2))
  · refine ⟨.binary .subtract
      (.assign (.parameter ⟨1, "x", .int⟩) (.number (.integral .int 2)) .int)
      (.assign (.parameter ⟨1, "x", .int⟩) (.number (.integral .int 1)) .int) .int,
      .ofBits 1, .ofBits 1,
      (twoVariables.define 0 ⟨1, "x", .int⟩ (.ofBits 1)).define 0 ⟨1, "x", .int⟩ (.ofBits 2),
      (twoVariables.define 0 ⟨1, "x", .int⟩ (.ofBits 2)).define 0 ⟨1, "x", .int⟩ (.ofBits 1),
      ?_, ?_, ?_, Value.ofBits_ne (by decide)⟩ <;> with_unfolding_all rfl
  · obtain ⟨w, s, hw, hlookup⟩ := lookup_assignedSum (({} : Engine).machine .none)
    refine ⟨_, w, .number (.ofInt .long (1 * 2 ^ 53)), s,
      twoVariables.define 0 ⟨1, "x", .int⟩ (.ofBits 0), simplify_assignedSum, hw, ?_, ?_⟩
    · with_unfolding_all rfl
    · rw [hlookup]
      exact Value.ofBits_ne (by decide)

end Scriptlet

import Scriptlet.Engine
import Scriptlet.Proofs.Simplification.Towers

/-!
# Simplifying wrapping arithmetic

Programs that compute with `int` parameters by sums, differences, products and the bitwise
operators (`Lambda.IsArithmetic`) come to the same result when they are simplified, for all
arguments (`outcome_invoke_simplify`).

Sums of constants are computed in floating point and are not brought back to `int`. That
is no harm as long as they are exact, which a bound on the number of literals and
complements sees to, and as long as only their lower bits matter. If the result of the
program is wider than `int`, more of them can be seen; and a complement makes a constant
without a literal, so that literals alone bound nothing (`simplify_changes_arithmetic`).
-/

namespace Scriptlet

namespace Expr

/-- Whether a node is a complement. -/
def isComplement : Expr → Bool
  | unary .complement _ _ => true
  | _ => false

/-- The number of complements in an expression. -/
def complements (e : Expr) : Nat := e.subexpressions.countP isComplement

theorem complements_eq (e : Expr) :
    e.complements = (e.children.map complements).sum + if e.isComplement then 1 else 0 :=
  countP_subexpressions isComplement e

theorem independent_of_isPure {a b : Expr} (ha : a.isPure) (hb : b.isPure) : a.independent b := by
  rw [independent_iff, Code.changed_of_isPure ha, Code.changed_of_isPure hb]
  exact ⟨nofun, nofun⟩

/-- Operands without side effects can be exchanged and dropped. -/
theorem orderly_of_isPure {x : Expr} (h : x.isPure) : x.Orderly := by
  constructor
  · intro a b hab
    unfold exchanged? at hab
    split at hab
    case h_5 => cases hab
    all_goals
      simp only [isPure_negate, isPure_binary, Bool.and_eq_true] at h
      try split at hab
      all_goals cases hab
    · exact independent_of_isPure h.1 h.2
    · exact independent_of_isPure h.1 h.2
    · exact independent_of_isPure h.1 h.2
    · exact independent_of_isPure h.2.1 h.2.2
  · intro a ha
    unfold dropped? at ha
    split at ha
    case h_2 => cases ha
    rw [isPure_binary, Bool.and_eq_true] at h
    split at ha
    · cases ha
      exact h.1
    · split at ha
      · cases ha
        exact h.2
      · cases ha

theorem OrderlyWithin.of_children {s : Simplifier} {n : Nat} {e : Expr}
    (hown : ∀ x', e.mapChildrenM (s.simplifyWithin n) = .ok x' → x'.Orderly)
    (h : ∀ c ∈ e.children, c.OrderlyWithin s n) : e.OrderlyWithin s n :=
  forall_subexpressions.2 ⟨hown, h⟩

end Expr

/-! ## Arithmetic over parameters -/

/-- The operators of wrapping arithmetic. -/
def BinaryOp.wrapping : List BinaryOp := [.add, .subtract, .multiply, .and, .or, .exclusiveOr]

/-- Arithmetic on `int` over some parameters. A name stands for the last parameter that has
    it. -/
inductive Arithmetic (params : List Variable) : Expr → Prop
  | literal (x : BitVec 32) : Arithmetic params (.number (.integral .int x))
  | parameter {v : Variable} : params.reverse.find? (·.name = v.name) = some v →
      Arithmetic params (.parameter v)
  | negate {e : Expr} : Arithmetic params e → Arithmetic params (.unary .negate e .int)
  | complement {e : Expr} : Arithmetic params e → Arithmetic params (.unary .complement e .int)
  | binary {op : BinaryOp} {l r : Expr} : op ∈ BinaryOp.wrapping → Arithmetic params l →
      Arithmetic params r → Arithmetic params (.binary op l r .int)

/-- A program that does arithmetic on its parameters, all of them and the result `int`. -/
structure Lambda.IsArithmetic (l : Lambda) : Prop where
  params : ∀ v ∈ l.params, v.type = .int
  body : Arithmetic l.params l.body
  ret : l.ret = .int

/-- The number of the last parameter with a name. -/
def numberOf (params : List Variable) (name : String) : Nat :=
  ((params.reverse.find? (·.name = name)).map (·.id)).getD 0

namespace Arithmetic

open Simplifier Expr

variable {params : List Variable} {e e' : Expr} {catalog : Catalog} {n : Nat}

theorem code (h : Arithmetic params e) (hparams : ∀ v ∈ params, v.type = .int) :
    Code (numberOf params) (idsOf params) e := by
  induction h with
  | literal x => exact .number (Number.isExact_int x)
  | @parameter v h =>
    have hv : v ∈ params := List.mem_reverse.1 (List.mem_of_find?_eq_some h)
    exact .read (hparams v hv) (by rw [numberOf, h]; rfl) (List.mem_map_of_mem hv)
  | negate _ ih => exact .negate ih
  | complement _ ih => exact .complement ih
  | @binary op _ _ hop _ _ ihl ihr =>
    have hmodular : op.isModular := by
      revert op
      decide
    exact .binary hmodular ihl ihr

theorem isPure (h : Arithmetic params e) : e.isPure := by
  induction h with
  | literal x => rfl
  | parameter _ => rfl
  | negate _ ih => simpa using ih
  | complement _ ih => simpa using ih
  | binary _ _ _ ihl ihr => simpa using ⟨ihl, ihr⟩

/-- Constants come from literals and complements only. -/
theorem mass_le (h : Arithmetic params e) : e.mass ≤ 2 ^ 31 * (e.literals + e.complements) := by
  induction h with
  | literal x =>
    have hmass := mass_int x
    omega
  | parameter _ =>
    rw [mass_eq]
    simp [children, ownHeft]
  | negate _ ih =>
    rw [mass_eq, literals_eq, complements_eq]
    simpa [children, ownHeft, isConstant, constant?, isComplement] using ih
  | complement _ ih =>
    rw [mass_eq, literals_eq, complements_eq]
    simp only [children, ownHeft, isConstant, constant?, isComplement, List.map_cons, List.map_nil,
      List.sum_cons, List.sum_nil, Option.isSome_none, Bool.false_eq_true, if_false, if_true]
    omega
  | binary _ _ _ ihl ihr =>
    rw [mass_eq, literals_eq, complements_eq]
    simp only [children, ownHeft, isConstant, constant?, isComplement, List.map_cons, List.map_nil,
      List.sum_cons, List.sum_nil, Option.isSome_none, Bool.false_eq_true, if_false]
    omega

/-- What a node and its parts are simplified to has no side effects, if that is so for the
    parts. -/
theorem orderlyWithin_of_parts (h : Arithmetic params e) (hparams : ∀ v ∈ params, v.type = .int)
    (hmass : e.mass ≤ 2 ^ 53)
    (hparts : ∀ c ∈ e.children, c.OrderlyWithin (standard catalog) n)
    (hown : ∀ x', e.mapChildrenM ((standard catalog).simplifyWithin n) = .ok x' → x'.isPure) :
    e.OrderlyWithin (standard catalog) n ∧
      ∀ e', (standard catalog).simplifyWithin n e = .ok e' → e'.isPure := by
  have horder := OrderlyWithin.of_children (fun x' hx => orderly_of_isPure (hown x' hx)) hparts
  refine ⟨horder, fun e' he => ?_⟩
  obtain ⟨hsettled, -⟩ := (h.code hparams).settledWithin horder hmass
  exact ((h.code hparams).simplified hsettled he).effects h.isPure

/-- Arithmetic has no side effects at any stage of its simplification. -/
theorem orderlyWithin (h : Arithmetic params e) (catalog : Catalog)
    (hparams : ∀ v ∈ params, v.type = .int) (hmass : e.mass ≤ 2 ^ 53) :
    e.OrderlyWithin (standard catalog) n ∧
      ∀ e', (standard catalog).simplifyWithin n e = .ok e' → e'.isPure := by
  induction h with
  | literal x =>
    refine orderlyWithin_of_parts (.literal x) hparams hmass nofun fun x' hx => ?_
    cases hx
    rfl
  | parameter h =>
    refine orderlyWithin_of_parts (.parameter h) hparams hmass nofun fun x' hx => ?_
    cases hx
    rfl
  | @negate e h ih =>
    have hc : e ∈ (Expr.unary .negate e .int).children := List.mem_singleton_self _
    obtain ⟨horder, hpure⟩ := ih ((mass_le_of_child hc).trans hmass)
    refine orderlyWithin_of_parts h.negate hparams hmass (by simpa [children] using horder) ?_
    intro x' hx
    obtain ⟨e', he, rfl⟩ := mapChildrenM_unary hx
    simpa using hpure e' he
  | @complement e h ih =>
    have hc : e ∈ (Expr.unary .complement e .int).children := List.mem_singleton_self _
    obtain ⟨horder, hpure⟩ := ih ((mass_le_of_child hc).trans hmass)
    refine orderlyWithin_of_parts h.complement hparams hmass (by simpa [children] using horder) ?_
    intro x' hx
    obtain ⟨e', he, rfl⟩ := mapChildrenM_unary hx
    simpa using hpure e' he
  | @binary op l r hop hl hr ihl ihr =>
    have hcl : l ∈ (Expr.binary op l r .int).children := by simp [children]
    have hcr : r ∈ (Expr.binary op l r .int).children := by simp [children]
    obtain ⟨horderl, hpurel⟩ := ihl ((mass_le_of_child hcl).trans hmass)
    obtain ⟨horderr, hpurer⟩ := ihr ((mass_le_of_child hcr).trans hmass)
    refine orderlyWithin_of_parts (.binary hop hl hr) hparams hmass
      (by simpa [children] using ⟨horderl, horderr⟩) fun x' hx => ?_
    obtain ⟨l', r', hl', hr', rfl⟩ := mapChildrenM_binary hx
    simpa using ⟨hpurel l' hl', hpurer r' hr'⟩

end Arithmetic

/-- Simplifying a program leaves its parameters and its result type alone. -/
theorem Engine.exists_of_simplify {e : Engine} {l l' : Lambda} (h : e.simplify l = .ok l') :
    ∃ body', (Simplifier.standard e.catalog).simplifyWithin Simplifier.depth l.body = .ok body' ∧
      l' = ⟨l.params, body', l.ret⟩ := by
  obtain ⟨body', hbody, h⟩ := exists_of_bind_eq_ok h
  cases h
  exact ⟨body', hbody, rfl⟩

/-- Programs that do arithmetic come to the same when they are simplified, and with one
    argument for each parameter that is a number. -/
theorem outcome_invoke_simplify (e : Engine) (m : Machine) {l l' : Lambda} (hl : l.IsArithmetic)
    (hcount : l.body.literals + l.body.complements ≤ 2 ^ 22) (h : e.simplify l = .ok l')
    (args : List (BitVec 32)) (s s' : Store) :
    Run.outcome (l'.invoke m (args.map .ofBits)) s' = Run.outcome (l.invoke m (args.map .ofBits)) s ∧
      (args.length = l.params.length →
        ∃ x, Run.outcome (l.invoke m (args.map .ofBits)) s = .ok (.ofBits x)) := by
  obtain ⟨body', hbody, rfl⟩ := Engine.exists_of_simplify h
  obtain ⟨params, body, ret⟩ := l
  obtain ⟨hparams, harith, rfl⟩ := hl
  have hmass : body.mass ≤ 2 ^ 53 := harith.mass_le.trans (by omega)
  have hcode := harith.code hparams
  obtain ⟨horder, -⟩ := harith.orderlyWithin e.catalog hparams hmass
  obtain ⟨hsettled, -⟩ := hcode.settledWithin horder hmass
  have hsimple := hcode.simplified hsettled hbody
  rw [hcode.outcome_invoke hparams, hsimple.code.outcome_invoke hparams, hsimple.meaning]
  refine ⟨rfl, fun hlen => ?_⟩
  rw [if_pos hlen]
  exact ⟨_, rfl⟩

/-- A sum, a difference and a complement with a common factor among them, simplified. -/
theorem outcome_invoke_simplify_sum :
    Run.outcome (Lambda.invoke (({} : Engine).machine .none)
        ⟨[⟨1, "x", .int⟩], .binary .subtract
          (.binary .multiply (.number (.integral .int 5)) (.parameter ⟨1, "x", .int⟩) .int)
          (.number (.integral .int (-5))) .int, .int⟩ [.ofBits 7]) {} =
      Run.outcome (Lambda.invoke (({} : Engine).machine .none)
        ⟨[⟨1, "x", .int⟩], .binary .subtract
          (.binary .add
            (.binary .multiply (.number (.integral .int 2)) (.parameter ⟨1, "x", .int⟩) .int)
            (.binary .multiply (.parameter ⟨1, "x", .int⟩) (.number (.integral .int 3)) .int) .int)
          (.unary .complement (.number (.integral .int 4)) .int) .int, .int⟩ [.ofBits 7]) {} := by
  have hx : Arithmetic [⟨1, "x", .int⟩] (.parameter ⟨1, "x", .int⟩) := .parameter (by decide)
  refine (outcome_invoke_simplify {} _ ⟨by decide, ?_, rfl⟩ ?_ ?_ [7] {} {}).1
  · exact .binary (by decide) (.binary (by decide) (.binary (by decide) (.literal 2) hx)
      (.binary (by decide) hx (.literal 3))) (.complement (.literal 4))
  · decide
  · with_unfolding_all rfl

/-! ## Where the results differ -/

/-- The sum of two constants as a `long`. -/
def wideSum : Lambda :=
  ⟨[⟨1, "x", .int⟩], .convert (.binary .add (.number (.integral .int 2147483647))
    (.number (.integral .int 1)) .int) .long, .long⟩

/-- A constant without a literal. -/
def bareConstant : Expr :=
  .unary .complement
    (.binary .subtract (.parameter ⟨1, "x", .int⟩) (.parameter ⟨1, "x", .int⟩) .int) .int

/-- A sum that has no literals and is too great to be exact in floating point. -/
def tallProgram : Lambda := ⟨[⟨1, "x", .int⟩], tallSum bareConstant, .int⟩

section Towers

open Simplifier Expr

theorem simplifyWithin_bareConstant (catalog : Catalog) (n : Nat) :
    (standard catalog).simplifyWithin (n + 3) bareConstant =
      .ok (.number (.integral .int (-1))) := by
  have hzero : (standard catalog).simplifyWithin (n + 3)
      (.binary .subtract (.parameter ⟨1, "x", .int⟩) (.parameter ⟨1, "x", .int⟩) .int) =
        .ok (.number ((Number.double 0).convert .int)) := by
    with_unfolding_all rfl
  rw [Number.convert_int, Number.low_double_zero] at hzero
  have hparts : bareConstant.mapChildrenM ((standard catalog).simplifyWithin (n + 3)) =
      .ok (.unary .complement (.number (.integral .int 0)) .int) :=
    mapChildrenM_eq_ok (.cons hzero .nil) rfl
  rw [simplifyWithin_eq hparts]
  rfl

theorem meaning_bareConstant (ρ : Env) :
    bareConstant.meaning ρ = (BitVec.ofInt 32 (-1), ρ) := by
  rw [bareConstant, meaning_complement, meaning_subtract]
  show (~~~(ρ 1 - ρ 1), ρ) = _
  rw [BitVec.sub_self]
  rfl

theorem arithmetic_tallProgram : tallProgram.IsArithmetic := by
  have hx : Arithmetic [⟨1, "x", .int⟩] (.parameter ⟨1, "x", .int⟩) := .parameter (by decide)
  have hbase : Arithmetic [⟨1, "x", .int⟩] bareConstant :=
    .complement (.binary (by decide) hx hx)
  have hadd : ∀ l r, Arithmetic [⟨1, "x", .int⟩] l → Arithmetic [⟨1, "x", .int⟩] r →
      Arithmetic [⟨1, "x", .int⟩] (.binary .add l r .int) :=
    fun l r hl hr => .binary (by decide) hl hr
  exact ⟨by decide, hadd _ _ (tower_induction hbase hadd 53) hbase, rfl⟩

theorem literals_tallProgram : tallProgram.body.literals = 0 := by
  have hbase : bareConstant.literals = 0 := by decide
  have hadd : ∀ l r : Expr, l.literals = 0 → r.literals = 0 →
      (Expr.binary .add l r .int).literals = 0 := by
    intro l r hl hr
    rw [literals_eq]
    simp [children, hl, hr, isConstant, constant?]
  exact hadd _ _ (tower_induction hbase hadd 53) hbase

theorem outcome_tallProgram (m : Machine) (s : Store) :
    Run.outcome (tallProgram.invoke m [.ofBits 1]) s = .ok (.ofBits (-1)) := by
  have harith := arithmetic_tallProgram
  have hcode := harith.body.code harith.params
  have hvalue : ∀ ρ, tallProgram.body.meaning.value ρ = -1 := by
    intro ρ
    rw [Meaning.value, tallProgram, meaning_tallSum meaning_bareConstant]
    rfl
  have houtcome := hcode.outcome_invoke harith.params (m := m) [1] s
  rw [hvalue] at houtcome
  exact houtcome.trans (if_pos rfl)

end Towers

/-- A program with a `long` result whose result changes, and one without literals. -/
theorem simplify_changes_arithmetic :
    (∃ l', ({} : Engine).simplify wideSum = .ok l' ∧
      Run.outcome (wideSum.invoke (({} : Engine).machine .none) [.ofBits 1]) {} =
        .ok (.number (.integral .long (-2147483648))) ∧
      Run.outcome (l'.invoke (({} : Engine).machine .none) [.ofBits 1]) {} =
        .ok (.number (.integral .long 2147483648))) ∧
    (∃ l', ({} : Engine).simplify tallProgram = .ok l' ∧ tallProgram.IsArithmetic ∧
      tallProgram.body.literals = 0 ∧
      Run.outcome (tallProgram.invoke (({} : Engine).machine .none) [.ofBits 1]) {} =
        .ok (.ofBits (-1)) ∧
      Run.outcome (l'.invoke (({} : Engine).machine .none) [.ofBits 1]) {} = .ok (.ofBits 0)) := by
  constructor
  · refine ⟨⟨[⟨1, "x", .int⟩], .number (.integral .long 2147483648), .long⟩, ?_, ?_, ?_⟩ <;>
      with_unfolding_all rfl
  · refine ⟨⟨[⟨1, "x", .int⟩], .number (.ofInt .long (-1 * 2 ^ 53)), .int⟩, ?_,
      arithmetic_tallProgram, literals_tallProgram, outcome_tallProgram _ _, ?_⟩
    · have hbody := simplifyWithin_tallSum rfl rfl (.inr rfl)
        (simplifyWithin_bareConstant ({} : Engine).catalog 999997)
      show (Simplifier.standard _).simplifyWithin Simplifier.depth tallProgram.body >>= _ = _
      rw [show Simplifier.depth = 999997 + 3 from rfl, tallProgram, hbody]
      rfl
    · with_unfolding_all rfl

end Scriptlet

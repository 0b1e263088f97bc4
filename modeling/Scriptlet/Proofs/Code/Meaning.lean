import Scriptlet.Evaluation.Evaluate
import Scriptlet.Proofs.Number.Integral
import Mathlib.Logic.Function.Basic

/-!
# Arithmetic of whole numbers with side effects

The part of the language that computes with `int` variables by modular operators:
constants, variables, negation, complement, the operators `+ - * & | ^`, counting up and
down, and assignments.

What such an expression comes to can be said without a store. An environment gives each
variable a pattern of thirty-two bits, and the meaning of an expression (`Expr.meaning`)
takes an environment to a value and a new environment.

A constant may be of any kind on the ladder, since only its low digits count.
-/

namespace Scriptlet

/-! ## Operators on patterns -/

/-- A binary operator on patterns of thirty-two bits. -/
def BinaryOp.onBits (op : BinaryOp) (x y : BitVec 32) : BitVec 32 :=
  (op.arith?.map (·.onBits x y)).getD 0

/-- Whether an operator is one of arithmetic modulo a power of two. -/
def BinaryOp.isModular (op : BinaryOp) : Bool := op.arith?.any (·.isModular)

/-- A unary operator that changes nothing, on patterns. -/
def UnaryOp.onBits (op : UnaryOp) (x : BitVec 32) : BitVec 32 :=
  match op with
  | negate => -x
  | complement => ~~~x
  | _ => x

/-! ## Environments and meanings -/

/-- The values of variables, by their numbers. -/
abbrev Env := Nat → BitVec 32

/-- What code does with an environment. -/
abbrev Meaning := StateM Env

namespace Meaning

/-- The value of a variable. -/
def load (id : Nat) : Meaning (BitVec 32) := fun ρ => (ρ id, ρ)

/-- Sets a variable. -/
def store (id : Nat) (x : BitVec 32) : Meaning Unit := fun ρ => ((), Function.update ρ id x)

/-- Sets the variable that there may be. -/
def store? (id : Option Nat) (x : BitVec 32) : Meaning Unit :=
  match id with
  | some id => store id x
  | none => pure ()

end Meaning

namespace Env

/-- Binds variables to values; of two bindings of one variable, the later one counts. -/
def bind (ids : List Nat) (xs : List (BitVec 32)) (ρ : Env) : Env :=
  (ids.zip xs).foldl (fun ρ (id, x) => Function.update ρ id x) ρ

/-- Environments that agree on some variables. -/
def Agree (ids : List Nat) (ρ ρ' : Env) : Prop := ∀ id ∈ ids, ρ id = ρ' id

theorem bind_of_notMem {ids : List Nat} {xs : List (BitVec 32)} {ρ : Env} {id : Nat}
    (h : id ∉ ids) : ρ.bind ids xs id = ρ id := by
  induction ids generalizing xs ρ with
  | nil => rfl
  | cons i ids ih =>
    cases xs with
    | nil => rfl
    | cons x xs =>
      rw [List.mem_cons, not_or] at h
      calc
        Env.bind ids xs (Function.update ρ i x) id = Function.update ρ i x id := ih h.2
        _ = ρ id := Function.update_of_ne h.1 _ _

end Env

open Meaning

namespace Expr

/-- The variable that an expression is. -/
def place? : Expr → Option Nat
  | parameter v => some v.id
  | _ => none

/-- What a constant comes to. -/
def constantBits : Constant → BitVec 32
  | .number n => n.low
  | _ => 0

/-- What is done with the value of the operand of a unary operator. -/
def unaryMeaning (op : UnaryOp) (operand : Expr) (x : BitVec 32) : Meaning (BitVec 32) :=
  if op.isMutation then do
    let y := op.stepArith.onBits x 1
    store? operand.place? y
    pure (if op.yieldsOld then x else y)
  else pure (op.onBits x)

/-- The meaning of code. -/
def meaning : Expr → Meaning (BitVec 32)
  | constant c => pure (constantBits c)
  | parameter v => load v.id
  | unary op e _ => do
    let x ← meaning e
    unaryMeaning op e x
  | binary op l r _ => do
    let x ← meaning l
    let y ← meaning r
    pure (op.onBits x y)
  | convert e _ => meaning e
  | assign target e _ => do
    let x ← meaning e
    store? target.place? x
    pure x
  | _ => pure 0

end Expr

/-! ## What a meaning leaves alone, and what it depends on -/

namespace Meaning

variable {α β : Type} {ids : List Nat} {id : Nat}

/-- The environment behind something. -/
def after (m : Meaning α) (ρ : Env) : Env := (m ρ).2

/-- The value that something comes to. -/
def value (m : Meaning α) (ρ : Env) : α := (m ρ).1

/-- Something that never changes a variable. -/
def Keeps (m : Meaning α) (id : Nat) : Prop := ∀ ρ, m.after ρ id = ρ id

/-- Something that only depends on some variables: from environments that agree on them
    it comes to the same value, and to environments that agree on them. -/
def DependsOn (m : Meaning α) (ids : List Nat) : Prop :=
  ∀ ρ ρ' : Env, ρ.Agree ids ρ' → m.value ρ = m.value ρ' ∧ (m.after ρ).Agree ids (m.after ρ')

theorem bind_of_eq {m : Meaning α} (f : α → Meaning β) {ρ ρ' : Env} {x : α}
    (h : m ρ = (x, ρ')) : (m >>= f) ρ = f x ρ' := by
  show f (m ρ).1 (m ρ).2 = _
  rw [h]

theorem Keeps.bind {m : Meaning α} {f : α → Meaning β} (hm : m.Keeps id)
    (hf : ∀ x, (f x).Keeps id) : (m >>= f).Keeps id :=
  fun ρ => (hf (m.value ρ) (m.after ρ)).trans (hm ρ)

theorem dependsOn_store (id : Nat) (x : BitVec 32) : DependsOn (store id x) ids := by
  refine fun ρ ρ' h => ⟨rfl, fun i hi => ?_⟩
  show Function.update ρ id x i = Function.update ρ' id x i
  by_cases hid : i = id
  · subst hid; simp
  · rw [Function.update_of_ne hid, Function.update_of_ne hid, h i hi]

theorem DependsOn.bind {m : Meaning α} {f : α → Meaning β} (hm : m.DependsOn ids)
    (hf : ∀ x, (f x).DependsOn ids) : (m >>= f).DependsOn ids := by
  intro ρ ρ' h
  obtain ⟨hvalue, hagree⟩ := hm ρ ρ' h
  have hrest := hf (m.value ρ) _ _ hagree
  nth_rewrite 2 4 [hvalue] at hrest
  exact hrest

/-! ### Reading some variables and setting some -/

/-- Something that is put together from steps that read some variables and set some. -/
inductive Built (R W : List Nat) : {α : Type} → Meaning α → Prop
  | pure {α : Type} (x : α) : Built R W (Pure.pure x : Meaning α)
  | load {id : Nat} : id ∈ R → Built R W (load id)
  | store {id : Nat} : id ∈ W → (x : BitVec 32) → Built R W (store id x)
  | bind {α β : Type} {m : Meaning α} {f : α → Meaning β} : Built R W m →
      (∀ x, Built R W (f x)) → Built R W (m >>= f)

theorem Built.keeps {R W : List Nat} {m : Meaning α} (h : m.Built R W) (hid : id ∉ W) :
    m.Keeps id := by
  induction h with
  | pure _ | load _ => exact fun _ => rfl
  | store hset x => exact fun _ => Function.update_of_ne (ne_of_mem_of_not_mem hset hid).symm _ _
  | bind _ _ ihm ihf => exact ihm.bind ihf

theorem Built.dependsOn {R W : List Nat} {m : Meaning α} (h : m.Built R W) : m.DependsOn R := by
  induction h with
  | pure _ => exact fun _ _ h => ⟨rfl, h⟩
  | load hid => exact fun _ _ h => ⟨h _ hid, h⟩
  | store _ x => exact dependsOn_store _ x
  | bind _ _ ihm ihf => exact ihm.bind ihf

/-! ### Exchanging the order -/

/-- Two things, neither of which changes what the other depends on, can be done in either
    order. -/
theorem bind_comm {m : Meaning α} {m' : Meaning β} {γ : Type} (f : α → β → Meaning γ)
    {S S' : List Nat} (hm : m.DependsOn S) (hm' : m'.DependsOn S')
    (hk : ∀ id, id ∉ S ∨ id ∈ S' → m.Keeps id) (hk' : ∀ id, id ∉ S' ∨ id ∈ S → m'.Keeps id) :
    (do let x ← m; let y ← m'; f x y) = (do let y ← m'; let x ← m; f x y) := by
  funext ρ
  obtain ⟨hvalue, hagree⟩ := hm ρ (m'.after ρ) fun id hid => (hk' id (.inr hid) ρ).symm
  obtain ⟨hvalue', hagree'⟩ := hm' ρ (m.after ρ) fun id hid => (hk id (.inr hid) ρ).symm
  -- both orders end in one environment
  have hafter : m'.after (m.after ρ) = m.after (m'.after ρ) := by
    funext id
    by_cases hS : id ∈ S
    · rw [← hagree id hS, hk' id (.inr hS)]
    · by_cases hS' : id ∈ S'
      · rw [← hagree' id hS', hk id (.inl hS)]
      · rw [hk' id (.inl hS'), hk id (.inl hS), hk id (.inl hS), hk' id (.inl hS')]
  show f (m.value ρ) (m'.value (m.after ρ)) (m'.after (m.after ρ)) =
    f (m.value (m'.after ρ)) (m'.value ρ) (m.after (m'.after ρ))
  rw [hvalue, hvalue', hafter]

end Meaning

end Scriptlet

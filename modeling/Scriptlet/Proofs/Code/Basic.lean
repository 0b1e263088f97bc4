import Scriptlet.Simplification.Inline
import Scriptlet.Proofs.Code.Meaning

/-!
# Code and its footprint

Which expressions are code (`Code`), which variables they mention and which they change,
and what follows from that: code keeps what it does not change and only depends on what
it mentions, so that two operands neither of which changes what the other mentions can be
evaluated in either order (`Code.bind_comm`).

Variables are told apart by their numbers when a program runs, but by their names when
two expressions are compared. The predicate is therefore relative to a naming, which
gives each name the number of the variable that has it.
-/

namespace Scriptlet

/-! ## Footprints -/

namespace Expr

/-- The variable that a node changes. -/
def changedHere : Expr → Option Nat
  | unary op e _ => if op.isMutation then e.place? else none
  | assign target _ _ => target.place?
  | _ => none

/-- The variables that an expression changes. -/
def changed (e : Expr) : List Nat := e.subexpressions.filterMap changedHere

/-- The variable that a node is or changes. -/
def usedHere (e : Expr) : Option Nat := e.place?.or e.changedHere

/-- The variables that occur in an expression. -/
def mentioned (e : Expr) : List Nat := e.subexpressions.filterMap usedHere

theorem mem_collected {f : Expr → Option Nat} {e : Expr} {id : Nat} :
    id ∈ e.subexpressions.filterMap f ↔
      f e = some id ∨ ∃ c ∈ e.children, id ∈ c.subexpressions.filterMap f := by
  simp only [subexpressions_eq e, List.mem_filterMap, List.mem_cons, List.mem_flatMap]
  constructor
  · rintro ⟨x, rfl | ⟨c, hc, hx⟩, h⟩
    · exact .inl h
    · exact .inr ⟨c, hc, x, hx, h⟩
  · rintro (h | ⟨c, hc, x, hx, h⟩)
    · exact ⟨e, .inl rfl, h⟩
    · exact ⟨x, .inr ⟨c, hc, hx⟩, h⟩

theorem mem_changed {e : Expr} {id : Nat} :
    id ∈ e.changed ↔ e.changedHere = some id ∨ ∃ c ∈ e.children, id ∈ c.changed :=
  mem_collected

theorem mem_mentioned {e : Expr} {id : Nat} :
    id ∈ e.mentioned ↔ e.usedHere = some id ∨ ∃ c ∈ e.children, id ∈ c.mentioned :=
  mem_collected

/-- What is changed occurs. -/
theorem changed_subset_mentioned (e : Expr) : e.changed ⊆ e.mentioned := by
  intro id h
  obtain ⟨x, hx, hid⟩ := List.mem_filterMap.1 h
  refine List.mem_filterMap.2 ⟨x, hx, ?_⟩
  cases x with
  | unary op c _ => exact hid
  | assign target _ _ => exact hid
  | _ => cases hid

/-- Two expressions neither of which changes a variable that occurs in the other. -/
def independent (a b : Expr) : Bool :=
  a.changed.all (· ∉ b.mentioned) && b.changed.all (· ∉ a.mentioned)

theorem independent_iff {a b : Expr} :
    a.independent b ↔ (∀ id ∈ a.changed, id ∉ b.mentioned) ∧ ∀ id ∈ b.changed, id ∉ a.mentioned := by
  simp [independent]

end Expr

/-! ## Code -/

/-- Whether a number is of a kind that constants are kept in, and small enough to be a
    floating-point number exactly. -/
def Number.isExact (n : Number) : Bool := n.onLadder && n.whole.natAbs ≤ 2 ^ 53

/-- The numbers of variables. -/
abbrev idsOf (vs : List Variable) : List Nat := vs.map (·.id)

/-- Code, within the variables that it may use. -/
inductive Code (ν : String → Nat) (Γ : List Nat) : Expr → Prop
  | number {n} : n.isExact → Code ν Γ (.constant (.number n))
  | zero : Code ν Γ (.default .int)
  | read {v : Variable} : v.type = .int → v.id = ν v.name → v.id ∈ Γ → Code ν Γ (.parameter v)
  | negate {e} : Code ν Γ e → Code ν Γ (.unary .negate e .int)
  | complement {e} : Code ν Γ e → Code ν Γ (.unary .complement e .int)
  /-- Constants may have become narrower than `int`. -/
  | convert {e} : Code ν Γ e → Code ν Γ (.convert e .int)
  | count {op} {v : Variable} : op.isMutation → v.type = .int → v.id = ν v.name → v.id ∈ Γ →
      Code ν Γ (.unary op (.parameter v) .int)
  | binary {op l r} : op.isModular → Code ν Γ l → Code ν Γ r → Code ν Γ (.binary op l r .int)
  | assign {e} {v : Variable} : v.type = .int → v.id = ν v.name → v.id ∈ Γ → Code ν Γ e →
      Code ν Γ (.assign (.parameter v) e .int)

namespace Code

variable {ν : String → Nat} {Γ : List Nat} {e : Expr}

/-- Code may be given more variables than it uses. -/
theorem weaken {Γ' : List Nat} (h : Code ν Γ e) (hsub : Γ ⊆ Γ') : Code ν Γ' e := by
  induction h with
  | number h => exact .number h
  | zero => exact .zero
  | read ht hν hΓ => exact .read ht hν (hsub hΓ)
  | negate _ ih => exact .negate ih
  | complement _ ih => exact .complement ih
  | convert _ ih => exact .convert ih
  | count hop ht hν hΓ => exact .count hop ht hν (hsub hΓ)
  | binary hop _ _ ihl ihr => exact .binary hop ihl ihr
  | assign ht hν hΓ _ ih => exact .assign ht hν (hsub hΓ) ih

/-- Code that is no constant is of the type `int`. -/
theorem type_eq (h : Code ν Γ e) (hc : e.constant? = none) : e.type = .int := by
  cases h with
  | number h => cases hc
  | read ht _ _ => exact ht
  | _ => rfl

end Code

/-! ## What code is made of -/

/-- All variables that occur in an expression are among some, and all that it changes
    among others. -/
structure Expr.Uses (e : Expr) (R W : List Nat) : Prop where
  mentioned : e.mentioned ⊆ R
  changed : e.changed ⊆ W

theorem Expr.Uses.child {R W : List Nat} {e c : Expr} (h : e.Uses R W) (hc : c ∈ e.children) :
    c.Uses R W :=
  ⟨fun _ hid => h.mentioned (mem_mentioned.2 (.inr ⟨c, hc, hid⟩)),
    fun _ hid => h.changed (mem_changed.2 (.inr ⟨c, hc, hid⟩))⟩

namespace Code

variable {ν : String → Nat} {Γ : List Nat} {e : Expr}

/-- Code reads only what it mentions, and sets only what it changes. -/
theorem built (h : Code ν Γ e) {R W : List Nat} (hu : e.Uses R W) : e.meaning.Built R W := by
  induction h with
  | number _ | zero => exact .pure _
  | read _ _ _ => exact .load (hu.mentioned (Expr.mem_mentioned.2 (.inl rfl)))
  | negate _ ih | complement _ ih =>
    exact .bind (ih (hu.child (by simp [Expr.children]))) fun x => .pure _
  | convert _ ih => exact ih (hu.child (by simp [Expr.children]))
  | @count _ v hop _ _ _ =>
    have hread : v.id ∈ R :=
      (hu.child (c := .parameter v) (by simp [Expr.children])).mentioned
        (Expr.mem_mentioned.2 (.inl rfl))
    have hset : v.id ∈ W := hu.changed (Expr.mem_changed.2 (.inl (if_pos hop)))
    refine .bind (.load hread) fun x => ?_
    rw [Expr.unaryMeaning, if_pos hop]
    exact .bind (.store hset _) fun _ => .pure _
  | binary _ _ _ ihl ihr =>
    refine .bind (ihl (hu.child (by simp [Expr.children]))) fun x => ?_
    exact .bind (ihr (hu.child (by simp [Expr.children]))) fun y => .pure _
  | assign _ _ _ _ ih =>
    have hset := hu.changed (Expr.mem_changed.2 (.inl rfl))
    refine .bind (ih (hu.child (by simp [Expr.children]))) fun x => ?_
    exact .bind (.store hset x) fun _ => .pure _

/-- Code keeps the variables that it does not change. -/
theorem keeps (h : Code ν Γ e) {id : Nat} (hid : id ∉ e.changed) : e.meaning.Keeps id :=
  (h.built ⟨fun _ h => h, fun _ h => h⟩).keeps hid

/-- Code only depends on the variables that it mentions. -/
theorem dependsOn (h : Code ν Γ e) : e.meaning.DependsOn e.mentioned :=
  (h.built ⟨fun _ h => h, fun _ h => h⟩).dependsOn

/-- Operands neither of which changes what the other mentions can be evaluated in either
    order. -/
theorem bind_comm {a b : Expr} {α : Type} (ha : Code ν Γ a) (hb : Code ν Γ b)
    (h : a.independent b) (f : BitVec 32 → BitVec 32 → Meaning α) :
    (do let x ← a.meaning; let y ← b.meaning; f x y) =
      (do let y ← b.meaning; let x ← a.meaning; f x y) := by
  rw [Expr.independent_iff] at h
  refine Meaning.bind_comm f ha.dependsOn hb.dependsOn ?_ ?_
  · rintro id (hid | hid)
    · exact ha.keeps fun hc => hid (Expr.changed_subset_mentioned a hc)
    · exact ha.keeps fun hc => h.1 id hc hid
  · rintro id (hid | hid)
    · exact hb.keeps fun hc => hid (Expr.changed_subset_mentioned b hc)
    · exact hb.keeps fun hc => h.2 id hc hid

end Code

end Scriptlet

import Scriptlet.Proofs.Catalog.Hierarchy
import Scriptlet.Proofs.Reading.TraitPrograms
import Scriptlet.Proofs.Simplification.Rest

/-!
# Traits of programs

Two traits are shown of every program that is read.

* Every call of a function has no receiver and gives a number (`Expr.Plain`, `plain_of_parse`).
  Calls come from chosen methods only; a method that stands for a function is static in the
  catalog, so it is found only where there is no receiver, and its result is a number whatever
  its type parameters are (`Catalog.IsPlain`). Together with the theory of expressions at rest
  this makes simplifying programs idempotent.
* If the text has no `goto`, all jumps are contained (`contained_of_parse`).
-/

namespace Scriptlet

theorem Expr.plain_of_children {e : Expr} (h : e.callee? = none) (hc : ∀ c ∈ e.children, c.Plain) :
    e.Plain :=
  plain_iff.2 ⟨plainNode_of_callee h, hc⟩

/-- Expressions are plain; functions have to be called without a receiver and as numbers. -/
def Trait.plain : Trait where
  Holds _ e := e.Plain
  Admits m b t := m.canonical.isSome → b = false ∧ t.numericKind?.isSome
  gotos := True
  mono _ he := he
  node _ h hc := Expr.plain_of_children h hc
  child _ he := (Expr.plain_iff.1 he).2
  call hm hr hargs := Expr.plain_iff.2 ⟨by rintro m b t ⟨⟩; exact hm, fun c hc =>
    (List.mem_append.1 hc).elim (fun hc => hr c (Option.mem_toList.1 hc)) (hargs c)⟩
  block h := Expr.plain_of_children rfl h
  loop h := Expr.plain_of_children rfl (by simpa [Expr.children] using h)
  jump _ h := Expr.plain_of_children rfl fun c hc => h c (Option.mem_toList.1 hc)
  lambda h := Expr.plain_of_children rfl (by simpa [Expr.children] using h)

/-! ## Methods -/

/-- Methods that stand for functions are static and give a real number, and no method that
    extends a type is among them. -/
structure Catalog.IsPlain (c : Catalog) : Prop where
  methods : ∀ d ∈ c.definitions, ∀ m ∈ d.methods, m.canonical.isSome → m.isStatic ∧ m.ret = .double
  extensions : ∀ m ∈ c.extensions, m.canonical = none

namespace Directory

variable {d : Directory} {t : Ty} {name : String} {c : Candidate}

theorem of_mem_methodsBy {exact isStatic : Bool} (h : c ∈ d.methodsBy exact t name isStatic) :
    c.method.isStatic = isStatic ∧ ∃ x ∈ d.catalog.definitions, c.method ∈ x.methods := by
  unfold methodsBy at h
  obtain ⟨owner, -, h⟩ := List.mem_flatMap.1 h
  split at h
  · cases h
  · rename_i x b hx
    obtain ⟨m, hm, rfl⟩ := List.mem_map.1 h
    obtain ⟨hm, hstatic⟩ := List.mem_filter.1 hm
    rw [Bool.and_eq_true, beq_iff_eq] at hstatic
    exact ⟨hstatic.1, x, mem_of_definition? hx, hm⟩

theorem of_mem_methods {isStatic : Bool} (h : c ∈ d.methods t name isStatic) :
    c.method.isStatic = isStatic ∧ ∃ x ∈ d.catalog.definitions, c.method ∈ x.methods := by
  unfold methods at h
  split at h
  · split at h
    · exact of_mem_methodsBy h
    · cases h
  · exact of_mem_methodsBy h

theorem ret_of_mem_staticMethods (hd : d.catalog.IsPlain) (h : c ∈ d.staticMethods t name)
    (hc : c.method.canonical.isSome) : c.method.ret = .double := by
  obtain ⟨-, x, hx, hm⟩ := of_mem_methods h
  exact (hd.methods x hx c.method hm hc).2

theorem canonical_of_mem_instanceMethods (hd : d.catalog.IsPlain)
    (h : c ∈ d.instanceMethods t name) : c.method.canonical = none := by
  obtain ⟨hstatic, x, hx, hm⟩ := of_mem_methods h
  rcases hc : c.method.canonical with _ | f
  · rfl
  · have := (hd.methods x hx c.method hm (by rw [hc]; rfl)).1
    rw [hstatic] at this
    cases this

theorem canonical_of_mem_extensionMethods (hd : d.catalog.IsPlain)
    (h : c ∈ d.extensionMethods name) : c.method.canonical = none := by
  obtain ⟨m, hm, rfl⟩ := List.mem_map.1 h
  exact hd.extensions m (List.mem_of_mem_filter hm)

end Directory

/-- The methods of a plain catalog may be called where they are found. -/
theorem Catalog.IsPlain.suits {d : Directory} (hd : d.catalog.IsPlain) : Trait.plain.Suits d where
  static hc b hm := ⟨rfl, by rw [Directory.ret_of_mem_staticMethods hd hc hm]; rfl⟩
  extension hc b hm := by
    rw [Directory.canonical_of_mem_extensionMethods hd hc] at hm
    cases hm
  onReceiver hc b hm := by
    rw [Directory.canonical_of_mem_instanceMethods hd hc] at hm
    cases hm

/-- Every program that is read is plain. -/
theorem plain_of_parse {d : Directory} {o : Options} {first next : Nat} {source : String}
    {l : Lambda} (hc : d.catalog.IsPlain) (h : parse d o first source = .ok (l, next)) :
    l.body.Plain :=
  Trait.holds_of_parse (M := .plain) hc.suits (.inl trivial) h

/-- In a program that is read from a text without `goto`, no jump leads out of the body of the
    program, or out of that of a lambda in it. -/
theorem contained_of_parse {d : Directory} {o : Options} {first next : Nat} {source : String}
    {l : Lambda} (hgoto : (Cursor.ofSource source.toList 0).Lacks "goto")
    (h : parse d o first source = .ok (l, next)) : l.body.Contained ∅ :=
  Trait.holds_of_parse (M := .contained)
    ⟨fun _ _ => trivial, fun _ _ => trivial, fun _ _ => trivial⟩ (.inr (hgoto.spares _ _)) h

end Scriptlet

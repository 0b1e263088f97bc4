import Mathlib.Logic.Function.Basic
import Scriptlet.Expr.Printer
import Scriptlet.Proofs.Expr.Parts

/-!
# Renaming of variables

The canonical text of an expression does not tell how its variables are numbered, nor how
those are called that the expression declares itself: as parameters of a lambda, as locals
of a block or in a handler.

A renaming gives every variable a new number, different ones to different variables, and
every variable that is declared in the expression a new name (`Expr.rename`). A variable
occurs *free* if nothing around it within the expression declares it
(`Expr.freeVariables`); in canonical text only such a variable has its name, and all others
are written as the place of their declaration. So the text stays the same as long as what
is declared somewhere in the expression does not occur free elsewhere
(`Expr.canonical_rename`).

The places of variables are kept because the numbers of all declarations around a part are
renamed along with it (`Binders.place?_map`).
-/

namespace Scriptlet

namespace Expr

/-- The node with its own variables replaced. -/
def mapNode (f : Variable → Variable) : Expr → Expr
  | parameter v => parameter (f v)
  | block vs body t => block (vs.map f) body t
  | tryCatch body handlers last =>
    tryCatch body (handlers.map fun h => { h with binder := h.binder.map f }) last
  | lambda params body ret => lambda (params.map f) body ret
  | e => e

/-- The expression with its variables replaced, where they are declared and where they
    occur. -/
def mapVariables (f : Variable → Variable) : Expr → Expr :=
  fold fun e parts => (e.mapNode f).withChildren parts

/-- The variable that a node is. -/
def ownVariable : Expr → List Variable
  | parameter v => [v]
  | _ => []

/-- The variables that occur in an expression where nothing within it declares them. -/
def freeVariables : Expr → List Variable := fold fun e parts =>
  e.ownVariable ++ (parts.zipWith
    (fun vs s => vs.filter fun v => v.id ∉ (Enclosure.all s).flatten) e.scopes).flatten

/-- The variables that a node declares. -/
def declared : Expr → List Variable
  | lambda params _ _ => params
  | block vs _ _ => vs
  | tryCatch _ handlers _ => handlers.filterMap (·.binder)
  | _ => []

/-- The numbers of the variables that are declared within an expression. -/
def declaredIds (e : Expr) : List Nat := e.subexpressions.flatMap fun x => x.declared.map (·.id)

end Expr

/-- A variable with a new number, and with a new name if it is one of some. -/
def Variable.rename (number : Nat → Nat) (name : Nat → String) (bound : List Nat) (v : Variable) :
    Variable :=
  ⟨number v.id, if v.id ∈ bound then name v.id else v.name, v.type⟩

/-- The expression with its variables numbered anew, and with new names for those that it
    declares. -/
def Expr.rename (number : Nat → Nat) (name : Nat → String) (e : Expr) : Expr :=
  e.mapVariables (Variable.rename number name e.declaredIds)

/-! ## Places -/

/-- Numbering anew keeps the places of variables. -/
theorem Binders.place?_map {number : Nat → Nat} (h : Function.Injective number) (id : Nat)
    (bs : Binders) : Binders.place? (number id) (bs.map (·.map number)) = bs.place? id := by
  induction bs with
  | nil => rfl
  | cons frame outer ih =>
    have hfind : (frame.map number).findIdx? (· == number id) = frame.findIdx? (· == id) := by
      rw [List.findIdx?_map]
      congr 1
      funext i
      simp [h.eq_iff]
    simp only [List.map_cons, Binders.place?, hfind, ih, List.length_map]

theorem Binders.place?_of_mem {id : Nat} {bs : Binders} (h : id ∈ bs.flatten) :
    (bs.place? id).isSome := by
  induction bs with
  | nil => cases h
  | cons frame outer ih =>
    rw [Binders.place?]
    split
    · rfl
    · rename_i hnone
      rw [List.findIdx?_eq_none_iff] at hnone
      rcases List.mem_append.mp h with hid | hid
      · simpa using hnone id hid
      · exact ih hid

/-! ## Texts -/

/-- Variables are replaced by others with new numbers and the same types. -/
structure Renumbers (number : Nat → Nat) (f : Variable → Variable) : Prop where
  injective : Function.Injective number
  id : ∀ v, (f v).id = number v.id
  type : ∀ v, (f v).type = v.type

/-- Those of some variables that no binder around them declares keep their names. -/
def KeepsFree (f : Variable → Variable) (bs : Binders) (vs : List Variable) : Prop :=
  ∀ v ∈ vs, v.id ∈ bs.flatten ∨ (f v).name = v.name

section

variable {number : Nat → Nat} {f : Variable → Variable} {bs : Binders}

/-- Behind binders, their variables are no longer free. -/
theorem keepsFree_filter {cs : Binders} {vs : List Variable}
    (h : KeepsFree f bs (vs.filter fun v => v.id ∉ cs.flatten)) : KeepsFree f (cs ++ bs) vs := by
  intro v hv
  rw [List.flatten_append]
  by_cases hid : v.id ∈ cs.flatten
  · exact .inl (List.mem_append_left _ hid)
  · rcases h v (List.mem_filter.mpr ⟨hv, decide_eq_true hid⟩) with hbound | hname
    · exact .inl (List.mem_append_right _ hbound)
    · exact .inr hname

namespace Renumbers

variable (hf : Renumbers number f)

include hf

theorem declarations_map (depth : Nat) (vs : List Variable) :
    declarations .canonical depth (vs.map f) = declarations .canonical depth vs := by
  simp only [declarations, List.zipIdx_map, List.map_map]
  refine List.map_congr_left fun p _ => ?_
  simp [hf.type]

/-- A variable is written as before where it occurs. -/
theorem text_map {v : Variable} (h : KeepsFree f bs [v]) :
    (f v).text .canonical (bs.map (·.map number)) = v.text .canonical bs := by
  simp only [Variable.text, hf.id, Binders.place?_map hf.injective]
  cases hplace : bs.place? v.id with
  | some p => rfl
  | none =>
    rcases h v (List.mem_singleton_self v) with hbound | hname
    · have := Binders.place?_of_mem hbound
      rw [hplace] at this
      cases this
    · exact hname

end Renumbers

end

namespace Expr

variable {number : Nat → Nat} {f : Variable → Variable} {e : Expr} {bs : Binders}

theorem mapVariables_eq (f : Variable → Variable) (e : Expr) :
    e.mapVariables f = (e.mapNode f).withChildren (e.children.map (mapVariables f)) := by
  rw [mapVariables, fold_eq]

theorem freeVariables_eq (e : Expr) :
    e.freeVariables = e.ownVariable ++ (e.parts.map fun p =>
      p.1.freeVariables.filter fun v => v.id ∉ (Enclosure.all p.2).flatten).flatten := by
  rw [freeVariables, fold_eq, List.zipWith_map_left, parts, List.map_zip_eq_zipWith]
  rfl

theorem children_mapVariables (f : Variable → Variable) (e : Expr) :
    (e.mapVariables f).children = e.children.map (mapVariables f) := by
  have hnode : (e.mapNode f).children = e.children := by
    cases e <;> simp [mapNode, children]
  rw [mapVariables_eq, ← hnode, children_withChildren_map]

theorem mapVariables_memberInit (e : Expr) (bindings : List (Binding Expr)) (t : Ty) :
    (memberInit e bindings t).mapVariables f = memberInit (e.mapVariables f)
      (bindings.map fun b => { b with value := b.value.mapVariables f }) t := by
  rw [mapVariables_eq]
  simp [mapNode, children, withChildren, List.zipWith_map_right, List.zipWith_self]

theorem mapVariables_tryCatch (e : Expr) (handlers : List (Handler Expr)) (last : Option Expr) :
    (tryCatch e handlers last).mapVariables f = tryCatch (e.mapVariables f)
      (handlers.map fun h => ⟨h.type, h.binder.map f, h.body.mapVariables f⟩)
      (last.map (mapVariables f)) := by
  have hhandlers (rest : List Expr) :
      (handlers.map fun h => { h with binder := h.binder.map f }).zipWith
        (fun h body => { h with body }) (handlers.map (fun h => h.body.mapVariables f) ++ rest) =
          handlers.map fun h => ⟨h.type, h.binder.map f, h.body.mapVariables f⟩ := by
    induction handlers with
    | nil => rfl
    | cons h hs ih => simp only [List.map_cons, List.cons_append, List.zipWith_cons_cons, ih]
  have hlast (rest : List Expr) :
      (handlers.map (fun h => h.body.mapVariables f) ++ rest).drop handlers.length = rest :=
    List.drop_left' (List.length_map _)
  rw [mapVariables_eq, mapNode, children, List.cons_append, List.map_cons, List.map_append,
    List.map_map]
  simp only [withChildren, Function.comp_def, hhandlers, List.length_map, hlast]
  cases last <;> rfl

theorem mapVariables_switch (e : Expr) (cases : List (Case Expr)) (other : Option Expr) :
    (switch e cases other).mapVariables f = switch (e.mapVariables f)
      (cases.map fun c => ⟨c.tests.map (mapVariables f), c.body.mapVariables f⟩)
      (other.map (mapVariables f)) := by
  rw [mapVariables_eq, mapNode, children, List.cons_append, List.map_cons, List.map_append,
    withChildren, refill_map]
  · cases other <;> rfl
  all_goals
    intros
    contradiction

theorem scopes_mapVariables (f : Variable → Variable) (e : Expr) : (e.mapVariables f).scopes =
    e.scopes.map (·.map fun b => ⟨b.isLambda, b.declared.map f⟩) := by
  have hplain (h : e.scopes = e.children.map fun _ => [])
      (h' : (e.mapVariables f).scopes = (e.mapVariables f).children.map fun _ => []) :
      (e.mapVariables f).scopes =
        e.scopes.map (·.map fun b => ⟨b.isLambda, b.declared.map f⟩) := by
    rw [h, h', children_mapVariables, List.map_map, List.map_map]
    rfl
  cases e with
  | block vs body t =>
    rw [mapVariables_eq]
    simp [mapNode, children, withChildren, scopes, Function.comp_def]
  | lambda => rfl
  | tryCatch e handlers last =>
    have hbinder (v : Option Variable) :
        ((v.map f).map fun v => (⟨false, [v]⟩ : Enclosure)).toList = (v.map fun v =>
          (⟨false, [v]⟩ : Enclosure)).toList.map fun b => ⟨b.isLambda, b.declared.map f⟩ := by
      cases v <;> rfl
    rw [mapVariables_tryCatch]
    cases last <;> simp [scopes, Function.comp_def, ← hbinder]
  | call _ receiver _ _ _ => cases receiver <;> exact hplain rfl rfl
  | _ => exact hplain rfl rfl

/-- The text of a node does not tell how variables are numbered and how its own are called. -/
theorem textWith_mapVariables (hf : Renumbers number f) (h : KeepsFree f bs e.ownVariable) :
    (e.mapVariables f).textWith .canonical (bs.map (·.map number)) = e.textWith .canonical bs := by
  funext parts
  cases e with
  | parameter v => exact hf.text_map h
  | memberInit e bindings t =>
    rw [mapVariables_memberInit]
    simp only [textWith, List.map_map]
    rfl
  | call m receiver args ts t => cases receiver <;> rfl
  | block vs body t =>
    rw [mapVariables_eq]
    simp only [mapNode, children, withChildren, textWith, List.length_map, hf.declarations_map]
  | lambda params body t =>
    rw [mapVariables_eq]
    simp only [mapNode, children, List.map_cons, List.map_nil, withChildren, textWith,
      List.length_map, hf.declarations_map]
  | switch e cases other =>
    rw [mapVariables_switch]
    simp only [textWith, List.map_map, Function.comp_def, List.length_map]
  | tryCatch e handlers last =>
    have hhandler (h : Handler Expr) : handlerText .canonical bs.length
        ⟨h.type, h.binder.map f, h.body.mapVariables f⟩ = handlerText .canonical bs.length h := by
      funext body
      cases hb : h.binder <;> simp [handlerText, hb]
    rw [mapVariables_tryCatch]
    simp only [textWith, List.map_map, Function.comp_def, List.length_map, hhandler]
  | _ => rfl

/-- An expression with its variables replaced has the same canonical text. The numbers of
    the binders around it are replaced, too; a binder within it joins them, and so what is
    declared around a variable corresponds at every depth. -/
theorem print_mapVariables (hf : Renumbers number f) (e : Expr) (bs : Binders)
    (h : KeepsFree f bs e.freeVariables) :
    print .canonical (bs.map (·.map number)) (mapVariables f e) = print .canonical bs e := by
  induction e using children_induction generalizing bs with
  | node e ih =>
    rw [freeVariables_eq] at h
    obtain ⟨hnode, hparts⟩ := List.forall_mem_append.1 h
    rw [print_eq, print_eq, textWith_mapVariables hf hnode, parts, children_mapVariables,
      scopes_mapVariables, List.zip_map, List.map_map]
    congr 1
    refine List.map_congr_left fun p hp => ?_
    have hbinders : Enclosure.all (p.2.map fun b => ⟨b.isLambda, b.declared.map f⟩) ++
        bs.map (·.map number) = (Enclosure.all p.2 ++ bs).map (·.map number) := by
      simp [Enclosure.all, Enclosure.ids, Function.comp_def, hf.id]
    have hfree := keepsFree_filter (List.forall_mem_flatten.1 hparts _ (List.mem_map_of_mem hp))
    exact (congrArg (print .canonical · _) hbinders).trans
      (ih p.1 (mem_children_of_mem_parts hp) _ hfree)

/-- The canonical text does not tell numbers and names of declared variables. -/
theorem canonical_rename (e : Expr) (number : Nat → Nat) (name : Nat → String)
    (hnumber : Function.Injective number)
    (hscope : ∀ v ∈ e.freeVariables, v.id ∉ e.declaredIds) :
    (e.rename number name).canonical = e.canonical := by
  have hf : Renumbers number (Variable.rename number name e.declaredIds) :=
    ⟨hnumber, fun _ => rfl, fun _ => rfl⟩
  have hfree : KeepsFree (Variable.rename number name e.declaredIds) [] e.freeVariables :=
    fun v hv => .inr (if_neg (hscope v hv))
  exact print_mapVariables hf e [] hfree

/-- A lambda with a block and a handler in it; `z` is free. -/
def nestedBinders : Expr :=
  lambda [⟨1, "x", .int⟩]
    (block [⟨2, "y", .int⟩]
      [assign (parameter ⟨2, "y", .int⟩) (parameter ⟨1, "x", .int⟩) .int,
        tryCatch (assign (parameter ⟨9, "z", .int⟩) (parameter ⟨2, "y", .int⟩) .int)
          [⟨.named "Exception" [], some ⟨3, "e", .named "Exception" []⟩,
            throw (some (parameter ⟨3, "e", .named "Exception" []⟩))⟩]
          none,
        parameter ⟨2, "y", .int⟩]
      .int)
    .int

theorem canonical_rename_nestedBinders :
    Function.Injective (fun id : Nat => 2 * id) ∧
    (∀ v ∈ nestedBinders.freeVariables, v.id ∉ nestedBinders.declaredIds) ∧
    (nestedBinders.rename (2 * ·) fun id => if id = 2 then "x" else "y").canonical =
      nestedBinders.canonical := by
  have hnumber : Function.Injective (fun id : Nat => 2 * id) :=
    fun _ _ h => Nat.eq_of_mul_eq_mul_left (by decide) h
  exact ⟨hnumber, by decide, canonical_rename nestedBinders _ _ hnumber (by decide)⟩

end Expr

end Scriptlet

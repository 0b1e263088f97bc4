import Scriptlet.Proofs.Simplification.Rules

/-!
# Replacing the parts of a node

`Ends P Q r` says that a computation `r` ends with a result of which `P` holds or with a
failure of which `Q` holds. If so much is known of what a function does with the parts of
a node, it is known of the node with its parts replaced (`Expr.ends_mapChildrenM`). Nothing
but the parts matters for that (`Expr.mapChildrenM_congr`), and a node whose parts stay is
the same node (`Expr.mapChildrenM_eq_self`).
-/

namespace Scriptlet

/-- A computation ends with a result or a failure as said. -/
def Ends {ε α : Type} (P : α → Prop) (Q : ε → Prop) : Except ε α → Prop
  | .ok a => P a
  | .error x => Q x

namespace Ends

variable {ε α β : Type} {P : α → Prop} {P' : β → Prop} {Q : ε → Prop} {r : Except ε α}

theorem trivial (r : Except ε α) : Ends (fun _ => True) (fun _ => True) r := by
  cases r <;> exact True.intro

theorem imp {P₁ : α → Prop} (h : Ends P Q r) (hP : ∀ a, P a → P₁ a) : Ends P₁ Q r := by
  cases r with
  | ok a => exact hP a h
  | error x => exact h

theorem imp_error {Q₁ : ε → Prop} (h : Ends P Q r) (hQ : ∀ x, Q x → Q₁ x) : Ends P Q₁ r := by
  cases r with
  | ok a => exact h
  | error x => exact hQ x h

theorem bind {k : α → Except ε β} (h : Ends P Q r) (hk : ∀ a, P a → Ends P' Q (k a)) :
    Ends P' Q (r >>= k) := by
  cases r with
  | ok a => exact hk a h
  | error x => exact h

theorem map {f : α → β} (h : Ends P Q r) (hf : ∀ a, P a → P' (f a)) : Ends P' Q (f <$> r) := by
  cases r with
  | ok a => exact hf a h
  | error x => exact h

theorem mapM {f : α → Except ε β} {R : α → β → Prop} {as : List α}
    (h : ∀ a ∈ as, Ends (R a) Q (f a)) : Ends (List.Forall₂ R as) Q (as.mapM f) := by
  induction as with
  | nil => exact .nil
  | cons a as ih =>
    rw [List.mapM_cons]
    refine bind (h a List.mem_cons_self) fun b hb => ?_
    refine bind (ih fun a' ha' => h a' (List.mem_cons_of_mem a ha')) fun bs hbs => ?_
    exact List.Forall₂.cons hb hbs

end Ends

theorem forall_of_forall₂ {α β : Type} {R : α → β → Prop} {P : β → Prop} {as : List α} {bs : List β}
    (h : List.Forall₂ R as bs) (hP : ∀ a b, R a b → P b) : ∀ b ∈ bs, P b := by
  induction h with
  | nil => exact nofun
  | cons hb _ ih => exact List.forall_mem_cons.2 ⟨hP _ _ hb, ih⟩

theorem mapM_congr_mem {ε α β : Type} {f g : α → Except ε β} {as : List α}
    (h : ∀ a ∈ as, f a = g a) : as.mapM f = as.mapM g := by
  induction as with
  | nil => rfl
  | cons a as ih =>
    rw [List.mapM_cons, List.mapM_cons, h a List.mem_cons_self,
      ih fun a' ha' => h a' (List.mem_cons_of_mem a ha')]

theorem mapM_pure_eq {ε α : Type} (as : List α) : as.mapM (fun a => pure a) = (pure as : Except ε _) :=
  (List.mapM_pure (f := id)).trans (by rw [List.map_id])

namespace Expr

variable {f g : Expr → Except Halt Expr} {R : Expr → Expr → Prop} {Q : Halt → Prop}

/-- The method that a node calls, whether on a receiver, and the type of the call. -/
def callee? : Expr → Option (Method × Bool × Ty)
  | call m receiver _ _ t => some (m, receiver.isSome, t)
  | _ => none

/-- A node is another one with other parts in the places of its parts. -/
structure Rebuilt (R : Expr → Expr → Prop) (e e' : Expr) : Prop where
  shape : e'.shape = e.shape
  isConstant : e'.isConstant = e.isConstant
  callee : e'.callee? = e.callee?
  parts : List.Forall₂ R e.children e'.children

theorem rel_of_append {as bs es : List Expr} (h : List.Forall₂ R (as ++ bs) es) :
    List.Forall₂ R as (es.take as.length) ∧ List.Forall₂ R bs (es.drop as.length) :=
  ⟨by simpa using List.forall₂_take as.length h, by simpa using List.forall₂_drop as.length h⟩

theorem zipWith_snd {α β : Type} (as : List α) (bs : List β) :
    as.zipWith (fun _ b => b) bs = bs.take as.length := by
  induction as generalizing bs with
  | nil => simp
  | cons a as ih => cases bs <;> simp [ih]

theorem rel_refill {cs : List (Case Expr)} {last es : List Expr}
    (h : List.Forall₂ R (cs.flatMap (fun c => c.tests ++ [c.body]) ++ last) es) :
    List.Forall₂ R (cs.flatMap fun c => c.tests ++ [c.body])
        ((Case.refill cs es).1.flatMap fun c => c.tests ++ [c.body]) ∧
      List.Forall₂ R last (Case.refill cs es).2 := by
  induction cs generalizing es with
  | nil => exact ⟨.nil, h⟩
  | cons c cs ih =>
    rw [List.flatMap_cons, List.append_assoc, List.append_assoc] at h
    obtain ⟨htests, hrest⟩ := rel_of_append h
    simp only [Case.refill]
    generalize es.drop c.tests.length = behind at hrest
    obtain _ | ⟨hbody, hrest⟩ := hrest
    obtain ⟨hcs, hlast⟩ := ih hrest
    exact ⟨List.rel_append (List.rel_append htests (.cons hbody .nil)) hcs, hlast⟩

theorem rel_head? {a : Option Expr} {es : List Expr} (h : List.Forall₂ R a.toList es) :
    List.Forall₂ R a.toList es.head?.toList := by
  cases a with
  | none => cases h; exact .nil
  | some a =>
    obtain _ | ⟨ha, _ | _⟩ := h
    exact .cons ha .nil

/-- A node with other parts in the places of its own. -/
theorem rebuilt_withChildren {e : Expr} {es : List Expr} (h : List.Forall₂ R e.children es) :
    Rebuilt R e (e.withChildren es) := by
  cases e with
  | constant _ | default _ | parameter _ =>
    cases h
    exact ⟨rfl, rfl, rfl, .nil⟩
  | unary _ a _ | convert a _ | typeIs a _ | typeAs a _ | loop a _ _ | lambda _ a _ =>
    obtain _ | ⟨ha, _ | _⟩ := h
    exact ⟨rfl, rfl, rfl, .cons ha .nil⟩
  | binary _ a b _ | assign a b _ =>
    obtain _ | ⟨ha, _ | ⟨hb, _ | _⟩⟩ := h
    exact ⟨rfl, rfl, rfl, .cons ha (.cons hb .nil)⟩
  | conditional a b c _ =>
    obtain _ | ⟨ha, _ | ⟨hb, _ | ⟨hc, _ | _⟩⟩⟩ := h
    exact ⟨rfl, rfl, rfl, .cons ha (.cons hb (.cons hc .nil))⟩
  | new _ _ _ | arrayOfSize _ _ | arrayOfItems _ _ | block _ _ _ => exact ⟨rfl, rfl, rfl, h⟩
  | member _ _ _ _ | jump _ _ _ | label _ _ _ | throw _ => exact ⟨rfl, rfl, rfl, rel_head? h⟩
  | invoke _ _ _ | listInit _ _ _ _ | index _ _ _ =>
    obtain _ | ⟨ha, hes⟩ := h
    exact ⟨rfl, rfl, rfl, .cons ha hes⟩
  | call _ receiver _ _ _ =>
    cases receiver with
    | none => exact ⟨rfl, rfl, rfl, h⟩
    | some r =>
      obtain _ | ⟨hr, hes⟩ := h
      exact ⟨rfl, rfl, rfl, .cons hr hes⟩
  | memberInit a bs t =>
    obtain _ | ⟨ha, hes⟩ := h
    refine ⟨rfl, rfl, rfl, .cons ha ?_⟩
    rw [List.map_zipWith, zipWith_snd]
    have hvalues := List.forall₂_take bs.length hes
    rwa [← List.map_take, List.take_length] at hvalues
  | switch a cs other =>
    obtain _ | ⟨ha, hes⟩ := h
    obtain ⟨hcs, hother⟩ := rel_refill hes
    exact ⟨rfl, rfl, rfl, .cons ha (List.rel_append hcs (rel_head? hother))⟩
  | tryCatch a hs last =>
    obtain _ | ⟨ha, hes⟩ := h
    obtain ⟨hbodies, hlast⟩ := rel_of_append hes
    rw [List.length_map] at hbodies hlast
    refine ⟨rfl, rfl, rfl, .cons ha (List.rel_append ?_ (rel_head? hlast))⟩
    rwa [List.map_zipWith, zipWith_snd]

/-- The parts of a node with replaced parts are the replacements. -/
theorem ends_mapChildrenM {e : Expr} (h : ∀ c ∈ e.children, Ends (R c) Q (f c)) :
    Ends (Rebuilt R e) Q (e.mapChildrenM f) :=
  (Ends.mapM h).bind fun _ hes => rebuilt_withChildren hes

/-- Only what a function does with the parts matters. -/
theorem mapChildrenM_congr {e : Expr} (h : ∀ c ∈ e.children, f c = g c) :
    e.mapChildrenM f = e.mapChildrenM g := by
  rw [mapChildrenM, mapChildrenM, mapM_congr_mem h]

theorem refill_map (g : Expr → Expr) (cs : List (Case Expr)) (last : List Expr) :
    Case.refill cs ((cs.flatMap fun c => c.tests ++ [c.body]).map g ++ last) =
      (cs.map fun c => ⟨c.tests.map g, g c.body⟩, last) := by
  induction cs with
  | nil => rfl
  | cons c cs ih => simp [Case.refill, ih]

/-- The parts of a node with each part replaced by what comes of it. -/
theorem children_withChildren_map (g : Expr → Expr) (e : Expr) :
    (e.withChildren (e.children.map g)).children = e.children.map g := by
  have hparts : List.Forall₂ (fun c c' => g c = c') e.children (e.children.map g) := by
    rw [List.forall₂_map_right_iff, List.forall₂_same]
    exact fun _ _ => rfl
  have h := (rebuilt_withChildren hparts).parts
  rw [← List.forall₂_map_left_iff (f := g), List.forall₂_eq_eq_eq] at h
  exact h.symm

theorem withChildren_children (e : Expr) : e.withChildren e.children = e := by
  cases e with
  | call _ receiver _ _ _ => cases receiver <;> rfl
  | member a _ _ _ | jump _ _ a | label _ a _ | throw a => cases a <;> rfl
  | memberInit _ bs _ => simp [children, withChildren, List.zipWith_map_right, List.zipWith_self]
  | switch _ cs other =>
    have hrefill := refill_map id cs other.toList
    rw [List.map_id] at hrefill
    rw [children, List.cons_append, withChildren, hrefill]
    cases other <;> simp
  | tryCatch _ hs last =>
    have hzip (rest : List Expr) :
        hs.zipWith (fun h body => { h with body }) (hs.map (·.body) ++ rest) = hs := by
      induction hs with
      | nil => rfl
      | cons h hs ih => rw [List.map_cons, List.cons_append, List.zipWith_cons_cons, ih]
    have hdrop : (hs.map (·.body) ++ last.toList).drop hs.length = last.toList :=
      List.drop_left' (List.length_map _)
    rw [children, List.cons_append, withChildren, hzip, hdrop]
    cases last <;> rfl
  | _ => rfl

/-- A node whose parts stay is the same node. -/
theorem mapChildrenM_eq_self {e : Expr} (h : ∀ c ∈ e.children, f c = .ok c) :
    e.mapChildrenM f = .ok e := by
  rw [mapChildrenM_congr h, mapChildrenM]
  exact (congrArg (· >>= _) (mapM_pure_eq e.children)).trans
    (congrArg Except.ok (withChildren_children e))

/-- Replacing variables in a node that is none rebuilds the node. -/
theorem rebuilt_substitute (σ : Nat → Option Expr) {e : Expr} (h : ∀ v, e ≠ parameter v) :
    Rebuilt (fun c c' => c ∈ e.children ∧ c' = c.substitute σ) e (e.substitute σ) := by
  have hnode : e.substitute σ = e.withChildren (e.children.map (substitute σ)) := by
    rw [substitute, fold_eq]
    cases e with
    | parameter v => exact absurd rfl (h v)
    | _ => rfl
  rw [hnode]
  refine rebuilt_withChildren (List.forall₂_map_right_iff.2 ?_)
  exact List.forall₂_same.2 fun _ hc => ⟨hc, rfl⟩

end Expr

end Scriptlet

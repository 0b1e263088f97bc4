import Scriptlet.Expr.Same
import Scriptlet.Expr.Traversal
import Scriptlet.Proofs.Number.Equality

/-!
# Sameness is an equivalence

Two expressions are the same (`Expr.same`) if they agree in all that counts: the shape, the
types, the operators, the signatures of methods, the names of members and labels, the whole
numbers that integral constants are, the places of the parameters of lambdas, and the names
and types of other variables.

Each of these is compared for equality, if need be once it is stripped of what does not count
(`Constant.bare`, `Variable.bareIn`). So nodes that are the same as a third one are the same
(`Expr.sameNode_of_both`), and by their parts so are expressions: sameness is an equivalence
(`Expr.same_equivalence`). Numeric constants have to be integral: a constant that is not a number
is not even the same as itself.
-/

namespace Scriptlet

/-! ## What counts of the data of a node -/

/-- A number of an integral kind as one of the widest. -/
def Number.widest (n : Number) : Number :=
  match n.toInt? with
  | some v => ofInt (if v < 0 then .long else .ulong) v
  | none => n

theorem Number.exists_of_isIntegral {n : Number} (h : n.kind.isIntegral) :
    ∃ v, n.toInt? = some v := by
  cases n with
  | integral k bits => exact ⟨_, rfl⟩
  | _ => cases h

theorem Number.equivalent_iff_widest {a b : Number} (ha : a.kind.isIntegral)
    (hb : b.kind.isIntegral) : a.equivalent b ↔ a.widest = b.widest := by
  obtain ⟨v, hv⟩ := exists_of_isIntegral ha
  obtain ⟨w, hw⟩ := exists_of_isIntegral hb
  have hwidest {n : Number} {u : Int} (hn : n.toInt? = some u) : n.widest.toInt? = some u := by
    obtain ⟨k, hk⟩ := exists_of_toInt? hn
    rw [widest, hn]
    exact toInt?_ofInt (IntKind.holds_widest hk)
  rw [equivalent_iff hv hw]
  -- the number can be read off again, since one of the two widest kinds has it
  constructor
  · rintro rfl
    rw [widest, widest, hv, hw]
  · intro h
    have := congrArg toInt? h
    rwa [hwidest hv, hwidest hw, Option.some.injEq] at this

/-- A constant with a number in it as one of the widest kind. -/
def Constant.bare : Constant → Constant
  | .number n => .number n.widest
  | c => c

/-- A constant is no number, or one of an integral kind. -/
def Constant.IsIntegral (c : Constant) : Prop := ∀ n, c = .number n → n.kind.isIntegral

theorem Constant.equivalent_iff {c d : Constant} (hc : c.IsIntegral) (hd : d.IsIntegral) :
    c.equivalent d ↔ c.bare = d.bare := by
  cases c <;> cases d <;> simp [equivalent, same, bare]
  exact Number.equivalent_iff_widest (hc _ rfl) (hd _ rfl)

/-- A variable with its name and its type. -/
def Variable.bare (v : Variable) : Variable := ⟨0, v.name, v.type⟩

theorem Variable.alike_iff (v w : Variable) : v.alike w ↔ v.bare = w.bare := by
  simp [alike, bare]

theorem allAlike_iff_forall₂ {α β : Type} {r : α → β → Bool} {as : List α} {bs : List β} :
    allAlike r as bs ↔ List.Forall₂ (fun a b => r a b = true) as bs := by
  induction as generalizing bs with
  | nil => cases bs <;> simp [allAlike]
  | cons a as ih => cases bs <;> simp [allAlike, ih]

/-- A variable where it is used: one of a binder is its place there. -/
def Variable.bareIn (bs : Binders) (v : Variable) : Variable :=
  match bs.place? v.id with
  | some (depth, i) => ⟨Nat.pair depth i + 1, "", .void⟩
  | none => v.bare

theorem Variable.corresponds_iff (bs cs : Binders) (v w : Variable) :
    v.corresponds bs cs w ↔ v.bareIn bs = w.bareIn cs := by
  unfold corresponds bareIn
  cases bs.place? v.id <;> cases cs.place? w.id <;> simp [alike_iff, bare, Prod.ext_iff]

theorem forall₂_of_both {α β γ : Type} {R : α → β → Prop} {S : γ → β → Prop} {T : α → γ → Prop}
    {as : List α} {bs : List β} {cs : List γ} (hab : List.Forall₂ R as bs)
    (hcb : List.Forall₂ S cs bs)
    (h : ∀ a ∈ as, ∀ b ∈ bs, ∀ c ∈ cs, R a b → S c b → T a c) : List.Forall₂ T as cs := by
  induction hab generalizing cs with
  | nil => cases hcb; exact .nil
  | cons hab _ ih =>
    obtain _ | ⟨hcb, hcbs⟩ := hcb
    refine .cons (h _ List.mem_cons_self _ List.mem_cons_self _ List.mem_cons_self hab hcb) ?_
    exact ih hcbs fun a ha b hb c hc => h a (List.mem_cons_of_mem _ ha)
      b (List.mem_cons_of_mem _ hb) c (List.mem_cons_of_mem _ hc)

namespace Expr

/-- Of some expressions, those that are numeric constants are integral ones. -/
def Integrals (es : List Expr) : Prop := ∀ n, number n ∈ es → n.kind.isIntegral

/-- An expression whose numeric constants are all integral. -/
def Integral (e : Expr) : Prop := Integrals e.subexpressions

theorem Integral.child {e c : Expr} (h : e.Integral) (hc : c ∈ e.children) : c.Integral :=
  fun n hn => h n (mem_subexpressions_of_child hc hn)

theorem Integral.constant {c : Constant} (h : (constant c).Integral) : c.IsIntegral := by
  rintro n rfl
  exact h n (mem_subexpressions_self _)

variable {a b c : Expr} {bs cs ds : Binders}

theorem sameIn_iff : sameIn bs cs a b ↔ sameNode bs cs a b ∧ List.Forall₂ (fun p q =>
    sameIn (Enclosure.lambdas p.2 ++ bs) (Enclosure.lambdas q.2 ++ cs) p.1 q.1 = true)
      a.parts b.parts := by
  rw [sameIn_eq, Bool.and_eq_true, allAlike_iff_forall₂]

/-- The parts of nodes that declare nothing are compared within the same binders. -/
theorem sameIn_iff_of_plain (ha : a.scopes = a.children.map fun _ => [])
    (hb : b.scopes = b.children.map fun _ => []) : sameIn bs cs a b ↔ sameNode bs cs a b ∧
      List.Forall₂ (fun x y => sameIn bs cs x y = true) a.children b.children := by
  rw [sameIn_iff, parts_of_plain ha, parts_of_plain hb, List.forall₂_map_left_iff,
    List.forall₂_map_right_iff]
  rfl

theorem sameNode_iff : sameNode bs cs a b ↔ a.ctorIdx = b.ctorIdx ∧ a.marks = b.marks ∧
    (∀ x y, a = constant x → b = constant y → x.equivalent y) ∧
    ∀ v w, a = parameter v → b = parameter w → v.corresponds bs cs w := by
  simp only [sameNode, Bool.and_eq_true, beq_iff_eq, and_assoc]
  refine and_congr_right fun _ => and_congr_right fun _ => ?_
  split <;> simp_all

theorem sameIn_constant {x y : Constant} (h : x.equivalent y) :
    sameIn bs cs (constant x) (constant y) := by
  refine (sameIn_iff_of_plain rfl rfl).2 ⟨sameNode_iff.2 ⟨rfl, rfl, ?_, nofun⟩, .nil⟩
  rintro _ _ ⟨⟩ ⟨⟩
  exact h

/-- A node with parts is neither a constant nor a parameter. -/
theorem sameIn_of_parts (ha : a.scopes = a.children.map fun _ => [])
    (hb : b.scopes = b.children.map fun _ => []) (hform : a.ctorIdx = b.ctorIdx)
    (hmarks : a.marks = b.marks) (hne : a.children ≠ [])
    (hparts : List.Forall₂ (fun x y => sameIn bs cs x y = true) a.children b.children) :
    sameIn bs cs a b := by
  refine (sameIn_iff_of_plain ha hb).2 ⟨sameNode_iff.2 ⟨hform, hmarks, ?_, ?_⟩, hparts⟩
  · rintro x _ rfl -
    exact absurd rfl hne
  · rintro v _ rfl -
    exact absurd rfl hne

/-- Only nodes of one form are the same. -/
theorem ctorIdx_of_sameIn (h : sameIn bs cs a b) : a.ctorIdx = b.ctorIdx :=
  (sameNode_iff.1 (sameIn_iff.1 h).1).1

theorem marks_of_sameIn (h : sameIn bs cs a b) : a.marks = b.marks :=
  (sameNode_iff.1 (sameIn_iff.1 h).1).2.1

theorem sameNode_refl (h : a.Integral) (bs : Binders) : sameNode bs bs a a := by
  refine sameNode_iff.2 ⟨rfl, rfl, ?_, ?_⟩
  · rintro x _ rfl ⟨⟩
    exact (Constant.equivalent_iff h.constant h.constant).2 rfl
  · rintro v _ rfl ⟨⟩
    exact (Variable.corresponds_iff bs bs v v).2 rfl

/-- Nodes that are both the same as a third one are the same. -/
theorem sameNode_of_both (ha : a.Integral) (hb : b.Integral) (hc : c.Integral)
    (hab : sameNode bs cs a b) (hcb : sameNode ds cs c b) : sameNode bs ds a c := by
  obtain ⟨hform, hmarks, hconstant, hparameter⟩ := sameNode_iff.1 hab
  obtain ⟨hform', hmarks', hconstant', hparameter'⟩ := sameNode_iff.1 hcb
  refine sameNode_iff.2 ⟨hform.trans hform'.symm, hmarks.trans hmarks'.symm, ?_, ?_⟩
  · rintro x z rfl rfl
    obtain ⟨y, rfl⟩ : ∃ y, b = constant y := by cases b <;> first | exact ⟨_, rfl⟩ | cases hform
    have hxy := (Constant.equivalent_iff ha.constant hb.constant).1 (hconstant _ _ rfl rfl)
    have hzy := (Constant.equivalent_iff hc.constant hb.constant).1 (hconstant' _ _ rfl rfl)
    exact (Constant.equivalent_iff ha.constant hc.constant).2 (hxy.trans hzy.symm)
  · rintro v u rfl rfl
    obtain ⟨w, rfl⟩ : ∃ w, b = parameter w := by cases b <;> first | exact ⟨_, rfl⟩ | cases hform
    have hvw := (Variable.corresponds_iff ..).1 (hparameter _ _ rfl rfl)
    have huw := (Variable.corresponds_iff ..).1 (hparameter' _ _ rfl rfl)
    exact (Variable.corresponds_iff ..).2 (hvw.trans huw.symm)

theorem sameIn_refl (h : a.Integral) (bs : Binders) : sameIn bs bs a a := by
  induction a using children_induction generalizing bs with
  | node a ih =>
    refine sameIn_iff.2 ⟨sameNode_refl h bs, List.forall₂_same.2 fun p hp => ?_⟩
    have hc := mem_children_of_mem_parts hp
    exact ih p.1 hc (h.child hc) _

/-- Expressions that are both the same as a third one are the same. -/
theorem sameIn_of_both (ha : a.Integral) (hb : b.Integral) (hc : c.Integral)
    (hab : sameIn bs cs a b) (hcb : sameIn ds cs c b) : sameIn bs ds a c := by
  induction a using children_induction generalizing b c bs cs ds with
  | node a ih =>
    obtain ⟨hab, habs⟩ := sameIn_iff.1 hab
    obtain ⟨hcb, hcbs⟩ := sameIn_iff.1 hcb
    refine sameIn_iff.2 ⟨sameNode_of_both ha hb hc hab hcb, ?_⟩
    refine forall₂_of_both habs hcbs fun p hp q hq r hr hpq hrq => ?_
    exact ih p.1 (mem_children_of_mem_parts hp) (ha.child (mem_children_of_mem_parts hp))
      (hb.child (mem_children_of_mem_parts hq)) (hc.child (mem_children_of_mem_parts hr)) hpq hrq

/-- Sameness of expressions with integral constants is an equivalence. -/
theorem same_equivalence :
    Equivalence fun a b : { e : Expr // e.Integral } => a.1.same b.1 = true := by
  have hrefl (a : { e : Expr // e.Integral }) : a.1.same a.1 := sameIn_refl a.2 []
  have hboth {a b c : { e : Expr // e.Integral }} (hab : a.1.same b.1) (hcb : c.1.same b.1) :
      a.1.same c.1 :=
    sameIn_of_both a.2 b.2 c.2 hab hcb
  have hsymm {a b : { e : Expr // e.Integral }} (h : a.1.same b.1) : b.1.same a.1 :=
    hboth (hrefl b) h
  exact ⟨hrefl, hsymm, fun hab hbc => hboth hab (hsymm hbc)⟩

-- a constant that is not a number is not the same as itself
example : (number (.double Float.nan)).same (number (.double Float.nan)) = false := by
  decide

end Expr

end Scriptlet

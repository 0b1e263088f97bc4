import Scriptlet.Engine
import Scriptlet.Proofs.Catalog.Hierarchy
import Scriptlet.Proofs.Code.Evaluation
import Scriptlet.Proofs.Evaluation.Operators
import Scriptlet.Proofs.Reading.ProgramTraits

/-!
# Type soundness of operators

An expression is made of operators (`Expr.Operated`) if it is built from numbers, truth values
and variables by operators, casts, conditionals and assignments, each of which looks at the
types of its operands and may refuse them. Where variables have values of their types
(`Store.Holds`), such an expression comes to a value of its type and leaves the variables so, or
it divides by zero (`Machine.evaluate_operated`).

* What an operator builds is said once (`Expr.Joined`), and what values are brought to the
  types it works on by `Ty.Becomes`. There is a lemma for each construct, `Machine.sound_…`.
* An assigned value becomes one of the type of the variable without a cast. This does not lead
  from other types to numbers or truth values, since nothing derives from these
  (`Catalog.IsClassed`, `Directory.distance_scalar`).
* Casts need care: not every number is the code of a character, and a cast of any value to a
  type is not checked (`Machine.not_operatesWith_casts`).
-/

namespace Scriptlet

variable {t : Ty}

/-! ## What operators build -/

namespace Expr

/-- What a binary operator builds of two expressions. -/
inductive Joined (op : BinaryOp) (l r : Expr) : Expr → Prop
  | text : l.type = .string ∨ r.type = .string → Joined op l r (.binary op l r .string)
  /-- Operators that compute take numbers of a kind each, those on digits integers. -/
  | computed {arith : Arith} {a b k j : NumericKind} {c d : Bool} : op.arith? = some arith →
      l.type.operandKind? = some a → r.type.operandKind? = some b →
      (arith.isBitwise → k.isIntegral ∧ j.isIntegral) →
      Joined op l r
        (.binary op (l.convertTo (.lifted k c)) (r.convertTo (.lifted j d)) (.lifted k c))
  | compared {a b k : NumericKind} {c : Bool} : op.isComparison →
      l.type.operandKind? = some a → r.type.operandKind? = some b →
      Joined op l r (.binary op (l.convertTo (.lifted k c)) (r.convertTo (.lifted k c)) .bool)
  | equated : op = .equal ∨ op = .notEqual → Joined op l r (.binary op l r .bool)
  | logical {t : Ty} : op = .and ∨ op = .or ∨ op = .exclusiveOr → l.type.underlying = .bool →
      r.type.underlying = .bool → t.underlying = .bool →
      Joined op l r (.binary op (l.convertTo t) (r.convertTo t) t)
  | lazy : op = .andAlso ∨ op = .orElse → l.type = .bool → r.type = .bool →
      Joined op l r (.binary op l r .bool)
  | coalesced : op = .coalesce → l.type.acceptsNull →
      Joined op l r
        (.binary op l (r.coerce (coalesceType l.type r.type)) (coalesceType l.type r.type))

theorem joined_of_applyBinary {op : BinaryOp} {l r x : Expr} {n : Nat}
    (h : applyBinary op l r n = .ok x) : Joined op l r x := by
  unfold applyBinary at h
  dsimp only at h
  split at h
  -- where the operands decide, one case for each kind of them
  all_goals repeat' split at h
  all_goals cases h
  · exact .text ‹_›
  iterate 5 exact .computed rfl ‹_› ‹_› nofun
  · exact .computed (k := .double) (j := .double) (c := false) (d := false) rfl ‹_› ‹_› nofun
  iterate 3
    iterate 2 exact .logical (by decide) (And.left ‹_ ∧ _›) (And.right ‹_ ∧ _›) rfl
    refine .computed rfl ‹_› ‹_› fun _ => ⟨?_, ?_⟩ <;> rfl
  iterate 2
    refine .computed (j := .int) (d := false) rfl ‹_› ‹_› fun _ => ⟨?_, ?_⟩ <;> rfl
  iterate 2 exact .lazy (by decide) (And.left ‹_›) (And.right ‹_›)
  iterate 6 exact .compared rfl ‹_› ‹_›
  iterate 2 exact .equated (by decide)
  exact .coalesced rfl ‹_›

end Expr

/-! ## Values where a type is wanted -/

/-- What the types of a catalog derive from are references. -/
def Catalog.IsClassed (c : Catalog) : Prop :=
  ∀ x ∈ c.definitions, ∀ t ∈ x.base.toList ++ x.interfaces, t.isReference

theorem isClassed_standard : Catalog.standard.IsClassed := by
  have hall : (Catalog.standard.definitions.all fun x =>
      (x.base.toList ++ x.interfaces).all (·.isReference)) := by decide
  intro x hx t ht
  exact List.all_eq_true.1 (List.all_eq_true.1 hall x hx) t ht

theorem Ty.isReference_substitute (h : t.isReference) (b : Bindings) :
    (t.substitute b).isReference := by
  cases t <;> first | rfl | cases h

namespace Directory

variable {d : Directory} {s t p : Ty}

theorem isReference_of_mem_parents (hd : d.catalog.IsClassed) (h : p ∈ d.parents t) :
    p.isReference := by
  rcases mem_parents h with rfl | ⟨e, r, -, rfl | rfl⟩ | ⟨x, b, hx, q, hq, rfl⟩
  iterate 3 rfl
  exact Ty.isReference_substitute (hd x (mem_of_definition? hx) q hq) b

/-- A value becomes a number or a truth value only if it is one, or by widening. -/
theorem distance_scalar (hd : d.catalog.IsClassed) (ht : t.isScalar)
    (h : (d.distance? s t).isSome) : s = t ∨ widens s t := by
  by_cases heq : s = t
  · exact .inl heq
  by_cases hwidens : widens s t
  · exact .inr hwidens
  have hreference : t.isReference = false := by cases t <;> first | rfl | cases ht
  have hnull : t.acceptsNull = false := by cases t <;> first | rfl | cases ht
  unfold distance? at h
  rw [if_neg heq, hnull, if_neg Bool.false_ne_true] at h
  split at h
  · cases h
  split at h
  · cases h
  split at h
  · cases ht
  · rw [Option.isSome_map] at h
    obtain ⟨⟨u, n⟩, hu⟩ := Option.isSome_iff_exists.1 h
    have hfound := List.find?_some hu
    obtain rfl : u = t := eq_of_beq hfound
    cases chain_of_mem_supertypes (List.mem_of_find?_eq_some hu) with
    | start => exact absurd rfl heq
    | step _ hmem => cases hreference.symm.trans (isReference_of_mem_parents hd hmem)

end Directory

/-! ## Variables -/

/-- Seen from a frame, each of the variables has a value of its type. -/
def Store.Holds (s : Store) (f : Nat) (Γ : Set Variable) : Prop :=
  ∀ v ∈ Γ, ∃ w, s.lookup f v = .ok w ∧ w.Is v.type

namespace Store

variable {s : Store} {f r : Nat} {Γ : Set Variable} {v : Variable} {w : Value}

theorem holder?_of_lookup (h : s.lookup f v = .ok w) :
    ∃ r, s.holder? f v.id = some r ∧ w = (s.slot? r v.id).getD .null := by
  cases hr : s.holder? f v.id with
  | none =>
    rw [lookup, holder, hr] at h
    cases h
  | some r =>
    rw [lookup_of_holder? hr] at h
    cases h
    exact ⟨r, rfl, rfl⟩

/-- A variable that is set to a value of its type where it is found. Another variable with its
    number has its type. -/
theorem Holds.define (hs : s.Holds f Γ) (hv : v ∈ Γ) (hr : s.holder? f v.id = some r)
    (hw : w.Is v.type) : (s.define r v w).Holds f Γ := by
  have hslot := slot_of_holder hr
  have hsize := lt_size_of_slot hslot
  intro u hu
  obtain ⟨x, hx, hxtype⟩ := hs u hu
  obtain ⟨r', hr', rfl⟩ := holder?_of_lookup hx
  have hnew : (s.define r v w).holder? f u.id = some r' := by rwa [holder?_define w hslot]
  rw [lookup_of_holder? hnew, slot?_define w hsize]
  by_cases h : r' = r ∧ u.id = v.id
  · rw [if_pos h]
    obtain ⟨y, hy, hytype⟩ := hs v hv
    rw [lookup_of_holder? hr, ← h.1, ← h.2] at hy
    cases hy
    exact ⟨w, rfl, hxtype.unique hytype ▸ hw⟩
  · rw [if_neg h]
    exact ⟨_, rfl, hxtype⟩

end Store

/-! ## Soundness -/

/-- The types of what operators build: values of numbers, truth values and characters, perhaps
    with `null`, and any value. -/
def Ty.IsOperand (t : Ty) : Prop := t.underlying.isSimple ∨ t = .object

/-- An expression that can be evaluated wherever variables have values of their types. It comes
    to a value of its type, or is left by one of the signals. -/
structure Machine.Sound (m : Machine) (site : Site) (Γ : Set Variable) (S : Signal → Prop)
    (e : Expr) : Prop where
  type : e.type.IsOperand
  /-- The only targets of assignments are variables. -/
  target : e.isAssignable → ∃ v ∈ Γ, v.type.isScalar ∧ e = .parameter v
  confined : Confined (·.Holds site.frame Γ) (·.Fits e.type) S (m.evaluate e site)

theorem Ty.isSimple_of_isScalar (h : t.isScalar) : t.isSimple := by
  cases t <;> first | rfl | cases h

theorem Ty.underlying_of_isScalar (h : t.isScalar) : t.underlying = t := by
  cases t <;> first | rfl | cases h

theorem Ty.isOperand_of_isScalar (h : t.isScalar) : t.IsOperand := by
  rw [IsOperand, underlying_of_isScalar h]
  exact .inl (isSimple_of_isScalar h)

theorem Ty.isOperand_lifted (k : NumericKind) (b : Bool) : (lifted k b).IsOperand := by
  cases b <;> exact .inl rfl

theorem Value.Fits.is_scalar {v : Value} (h : v.Fits t) (ht : t.isScalar) : v.Is t := by
  have hv := h.is (by rintro rfl; cases ht)
  rwa [Ty.underlying_of_isScalar ht] at hv

/-- Operands are given another type by a conversion, since there is only one type of references
    among them. -/
theorem Expr.coerce_type {e : Expr} (he : e.type.IsOperand) (ht : t.IsOperand) :
    (e.coerce t).type = t := by
  unfold coerce
  split
  · rename_i h
    rcases h with h | rfl
    · exact h
    · rcases ht with ht | ht <;> cases ht
  split
  · exact e.type_convertTo t
  · rename_i hne href
    have hobject {u : Ty} (hu : u.IsOperand) (href : u.isReference) : u = .object := by
      rcases hu with hu | hu
      · cases u <;> first | exact absurd href Bool.false_ne_true | exact absurd hu Bool.false_ne_true
      · exact hu
    simp only [Bool.or_eq_true, Bool.not_eq_true', decide_eq_true_eq, not_or, Bool.not_eq_false] at href
    exact absurd (.inl ((hobject he href.1.1).trans (hobject ht href.1.2).symm)) hne

namespace Machine

variable {m : Machine} {site : Site} {Γ : Set Variable} {S : Signal → Prop} {e l r x : Expr}
  {t : Ty} {v : Variable} {op : BinaryOp} {n : Nat}

/-! ### Constants, variables and conversions -/

theorem sound_number (n : Number) : m.Sound site Γ S (.number n) where
  type := .inl rfl
  target := nofun
  confined := by
    rw [Expr.number, evaluate]
    exact .pureAt (Value.fits_number n)

theorem sound_bool (b : Bool) : m.Sound site Γ S (.bool b) where
  type := .inl rfl
  target := nofun
  confined := by
    rw [Expr.bool, evaluate]
    exact .pureAt (Value.fits_bool b)

theorem sound_parameter (hv : v ∈ Γ) (hscalar : v.type.isScalar) :
    m.Sound site Γ S (.parameter v) where
  type := Ty.isOperand_of_isScalar hscalar
  target _ := ⟨v, hv, hscalar, rfl⟩
  confined := by
    rw [evaluate, loadVariable]
    refine Confined.readAt.bindAt fun _ hsite => ?_
    subst hsite
    refine .ofRun (.look (fun s w hs hw => ?_) fun s f hs hf => ?_)
    · obtain ⟨x, hx, htype⟩ := hs v hv
      cases hx.symm.trans hw
      exact htype.fits (Ty.isSimple_of_isScalar hscalar)
    · obtain ⟨x, hx, -⟩ := hs v hv
      cases hx.symm.trans hf

/-- A variable is set to a value of its type. -/
theorem confined_storeVariable (hv : v ∈ Γ) (hscalar : v.type.isScalar) {w : Value} (hw : w.Is v.type) :
    Confined (·.Holds site.frame Γ) (fun _ => True) S (storeVariable v w site) := by
  intro s hs
  obtain ⟨x, hx, -⟩ := hs v hv
  obtain ⟨r, hr, -⟩ := Store.holder?_of_lookup hx
  obtain ⟨y, hy, hfits⟩ := (hw.fits (Ty.isSimple_of_isScalar hscalar)).convertTo
  have hrun : storeVariable v w site s = .ok () (s.define r v y) := by
    refine Evaluation.ofRun_of_ok site ?_
    rw [hy]
    change (Run.ofFault (s.holder site.frame v) >>= fun r => modify (·.define r v y)) s = _
    rw [Store.holder, hr]
    rfl
  rw [hrun]
  exact ⟨trivial, hs.define hv hr (hfits.is_scalar hscalar)⟩

theorem sound_convertTo (he : m.Sound site Γ S e) (hb : e.type.Becomes t) (ht : t.IsOperand) :
    m.Sound site Γ S (e.convertTo t) := by
  unfold Expr.convertTo
  split
  · exact he
  · refine ⟨ht, nofun, ?_⟩
    rw [evaluate, converted]
    refine he.confined.bindAt fun v hv => .ofRun (.ofFault (fun w hw => ?_) fun f hf => ?_)
    · obtain ⟨y, hy, hfits⟩ := hb v hv
      cases hy.symm.trans hw
      exact hfits
    · obtain ⟨y, hy, -⟩ := hb v hv
      cases hy.symm.trans hf

theorem sound_coerce (he : m.Sound site Γ S e) (hb : e.type.Becomes t) (ht : t.IsOperand) :
    m.Sound site Γ S (e.coerce t) := by
  unfold Expr.coerce
  split
  · exact he
  split
  · exact sound_convertTo he hb ht
  · exact he

/-! ### Operators -/

theorem binary_of_strict (hop : op ≠ .andAlso ∧ op ≠ .orElse ∧ op ≠ .coalesce)
    (l r : Evaluation Value) (t : Ty) : binary op l r t = (do
      let a ← l
      let b ← r
      Evaluation.ofRun (op.onValues a b t)) := by
  cases op <;> first | rfl | exact absurd hop (by decide)

/-- An operator both of whose operands are evaluated. -/
theorem sound_binary (hop : op ≠ .andAlso ∧ op ≠ .orElse ∧ op ≠ .coalesce)
    (ht : t.IsOperand) (hl : m.Sound site Γ S l) (hr : m.Sound site Γ S r)
    (h : ∀ a b : Value, a.Fits l.type → b.Fits r.type →
      Confined (·.Holds site.frame Γ) (·.Fits t) (fun e => S (.halt e)) (op.onValues a b t)) :
    m.Sound site Γ S (.binary op l r t) := by
  refine ⟨ht, nofun, ?_⟩
  rw [evaluate, binary_of_strict hop]
  exact hl.confined.bindAt fun a ha => hr.confined.bindAt fun b hb => .ofRun (h a b ha hb)

theorem confined_truth (he : m.Sound site Γ S e) (htype : e.type = .bool) :
    Confined (·.Holds site.frame Γ) (fun _ => True) S (truth (m.evaluate e) site) := by
  refine he.confined.bindAt fun v hv => ?_
  obtain ⟨b, rfl⟩ := hv.bool (by rw [htype]; rfl)
  exact .ofRun ((confined_asBool b).imp (fun _ _ => trivial) fun _ h => h)

theorem sound_lazy (hop : op = .andAlso ∨ op = .orElse) (hl : m.Sound site Γ S l)
    (hr : m.Sound site Γ S r) (hltype : l.type = .bool) (hrtype : r.type = .bool) :
    m.Sound site Γ S (.binary op l r .bool) := by
  refine ⟨.inl rfl, nofun, ?_⟩
  have hright : Confined (·.Holds site.frame Γ) (·.Fits .bool) S (m.evaluate r site) := by
    rw [← hrtype]
    exact hr.confined
  rw [evaluate]
  rcases hop with rfl | rfl
  · refine (confined_truth hl hltype).bindAt fun b _ => ?_
    cases b
    · exact .pureAt (Value.fits_bool false)
    · exact hright
  · refine (confined_truth hl hltype).bindAt fun b _ => ?_
    cases b
    · exact hright
    · exact .pureAt (Value.fits_bool true)

/-- The type of a value with a replacement is one that the value can have. -/
theorem becomes_coalesceType {s : Ty} (hs : s.IsOperand) (ht : t.IsOperand) :
    s.Becomes (Expr.coalesceType s t) ∧ (Expr.coalesceType s t).IsOperand := by
  unfold Expr.coalesceType
  split
  · rename_i inner
    have hobject : Ty.nullable inner ≠ .object := by rintro ⟨⟩
    split
    · rename_i h
      exact ⟨Ty.becomes_of_underlying h.symm hobject, ht⟩
    split
    · rcases hs with hs | hs
      · have hinner : inner.underlying = inner := by
          cases inner <;> first | rfl | exact absurd hs Bool.false_ne_true
        refine ⟨Ty.becomes_of_underlying hinner.symm hobject, .inl ?_⟩
        rwa [hinner]
      · cases hs
    · exact ⟨Ty.becomes_self _, hs⟩
  · exact ⟨Ty.becomes_self _, hs⟩

/-- The replacement is not needed, since the value is there. -/
theorem sound_coalesced (hl : m.Sound site Γ S l) (hr : r.type.IsOperand) (x : Expr) :
    m.Sound site Γ S (.binary .coalesce l x (Expr.coalesceType l.type r.type)) := by
  obtain ⟨hbecomes, htype⟩ := becomes_coalesceType hl.type hr
  refine ⟨htype, nofun, ?_⟩
  rw [evaluate]
  refine hl.confined.bindAt fun v hv => ?_
  rw [hv.isNull]
  obtain ⟨w, hw, hfits⟩ := hbecomes v hv
  refine Confined.bindAt (P := (· = v)) (.pureAt rfl) fun u hu => ?_
  subst hu
  rw [hw]
  exact .ofRun (.pure hfits)

section Operators

variable (hzero : S (.halt (.error (.fault (.arith .divisionByZero))))) {op : UnaryOp}

include hzero

theorem sound_joined {op : BinaryOp} (hl : m.Sound site Γ S l) (hr : m.Sound site Γ S r)
    (h : Expr.Joined op l r x) : m.Sound site Γ S x := by
  cases h with
  | text htype =>
    have hne {t : Ty} (ht : t.IsOperand) : t ≠ .string := by
      rintro rfl
      rcases ht with ht | ht <;> cases ht
    exact (htype.elim (hne hl.type) (hne hr.type)).elim
  | @computed arith a b k j c d harith ha hb hkinds =>
    refine sound_binary ?_ (Ty.isOperand_lifted _ _)
      (sound_convertTo hl (Ty.becomes_lifted ha k c) (Ty.isOperand_lifted _ _))
      (sound_convertTo hr (Ty.becomes_lifted hb j d) (Ty.isOperand_lifted _ _)) ?_
    · refine ⟨?_, ?_, ?_⟩ <;> rintro rfl <;> cases harith
    · intro v w hv hw
      rw [Expr.type_convertTo] at hv hw
      obtain ⟨y, rfl, rfl⟩ := hv.lifted
      obtain ⟨z, rfl, rfl⟩ := hw.lifted
      exact confined_onValues hzero harith rfl rfl hkinds _ _
  | @compared a b k c hop ha hb =>
    refine sound_binary ?_ (.inl rfl)
      (sound_convertTo hl (Ty.becomes_lifted ha k c) (Ty.isOperand_lifted _ _))
      (sound_convertTo hr (Ty.becomes_lifted hb k c) (Ty.isOperand_lifted _ _)) ?_
    · refine ⟨?_, ?_, ?_⟩ <;> rintro rfl <;> cases hop
    · intro v w hv hw
      rw [Expr.type_convertTo] at hv hw
      obtain ⟨y, rfl, -⟩ := hv.lifted
      obtain ⟨z, rfl, -⟩ := hw.lifted
      exact confined_compared hop rfl rfl _
  | equated hop =>
    refine sound_binary ?_ (.inl rfl) hl hr fun v w _ _ => confined_equated hop v w _
    rcases hop with rfl | rfl <;> decide
  | @logical t hop hltype hrtype ht =>
    have hbecomes {s : Ty} (hs : s.underlying = .bool) : s.Becomes t :=
      Ty.becomes_of_underlying (hs.trans ht.symm) (by rintro rfl; cases hs)
    have htype : t.IsOperand := .inl (by rw [ht]; rfl)
    refine sound_binary ?_ htype (sound_convertTo hl (hbecomes hltype) htype)
      (sound_convertTo hr (hbecomes hrtype) htype) fun v w hv hw => ?_
    · rcases hop with rfl | rfl | rfl <;> decide
    · rw [Expr.type_convertTo] at hv hw
      obtain ⟨y, rfl⟩ := hv.bool ht
      obtain ⟨z, rfl⟩ := hw.bool ht
      exact confined_logical hop y z ht
  | lazy hop hltype hrtype => exact sound_lazy hop hl hr hltype hrtype
  | coalesced hop _ =>
    subst hop
    exact sound_coalesced hl hr.type _

/-- Counting a variable on. -/
theorem sound_mutation (hop : op.isMutation) (he : m.Sound site Γ S e)
    {k : NumericKind} (hkind : e.type.operandKind? = some k) (htarget : e.isAssignable) :
    m.Sound site Γ S (.unary op e e.type) := by
  obtain ⟨v, hv, hscalar, rfl⟩ := he.target htarget
  obtain ⟨j, hj⟩ : ∃ j, v.type = .numeric j := by
    rcases Ty.isScalar_iff.1 hscalar with h | h
    · exact h
    · rw [Expr.type, h] at hkind
      cases hkind
  refine ⟨he.type, nofun, ?_⟩
  rw [evaluate, if_pos hop]
  refine he.confined.bindAt fun old hold => ?_
  have hnumber : old.Is (.numeric j) := hj ▸ hold.is_scalar hscalar
  refine Confined.bindAt (P := (·.Is v.type)) (.ofRun ?_) fun new hnew => ?_
  · rw [Expr.type, hj]
    exact confined_stepped hzero op hnumber
  rw [store]
  refine (confined_storeVariable hv hscalar hnew).bindAt fun _ _ => .pureAt ?_
  split
  · exact hold
  · exact hnew.fits (Ty.isSimple_of_isScalar hscalar)

omit hzero

theorem sound_sign {k : NumericKind}
    (hop : op = .negate ∨ op = .plus ∨ op = .complement ∧ k.isIntegral) (he : m.Sound site Γ S e)
    {a : NumericKind} (hkind : e.type.operandKind? = some a) (c : Bool) :
    m.Sound site Γ S (.unary op (e.convertTo (.lifted k c)) (.lifted k c)) := by
  refine ⟨Ty.isOperand_lifted k c, nofun, ?_⟩
  have hmutation : op.isMutation = false := by rcases hop with rfl | rfl | ⟨rfl, -⟩ <;> rfl
  have hconvert := sound_convertTo he (Ty.becomes_lifted hkind k c) (Ty.isOperand_lifted k c)
  rw [evaluate, hmutation, if_neg Bool.false_ne_true]
  refine hconvert.confined.bindAt fun v hv => .ofRun ?_
  rw [Expr.type_convertTo] at hv
  obtain ⟨n, rfl, -⟩ := hv.lifted
  exact confined_onValue hop n c

theorem sound_not (he : m.Sound site Γ S e) (htype : e.type.underlying = .bool) :
    m.Sound site Γ S (.unary .not e e.type) := by
  refine ⟨he.type, nofun, ?_⟩
  rw [evaluate, if_neg (by decide)]
  refine he.confined.bindAt fun v hv => .ofRun ?_
  obtain ⟨b, rfl⟩ := hv.bool htype
  exact (confined_asBool b).bind fun c _ => .pure ⟨.bool, rfl, Value.is_bool _, .inl htype⟩

include hzero in
theorem sound_unary (he : m.Sound site Γ S e)
    (h : Expr.applyUnary op e n = .ok x) : m.Sound site Γ S x := by
  unfold Expr.applyUnary at h
  dsimp only at h
  split at h
  · cases h
    exact sound_sign (.inl rfl) he ‹_› _
  · cases h
    exact sound_sign (.inr (.inl rfl)) he ‹_› _
  · split at h
    · cases h
      exact sound_not he ‹_›
    · cases h
  · cases h
    exact sound_sign (.inr (.inr ⟨rfl, rfl⟩)) he ‹_› _
  · split at h
    · rename_i hrank
      have htype := he.type
      rw [hrank] at htype
      rcases htype with htype | htype <;> cases htype
    · cases h
  iterate 4
    split at h
    · cases h
      exact sound_mutation hzero rfl he ‹_› ‹_›
    · cases h
  cases h

end Operators

/-! ### Casts, conditionals and assignments -/

/-- A cast is a conversion that gives a value of the type, or one of a number to a character. -/
theorem becomes_of_castable {s : Ty} (hs : s.IsOperand) (hobject : s = .object → t = .object)
    (h : Expr.castable s t) : t.IsOperand ∧
      (s.Becomes t ∨ t.underlying = .char ∧ s.underlying ≠ .char ∧ ∃ k, s.operandKind? = some k) := by
  by_cases hobj : t = .object
  · subst hobj
    exact ⟨.inr rfl, .inl (Ty.becomes_object s)⟩
  have hne : s ≠ .object := fun h => hobj (hobject h)
  have hsimple : s.underlying.isSimple := hs.resolve_right hne
  by_cases heq : s.underlying = t.underlying
  · exact ⟨.inl (heq ▸ hsimple), .inl (Ty.becomes_of_underlying heq hne)⟩
  have hreference : s.isReference = false := by
    cases s <;> first | rfl | exact absurd hsimple Bool.false_ne_true
  have hnull : s ≠ .null := by rintro rfl; cases hreference
  have heq' : s ≠ t := fun h => heq (congrArg _ h)
  simp only [Expr.castable, heq, heq', hne, hobj, hnull, hreference, decide_false, Bool.false_or,
    Bool.false_and, Bool.or_false, Bool.and_eq_true, Option.isSome_iff_exists] at h
  obtain ⟨⟨a, ha⟩, b, hb⟩ := h
  unfold Ty.operandKind? at hb
  split at hb
  · rename_i k hk
    have hlifted : ∃ c, t = .lifted k c := by
      cases t with
      | numeric j =>
        cases hk
        exact ⟨false, rfl⟩
      | nullable u =>
        cases hk
        exact ⟨true, rfl⟩
      | _ => cases hk
    obtain ⟨c, rfl⟩ := hlifted
    exact ⟨Ty.isOperand_lifted k c, .inl (Ty.becomes_lifted ha k c)⟩
  · rename_i hk
    exact ⟨.inl (hk ▸ rfl), .inr ⟨hk, fun h => heq (h.trans hk.symm), a, ha⟩⟩
  · cases hb

theorem sound_cast (he : m.Sound site Γ S e) (hobject : e.type = .object → t = .object)
    (hchar : t.underlying = .char → e.type.underlying ≠ .char →
      ∀ code, S (.halt (.error (.fault (.charCode code)))))
    (h : Expr.cast e t n = .ok x) : m.Sound site Γ S x := by
  unfold Expr.cast at h
  split at h
  · cases h
    obtain ⟨ht, hbecomes | ⟨htchar, hechar, k, hk⟩⟩ := becomes_of_castable he.type hobject ‹_›
    · exact sound_convertTo he hbecomes ht
    · have hne : e.type ≠ t := by rintro rfl; exact hechar htchar
      rw [Expr.convertTo, if_neg hne]
      refine ⟨ht, nofun, ?_⟩
      rw [evaluate, converted]
      refine he.confined.bindAt fun v hv => .ofRun ?_
      obtain ⟨a, ha, -⟩ := hv.number? hk
      rcases Value.convertTo_char ha htchar with ⟨c, hc⟩ | ⟨code, hc⟩
      · rw [hc]
        exact .pure ⟨.char, rfl, Value.is_char c, .inl htchar⟩
      · rw [hc]
        exact .fault (hchar htchar hechar code)
  · cases h

theorem becomes_of_conditionalType {s u : Ty} (hs : s.IsOperand) (ht : t.IsOperand)
    (h : Expr.conditionalType? s t = some u) : u.IsOperand ∧ s.Becomes u ∧ t.Becomes u := by
  have hnull {t : Ty} (ht : t.IsOperand) : t ≠ .null := by
    rintro rfl
    rcases ht with ht | ht <;> cases ht
  unfold Expr.conditionalType? at h
  split at h
  · rename_i heq
    cases h
    exact ⟨hs, Ty.becomes_self s, heq ▸ Ty.becomes_self s⟩
  split at h
  · rename_i a b ha hb
    cases h
    exact ⟨Ty.isOperand_lifted _ _, Ty.becomes_lifted ha _ _, Ty.becomes_lifted hb _ _⟩
  · rw [if_neg (hnull hs), if_neg (hnull ht)] at h
    split at h
    · cases h
      exact ⟨.inr rfl, Ty.becomes_object s, Ty.becomes_object t⟩
    · cases h

theorem sound_choose {a b : Expr} (he : m.Sound site Γ S e) (ha : m.Sound site Γ S a)
    (hb : m.Sound site Γ S b) (h : Expr.choose e a b n = .ok x) : m.Sound site Γ S x := by
  unfold Expr.choose at h
  split at h
  · cases h
  rename_i htest
  split at h
  · rename_i u hu
    cases h
    obtain ⟨htype, hleft, hright⟩ := becomes_of_conditionalType ha.type hb.type hu
    have hac := (sound_coerce ha hleft htype).confined
    have hbc := (sound_coerce hb hright htype).confined
    rw [Expr.coerce_type ha.type htype] at hac
    rw [Expr.coerce_type hb.type htype] at hbc
    refine ⟨htype, Bool.noConfusion, ?_⟩
    rw [evaluate]
    refine (confined_truth he (of_not_not htest)).bindAt fun c _ => ?_
    cases c
    · exact hbc
    · exact hac
  · cases h

/-- What is wanted as a number or a truth value. -/
theorem sound_coerced {d : Directory} (hd : d.catalog.IsClassed)
    (he : m.Sound site Γ S e) (ht : t.isScalar) (h : d.coerce e t n = .ok x) :
    m.Sound site Γ S x ∧ x.type = t := by
  have htype := Ty.isOperand_of_isScalar ht
  unfold Directory.coerce at h
  split at h
  · rename_i c hc
    cases h
    unfold Expr.constantAs? at hc
    split at hc
    · rename_i a k ha hk
      rw [Ty.underlying_of_isScalar ht] at hk
      subst hk
      obtain ⟨-, hc⟩ := Option.ite_none_right_eq_some.1 hc
      obtain ⟨b, hb, rfl⟩ := Option.map_eq_some_iff.1 hc
      obtain ⟨-, rfl⟩ : _ ∧ a.convert k = b := by
        rw [Number.lossless?, Option.ite_none_right_eq_some, Option.some.injEq] at hb
        exact hb
      have heq : (Expr.number (a.convert k)).type = .numeric k :=
        congrArg Ty.numeric (Number.kind_convert a k)
      rw [Expr.coerce, if_pos (.inl heq)]
      exact ⟨sound_number _, heq⟩
    · cases hc
  · split at h
    · rename_i hdistance
      cases h
      have hvoid : t ≠ .void := by rintro rfl; cases ht
      have hbecomes : e.type.Becomes t := by
        rcases Directory.distance_scalar hd ht (hdistance.resolve_left hvoid) with heq | hwidens
        · exact heq ▸ Ty.becomes_self _
        · obtain ⟨k, rfl⟩ : ∃ k, t = .numeric k := by
            rcases Ty.isScalar_iff.1 ht with h | rfl
            · exact h
            · cases htype' : e.type <;> rw [htype'] at hwidens <;> cases hwidens
          have hkind : ∃ a, e.type.operandKind? = some a := by
            cases htype' : e.type with
            | numeric a => exact ⟨a, rfl⟩
            | char => exact ⟨_, rfl⟩
            | _ =>
              rw [htype'] at hwidens
              cases hwidens
          obtain ⟨a, ha⟩ := hkind
          exact Ty.becomes_numeric ha k
      exact ⟨sound_coerce he hbecomes htype, Expr.coerce_type he.type htype⟩
    · cases h

theorem sound_assign (hv : v ∈ Γ) (hscalar : v.type.isScalar) (hx : m.Sound site Γ S x)
    (htype : x.type = v.type) : m.Sound site Γ S (.assignTo (.parameter v) x) := by
  refine ⟨Ty.isOperand_of_isScalar hscalar, nofun, ?_⟩
  have hassign : Expr.assignTo (.parameter v) x = .assign (.parameter v) x v.type := by
    rw [Expr.assignTo, Expr.type, Expr.coerce, if_pos (.inl htype)]
  rw [hassign, evaluate]
  refine hx.confined.bindAt fun w hw => ?_
  rw [htype] at hw
  rw [store]
  exact (confined_storeVariable hv hscalar (hw.is_scalar hscalar)).bindAt fun _ _ => .pureAt hw

end Machine

/-! ## Expressions made of operators -/

/-- The expressions that operators, casts, conditionals and assignments build, where they can,
    from numbers, truth values and variables of their types. Casts are limited to those between
    some types. -/
inductive Expr.Operated (d : Directory) (Γ : Set Variable) (casts : Ty → Ty → Prop) : Expr → Prop
  | number (n : Number) : Operated d Γ casts (.number n)
  | bool (b : Bool) : Operated d Γ casts (.bool b)
  | parameter {v : Variable} : v ∈ Γ → v.type.isScalar → Operated d Γ casts (.parameter v)
  | binary {op : BinaryOp} {l r x : Expr} {offset : Nat} : Operated d Γ casts l →
      Operated d Γ casts r → applyBinary op l r offset = .ok x → Operated d Γ casts x
  | unary {op : UnaryOp} {e x : Expr} {offset : Nat} : Operated d Γ casts e →
      applyUnary op e offset = .ok x → Operated d Γ casts x
  | cast {e x : Expr} {t : Ty} {offset : Nat} : Operated d Γ casts e → casts e.type t →
      cast e t offset = .ok x → Operated d Γ casts x
  | choose {test a b x : Expr} {offset : Nat} : Operated d Γ casts test → Operated d Γ casts a →
      Operated d Γ casts b → choose test a b offset = .ok x → Operated d Γ casts x
  | assign {v : Variable} {e x : Expr} {offset : Nat} : v ∈ Γ → v.type.isScalar →
      Operated d Γ casts e → d.coerce e v.type offset = .ok x →
      Operated d Γ casts (.assignTo (.parameter v) x)

/-- The faults of such expressions. A number need not be the code of a character, so there is
    another one where numbers may be cast to characters. -/
def Fault.IsOperated (casts : Ty → Ty → Prop) (f : Fault) : Prop :=
  (f = .arith .divisionByZero ∧ f.message = "Attempted to divide by zero.") ∨
    (∃ code, f = .charCode code) ∧ ∃ s t, casts s t ∧ t.underlying = .char ∧ s.underlying ≠ .char

theorem Expr.Operated.sound {d : Directory} (hd : d.catalog.IsClassed) {Γ : Set Variable}
    {casts : Ty → Ty → Prop} (hcasts : ∀ t, casts .object t → t = .object) (m : Machine) (site : Site)
    {e : Expr} (he : e.Operated d Γ casts) :
    m.Sound site Γ (fun signal => ∃ f, signal = .halt (.error (.fault f)) ∧ f.IsOperated casts) e := by
  have hzero : ∃ f, Signal.halt (.error (.fault (.arith .divisionByZero))) =
      .halt (.error (.fault f)) ∧ f.IsOperated casts := ⟨_, rfl, .inl ⟨rfl, rfl⟩⟩
  induction he with
  | number n => exact Machine.sound_number n
  | bool b => exact Machine.sound_bool b
  | parameter hv hscalar => exact Machine.sound_parameter hv hscalar
  | binary _ _ h hl hr => exact Machine.sound_joined hzero hl hr (joined_of_applyBinary h)
  | unary _ h he => exact Machine.sound_unary hzero he h
  | @cast e x t _ _ hcast h he =>
    refine Machine.sound_cast he (fun hobject => hcasts t (hobject ▸ hcast)) ?_ h
    intro htchar hechar code
    exact ⟨_, rfl, .inr ⟨⟨code, rfl⟩, _, t, hcast, htchar, hechar⟩⟩
  | choose _ _ _ h htest ha hb => exact Machine.sound_choose htest ha hb h
  | assign hv hscalar _ h he =>
    obtain ⟨hx, htype⟩ := Machine.sound_coerced hd he hscalar h
    exact Machine.sound_assign hv hscalar hx htype

namespace Machine

/-- Type soundness: where variables have values of their types, an expression made of operators
    comes to a value of its type or faults by a division by zero, or by a cast of a number to a
    character if such casts may be there, and the variables have values of their types afterwards.
    No cast may lead from any value back to a type, since it is not checked. -/
theorem evaluate_operated {d : Directory} (hd : d.catalog.IsClassed) {Γ : Set Variable}
    {casts : Ty → Ty → Prop} (hcasts : ∀ t, casts .object t → t = .object) (m : Machine) (site : Site)
    {e : Expr} (he : e.Operated d Γ casts) {s : Store} (hs : s.Holds site.frame Γ) :
    (∃ v s', m.evaluate e site s = .ok v s' ∧ v.Fits e.type ∧ s'.Holds site.frame Γ) ∨
    ∃ f s', m.evaluate e site s = .error (.halt (.error (.fault f))) s' ∧ f.IsOperated casts ∧
      s'.Holds site.frame Γ := by
  have hrun := (he.sound hd hcasts m site).confined s hs
  cases hresult : m.evaluate e site s with
  | ok v s' =>
    rw [hresult] at hrun
    exact .inl ⟨v, s', rfl, hrun⟩
  | error signal s' =>
    rw [hresult] at hrun
    obtain ⟨⟨f, rfl, hf⟩, hs'⟩ := hrun
    exact .inr ⟨f, s', rfl, hf, hs'⟩

/-- For `x` equal to one, `(byte)(x++ / (x - 2))` divides by zero, and `x` is two afterwards. -/
theorem evaluate_operated_counting : ∃ (x : Variable) (e : Expr) (s : Store),
    e.Operated (Engine.directory {}) {x} (fun s _ => s ≠ .object) ∧ s.Holds 0 {x} ∧
    ∃ f s', (Engine.machine {} .none).evaluate e { frame := 0 } s = .error (.halt (.error (.fault f))) s' ∧
      f.IsOperated (fun s _ => s ≠ .object) ∧ s'.Holds 0 {x} := by
  let x : Expr := .parameter ⟨0, "x", .int⟩
  let counted : Expr := .unary .postIncrement x .int
  let less : Expr := .binary .subtract x (.number (.int 2)) .int
  have hcounted : Expr.applyUnary .postIncrement x 0 = .ok counted := rfl
  have hless : Expr.applyBinary .subtract x (.number (.int 2)) 0 = .ok less := rfl
  have hdivide : Expr.applyBinary .divide counted less 0 = .ok (.binary .divide counted less .int) := rfl
  have hcast : Expr.cast (.binary .divide counted less .int) .byte 0 =
    .ok (.convert (.binary .divide counted less .int) .byte) := rfl
  have hx : x.Operated (Engine.directory {}) {⟨0, "x", .int⟩} (fun s _ => s ≠ .object) :=
    .parameter rfl rfl
  have he := Expr.Operated.cast (.binary (.unary hx hcounted) (.binary hx (.number _) hless) hdivide)
    (by decide) hcast
  have hs : ({ frames := #[⟨[(0, .number (.int 1))], none⟩] } : Store).Holds 0 {⟨0, "x", .int⟩} := by
    rintro v rfl
    exact ⟨_, rfl, fun _ => rfl⟩
  refine ⟨_, _, _, he, hs, ?_⟩
  rcases evaluate_operated isClassed_standard (fun t h => absurd rfl h) (Engine.machine {} .none) { frame := 0 }
    he hs with ⟨v, s', h, -⟩ | h
  · cases h
  · exact h

/-- Every expression made of operators with these casts comes to a value of its type, unless it
    divides by zero. -/
def OperatesWith (casts : Ty → Ty → Prop) (m : Machine) : Prop :=
  ∀ (Γ : Set Variable) (e : Expr) (s : Store), e.Operated (Engine.directory {}) Γ casts →
    s.Holds 0 Γ →
    (∃ v s', m.evaluate e { frame := 0 } s = .ok v s' ∧ v.Fits e.type ∧ s'.Holds 0 Γ) ∨
    ∃ s', m.evaluate e { frame := 0 } s =
      .error (.halt (.error (.fault (.arith .divisionByZero)))) s' ∧ s'.Holds 0 Γ

/-- With all casts this fails: there is no character with the code `1114177`. Without casts to
    characters it fails too: the number one stays a number in `(bool)(object)x`. -/
theorem not_operatesWith_casts :
    ¬(Engine.machine {} .none).OperatesWith (fun _ _ => True) ∧
    ¬(Engine.machine {} .none).OperatesWith (fun _ t => t.underlying ≠ .char) := by
  let v : Variable := ⟨0, "x", .int⟩
  have hs (n : BitVec 32) :
      ({ frames := #[⟨[(0, .number (.integral .int n))], none⟩] } : Store).Holds 0 {v} := by
    rintro u rfl
    exact ⟨_, rfl, fun _ => rfl⟩
  refine ⟨fun h => ?_, fun h => ?_⟩
  · have hcast : Expr.cast (.parameter v) .char 0 = .ok (.convert (.parameter v) .char) := rfl
    rcases h {v} _ _ (.cast (.parameter rfl rfl) trivial hcast) (hs 1114177) with
      ⟨w, s', h, -⟩ | ⟨s', h, -⟩
    · cases h
    · cases h
  · have hcast : Expr.cast (.parameter v) .object 0 = .ok (.convert (.parameter v) .object) := rfl
    have hback : Expr.cast (.convert (.parameter v) .object) .bool 0 =
      .ok (.convert (.convert (.parameter v) .object) .bool) := rfl
    rcases h {v} _ _ (.cast (.cast (.parameter rfl rfl) (by decide) hcast) (by decide) hback) (hs 1) with
      ⟨w, s', h, hfits, -⟩ | ⟨s', h, -⟩
    · cases h
      obtain ⟨b, hb⟩ := hfits.bool rfl
      cases hb
    · cases h

end Machine

end Scriptlet

import Scriptlet.Proofs.Evaluation.Confined
import Scriptlet.Proofs.Reading.Legible

/-!
# Operators on values of their types

A value fits a type (`Value.Fits`) if it is of that type, or of the type without `null`, or
if any value will do. Conversions between types of numbers, and to the type that a value is
of already, give a value that fits (`Ty.Becomes`). Each operator, on values that fit the types
it is built for, gives a value that fits the type of its result; where it does not, it
divides by zero. This is said by one lemma for each family of operators: those that compute
(`confined_onValues`), those that compare (`confined_compared`), those on truth values
(`confined_logical`), signs (`confined_onValue`) and counting on (`confined_stepped`).
-/

namespace Scriptlet

variable {n : Number} {k : NumericKind}

/-! ## Types of values -/

/-- The types whose values are complete in themselves, strings left out. -/
def Ty.isSimple : Ty → Bool
  | numeric _ | bool | char => true
  | _ => false

namespace Value

/-- A value that is of a type whatever the store is. -/
def Is (v : Value) (t : Ty) : Prop := ∀ s : Store, s.runtimeType? v = some t

/-- A value for an expression of a type: a value of that type. Where it might be missing, it is
    there; an object is any simple value. -/
def Fits (v : Value) (t : Ty) : Prop := ∃ u : Ty, u.isSimple ∧ v.Is u ∧ (t.underlying = u ∨ t = .object)

variable {v w : Value} {t : Ty} {k : NumericKind}

theorem is_number (n : Number) : (number n).Is (.numeric n.kind) := fun _ => rfl

theorem is_bool (b : Bool) : (bool b).Is .bool := fun _ => rfl

theorem is_char (c : Char) : (char c).Is .char := fun _ => rfl

theorem Is.number (h : v.Is (.numeric k)) : ∃ n : Number, v = .number n ∧ n.kind = k := by
  have hv := h {}
  cases v with
  | number n =>
    cases hv
    exact ⟨n, rfl, rfl⟩
  | _ => cases hv

theorem Is.bool (h : v.Is .bool) : ∃ b, v = .bool b := by
  have hv := h {}
  cases v with
  | bool b => exact ⟨b, rfl⟩
  | _ => cases hv

theorem Is.char (h : v.Is .char) : ∃ c, v = .char c := by
  have hv := h {}
  cases v with
  | char c => exact ⟨c, rfl⟩
  | _ => cases hv

/-- A value is of one type only. -/
theorem Is.unique {u : Ty} (h : v.Is t) (h' : v.Is u) : t = u :=
  Option.some.inj ((h {}).symm.trans (h' {}))

theorem Is.fits (h : v.Is t) (ht : t.isSimple) : v.Fits t := by
  refine ⟨t, ht, h, .inl ?_⟩
  cases t <;> first | rfl | cases ht

/-- An expression that is not an object comes to a value of its own type. -/
theorem Fits.is (h : v.Fits t) (ht : t ≠ .object) : v.Is t.underlying := by
  obtain ⟨u, -, hu, rfl | rfl⟩ := h
  · exact hu
  · exact absurd rfl ht

theorem fits_number (n : Number) : (number n).Fits (.numeric n.kind) := (is_number n).fits rfl

theorem fits_bool (b : Bool) : (bool b).Fits .bool := (is_bool b).fits rfl

theorem fits_lifted (n : Number) (b : Bool) : (number n).Fits (Ty.lifted n.kind b) := by
  refine ⟨.numeric n.kind, rfl, is_number n, .inl ?_⟩
  cases b <;> rfl

/-- Where an operator takes numbers, the value is one. -/
theorem Fits.number? (h : v.Fits t) (ht : t.operandKind? = some k) :
    ∃ n, v.number? = some n ∧ n.kind = k := by
  have hobject : t ≠ .object := by rintro rfl; cases ht
  have hv := h.is hobject
  unfold Ty.operandKind? at ht
  split at ht
  · rename_i k' hk
    cases ht
    rw [hk] at hv
    obtain ⟨n, rfl, rfl⟩ := hv.number
    exact ⟨n, rfl, rfl⟩
  · rename_i hk
    cases ht
    rw [hk] at hv
    obtain ⟨c, rfl⟩ := hv.char
    exact ⟨_, rfl, rfl⟩
  · cases ht

theorem Fits.lifted {c : Bool} (h : v.Fits (Ty.lifted k c)) : ∃ n, v = .number n ∧ n.kind = k := by
  have hv := h.is (by cases c <;> nofun)
  cases c <;> exact hv.number

/-- Where an operator takes truth values, the value is one. -/
theorem Fits.bool (h : v.Fits t) (ht : t.underlying = .bool) : ∃ b, v = .bool b := by
  have hobject : t ≠ .object := by rintro rfl; cases ht
  have hv := h.is hobject
  rw [ht] at hv
  exact hv.bool

/-- No value is missing. -/
theorem Fits.isNull (h : v.Fits t) : v.isNull = false := by
  obtain ⟨u, hu, hv, -⟩ := h
  cases v with
  | null => cases hv {}
  | _ => rfl

/-! ### Conversions -/

theorem convertTo_nullable (v : Value) (t : Ty) : v.convertTo (.nullable t) = v.convertTo t := rfl

/-- Numbers are converted to numbers of every kind. -/
theorem convertTo_lifted (h : v.number? = some n) (k : NumericKind) (b : Bool) :
    ∃ m : Number, m.kind = k ∧ v.convertTo (Ty.lifted k b) = .ok (.number m) := by
  have hlifted : v.convertTo (Ty.lifted k b) = v.convertPlain (.numeric k) := by cases b <;> rfl
  rw [hlifted]
  cases v with
  | number n => exact ⟨_, Number.kind_convert n k, rfl⟩
  | char c => exact ⟨_, Number.kind_convert (.ofInt .uint c.toNat) k, rfl⟩
  | _ => cases h

/-- A value is converted to its own type, also where a value may be missing. -/
theorem Is.convertTo {u : Ty} (h : v.Is u) (hu : u.isSimple) (ht : t.underlying = u ∨ t = .object) :
    ∃ w, v.convertTo t = .ok w ∧ w.Fits t := by
  have hplain : ∃ w, v.convertPlain u = .ok w ∧ w.Is u := by
    cases u with
    | numeric k =>
      obtain ⟨n, rfl, rfl⟩ := h.number
      exact ⟨_, rfl, fun _ => congrArg (some ∘ Ty.numeric) (Number.kind_convert n n.kind)⟩
    | bool =>
      obtain ⟨b, rfl⟩ := h.bool
      exact ⟨_, rfl, is_bool b⟩
    | char =>
      obtain ⟨c, rfl⟩ := h.char
      exact ⟨_, rfl, is_char c⟩
    | _ => cases hu
  obtain ⟨w, hw, his⟩ := hplain
  rcases ht with rfl | rfl
  · refine ⟨w, ?_, _, hu, his, .inl rfl⟩
    cases t with
    | nullable t =>
      rw [← hw, convertTo_nullable]
      cases t <;> first | rfl | cases hu
    | _ => exact hw
  · exact ⟨v, rfl, u, hu, h, .inr rfl⟩

theorem Fits.convertTo (h : v.Fits t) : ∃ w, v.convertTo t = .ok w ∧ w.Fits t := by
  obtain ⟨u, hu, hv, ht⟩ := h
  exact hv.convertTo hu ht

/-- A number is converted to a character unless there is none with its code. -/
theorem convertTo_char (h : v.number? = some n) (ht : t.underlying = .char) :
    (∃ c, v.convertTo t = .ok (.char c)) ∨ ∃ code, v.convertTo t = .error (.charCode code) := by
  have hplain : v.convertTo t = v.convertPlain .char := by
    cases t with
    | nullable u =>
      cases ht
      rfl
    | char => rfl
    | _ => cases ht
  rw [hplain]
  cases v with
  | number n =>
    change (∃ c, charOf _ = _) ∨ ∃ code, charOf _ = _
    unfold charOf
    split
    · exact .inl ⟨_, rfl⟩
    · exact .inr ⟨_, rfl⟩
  | char c => exact .inl ⟨c, rfl⟩
  | _ => cases h

end Value

/-- Values for the first type are converted to values for the second. -/
def Ty.Becomes (s t : Ty) : Prop := ∀ v : Value, v.Fits s → ∃ w, v.convertTo t = .ok w ∧ w.Fits t

namespace Ty

variable {s t : Ty}

theorem becomes_lifted {a : NumericKind} (h : s.operandKind? = some a) (k : NumericKind) (b : Bool) :
    s.Becomes (lifted k b) := by
  intro v hv
  obtain ⟨n, hn, -⟩ := hv.number? h
  obtain ⟨m, rfl, hm⟩ := Value.convertTo_lifted hn k b
  exact ⟨_, hm, Value.fits_lifted m b⟩

theorem becomes_numeric {a : NumericKind} (h : s.operandKind? = some a) (k : NumericKind) :
    s.Becomes (numeric k) := becomes_lifted h k false

theorem becomes_object (s : Ty) : s.Becomes object := by
  rintro v ⟨u, hu, hv, -⟩
  exact ⟨v, rfl, u, hu, hv, .inr rfl⟩

/-- Between a type and the same type with `null`. -/
theorem becomes_of_underlying (h : s.underlying = t.underlying) (hs : s ≠ object) : s.Becomes t := by
  rintro v ⟨u, hu, hv, rfl | rfl⟩
  · exact hv.convertTo hu (.inl h.symm)
  · exact absurd rfl hs

theorem becomes_self (s : Ty) : s.Becomes s := fun _ hv => hv.convertTo

end Ty

/-! ## Arithmetic -/

/-- Whether an operator computes with the digits of integers. -/
def Arith.isBitwise : Arith → Bool
  | and | or | exclusiveOr | leftShift | rightShift => true
  | _ => false

namespace Number

variable {op : Arith} {a b : Number} {f : ArithFault}

theorem divisionByZero_of_integralOp {k : IntKind} {x y : BitVec k.width}
    (hop : op ≠ .power ∧ op ≠ .leftShift ∧ op ≠ .rightShift)
    (h : integralOp op k x y = .error f) : f = .divisionByZero := by
  cases op with
  | divide | modulo =>
    unfold integralOp at h
    dsimp only at h
    split at h
    · cases h
      rfl
    · cases h
  | power | leftShift | rightShift => exact absurd hop (by decide)
  | _ => cases h

theorem exists_doubleOp (hop : op.isBitwise = false ∧ op ≠ .power) (x y : Float) :
    ∃ z, doubleOp op x y = .ok z := by
  cases op <;> first | exact ⟨_, rfl⟩ | exact absurd hop (by decide)

theorem exists_singleOp (hop : op.isBitwise = false ∧ op ≠ .power) (x y : Float32) :
    ∃ z, singleOp op x y = .ok z := by
  cases op <;> first | exact ⟨_, rfl⟩ | exact absurd hop (by decide)

theorem divisionByZero_of_binaryIn (hk : op.isBitwise → k.isIntegral)
    (hop : op ≠ .power ∧ op ≠ .leftShift ∧ op ≠ .rightShift) (h : binaryIn op a b k = .error f) :
    f = .divisionByZero := by
  cases k with
  | integral k =>
    rw [binaryIn] at h
    cases hx : integralOp op k (a.bitsIn k) (b.bitsIn k) with
    | ok x => rw [hx] at h; cases h
    | error e =>
      rw [hx] at h
      cases h
      exact divisionByZero_of_integralOp hop hx
  | floating k =>
    have hfloat : op.isBitwise = false ∧ op ≠ .power :=
      ⟨Bool.eq_false_iff.2 fun hb => Bool.false_ne_true (hk hb), hop.1⟩
    obtain ⟨x, hx⟩ := exists_singleOp hfloat a.unpack.toSingle b.unpack.toSingle
    obtain ⟨y, hy⟩ := exists_doubleOp hfloat a.toDouble b.toDouble
    cases k with
    | float => rw [binaryIn, hx] at h; cases h
    | double => rw [binaryIn, hy] at h; cases h
    | decimal =>
      rw [binaryIn] at h
      split at h
      · cases h
        rfl
      · rw [hy] at h
        cases h

theorem exists_shift (left : Bool) (ha : a.kind.isIntegral) (hb : b.kind.isIntegral) :
    ∃ n, shift left a b = .ok n := by
  cases b with
  | integral j y => cases a <;> first | exact ⟨_, rfl⟩ | cases ha
  | _ => cases hb

theorem exists_complement (h : a.kind.isIntegral) : ∃ n, a.complement? = some n := by
  have hkind : (a.convert a.kind.promoteUnary).kind.isIntegral := by
    rw [kind_convert]
    cases a <;> first | rfl | cases h
  unfold complement?
  cases hn : a.convert a.kind.promoteUnary with
  | integral k bits => exact ⟨_, rfl⟩
  | _ =>
    rw [hn] at hkind
    cases hkind

/-- Where the digits of numbers are computed with only if they are integers, the division by
    zero is the only fault. -/
theorem divisionByZero_of_binary
    (hkinds : op.isBitwise → a.kind.isIntegral ∧ b.kind.isIntegral)
    (h : Number.binary op a b = .error f) : f = .divisionByZero := by
  have hkind : op.isBitwise → (a.kind.promote b.kind).isIntegral := by
    intro hop
    exact NumericKind.isIntegral_promote (hkinds hop).1 (hkinds hop).2
  cases op with
  | power => cases h
  | leftShift =>
    obtain ⟨n, hn⟩ := exists_shift true (hkinds rfl).1 (hkinds rfl).2
    cases hn.symm.trans h
  | rightShift =>
    obtain ⟨n, hn⟩ := exists_shift false (hkinds rfl).1 (hkinds rfl).2
    cases hn.symm.trans h
  | _ => exact divisionByZero_of_binaryIn hkind (by decide) h

end Number

/-! ## Operators on values -/

section OnValues

variable {I : Store → Prop} {H : Halt → Prop} {op : BinaryOp}

theorem confined_asNumber {v : Value} (h : v.number? = some n) :
    Confined I (· = n) H (Run.look (·.asNumber v)) := by
  have hv (s : Store) : s.asNumber v = .ok n := by
    rw [Store.asNumber, h]
    rfl
  refine .look (fun s a _ ha => ?_) fun s e _ he => ?_
  · cases (hv s).symm.trans ha
    rfl
  · cases (hv s).symm.trans he

theorem confined_asBool (b : Bool) : Confined I (· = b) H (Run.look (·.asBool (.bool b))) := by
  refine .look (fun s a _ ha => ?_) fun s e _ he => ?_
  · cases ha
    rfl
  · cases he

variable (hzero : H (.error (.fault (.arith .divisionByZero))))

include hzero

theorem confined_ofArith {x : Except ArithFault Number} (h : ∀ f, x = .error f → f = .divisionByZero) :
    Confined I (fun _ => True) H (Run.ofArith x) := by
  cases x with
  | ok n => exact .pure trivial
  | error f =>
    obtain rfl := h f rfl
    exact .fault hzero

/-- An operator that computes, on two numbers. -/
theorem confined_onValues {arith : Arith} (harith : op.arith? = some arith)
    {l r : Value} {a b : Number} (hl : l = .number a) (hr : r = .number b)
    (hkinds : arith.isBitwise → a.kind.isIntegral ∧ b.kind.isIntegral) (k : NumericKind) (c : Bool) :
    Confined I (·.Fits (Ty.lifted k c)) H (op.onValues l r (Ty.lifted k c)) := by
  subst hl hr
  have hstring : Ty.lifted k c ≠ .string := by cases c <;> nofun
  have hkind : (Ty.lifted k c).resultKind? = some k := by cases c <;> rfl
  obtain ⟨hcompare, hequal, hnot⟩ := BinaryOp.isComparison_of_arith harith
  simp only [BinaryOp.onValues, if_neg hequal, if_neg hnot, if_neg fun h => hstring (And.right h),
    BinaryOp.onPresent, hcompare, harith, hkind]
  rw [if_neg (by simp [Value.isNull]), if_neg Bool.false_ne_true]
  refine (confined_asNumber rfl).bind fun x hx => (confined_asNumber rfl).bind fun y hy => ?_
  subst hx hy
  refine (confined_ofArith hzero fun f hf => ?_).bind fun n _ => .pure ?_
  · exact Number.divisionByZero_of_binary hkinds hf
  · have hfits := Value.fits_lifted (n.convert k) c
    rwa [Number.kind_convert] at hfits

/-- Counting on, from a number. -/
theorem confined_stepped (op : UnaryOp) {v : Value} (hv : v.Is (.numeric k)) :
    Confined I (·.Is (.numeric k)) H (op.stepped v (.numeric k)) := by
  obtain ⟨n, rfl, rfl⟩ := hv.number
  refine (confined_asNumber rfl).bind fun x hx => ?_
  subst hx
  refine (confined_ofArith hzero fun f hf => ?_).bind fun y _ => .pure fun _ => ?_
  · refine Number.divisionByZero_of_binary (fun hop => ?_) hf
    cases op <;> cases hop
  · exact congrArg (some ∘ Ty.numeric) (Number.kind_convert y _)

omit hzero

/-- Comparing two numbers, or any values for equality. -/
theorem confined_compared (hop : op.isComparison) {l r : Value} {a b : Number}
    (hl : l.number? = some a) (hr : r.number? = some b) (t : Ty) :
    Confined I (·.Fits .bool) H (op.onValues l r t) := by
  unfold BinaryOp.onValues
  split
  · exact .pure (Value.fits_bool _)
  split
  · exact .pure (Value.fits_bool _)
  rw [if_neg (by rintro ⟨rfl, -⟩; cases hop)]
  split
  · exact .pure (Value.fits_bool _)
  · unfold BinaryOp.onPresent
    rw [if_pos hop]
    exact (confined_asNumber hl).bind fun _ _ => (confined_asNumber hr).bind fun _ _ =>
      .pure (Value.fits_bool _)

theorem confined_equated (hop : op = .equal ∨ op = .notEqual) (l r : Value) (t : Ty) :
    Confined I (·.Fits .bool) H (op.onValues l r t) := by
  rcases hop with rfl | rfl
  · exact .pure (Value.fits_bool _)
  · exact .pure (Value.fits_bool _)

theorem confined_logical (hop : op = .and ∨ op = .or ∨ op = .exclusiveOr) (a b : Bool)
    {t : Ty} (ht : t.underlying = .bool) : Confined I (·.Fits t) H (op.onValues (.bool a) (.bool b) t) := by
  have hfits (c : Bool) : (Value.bool c).Fits t := ⟨.bool, rfl, Value.is_bool c, .inl ht⟩
  rcases hop with rfl | rfl | rfl
  · exact .pure (hfits _)
  · exact .pure (hfits _)
  · exact .pure (hfits _)

/-- Signs and complements of numbers. -/
theorem confined_onValue {op : UnaryOp}
    (hop : op = .negate ∨ op = .plus ∨ op = .complement ∧ k.isIntegral) (n : Number) (c : Bool) :
    Confined I (·.Fits (Ty.lifted k c)) H (op.onValue (.number n) (Ty.lifted k c)) := by
  have hkind : (Ty.lifted k c).resultKind? = some k := by cases c <;> rfl
  have hnumber : ∃ x, op.onNumber n k = .ok x ∧ x.kind = k := by
    rcases hop with rfl | rfl | ⟨rfl, hk⟩
    · exact ⟨_, rfl, Number.kind_convert _ k⟩
    · exact ⟨_, rfl, Number.kind_convert _ k⟩
    · have hconvert : (n.convert k).kind.isIntegral := by rwa [Number.kind_convert]
      obtain ⟨m, hm⟩ := Number.exists_complement hconvert
      refine ⟨m.convert k, ?_, Number.kind_convert _ k⟩
      rw [UnaryOp.onNumber, hm]
      rfl
  obtain ⟨x, hx, rfl⟩ := hnumber
  have hrun : op.onValue (.number n) (Ty.lifted x.kind c) = (do
      let a ← Run.look (·.asNumber (.number n))
      .number <$> Run.ofFault (op.onNumber a (((Ty.lifted x.kind c).resultKind?).getD a.kind))) := by
    rcases hop with rfl | rfl | ⟨rfl, -⟩ <;> rfl
  rw [hrun, hkind]
  refine (confined_asNumber rfl).bind fun a ha => ?_
  subst ha
  refine (Confined.ofFault (P := (· = x)) (fun y hy => ?_) fun f hf => ?_).map fun y hy => ?_
  · cases hx.symm.trans hy
    rfl
  · cases hx.symm.trans hf
  · subst hy
    exact Value.fits_lifted y c

end OnValues

end Scriptlet

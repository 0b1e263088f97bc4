import Scriptlet.Evaluation.Call
import Scriptlet.Proofs.Evaluation.Confined
import Scriptlet.Proofs.Expr.Contained

/-!
# The library makes no jumps

That a jump was left over is only ever said when the body of a function has been evaluated. The
operations of the library, the conversions, the operators and what expressions do with members
and arrays never say it themselves, and they change no function (`Run.IsOrderly`). So neither
does a machine whose host and whose calls of functions do not.

That a run is orderly is seen from the way it is put together, so it is left to instance search
(`Run.Orderly`), but for case distinctions.
-/

namespace Scriptlet

variable {α β : Type} {f : Fault} {x y : Except Fault α} {r r' : Run α}

/-- The bodies of all functions are left by no jump. -/
def Store.IsContained (s : Store) : Prop := ∀ f ∈ s.functions, f.lambda.body.Contained ∅

theorem Store.IsContained.function {s : Store} (h : s.IsContained) (r : Nat) :
    (s.function r).lambda.body.Contained ∅ := by
  rw [Store.function, Array.getD_eq_getD_getElem?]
  cases hf : s.functions[r]? with
  | none => exact .node rfl nofun
  | some f => exact h f (Array.mem_of_getElem? hf)

/-- What does not say that a jump was left over. -/
def Halt.IsOrderly (h : Halt) : Prop := ∀ label, h ≠ .error (.fault (.escapedJump label))

/-- A run that leaves functions contained and reports no jump that was left over. -/
def Run.IsOrderly (r : Run α) : Prop :=
  Confined Store.IsContained (fun _ => True) Halt.IsOrderly r

/-! ## Computations -/

namespace Fault

/-- Another fault than a jump that was left over. -/
class Ordinary (f : Fault) : Prop where
  ne : ∀ label, f ≠ .escapedJump label

/-- Whether a fault is none of a jump that was left over. -/
@[reducible] def isOrdinary : Fault → Bool
  | escapedJump _ => false
  | _ => true

/-- A test that passes. -/
class Passes (b : Bool) : Prop where
  eq_true : b = true

instance : Passes true := ⟨rfl⟩

instance [h : Passes f.isOrdinary] : f.Ordinary := ⟨by rintro label rfl; cases h.eq_true⟩

/-- A computation that reports no jump that was left over. -/
class Orderly (x : Except Fault α) : Prop where
  ne : ∀ label, x ≠ .error (.escapedJump label)

namespace Orderly

instance pure (a : α) : Orderly (Pure.pure a : Except Fault α) := ⟨nofun⟩

instance throw [h : f.Ordinary] : Orderly (MonadExcept.throw f : Except Fault α) :=
  ⟨fun label hf => h.ne label (Except.error.inj hf)⟩

instance bind {k : α → Except Fault β} [h : Orderly x] [hk : ∀ a, Orderly (k a)] :
    Orderly (x >>= k) := by
  cases x with
  | ok a => exact hk a
  | error f => exact ⟨fun label hf => h.ne label (congrArg _ (Except.error.inj hf))⟩

theorem followed {k : α → Except Fault β} [Orderly x] (h : ∀ a, Orderly (k a)) : Orderly (x >>= k) :=
  bind

instance map {f : α → β} [Orderly x] : Orderly (f <$> x) := by
  rw [map_eq_pure_bind]
  infer_instance

instance ite {c : Prop} [Decidable c] [hx : Orderly x] [hy : Orderly y] :
    Orderly (if c then x else y) := by
  split
  · exact hx
  · exact hy

instance mapM {f : α → Except Fault β} [∀ a, Orderly (f a)] (as : List α) :
    Orderly (as.mapM f) := by
  induction as with
  | nil => exact pure []
  | cons a as ih =>
    rw [List.mapM_cons]
    infer_instance

end Orderly

end Fault

open Fault

namespace Store

variable (s : Store) (v : Value)

instance : Orderly (s.asBool v) := by cases v <;> first | exact .pure _ | exact .throw

instance : Orderly (s.asChar v) := by cases v <;> first | exact .pure _ | exact .throw

instance : Orderly (s.asString v) := by cases v <;> first | exact .pure _ | exact .throw

instance : Orderly (s.asFunction v) := by cases v <;> first | exact .pure _ | exact .throw

instance : Orderly (s.asList v) := by cases v <;> first | exact .pure _ | exact .throw

instance : Orderly (s.asArray v) := by cases v <;> first | exact .pure _ | exact .throw

instance : Orderly (s.asEnumerator v) := by cases v <;> first | exact .pure _ | exact .throw

instance : Orderly (s.items v) := by cases v <;> first | exact .pure _ | exact .throw

instance : Orderly (s.asNumber v) := by
  unfold asNumber
  split
  · infer_instance
  · exact .throw

instance : Orderly (s.asDouble v) := by
  unfold asDouble
  infer_instance

instance : Orderly (s.asIndex v) := by
  refine .followed fun n => ?_
  split <;> infer_instance

instance (ref : Nat) (v : Variable) : Orderly (s.holder ref v) := by
  unfold holder
  split <;> infer_instance

instance (ref : Nat) (v : Variable) : Orderly (s.lookup ref v) := by
  unfold lookup
  infer_instance

end Store

/-! ## Runs -/

namespace Run

theorem orderly_fault (h : ∀ label, f ≠ .escapedJump label) : IsOrderly (fault f : Run α) := by
  refine Confined.fault fun label hlabel => ?_
  cases hlabel
  exact h label rfl

/-- An orderly run, as instance search finds it. -/
class Orderly (r : Run α) : Prop where
  isOrderly : r.IsOrderly

namespace Orderly

instance pure (a : α) : Orderly (Pure.pure a : Run α) := ⟨Confined.pure trivial⟩

instance fault [h : f.Ordinary] : Orderly (fault f : Run α) := ⟨orderly_fault h.ne⟩

instance bind {k : α → Run β} [h : Orderly r] [hk : ∀ a, Orderly (k a)] : Orderly (r >>= k) :=
  ⟨h.isOrderly.bind fun a _ => (hk a).isOrderly⟩

theorem followed {k : α → Run β} [Orderly r] (h : ∀ a, Orderly (k a)) : Orderly (r >>= k) := bind

instance map {f : α → β} [h : Orderly r] : Orderly (f <$> r) :=
  ⟨h.isOrderly.map fun _ _ => trivial⟩

instance ite {c : Prop} [Decidable c] [hr : Orderly r] [hr' : Orderly r'] :
    Orderly (if c then r else r') := by
  split
  · exact hr
  · exact hr'

instance ofFault [h : Fault.Orderly x] : Orderly (ofFault x) := by
  cases x with
  | ok a => exact pure a
  | error f => exact ⟨orderly_fault fun label hlabel => h.ne label (congrArg _ hlabel)⟩

instance get : Orderly (MonadState.get : Run Store) :=
  ⟨Confined.get.imp (fun _ _ => trivial) fun _ => id⟩

instance look {f : Store → Except Fault α} [∀ s, Fault.Orderly (f s)] : Orderly (look f) := by
  unfold Run.look
  infer_instance

instance display (v : Value) : Orderly (display v) := by
  unfold Run.display
  infer_instance

/-- Something new that is no function. -/
theorem make {f : Store → Value × Store} (h : ∀ s, (f s).2.functions = s.functions) :
    Orderly (make f) := by
  refine ⟨fun s hs => ⟨trivial, ?_⟩⟩
  rw [Store.IsContained, h s]
  exact hs

theorem modify {f : Store → Store} (h : ∀ s, (f s).functions = s.functions) :
    Orderly (modify f : Run PUnit) := by
  refine ⟨Confined.modify fun s hs => ?_⟩
  rw [Store.IsContained, h s]
  exact hs

instance newList (vs : List Value) : Orderly (Run.make (·.newList vs)) := make fun _ => rfl

instance newArray (a : ArrayData) : Orderly (Run.make (·.newArray a)) := make fun _ => rfl

instance newEnumerator (vs : List Value) : Orderly (Run.make (·.newEnumerator vs)) :=
  make fun _ => rfl

instance arg (args : List Value) (i : Nat) : Orderly (arg args i) := by
  unfold Run.arg
  split <;> infer_instance

instance argAs {f : Store → Value → Except Fault α} [∀ s v, Fault.Orderly (f s v)]
    (args : List Value) (i : Nat) : Orderly (argAs f args i) := by
  unfold Run.argAs
  infer_instance

end Orderly

end Run

/-! ## Operations -/

open Run

section Operations

variable (args : List Value)

instance (i : Nat) : Orderly (Textual.chars args i) := .map

instance (vs : List Value) : Orderly (Textual.texts vs) := .bind

instance (cs : List Char) : Orderly (Textual.text cs) := .pure _

instance (x : Float) : Orderly (Numeric.real x) := .pure _

instance (n : Nat) : Orderly (Numeric.count n) := .pure _

instance : Orderly (Sequences.sequence args) := .argAs args 0

instance : Orderly (Sequences.numbers args) := .bind

instance : Orderly (Sequences.listArg args) := .bind

instance (t : String) : Orderly (Numeric.parseBool t) := by
  unfold Numeric.parseBool
  split <;> infer_instance

instance (cs : List Char) (i : Int) : Orderly (Textual.charAt cs i) := by
  unfold Textual.charAt
  split
  · infer_instance
  · split <;> infer_instance

instance (cs : List Char) (start length : Int) : Orderly (Textual.substring cs start length) := by
  unfold Textual.substring
  infer_instance

instance (s : Store) (format : List Char) (vs : List Value) : Orderly (s.composite format vs) := by
  unfold Store.composite
  split <;> infer_instance

instance (op : Operation) : Orderly (op.runText args) := by
  cases op with
  | isNullOrEmpty =>
    refine .followed fun v => ?_
    split <;> infer_instance
  | _ =>
    unfold Operation.runText
    infer_instance

instance (k : NumericKind) (t : String) : Orderly (Numeric.parseNumber k t) := by
  unfold Numeric.parseNumber
  dsimp only
  split <;> split <;> infer_instance

instance (s : Store) (v : Value) : Orderly (Numeric.toInt s v) := by
  unfold Numeric.toInt
  split
  · split <;> infer_instance
  · infer_instance
  · refine .followed fun n => ?_
    split <;> infer_instance

instance (s : Store) (v : Value) : Orderly (Numeric.toDouble s v) := by
  unfold Numeric.toDouble
  split
  · split <;> infer_instance
  · infer_instance
  · infer_instance

instance (wanted : Ordering) : Orderly (Numeric.pick wanted args) := by
  refine .followed fun a => .followed fun b => ?_
  split <;> infer_instance

instance (f : MathFunction) : Orderly (Numeric.mathFunction f args) := by
  unfold Numeric.mathFunction
  split <;> infer_instance

instance (x : Float) : Orderly (Numeric.sign x) := by
  unfold Numeric.sign
  infer_instance

instance (op : Operation) : Orderly (op.runNumber args) := by
  cases op <;> unfold Operation.runNumber <;> infer_instance

instance (r : Nat) (items : List Value) : Orderly (Sequences.changeList r items) :=
  .bind (h := .modify fun _ => rfl)

instance (i : Int) (bound : Nat) [f.Ordinary] : Orderly (Sequences.within i bound f) := .ite

instance (items : List Value) : Orderly (Sequences.itemPlace args items) := .bind

instance (op : Operation) : Orderly (op.runList args) := by
  cases op with
  | moveNext => exact .followed fun _ => .followed fun _ => .bind (h := .modify fun _ => rfl)
  | _ =>
    unfold Operation.runList
    infer_instance

instance (ns : List Number) : Orderly (Numeric.sum ns) := by
  unfold Numeric.sum
  split <;> infer_instance

instance (wanted : Ordering) (ns : List Number) : Orderly (Numeric.extreme wanted ns) := by
  unfold Numeric.extreme
  split <;> infer_instance

instance (ns : List Number) : Orderly (Numeric.average ns) := by
  unfold Numeric.average
  infer_instance

instance (start count : Int) : Orderly (Sequences.range start count) := by
  unfold Sequences.range
  infer_instance

section Apply

variable {apply : Sequences.Apply} [∀ f vs, Orderly (apply f vs)]

instance (f : Nat) (vs : List Value) : Orderly (Sequences.filterItems apply f vs) := by
  induction vs <;> unfold Sequences.filterItems <;> infer_instance

instance (f : Nat) (vs : List Value) : Orderly (Sequences.mapItems apply f vs) := by
  induction vs <;> unfold Sequences.mapItems <;> infer_instance

instance (f : Nat) (x : Float) (vs : List Value) : Orderly (Sequences.sumItems apply f x vs) := by
  induction vs generalizing x <;> unfold Sequences.sumItems <;> infer_instance

instance : Orderly (Sequences.matching apply args) := by
  refine .followed fun vs => ?_
  split <;> infer_instance

instance (op : Operation) : Orderly (op.runQuery apply args) := by
  cases op with
  | first =>
    refine .followed fun vs => ?_
    split <;> infer_instance
  | _ =>
    unfold Operation.runQuery
    infer_instance

instance (op : Operation) : Orderly (op.run apply args) := by
  unfold Operation.run
  split <;> infer_instance

end Apply

instance (e : EnumeratorData) : Orderly e.current := by
  unfold EnumeratorData.current
  split <;> infer_instance

instance (v : Value) (p : Property) : Orderly (p.get v) := by
  cases p <;> unfold Property.get <;> infer_instance

end Operations

/-! ## Operators -/

instance (v : Value) (t : Ty) : Orderly (v.convertPlain t) := by
  unfold Value.convertPlain Value.charOf
  split <;> infer_instance

instance (v : Value) (t : Ty) : Orderly (v.convertTo t) := by
  fun_induction Value.convertTo v t with
  | case1 t ih => exact ih
  | case2 t => infer_instance

instance (op : UnaryOp) (n : Number) (k : NumericKind) : Orderly (op.onNumber n k) := by
  unfold UnaryOp.onNumber
  split
  · infer_instance
  · infer_instance
  · split <;> infer_instance
  · infer_instance

instance (op : UnaryOp) (v : Value) (t : Ty) : Orderly (op.onValue v t) := by
  unfold UnaryOp.onValue
  split <;> infer_instance

instance (x : Except ArithFault Number) : Orderly (Run.ofArith x) := by
  cases x <;> unfold Run.ofArith <;> infer_instance

instance (op : UnaryOp) (old : Value) (t : Ty) : Orderly (op.stepped old t) := by
  refine .followed fun n => .followed fun m => ?_
  split <;> infer_instance

instance (op : BinaryOp) (a b : Bool) : Orderly (op.onBools a b) := by
  unfold BinaryOp.onBools
  split <;> infer_instance

instance (op : BinaryOp) (l r : Value) (t : Ty) : Orderly (op.onPresent l r t) := by
  unfold BinaryOp.onPresent
  split
  · infer_instance
  · split <;> infer_instance

instance (op : BinaryOp) (l r : Value) (t : Ty) : Orderly (op.onValues l r t) := by
  unfold BinaryOp.onValues
  infer_instance

/-! ## Calls, members and arrays -/

instance (a : ArrayData) (indices : List Int) : Orderly (a.slot indices) := by
  unfold ArrayData.slot
  split
  · infer_instance
  · split <;> infer_instance

namespace Machine

instance (typeName : String) (fields : List (String × Ty)) (params : List Param)
    (args : List Value) : Orderly (construct typeName fields params args) := by
  have hset (set : List (String × Value) → Param × Value → Run (List (String × Value)))
      [∀ fs p, Orderly (set fs p)] (ps : List (Param × Value)) (fs : List (String × Value)) :
      Orderly (ps.foldlM set fs) := by
    induction ps generalizing fs with
    | nil => exact .pure fs
    | cons p ps ih =>
      rw [List.foldlM_cons]
      infer_instance
  refine @Orderly.followed _ _ _ _ (@hset _ (fun fs p => ?_) _ _) fun _ => .make fun _ => rfl
  split <;> infer_instance

instance (method : Method) (count i : Nat) (v : Value) : Orderly (takeArgument method count i v) := by
  unfold takeArgument
  split <;> infer_instance

instance (method : Method) (v : Value) : Orderly (takeReceiver method v) := by
  unfold takeReceiver
  infer_instance

instance (receiver : Value) (member : Member) (v : Value) :
    Orderly (storeMember receiver member v) := by
  unfold storeMember
  split
  · exact .followed fun _ => .followed fun _ => .modify fun _ => rfl
  · infer_instance
  · infer_instance

instance (i : Nat) (v : Value) : Orderly (takeIndex i v) := by
  unfold takeIndex
  infer_instance

instance (i : Nat) (v : Value) : Orderly (takeBound i v) := by
  unfold takeBound
  infer_instance

instance (element : Ty) (bounds : List Value) : Orderly (sizedArray element bounds) := by
  unfold sizedArray
  infer_instance

instance (v : Value) : Orderly (takeArray v) := by
  unfold takeArray
  split <;> infer_instance

instance (array : Value) (indices : List Value) : Orderly (loadItem array indices) := by
  unfold loadItem
  infer_instance

instance (array : Value) (indices : List Value) (v : Value) :
    Orderly (storeItem array indices v) :=
  .followed fun _ => .followed fun _ => .followed fun _ => .followed fun _ => .modify fun _ => rfl

instance (params : List Variable) (args : List Value) : Orderly (parameterSlots params args) := by
  unfold parameterSlots
  -- the slots so far are any
  generalize params.zip args = ps, ([] : List (Nat × Value)) = slots
  induction ps generalizing slots with
  | nil => exact .pure slots
  | cons p ps ih =>
    rw [List.foldlM_cons]
    infer_instance

/-- What a machine is given, the host and the calls of functions, reports no jump that was left
    over. -/
structure IsOrderly (m : Machine) : Prop where
  apply : ∀ f args, Run.IsOrderly (m.apply f args)
  call : ∀ name args, Run.IsOrderly (m.host.call name args)
  get : ∀ name v, Run.IsOrderly (m.host.get name v)

variable {m : Machine} (h : m.IsOrderly)

include h

theorem orderly_callMethod (method : Method) (args : List Value) :
    Orderly (m.callMethod method args) := by
  have (f : Nat) (args : List Value) : Orderly (m.apply f args) := ⟨h.apply f args⟩
  unfold callMethod
  split
  · infer_instance
  · exact ⟨h.call _ args⟩
  · infer_instance

theorem orderly_loadMember (receiver : Value) (member : Member) :
    Orderly (m.loadMember receiver member) := by
  have (name : String) : Orderly (m.host.get name receiver) := ⟨h.get name receiver⟩
  unfold loadMember
  split
  · infer_instance
  · split
    · infer_instance
    · split <;> infer_instance
  · split <;> infer_instance

end Machine

end Scriptlet

import Mathlib.Data.List.Nodup
import Mathlib.Logic.Function.Basic
import Scriptlet.Evaluation.Evaluate

/-!
# Objects of records

The parameters of a record constructor have the names of the fields in lower case, and an argument
is stored in the first field that has the name of its parameter up to the case of the letters `A`
to `Z`. If this is the field that the argument is for (`Definition.IsPaired`), a new object holds
the arguments at their places (`Machine.recordConstructor_stores`).
-/

namespace Scriptlet

/-- The fields of a record with what they hold. -/
def heldFields (fields : List (String × Ty)) (held : String × Ty → Value) :
    List (String × Value) :=
  fields.map fun f => (f.1, held f)

variable {fields : List (String × Ty)} {held : String × Ty → Value} {v : Value}

theorem setField_heldFields {f : String × Ty} (hnames : (fields.map Prod.fst).Nodup)
    (hf : f ∈ fields) :
    setField f.1 v (heldFields fields held) = heldFields fields (Function.update held f v) := by
  induction fields with
  | nil => cases hf
  | cons f' fields ih =>
    obtain ⟨hnew, hlater⟩ := List.nodup_cons.1 hnames
    simp only [heldFields, List.map_cons, setField]
    by_cases hname : f'.1 = f.1
    · obtain rfl := List.inj_on_of_nodup_map hnames List.mem_cons_self hf hname
      rw [if_pos rfl, Function.update_self]
      refine congrArg _ (List.map_congr_left fun g hg => ?_)
      rw [Function.update_of_ne]
      rintro rfl
      exact hnew (List.mem_map_of_mem hg)
    · have hne : f' ≠ f := fun h => hname (congrArg Prod.fst h)
      rw [if_neg hname, Function.update_of_ne hne]
      exact congrArg _ (ih hlater ((List.mem_cons.1 hf).resolve_left hne.symm))

theorem setField_of_notMem {name : String} {fs : List (String × Value)}
    (h : name ∉ fs.map Prod.fst) : setField name v fs = fs ++ [(name, v)] := by
  induction fs with
  | nil => rfl
  | cons p fs ih =>
    rw [List.map_cons, List.mem_cons, not_or] at h
    rw [setField, if_neg (Ne.symm h.1), ih h.2, List.cons_append]

/-- Fields that are set one after another are kept in this order. -/
theorem foldl_setField (fs : List (String × Value))
    (h : (fs.map Prod.fst ++ fields.map Prod.fst).Nodup) :
    fields.foldl (fun fs f => setField f.1 (held f) fs) fs = fs ++ heldFields fields held := by
  induction fields generalizing fs with
  | nil => exact (List.append_nil fs).symm
  | cons f fields ih =>
    have hnew : f.1 ∉ fs.map Prod.fst := fun hmem =>
      (List.nodup_append.1 h).2.2 f.1 hmem f.1 List.mem_cons_self rfl
    rw [List.foldl_cons, setField_of_notMem hnew, ih _ (by simpa using h), List.append_assoc]
    rfl

namespace Definition

/-- The parameter that a record constructor has for a field. -/
def paramOf (f : String × Ty) : Param := { name := Text.toLower f.1, type := f.2 }

/-- The argument for every field is stored in it. -/
def IsPaired (d : Definition) : Prop :=
  ∀ f ∈ d.fields, d.fields.find? (fun g => Text.eqIgnoringCase g.1 (paramOf f).name) = some f

end Definition

namespace Machine

open Definition

/-- Stores one argument. -/
def storeArgument (fields : List (String × Ty)) (fs : List (String × Value)) (p : Param × Value) :
    Run (List (String × Value)) :=
  match fields.find? fun f => Text.eqIgnoringCase f.1 p.1.name with
  | some (name, t) => do pure (setField name (← Run.ofFault (p.2.convertTo t)) fs)
  | none => pure fs

variable {d : Definition} (hd : d.IsPaired) (hnames : (d.fields.map Prod.fst).Nodup)
include hd hnames

/-- Arguments for different fields are stored in them, and other fields hold what they held. -/
theorem foldlM_storeArgument {ps : List ((String × Ty) × Value)} (hps : (ps.map Prod.fst).Nodup)
    (hfields : ∀ p ∈ ps, p.1 ∈ d.fields)
    (hconvert : ∀ p ∈ ps, ∃ w, p.2.convertTo p.1.2 = .ok w) (held : String × Ty → Value)
    (s : Store) :
    ∃ held', (ps.map fun p => (paramOf p.1, p.2)).foldlM (storeArgument d.fields)
        (heldFields d.fields held) s = .ok (heldFields d.fields held') s ∧
      (∀ p ∈ ps, p.2.convertTo p.1.2 = .ok (held' p.1)) ∧
        ∀ f ∉ ps.map Prod.fst, held' f = held f := by
  induction ps generalizing held with
  | nil => exact ⟨held, rfl, List.forall_mem_nil _, fun _ _ => rfl⟩
  | cons p ps ih =>
    rw [List.map_cons, List.nodup_cons] at hps
    rw [List.forall_mem_cons] at hfields hconvert
    obtain ⟨w, hw⟩ := hconvert.1
    have hstore : storeArgument d.fields (heldFields d.fields held) (paramOf p.1, p.2) s =
        .ok (heldFields d.fields (Function.update held p.1 w)) s := by
      rw [storeArgument, hd p.1 hfields.1, ← setField_heldFields hnames hfields.1]
      simp only [hw]
      rfl
    obtain ⟨held', hrun, hheld, hothers⟩ :=
      ih hps.2 hfields.2 hconvert.2 (Function.update held p.1 w)
    refine ⟨held', ?_, List.forall_mem_cons.2 ⟨?_, hheld⟩, fun f hf => ?_⟩
    · simp only [List.map_cons, List.foldlM_cons, bind, EStateM.bind, hstore]
      exact hrun
    · rw [hothers p.1 hps.1, Function.update_self, hw]
    · rw [List.map_cons, List.mem_cons, not_or] at hf
      rw [hothers f hf.2, Function.update_of_ne hf.1]

/-- A record constructor makes an object each of whose fields holds the argument at its place,
    converted to the type of the field. -/
theorem recordConstructor_stores (m : Machine) {c : Method}
    (hc : d.recordConstructor.constructors.getLast? = some c) {args : List Value}
    (hlength : args.length = d.fields.length)
    (hargs : ∀ p ∈ d.fields.zip args, ∃ w, p.2.convertTo p.1.2 = .ok w) (s : Store) :
    ∃ held, m.callMethod c args s =
        .ok (.object s.objects.size) (s.newObject ⟨d.name, heldFields d.fields held⟩).2 ∧
      ∀ p ∈ d.fields.zip args, p.2.convertTo p.1.2 = .ok (held p.1) := by
  have hkeys : (d.fields.zip args).map Prod.fst = d.fields :=
    List.map_fst_zip (Nat.le_of_eq hlength.symm)
  obtain ⟨held, hrun, hheld, -⟩ := foldlM_storeArgument hd hnames
    (by rw [hkeys]; exact hnames.of_map) (fun p hp => (List.of_mem_zip hp).1) hargs
    (fun f => .defaultOf f.2) s
  refine ⟨held, ?_, hheld⟩
  have hconstruct : m.callMethod c args =
      ((d.fields.map paramOf).zip args).foldlM (storeArgument d.fields)
        (d.fields.foldl (fun fs f => setField f.1 (.defaultOf f.2) fs) []) >>=
      fun fs => Run.make (·.newObject ⟨d.name, fs⟩) := by
    obtain rfl : _ = c := by simpa [recordConstructor, constructorOfFields] using hc
    rfl
  have hzip : (d.fields.map paramOf).zip args =
      (d.fields.zip args).map fun p => (paramOf p.1, p.2) := List.zip_map_left ..
  rw [hconstruct, foldl_setField [] hnames, List.nil_append, hzip]
  simp only [bind, EStateM.bind, hrun]
  rfl

end Machine

end Scriptlet

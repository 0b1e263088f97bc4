import Scriptlet.Proofs.Code.Evaluation
import Scriptlet.Proofs.Evaluation.Confined

/-!
# Targets of assignments

What is assigned to is evaluated twice where its old value is needed: to get that value, and
once more to set the new one. So what an index does is done twice.

If evaluating the parts of an element changes nothing, it is the same item both times: counting
on sets the item that it has read (`Machine.count_still`), and so does an assignment of a value
that is computed from the element (`Machine.assign_still`).
-/

namespace Scriptlet

open Evaluation

variable {α β : Type}

/-! ## Evaluations that change nothing -/

/-- A run that changes nothing, however it ends. -/
def Run.IsStill (r : Run α) : Prop := ∀ s, Confined (· = s) (fun _ => True) (fun _ => True) r

/-- An evaluation that changes nothing, however it ends. -/
def Evaluation.IsStill (ev : Evaluation α) : Prop :=
  ∀ site s, Confined (· = s) (fun _ => True) (fun _ => True) (ev site)

theorem exists_run_of_bind {ε : Type} {r : EStateM ε Store α} {k : α → EStateM ε Store β}
    {s s' : Store} {b : β} (h : (r >>= k) s = .ok b s') :
    ∃ a s₁, r s = .ok a s₁ ∧ k a s₁ = .ok b s' := by
  change EStateM.bind r k s = _ at h
  unfold EStateM.bind at h
  split at h
  · exact ⟨_, _, ‹_›, h⟩
  · cases h

/-- Behind something that changes nothing, it goes on in the same store. -/
theorem Confined.exists_of_bind {ε : Type} {r : EStateM ε Store α} {k : α → EStateM ε Store β}
    {s s' : Store} {b : β} (h : Confined (· = s) (fun _ => True) (fun _ => True) r)
    (hb : (r >>= k) s = .ok b s') : ∃ a, r s = .ok a s ∧ k a s = .ok b s' := by
  obtain ⟨a, s₁, hr, hk⟩ := exists_run_of_bind hb
  have hs := h s rfl
  rw [hr] at hs
  obtain ⟨-, rfl⟩ := hs
  exact ⟨a, hr, hk⟩

namespace Run

theorem still_ofFault (x : Except Fault α) : IsStill (ofFault x) :=
  fun _ => .ofFault (fun _ _ => trivial) fun _ _ => trivial

theorem still_look (f : Store → Except Fault α) : IsStill (look f) :=
  fun _ => .look (fun _ _ _ _ => trivial) fun _ _ _ _ => trivial

theorem eq_ok_of_ofFault {x : Except Fault α} {a : α} {s s' : Store}
    (h : ofFault x s = .ok a s') : x = .ok a := by
  cases x with
  | ok b =>
    cases h
    rfl
  | error f => cases h

theorem still_stepped (op : UnaryOp) (v : Value) (t : Ty) : IsStill (op.stepped v t) := by
  have harith (x : Except ArithFault Number) : IsStill (ofArith x) := by
    cases x with
    | ok n => exact fun _ => .pure trivial
    | error f => exact fun _ => .fault trivial
  refine fun s => (still_look _ s).bind fun n _ => (harith _ s).bind fun m _ => ?_
  split
  · exact still_ofFault _ s
  · exact .pure trivial

end Run

theorem Evaluation.ofRun_eq_ok {r : Run α} {site : Site} {s s' : Store} {a : α}
    (h : ofRun r site s = .ok a s') : r s = .ok a s' := by
  unfold ofRun at h
  split at h
  · cases h
    assumption
  · cases h

namespace Machine

variable {m : Machine} {site : Site} {s s' : Store} {array : Expr} {indices : List Expr} {v : Value}

/-- Evaluating indices changes nothing if evaluating each of them does not. -/
theorem still_indices (h : ∀ e ∈ indices, (m.evaluate e).IsStill) (i : Nat) :
    (m.evaluateAll takeIndex i indices).IsStill := by
  intro site s
  induction indices generalizing i with
  | nil =>
    rw [evaluateAll]
    exact .pureAt trivial
  | cons e es ih =>
    obtain ⟨he, hes⟩ := List.forall_mem_cons.mp h
    have hindex (v : Value) : Confined (· = s) (fun _ => True) (fun _ => True) (takeIndex i v) :=
      (Run.still_look _ s).bind fun _ _ => .pure trivial
    rw [evaluateAll]
    exact (he site s).bindAt fun v _ => (Confined.ofRun (hindex v)).bindAt fun _ _ =>
      (ih hes _).bindAt fun _ _ => .pureAt trivial

/-! ## Elements -/

/-- In a store, an element of an array is the item with a number of the array that a reference
    leads to. -/
def Names (m : Machine) (site : Site) (s : Store) (array : Expr) (indices : List Expr)
    (r i : Nat) : Prop :=
  ∃ is, m.evaluate array site s = .ok (.array r) s ∧
    m.evaluateAll takeIndex 0 indices site s = .ok is s ∧
    (s.array r).slot (wholeNumbers is) = .ok i

/-- The store with another item in an array. -/
def withItem (s : Store) (r i : Nat) (v : Value) : Store :=
  s.setArray r { s.array r with items := (s.array r).items.set i v }

/-- An element is read where it is named. -/
theorem evaluate_of_names {r i : Nat} (h : m.Names site s array indices r i) (t : Ty) :
    m.evaluate (.index array indices t) site s = .ok ((s.array r).items.getD i .null) s := by
  obtain ⟨is, harray, hindices, hslot⟩ := h
  have hload : loadItem (.array r) is s = .ok ((s.array r).items.getD i .null) s := by
    change EStateM.bind (Run.ofFault ((s.array r).slot (wholeNumbers is))) _ s = _
    rw [hslot]
    rfl
  rw [evaluate, bind_of_ok _ harray, bind_of_ok _ hindices, ofRun_of_ok site hload]

section

variable (harray : (m.evaluate array).IsStill) (hindices : ∀ e ∈ indices, (m.evaluate e).IsStill)
include harray hindices

/-- An element is set where it is named. -/
theorem names_of_store {t : Ty} (h : m.store (.index array indices t) v site s = .ok () s') :
    ∃ r i w, m.Names site s array indices r i ∧ v.convertTo (s.array r).element = .ok w ∧
      s' = withItem s r i w := by
  rw [store] at h
  obtain ⟨a, ha, h₁⟩ := (harray site s).exists_of_bind h
  obtain ⟨is, his, h₂⟩ := (still_indices hindices 0 site s).exists_of_bind h₁
  obtain ⟨r, s₁, hr, h₃⟩ := exists_run_of_bind (ofRun_eq_ok h₂)
  unfold takeArray at hr
  split at hr <;> cases hr
  obtain ⟨_, _, ⟨⟩, h₄⟩ := exists_run_of_bind h₃
  obtain ⟨i, hi, h₅⟩ := (Run.still_ofFault _ s).exists_of_bind h₄
  obtain ⟨w, hw, h₆⟩ := (Run.still_ofFault _ s).exists_of_bind h₅
  cases h₆
  exact ⟨r, i, w, ⟨is, ha, his, Run.eq_ok_of_ofFault hi⟩, Run.eq_ok_of_ofFault hw, rfl⟩

/-- Counting on sets the item that it has read. -/
theorem count_still {op : UnaryOp} (hop : op.isMutation = true) {t u : Ty}
    (h : m.evaluate (.unary op (.index array indices t) u) site s = .ok v s') :
    ∃ r i new w, m.Names site s array indices r i ∧
      op.stepped ((s.array r).items.getD i .null) u s = .ok new s ∧
      new.convertTo (s.array r).element = .ok w ∧ s' = withItem s r i w := by
  have hload (a : Value) (is : List Value) :
      Confined (· = s) (fun _ => True) (fun _ => True) (loadItem a is) := by
    have harray : Confined (· = s) (fun _ => True) (fun _ => True) (takeArray a) := by
      unfold takeArray
      split
      · exact .pure trivial
      · exact .fault trivial
    exact harray.bind fun _ _ => Confined.get.bind fun _ _ =>
      (Run.still_ofFault _ s).bind fun _ _ => .pure trivial
  rw [evaluate, if_pos hop, evaluate] at h
  have hread := (harray site s).bindAt fun a _ =>
    (still_indices hindices 0 site s).bindAt fun is _ => Confined.ofRun (hload a is)
  obtain ⟨old, hold, h₁⟩ := hread.exists_of_bind h
  obtain ⟨new, hnew, h₂⟩ := (Confined.ofRun (Run.still_stepped op old u s)).exists_of_bind h₁
  obtain ⟨_, s₁, hstore, h₃⟩ := exists_run_of_bind h₂
  cases h₃
  obtain ⟨r, i, w, hnames, hw, hs⟩ := names_of_store harray hindices hstore
  have hitem := evaluate_of_names hnames t
  rw [evaluate, hold] at hitem
  cases hitem
  exact ⟨r, i, new, w, hnames, ofRun_eq_ok hnew, hw, hs⟩

/-- An assignment of a value that is evaluated without changing anything, the element itself
    being a part of it or not, sets the item that is read there. -/
theorem assign_still {value : Expr} (hvalue : (m.evaluate value).IsStill) {t u : Ty}
    (h : m.evaluate (.assign (.index array indices t) value u) site s = .ok v s') :
    ∃ r i w, m.Names site s array indices r i ∧ m.evaluate value site s = .ok v s ∧
      v.convertTo (s.array r).element = .ok w ∧ s' = withItem s r i w := by
  rw [evaluate] at h
  obtain ⟨v', hv, h₁⟩ := (hvalue site s).exists_of_bind h
  obtain ⟨_, s₁, hstore, h₂⟩ := exists_run_of_bind h₁
  cases h₂
  obtain ⟨r, i, w, hnames, hw, hs⟩ := names_of_store harray hindices hstore
  exact ⟨r, i, w, hnames, hv, hw, hs⟩

end

end Machine

end Scriptlet

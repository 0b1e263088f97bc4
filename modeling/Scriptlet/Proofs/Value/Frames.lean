import Scriptlet.Value.Frames
import Mathlib.Tactic.Common

/-!
# Frames of a running program

What happens to variables when a frame is made and when a variable is set. A variable
is found in the nearest frame that holds it (`Store.holder?`), and its value is the
slot of that frame (`Store.slot?`).

* A new frame leaves all frames as they are, and variables that were found are found
  where they were (`Store.holder?_newFrame`). From the new frame, its own variables are
  found in it and all others where the frame around it finds them (`holder?_inner`).
* Setting a variable where it is held changes this one slot (`Store.slot?_define`), and
  no variable is found elsewhere (`Store.holder?_define`).
-/

namespace Scriptlet

theorem Frame.lookup_set (id : Nat) (v : Value) (slots : List (Nat × Value)) (id' : Nat) :
    (Frame.set id v slots).lookup id' = if id' = id then some v else slots.lookup id' := by
  induction slots with
  | nil =>
    rw [Frame.set, List.lookup_cons, List.lookup_nil]
    by_cases h : id' = id
    · simp [h]
    · rw [beq_false_of_ne h, if_neg h]
  | cons slot slots ih =>
    obtain ⟨i, w⟩ := slot
    rw [Frame.set]
    by_cases hi : i = id
    · subst hi
      rw [if_pos rfl, List.lookup_cons, List.lookup_cons]
      by_cases h : id' = i
      · simp [h]
      · rw [beq_false_of_ne h, if_neg h]
    · rw [if_neg hi, List.lookup_cons, List.lookup_cons, ih]
      by_cases h : id' = i
      · subst h; rw [if_neg hi, if_neg hi]
      · rw [beq_false_of_ne h]

namespace Store

variable {s : Store} {f r id steps : Nat} {v : Variable}

/-- The value in a slot of a frame. -/
def slot? (s : Store) (ref id : Nat) : Option Value := (s.frame ref).slots.lookup id

theorem lt_size_of_slot (h : (s.slot? r id).isSome) : r < s.frames.size := by
  by_contra hr
  have : s.frame r = {} := by
    rw [frame, Array.getD_eq_getD_getElem?, Array.getElem?_eq_none (by omega)]
    rfl
  rw [slot?, this] at h
  cases h

/-! ## New frames -/

theorem frame_newFrame (fr : Frame) (r : Nat) :
    (s.newFrame fr).2.frame r = if r = s.frames.size then fr else s.frame r := by
  simp only [frame, newFrame, Array.getD_eq_getD_getElem?, Array.getElem?_push]
  split <;> rfl

theorem frame_newFrame_self (fr : Frame) : (s.newFrame fr).2.frame s.frames.size = fr := by
  rw [frame_newFrame, if_pos rfl]

/-- A frame that holds a variable has a slot for it. -/
theorem slot_of_holderWithin (h : s.holderWithin id steps f = some r) : (s.slot? r id).isSome := by
  induction steps generalizing f with
  | zero => cases h
  | succ steps ih =>
    rw [holderWithin] at h
    split at h
    next hf =>
      obtain rfl := Option.some.inj h
      exact hf
    next =>
      split at h
      next outer _ => exact ih h
      next => cases h

theorem slot_of_holder (h : s.holder? f id = some r) : (s.slot? r id).isSome :=
  slot_of_holderWithin h

/-- The value of a variable is the slot of the frame that holds it. -/
theorem lookup_of_holder? (h : s.holder? f v.id = some r) :
    s.lookup f v = .ok ((s.slot? r v.id).getD .null) := by
  rw [lookup, holder, h]
  rfl

theorem lookup_of_holder?_none (h : s.holder? f v.id = none) :
    s.lookup f v = .error (.undefinedVariable v.name) := by
  rw [lookup, holder, h]
  rfl

theorem assign_of_holder? (x : Value) (h : s.holder? f v.id = some r) :
    s.assign f v x = .ok (s.define r v x) := by
  rw [assign, holder, h]
  rfl

theorem assign_of_holder?_none (x : Value) (h : s.holder? f v.id = none) :
    s.assign f v x = .error (.undefinedVariable v.name) := by
  rw [assign, holder, h]
  rfl

/-- A new frame holds its own variables. -/
theorem holder?_inner_own (slots : List (Nat × Value)) (h : (slots.lookup id).isSome) :
    (s.newFrame ⟨slots, some f⟩).2.holder? s.frames.size id = some s.frames.size := by
  have hsize : (s.newFrame ⟨slots, some f⟩).2.frames.size = s.frames.size + 1 := Array.size_push _
  rw [holder?, hsize, holderWithin, frame_newFrame_self, if_pos h]

/-! ## Setting variables -/

theorem frame_define (x : Value) (h : r < s.frames.size) (r' : Nat) :
    (s.define r v x).frame r' =
      if r' = r then { s.frame r with slots := Frame.set v.id x (s.frame r).slots }
      else s.frame r' := by
  simp only [frame, define, Array.getD_eq_getD_getElem?, Array.getElem?_modify]
  by_cases hr : r' = r
  · subst hr
    simp [Array.getElem?_eq_getElem h]
  · rw [if_neg (Ne.symm hr), if_neg hr]

theorem enclosing_define (x : Value) (h : r < s.frames.size) (r' : Nat) :
    ((s.define r v x).frame r').enclosing = (s.frame r').enclosing := by
  rw [frame_define x h]
  split
  next hr => rw [hr]
  next => rfl

/-- Setting a variable changes one slot. -/
theorem slot?_define (x : Value) (h : r < s.frames.size) (r' id : Nat) :
    (s.define r v x).slot? r' id = if r' = r ∧ id = v.id then some x else s.slot? r' id := by
  rw [slot?, frame_define x h]
  by_cases hr : r' = r
  · subst hr
    rw [if_pos rfl, Frame.lookup_set]
    simp [slot?]
  · rw [if_neg hr, if_neg (fun h => hr h.1), slot?]

/-- Setting a variable where it is held changes nothing about where variables are found. -/
theorem holder?_define (x : Value) (h : (s.slot? r v.id).isSome) :
    (s.define r v x).holder? f id = s.holder? f id := by
  have hr := lt_size_of_slot h
  have hsize : (s.define r v x).frames.size = s.frames.size := Array.size_modify
  have hslot (f : Nat) : (((s.define r v x).frame f).slots.lookup id).isSome =
      ((s.frame f).slots.lookup id).isSome := by
    show ((s.define r v x).slot? f id).isSome = (s.slot? f id).isSome
    rw [slot?_define x hr]
    split
    next heq => rw [heq.1, heq.2, h]; rfl
    next => rfl
  rw [holder?, holder?, hsize]
  generalize s.frames.size = steps
  induction steps generalizing f with
  | zero => rfl
  | succ steps ih =>
    rw [holderWithin, holderWithin, hslot, enclosing_define x hr]
    split
    · rfl
    · split
      · exact ih
      · rfl

end Store

end Scriptlet

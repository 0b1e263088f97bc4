import Mathlib.Logic.Relation
import Scriptlet.Proofs.Value.Frames

/-!
# Variables by what was written to them

A `History` is what has been done with frames and variables, step by step: frames were made,
variables defined, set and read. It says by itself in which frame a variable is to be looked for
(`History.Nearest`) and which value was written there last (`History.LastWritten`).

The frames of a running program hold just that: one step keeps it (`Store.Refines.step`), and so
does every history (`History.refines_run`). So reading a variable gives what was last written in the
nearest frame that defines it, and setting one changes a single slot or, if there is no such frame,
nothing (`History.lookup_run`).
-/

namespace Scriptlet

/-- What can be done with frames and variables. -/
inductive FrameStep
  | enter (outer : Option Nat)
  | define (frame : Nat) (v : Variable) (x : Value)
  | assign (frame : Nat) (v : Variable) (x : Value)
  | read (frame : Nat) (v : Variable)

/-- The store behind a step; a step that fails leaves it as it is. -/
def FrameStep.apply (s : Store) : FrameStep → Store
  | enter outer => (s.newFrame ⟨[], outer⟩).2
  | define f v x => s.define f v x
  | assign f v x =>
    match s.assign f v x with
    | .ok s' => s'
    | .error _ => s
  | read _ _ => s

/-- What has been done, the last step first. -/
abbrev History := List FrameStep

namespace History

/-- The store that the steps lead to. -/
def run : History → Store
  | [] => {}
  | step :: h => step.apply (run h)

/-- The number of frames. -/
def count : History → Nat
  | [] => 0
  | .enter _ :: h => count h + 1
  | _ :: h => count h

/-- The frame around a frame. -/
def outer? : History → Nat → Option Nat
  | [], _ => none
  | .enter outer :: h, f => if f = count h then outer else outer? h f
  | _ :: h, f => outer? h f

/-- Every step is in a frame that has been made before. -/
def Legal : History → Prop
  | [] => True
  | .enter outer :: h => (∀ o ∈ outer, o < count h) ∧ Legal h
  | .define f _ _ :: h | .assign f _ _ :: h | .read f _ :: h => f < count h ∧ Legal h

/-- A variable has been defined in a frame. -/
def Defined (h : History) (f id : Nat) : Prop := ∃ v x, .define f v x ∈ h ∧ v.id = id

/-- A frame is another one or around it. -/
abbrev AtOrAbove (h : History) : Nat → Nat → Prop :=
  Relation.ReflTransGen fun f o => h.outer? f = some o

/-- The nearest frame, from one outwards, in which a variable has been defined. -/
inductive Nearest (h : History) (id : Nat) : Nat → Nat → Prop
  | here {f : Nat} (hf : h.Defined f id) : Nearest h id f f
  | outwards {f o r : Nat} (hf : ¬h.Defined f id) (ho : h.outer? f = some o)
      (hr : Nearest h id o r) : Nearest h id f r

/-- A step behind a history writes a value to a variable in a frame. -/
inductive Writes (h : History) : FrameStep → Nat → Nat → Value → Prop
  | define (f : Nat) (v : Variable) (x : Value) : Writes h (.define f v x) f v.id x
  | assign {f r : Nat} {v : Variable} {x : Value} (hr : h.Nearest v.id f r) :
      Writes h (.assign f v x) r v.id x

/-- The value that was last written to a variable in a frame. -/
inductive LastWritten : History → Nat → Nat → Value → Prop
  | now {h : History} {step : FrameStep} {r id : Nat} {x : Value} (hw : h.Writes step r id x) :
      LastWritten (step :: h) r id x
  | before {h : History} {step : FrameStep} {r id : Nat} {x : Value}
      (hw : ∀ y, ¬h.Writes step r id y) (hx : LastWritten h r id x) :
      LastWritten (step :: h) r id x

variable {h : History} {step : FrameStep} {f r id : Nat} {v : Variable} {x : Value}

theorem exists_nearest_iff : (∃ r, h.Nearest id f r) ↔ ∃ r, h.AtOrAbove f r ∧ h.Defined r id := by
  constructor
  · rintro ⟨r, hr⟩
    induction hr with
    | here hf => exact ⟨_, .refl, hf⟩
    | outwards _ ho _ ih =>
      obtain ⟨r, habove, hr⟩ := ih
      exact ⟨r, .head ho habove, hr⟩
  · rintro ⟨r, habove, hr⟩
    induction habove using Relation.ReflTransGen.head_induction_on with
    | refl => exact ⟨r, .here hr⟩
    | @head f o ho _ ih =>
      by_cases hf : h.Defined f id
      · exact ⟨f, .here hf⟩
      · obtain ⟨r', hr'⟩ := ih
        exact ⟨r', .outwards hf ho hr'⟩

theorem lastWritten_cons_iff : LastWritten (step :: h) r id x ↔
    h.Writes step r id x ∨ (∀ y, ¬h.Writes step r id y) ∧ h.LastWritten r id x := by
  constructor
  · rintro (hw | ⟨hw, hx⟩)
    · exact .inl hw
    · exact .inr ⟨hw, hx⟩
  · rintro (hw | ⟨hw, hx⟩)
    · exact .now hw
    · exact .before hw hx

end History

namespace Store

open History

/-- The frames of a store hold what has been written. -/
structure Refines (s : Store) (h : History) : Prop where
  size : s.frames.size = h.count
  enclosing : ∀ f, (s.frame f).enclosing = h.outer? f
  outer_lt : ∀ f o, h.outer? f = some o → o < f
  slot : ∀ f id x, s.slot? f id = some x ↔ h.LastWritten f id x
  defined : ∀ f id, (s.slot? f id).isSome ↔ h.Defined f id

namespace Refines

variable {s : Store} {h : History} {f r id : Nat} {v : Variable} {x : Value}

theorem holderWithin_iff (hs : s.Refines h) {steps : Nat} (hf : f < steps) :
    s.holderWithin id steps f = some r ↔ h.Nearest id f r := by
  induction steps generalizing f with
  | zero => cases hf
  | succ steps ih =>
    rw [holderWithin, ← slot?]
    by_cases hslot : (s.slot? f id).isSome
    · have hdef := (hs.defined f id).1 hslot
      rw [if_pos hslot, Option.some_inj]
      constructor
      · rintro rfl
        exact .here hdef
      · rintro (- | ⟨hnot, -, -⟩)
        · rfl
        · exact absurd hdef hnot
    · have hdef := mt (hs.defined f id).2 hslot
      rw [if_neg hslot, hs.enclosing]
      constructor
      · intro hr
        split at hr
        next o ho =>
          exact .outwards hdef ho ((ih (by have := hs.outer_lt f o ho; omega)).1 hr)
        next => cases hr
      · rintro (hf' | ⟨-, ho, hr⟩)
        · exact absurd hf' hdef
        · rw [ho]
          exact (ih (by have := hs.outer_lt f _ ho; omega)).2 hr

theorem holder?_iff (hs : s.Refines h) (hf : f < h.count) :
    s.holder? f id = some r ↔ h.Nearest id f r :=
  hs.holderWithin_iff (hs.size ▸ hf)

/-- A step that writes one value to a variable in one frame. -/
theorem define (hs : s.Refines h) {step : FrameStep} (hr : r < h.count)
    (hcount : History.count (step :: h) = h.count)
    (houter : ∀ f, History.outer? (step :: h) f = h.outer? f)
    (hwrites : ∀ f id y, h.Writes step f id y ↔ (f = r ∧ id = v.id) ∧ y = x)
    (hdefined : ∀ f id, History.Defined (step :: h) f id ↔ f = r ∧ id = v.id ∨ h.Defined f id) :
    (s.define r v x).Refines (step :: h) := by
  have hr' : r < s.frames.size := hs.size ▸ hr
  refine ⟨?_, fun f => ?_, fun f o ho => hs.outer_lt f o (houter f ▸ ho), fun f id y => ?_, fun f id => ?_⟩
  · rw [hcount, ← hs.size]
    exact Array.size_modify
  · rw [houter, ← hs.enclosing, enclosing_define x hr']
  · rw [slot?_define x hr', lastWritten_cons_iff]
    simp only [hwrites]
    split
    next heq => simp [heq, eq_comm]
    next hne => simp [hne, hs.slot]
  · rw [slot?_define x hr', hdefined, ← hs.defined]
    split
    next heq => simp [heq]
    next hne => simp [hne]

/-- A step that writes nothing and makes no frame. -/
theorem idle (hs : s.Refines h) {step : FrameStep} (hcount : History.count (step :: h) = h.count)
    (houter : ∀ f, History.outer? (step :: h) f = h.outer? f)
    (hwrites : ∀ f id y, ¬h.Writes step f id y)
    (hdefined : ∀ f id, History.Defined (step :: h) f id ↔ h.Defined f id) :
    s.Refines (step :: h) where
  size := hcount ▸ hs.size
  enclosing f := (houter f).symm ▸ hs.enclosing f
  outer_lt f o ho := hs.outer_lt f o (houter f ▸ ho)
  slot f id x := by
    rw [lastWritten_cons_iff]
    simp [hwrites, hs.slot]
  defined f id := by rw [hdefined, hs.defined]

theorem enter (hs : s.Refines h) {outer : Option Nat} (houter : ∀ o ∈ outer, o < h.count) :
    (s.newFrame ⟨[], outer⟩).2.Refines (.enter outer :: h) := by
  have hframe (f : Nat) : (s.newFrame ⟨[], outer⟩).2.frame f =
      if f = h.count then ⟨[], outer⟩ else s.frame f := hs.size ▸ frame_newFrame _ f
  have hslot (f id : Nat) : (s.newFrame ⟨[], outer⟩).2.slot? f id = s.slot? f id := by
    rw [slot?, hframe]
    split
    next hf =>
      refine (Option.not_isSome_iff_eq_none.1 fun hx => ?_).symm
      exact Nat.lt_irrefl _ (hf ▸ hs.size ▸ lt_size_of_slot hx)
    next => rfl
  refine ⟨?_, fun f => ?_, fun f o ho => ?_, fun f id x => ?_, fun f id => ?_⟩
  · rw [History.count, ← hs.size]
    exact Array.size_push _
  · rw [hframe, History.outer?]
    split
    next => rfl
    next => exact hs.enclosing f
  · rw [History.outer?] at ho
    split at ho
    next hf => exact hf ▸ houter o ho
    next => exact hs.outer_lt f o ho
  · rw [hslot, hs.slot, lastWritten_cons_iff]
    simp [show ∀ y, ¬h.Writes (.enter outer) f id y by rintro y ⟨⟩]
  · rw [hslot, hs.defined]
    simp [History.Defined]

/-- What the steps have written is kept by one more step. -/
theorem step {step : FrameStep} (hs : s.Refines h) (hlegal : History.Legal (step :: h)) :
    (step.apply s).Refines (step :: h) := by
  cases step with
  | enter outer => exact hs.enter hlegal.1
  | define f v x =>
    refine hs.define hlegal.1 rfl (fun _ => rfl) (fun f' id y => ?_) fun f' id => ?_
    · constructor
      · rintro ⟨⟩
        exact ⟨⟨rfl, rfl⟩, rfl⟩
      · rintro ⟨⟨rfl, rfl⟩, rfl⟩
        exact .define _ _ _
    · simp [History.Defined, or_and_right, exists_or, eq_comm]
  | assign f v x =>
    cases hr : s.holder? f v.id with
    | none =>
      rw [FrameStep.apply, assign_of_holder?_none x hr]
      refine hs.idle rfl (fun _ => rfl) ?_ fun f' id => ?_
      · rintro f' id y hw
        cases hw with
        | assign hnear => cases hr.symm.trans ((hs.holder?_iff hlegal.1).2 hnear)
      · simp [History.Defined]
    | some r =>
      rw [FrameStep.apply, assign_of_holder? x hr]
      have hslot := slot_of_holder hr
      refine hs.define (hs.size ▸ lt_size_of_slot hslot) rfl (fun _ => rfl) (fun f' id y => ?_)
        fun f' id => ?_
      · constructor
        · intro hw
          cases hw with
          | assign hnear =>
            cases hr.symm.trans ((hs.holder?_iff hlegal.1).2 hnear)
            exact ⟨⟨rfl, rfl⟩, rfl⟩
        · rintro ⟨⟨rfl, rfl⟩, rfl⟩
          exact .assign ((hs.holder?_iff hlegal.1).1 hr)
      · have hdef := (hs.defined r v.id).1 hslot
        simp only [History.Defined, List.mem_cons, reduceCtorEq, false_or] at hdef ⊢
        refine (or_iff_right_of_imp ?_).symm
        rintro ⟨rfl, rfl⟩
        exact hdef
  | read f v =>
    refine hs.idle rfl (fun _ => rfl) nofun fun f' id => ?_
    simp [History.Defined]

end Refines

/-- The second store differs from the first in one slot. -/
structure DiffersAt (s s' : Store) (r id : Nat) (x : Value) : Prop where
  slots : ∀ f i, s'.slot? f i = if f = r ∧ i = id then some x else s.slot? f i
  enclosing : ∀ f, (s'.frame f).enclosing = (s.frame f).enclosing
  size : s'.frames.size = s.frames.size
  others : { s' with frames := s.frames } = s

theorem differsAt_define {s : Store} {r : Nat} {v : Variable} (x : Value) (h : r < s.frames.size) :
    s.DiffersAt (s.define r v x) r v.id x where
  slots := slot?_define x h
  enclosing := enclosing_define x h
  size := Array.size_modify
  others := rfl

end Store

namespace History

open Store

variable {h : History}

theorem refines_run (hlegal : h.Legal) : h.run.Refines h := by
  induction h with
  | nil =>
    have hslot (f id : Nat) : slot? {} f id = none := rfl
    refine ⟨rfl, fun _ => rfl, nofun, fun f id x => ?_, fun f id => ?_⟩
    · rw [run, hslot]
      exact ⟨nofun, nofun⟩
    · rw [run, hslot]
      simp [Defined]
  | cons step h ih =>
    have hbefore : Legal h := by cases step <;> exact hlegal.2
    exact (ih hbefore).step hlegal

/-- Reading a variable gives the value that was last written in the nearest frame, from one outwards,
    that defines it, and fails exactly if there is none. Setting it changes this one slot, and fails
    exactly if there is no such frame; then it changes nothing. -/
theorem lookup_run (hlegal : h.Legal) {f : Nat} (hf : f < h.count) (v : Variable) :
    (∀ x, h.run.lookup f v = .ok x ↔ ∃ r, h.Nearest v.id f r ∧ h.LastWritten r v.id x) ∧
    ((∃ e, h.run.lookup f v = .error e) ↔ ∀ r, h.AtOrAbove f r → ¬h.Defined r v.id) ∧
    ∀ x, (∀ r, h.Nearest v.id f r → h.run.assign f v x = .ok (run (.assign f v x :: h)) ∧
        h.run.DiffersAt (run (.assign f v x :: h)) r v.id x) ∧
      ((∃ e, h.run.assign f v x = .error e) ↔ ∀ r, h.AtOrAbove f r → ¬h.Defined r v.id) ∧
      ((∃ e, h.run.assign f v x = .error e) → run (.assign f v x :: h) = h.run) := by
  have hs := refines_run hlegal
  have hnearest (r : Nat) : h.run.holder? f v.id = some r ↔ h.Nearest v.id f r := hs.holder?_iff hf
  have hexists : (∃ r, h.Nearest v.id f r) ↔ ∃ r, h.AtOrAbove f r ∧ h.Defined r v.id :=
    exists_nearest_iff
  have hnone : (∀ r, h.AtOrAbove f r → ¬h.Defined r v.id) ↔ ∀ r, ¬h.Nearest v.id f r := by
    simpa using not_congr hexists.symm
  rw [hnone]
  cases hr : h.run.holder? f v.id with
  | none =>
    have hno (r : Nat) : ¬h.Nearest v.id f r := by rw [← hnearest, hr]; nofun
    have hlookup := lookup_of_holder?_none hr
    have hassign (x : Value) := assign_of_holder?_none x hr
    refine ⟨fun x => ?_, ⟨fun _ => hno, fun _ => ⟨_, hlookup⟩⟩, fun x =>
      ⟨fun r h' => absurd h' (hno r), ⟨fun _ => hno, fun _ => ⟨_, hassign x⟩⟩, fun _ => ?_⟩⟩
    · simp [hlookup, hno]
    · rw [run, FrameStep.apply, hassign]
  | some r =>
    have hnear := (hnearest r).1 hr
    have hunique (r' : Nat) (h' : h.Nearest v.id f r') : r' = r :=
      Option.some.inj (((hnearest r').2 h').symm.trans hr)
    obtain ⟨y, hy⟩ := Option.isSome_iff_exists.1 (slot_of_holder hr)
    have hlookup : h.run.lookup f v = .ok y := by
      rw [lookup_of_holder? hr, hy]
      rfl
    have hassign (x : Value) := assign_of_holder? x hr
    have hsome : ¬∀ r, ¬h.Nearest v.id f r := fun h' => h' r hnear
    refine ⟨fun x => ?_, ?_, fun x => ⟨fun r' h' => ?_, ?_, ?_⟩⟩
    · rw [hlookup]
      constructor
      · rintro ⟨⟩
        exact ⟨r, hnear, (hs.slot r v.id y).1 hy⟩
      · rintro ⟨r', h', hx⟩
        rw [hunique r' h', ← hs.slot, hy] at hx
        cases hx
        rfl
    · simp [hlookup, hsome]
    · obtain rfl := hunique r' h'
      have hrun : run (.assign f v x :: h) = h.run.define r' v x := by
        rw [run, FrameStep.apply, hassign]
      rw [hrun]
      exact ⟨hassign x, differsAt_define x (lt_size_of_slot (slot_of_holder hr))⟩
    · simp [hassign, hsome]
    · simp [hassign]

/-- A variable of the outermost frame, set in one of two frames within it. -/
def siblings : History :=
  [.assign 2 ⟨0, "x", .int⟩ (.number (.integral .int 5)), .enter (some 0), .enter (some 0),
    .define 0 ⟨0, "x", .int⟩ (.number (.integral .int 1)), .enter none]

/-- The other frame sees the value. -/
theorem lookup_siblings : siblings.Legal ∧ 1 < siblings.count ∧
    siblings.run.lookup 1 ⟨0, "x", .int⟩ = .ok (.number (.integral .int 5)) := by
  have hlegal : siblings.Legal := by simp [siblings, Legal, count]
  have hcount : 1 < siblings.count := by decide
  refine ⟨hlegal, hcount, ((lookup_run hlegal hcount _).1 _).2 ⟨0, ?_, .now (.assign ?_)⟩⟩
  · exact .outwards (by simp [siblings, Defined]) rfl
      (.here ⟨⟨0, "x", .int⟩, .number (.integral .int 1), by simp [siblings], rfl⟩)
  · exact .outwards (by simp [Defined]) rfl
      (.here ⟨⟨0, "x", .int⟩, .number (.integral .int 1), by simp, rfl⟩)

end History

end Scriptlet

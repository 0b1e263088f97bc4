import Scriptlet.Engine
import Scriptlet.Evaluation.Call

/-!
# Exceptions that leave functions

Within a function, an exception is a value that handlers look at. Where it leaves the function,
only its text is left of it, which further calls pass on as it is (`Machine.conclude_thrown`). A
handler around the call sees an `Exception` with that text as its message, whatever was thrown
(`Machine.guarded_thrown`); so handlers for the other exceptions of the library are passed over
(`Machine.handle_thrown`). Thrown without a call in between, the exception itself is handled
(`Machine.guarded_throw`).
-/

namespace Scriptlet

namespace Machine

open Evaluation

variable {m : Machine} {site : Site} {s s' : Store} {body : Evaluation Value} {text : String}
  {catches : List Catch}

/-- A call is left by the text of an exception if its body is left by the exception, or by that
    text, which comes from a call within. -/
theorem conclude_thrown {ret : Ty} {r : EStateM.Result Signal Store Value} :
    conclude ret r = .error (.error (.thrown text)) s ↔
      (∃ v, r = .error (.throw v) s ∧ s.display v = text) ∨
        r = .error (.halt (.error (.thrown text))) s := by
  constructor
  · intro h
    unfold conclude at h
    split at h
    · split at h
      · cases h
      · split at h <;> cases h
    · cases h
      exact .inr rfl
    · cases h
      exact .inl ⟨_, rfl, rfl⟩
    · cases h
  · rintro (⟨v, rfl, rfl⟩ | rfl) <;> rfl

/-- The exception that handlers see for a text. -/
def exceptionOf (text : String) : ObjectData := ⟨"Exception", [("Message", .string text)]⟩

/-- An exception that no call was left by is handled itself. -/
theorem guarded_throw {v : Value} (h : body site s = .error (.throw v) s') :
    m.guarded body catches site s = m.handle catches v site s' := by
  rw [guarded, h]

/-- For the text that a call was left by, a new exception is handled. -/
theorem guarded_thrown (h : body site s = .error (.halt (.error (.thrown text))) s') :
    m.guarded body catches site s = m.handle catches (s'.newObject (exceptionOf text)).1 site
      (s'.newObject (exceptionOf text)).2 := by
  rw [guarded, h]
  rfl

/-- The classes of exceptions in the library, but for the one they derive from. -/
def derivedExceptions : List String :=
  ["ArgumentException", "InvalidOperationException", "DivideByZeroException"]

/-- Handlers for derived exceptions are passed over, up to one for all exceptions. -/
theorem handle_thrown (hm : m.directory = Engine.directory {}) (s : Store)
    (hcatches : ∀ c ∈ catches, ∃ name ∈ derivedExceptions, c.type = .named name []) {c : Catch}
    (hc : c.type = .named "Exception" []) (rest : List Catch) :
    m.handle (catches ++ c :: rest) (s.newObject (exceptionOf text)).1 site
        (s.newObject (exceptionOf text)).2 =
      m.handle [c] (s.newObject (exceptionOf text)).1 site (s.newObject (exceptionOf text)).2 := by
  have htype : (s.newObject (exceptionOf text)).2.runtimeType? (s.newObject (exceptionOf text)).1 =
      some (.named "Exception" []) := by
    simp [Store.newObject, Store.runtimeType?, Store.object, exceptionOf]
  have hsupertypes : (Engine.directory {}).supertypes (.named "Exception" []) =
      [(.named "Exception" [], 0), (.object, 1)] := by
    have hparents : (Engine.directory {}).parents (.named "Exception" []) = [.object] := by
      decide
    rw [Directory.supertypes, Directory.reach, hparents]
    change ((Engine.directory {}).reach [_, (.object, 1)] [(.object, 1)]).getD _ = _
    rw [Directory.reach]
    change ((Engine.directory {}).reach [_, (.object, 1)] []).getD _ = _
    rw [Directory.reach]
    rfl
  have hderived : ∀ name ∈ derivedExceptions,
      (Engine.directory {}).derivesFrom (.named "Exception" []) name = false := by
    unfold Directory.derivesFrom
    rw [hsupertypes]
    decide
  have hother : ∀ c ∈ catches, m.isInstance (s.newObject (exceptionOf text)).2
      (s.newObject (exceptionOf text)).1 c.type = false := by
    intro c hmem
    obtain ⟨name, hname, hc⟩ := hcatches c hmem
    have hne : name ≠ "Exception" := by
      rintro rfl
      exact absurd hname (by decide)
    rw [hc]
    simp [isInstance, htype, hm, hderived name hname, Ty.definitionName?, hne.symm]
  have hthis : m.isInstance (s.newObject (exceptionOf text)).2 (s.newObject (exceptionOf text)).1
      c.type = true := by
    rw [hc]
    simp [isInstance, htype]
  have hfind : (catches ++ c :: rest).find? (fun c => m.isInstance
      (s.newObject (exceptionOf text)).2 (s.newObject (exceptionOf text)).1 c.type) = some c := by
    rw [List.find?_append, List.find?_eq_none.mpr fun c hc => by simp [hother c hc]]
    simp [hthis]
  unfold handle
  rw [hfind, List.find?_singleton, if_pos hthis]

end Machine

end Scriptlet

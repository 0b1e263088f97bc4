import Scriptlet.Proofs.Reading.Runs
import Scriptlet.Reading.Lambda

/-!
# Readings that leave the scopes alone

Reading types and the heads of lambdas moves the cursor and nothing else. However such a reading
ends, the scopes are as they were (`Reading.Unscoped`). This holds of all that is put together from
readings of tokens (`Reading.Plain.unscoped`).
-/

namespace Scriptlet.Reading

variable {α β : Type} {r : Reading α}

/-- A reading that leaves the scopes as they are. -/
def Unscoped (r : Reading α) : Prop := ∀ p, (r.stop p).scopes = p.scopes

namespace Unscoped

variable {k : α → Reading β}

theorem bind (h : Unscoped r) (hk : ∀ a, Unscoped (k a)) : Unscoped (r >>= k) := by
  intro p
  cases hr : r p with
  | ok a q =>
    have hq : q.scopes = p.scopes := stop_ok hr ▸ h p
    rw [stop, bind_ok hr, ← hq]
    exact hk a q
  | error e q => rw [stop_error (bind_error hr), ← stop_error hr, h p]

theorem onCursor {f : Cursor → Except Error α × Cursor} : Unscoped (onCursor f) := by
  intro p
  rcases hf : f p.cursor with ⟨_ | _, d⟩ <;> simp only [stop, Reading.onCursor, hf]

theorem attempt {r : Reading (Option α)} (h : Unscoped r) : Unscoped (Reading.attempt r) := by
  refine bind (fun _ => rfl) fun _ => h.bind fun o => ?_
  cases o with
  | none | some a => exact bind (fun _ => rfl) fun _ _ => rfl

theorem ahead (h : Unscoped r) : Unscoped (Reading.ahead r) :=
  bind (fun _ => rfl) fun _ => h.bind fun _ => bind (fun _ => rfl) fun _ _ => rfl

theorem iterate {round : α → Reading (Round α β)} (h : ∀ a, Unscoped (round a)) (a : α) :
    Unscoped (Reading.iterate round a) := by
  have hwithin : ∀ rounds a, Unscoped (Reading.iterateWithin round rounds a) := by
    intro rounds
    induction rounds with
    | zero => exact fun _ => bind (fun _ => rfl) fun _ _ => rfl
    | succ rounds ih =>
      intro a
      refine (h a).bind fun o => ?_
      cases o with
      | again a => exact ih a
      | done b => exact fun _ => rfl
  exact bind (fun _ => rfl) fun p => hwithin _ a

end Unscoped

theorem Plain.unscoped [h : Plain r] : Unscoped r := by
  induction h with
  | pure | throw | moveTo => exact fun _ => rfl
  | bind _ _ ihr ihk => exact ihr.bind ihk
  | look _ _ ihk => exact .bind (fun _ => rfl) fun _ => ihk _
  | onCursor => exact .onCursor
  | attempt _ ih => exact ih.attempt
  | ahead _ ih => exact ih.ahead
  | iterate _ ih => exact .iterate ih _

end Scriptlet.Reading

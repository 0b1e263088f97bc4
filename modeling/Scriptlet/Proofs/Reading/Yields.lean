import Mathlib.Data.List.Basic
import Scriptlet.Reading.Grammar

/-!
# What a reading yields

`Reading.Yields P r` says that `P` holds of whatever the reading `r` gives, wherever it
starts. There is one lemma for each way in which readings are put together, so a property
of all expressions that a construct of the language can be read as follows the text of that
construct's reading. Repetitions are given an invariant of their state
(`Reading.Yields.iterate`).
-/

namespace Scriptlet.Reading

variable {α β γ : Type}

/-- Whatever a reading gives has a property. -/
def Yields (P : α → Prop) (r : Reading α) : Prop := ∀ p a q, r p = .ok a q → P a

namespace Yields

variable {P : α → Prop} {Q : β → Prop} {r : Reading α}

theorem any : Yields (fun _ => True) r := fun _ _ _ _ => trivial

theorem pure {a : α} (h : P a) : Yields P (Pure.pure a : Reading α) := by
  rintro p _ q ⟨⟩
  exact h

theorem throw {e : Error} : Yields P (throw e : Reading α) := fun _ _ _ h => nomatch h

theorem bind {k : α → Reading β} (h : Yields P r) (hk : ∀ a, P a → Yields Q (k a)) :
    Yields Q (r >>= k) := by
  intro p b q hb
  change EStateM.bind r k p = _ at hb
  unfold EStateM.bind at hb
  split at hb
  · rename_i a p' hr
    exact hk a (h p a p' hr) p' b q hb
  · cases hb

/-- What was read before does not matter. -/
theorem skip {k : α → Reading β} (hk : ∀ a, Yields Q (k a)) : Yields Q (r >>= k) :=
  any.bind fun a _ => hk a

theorem attempt {r : Reading (Option α)} (h : Yields (fun o => ∀ a, o = some a → P a) r) :
    Yields (fun o => ∀ a, o = some a → P a) (Reading.attempt r) := by
  refine skip fun _ => h.bind fun o ho => ?_
  rcases o with _ | a
  · exact skip fun _ => pure nofun
  · exact skip fun _ => pure ho

/-! ### Repetition -/

/-- What a round of a repetition keeps and what it ends with. -/
def Step (I : α → Prop) (Q : β → Prop) : Round α β → Prop
  | .again a => I a
  | .done b => Q b

theorem iterateWithin {I : α → Prop} {round : α → Reading (Round α β)}
    (h : ∀ a, I a → Yields (Step I Q) (round a)) (rounds : Nat) :
    ∀ a, I a → Yields Q (Reading.iterateWithin round rounds a) := by
  induction rounds with
  | zero => exact fun _ _ => skip fun _ => throw
  | succ rounds ih =>
    intro a ha
    refine (h a ha).bind fun next hnext => ?_
    rcases next with a' | b
    · exact ih a' hnext
    · exact pure hnext

theorem iterate {I : α → Prop} {round : α → Reading (Round α β)} {a : α}
    (h : ∀ a, I a → Yields (Step I Q) (round a)) (ha : I a) :
    Yields Q (Reading.iterate round a) :=
  skip fun p => iterateWithin h (p.cursor.remaining.length + 1) a ha

end Yields

end Scriptlet.Reading

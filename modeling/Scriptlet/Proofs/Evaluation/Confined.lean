import Scriptlet.Evaluation.Evaluate

/-!
# Where a run can lead

`Confined I P E r` says of a run `r` what it can lead to: if it starts in a store with the
property `I`, it ends in such a store, with a value that has the property `P` or stopped by
something that has the property `E`. There is one lemma for each way in which runs are put
together. An evaluation is a run once the site is given.
-/

namespace Scriptlet

variable {ε α β : Type} {I : Store → Prop} {P : α → Prop} {Q : β → Prop} {E : ε → Prop}

/-- Started in a store with the property `I`, the run ends in such a store. Its value has the
    property `P`, or what stops it has the property `E`. -/
def Confined (I : Store → Prop) (P : α → Prop) (E : ε → Prop) (r : EStateM ε Store α) : Prop :=
  ∀ s, I s → match r s with
    | .ok a s' => P a ∧ I s'
    | .error e s' => E e ∧ I s'

namespace Confined

theorem pure {a : α} (h : P a) : Confined I P E (Pure.pure a : EStateM ε Store α) :=
  fun _ hs => ⟨h, hs⟩

theorem throw {e : ε} (h : E e) : Confined I P E (MonadExcept.throw e : EStateM ε Store α) :=
  fun _ hs => ⟨h, hs⟩

theorem imp {P' : α → Prop} {E' : ε → Prop} {r : EStateM ε Store α} (h : Confined I P E r)
    (hP : ∀ a, P a → P' a) (hE : ∀ e, E e → E' e) : Confined I P' E' r := by
  intro s hs
  have hr := h s hs
  split at hr
  · exact ⟨hP _ hr.1, hr.2⟩
  · exact ⟨hE _ hr.1, hr.2⟩

theorem bind {r : EStateM ε Store α} {k : α → EStateM ε Store β} (h : Confined I P E r)
    (hk : ∀ a, P a → Confined I Q E (k a)) : Confined I Q E (r >>= k) := by
  intro s hs
  have hr := h s hs
  change match EStateM.bind r k s with | .ok _ _ => _ | .error _ _ => _
  unfold EStateM.bind
  cases hrs : r s with
  | ok a s' =>
    rw [hrs] at hr
    exact hk a hr.1 s' hr.2
  | error e s' =>
    rw [hrs] at hr
    exact hr

theorem map {f : α → β} {r : EStateM ε Store α} (h : Confined I P E r)
    (hf : ∀ a, P a → Q (f a)) : Confined I Q E (f <$> r) := by
  rw [map_eq_pure_bind]
  exact h.bind fun a ha => pure (hf a ha)

/-- What a run looks at is a store with the property. -/
theorem get : Confined I I E (MonadState.get : EStateM ε Store Store) := fun _ hs => ⟨hs, hs⟩

theorem modify {f : Store → Store} (h : ∀ s, I s → I (f s)) :
    Confined I (fun _ => True) E (modify f : EStateM ε Store PUnit) := fun s hs => ⟨trivial, h s hs⟩

/-! ## Runs -/

section Runs

variable {H : Halt → Prop}

theorem fault {f : Fault} (h : H (.error (.fault f))) : Confined I P H (Run.fault f : Run α) :=
  throw h

theorem ofFault {x : Except Fault α} (hok : ∀ a, x = .ok a → P a)
    (herror : ∀ f, x = .error f → H (.error (.fault f))) : Confined I P H (Run.ofFault x) := by
  cases x with
  | ok a => exact pure (hok a rfl)
  | error f => exact fault (herror f rfl)

theorem look {f : Store → Except Fault α} (hok : ∀ s a, I s → f s = .ok a → P a)
    (herror : ∀ s e, I s → f s = .error e → H (.error (.fault e))) :
    Confined I P H (Run.look f) :=
  get.bind fun s hs => ofFault (fun a => hok s a hs) (fun e => herror s e hs)

end Runs

/-! ## Evaluations -/

section Evaluations

variable {S : Signal → Prop} {site : Site}

theorem pureAt {a : α} (h : P a) : Confined I P S ((Pure.pure a : Evaluation α) site) := pure h

theorem bindAt {ev : Evaluation α} {k : α → Evaluation β} (h : Confined I P S (ev site))
    (hk : ∀ a, P a → Confined I Q S (k a site)) : Confined I Q S ((ev >>= k) site) :=
  bind h hk

theorem getAt : Confined I I S ((MonadState.get : Evaluation Store) site) := get

theorem readAt : Confined I (· = site) S ((read : Evaluation Site) site) := pure rfl

theorem ofRun {r : Run α} (h : Confined I P (fun e => S (.halt e)) r) :
    Confined I P S (Evaluation.ofRun r site) := by
  intro s hs
  have hr := h s hs
  unfold Evaluation.ofRun
  cases hrs : r s with
  | ok a s' | error e s' =>
    rw [hrs] at hr
    exact hr

end Evaluations

end Confined

end Scriptlet

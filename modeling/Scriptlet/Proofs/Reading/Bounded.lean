import Mathlib.Data.List.Forall2
import Scriptlet.Proofs.Expr.Traits
import Scriptlet.Proofs.Reading.TypeRuns
import Scriptlet.Proofs.Reading.Unscoped
import Scriptlet.Proofs.Reading.Words

/-!
# Where the jumps of what is read can lead

While something is read, the scopes around it keep the labels that `break`, `continue` and
`return` lead to, though there may be more jumps that return (`Scopes.Grows`). The labels that
jumps can lead to are those of the scopes up to the innermost lambda (`Scopes.targets`); the
label that a lambda returns to is put in place only if something returns, so it counts only then.

`Bounded M T P r` says of a reading `r`, in a text without `goto` if the trait `M` forbids it, that
it gives something of which `P` holds for some of these labels, among them those in `T` that were
there before. There is one lemma for each way in which readings are put together. A reading that
has nothing to do with jumps is steady (`Steady`), and what is read after it may be looked at
alone (`Bounded.skip`).
-/

namespace Scriptlet

/-! ## Scopes -/

namespace Scope

/-- What stays of a scope while something is read: where jumps lead to. There may be more of
    those that return. -/
structure Grows (s t : Scope) : Prop where
  kind : t.kind = s.kind
  breakLabel : t.breakLabel = s.breakLabel
  continueLabel : t.continueLabel = s.continueLabel
  returnLabel : t.returnLabel = s.returnLabel
  returns : s.returns ≤ t.returns

theorem Grows.refl (s : Scope) : s.Grows s := ⟨rfl, rfl, rfl, rfl, Nat.le_refl _⟩

theorem Grows.trans {s t u : Scope} (h : s.Grows t) (h' : t.Grows u) : s.Grows u :=
  ⟨h'.kind.trans h.kind, h'.breakLabel.trans h.breakLabel,
    h'.continueLabel.trans h.continueLabel, h'.returnLabel.trans h.returnLabel,
    h.returns.trans h'.returns⟩

/-- The labels that `break` and `continue` lead to from within a scope. -/
def exits (s : Scope) : Set Nat :=
  {id | some id = s.breakLabel.map (·.id) ∨ some id = s.continueLabel.map (·.id)}

/-- The label that a lambda with this scope returns to, if it does. -/
def returned (s : Scope) : Set Nat := {id | some id = s.returnLabel.map (·.id) ∧ 0 < s.returns}

theorem Grows.exits_eq {s t : Scope} (h : s.Grows t) : t.exits = s.exits := by
  rw [exits, exits, h.breakLabel, h.continueLabel]

theorem Grows.returned_subset {s t : Scope} (h : s.Grows t) : s.returned ⊆ t.returned :=
  fun _ ⟨hid, hreturns⟩ => ⟨h.returnLabel ▸ hid, hreturns.trans_le h.returns⟩

end Scope

namespace Scopes

variable {s : Scopes} {scope : Scope} {label : Label}

/-- What stays of the scopes around while something is read. -/
def Grows (s t : Scopes) : Prop := List.Forall₂ Scope.Grows s.entered t.entered

theorem Grows.refl (s : Scopes) : s.Grows s := List.forall₂_same.2 fun scope _ => .refl scope

theorem Grows.trans {t u : Scopes} (h : s.Grows t) (h' : t.Grows u) : s.Grows u := by
  have htrans : ∀ {ss ts us : List Scope}, List.Forall₂ Scope.Grows ss ts →
      List.Forall₂ Scope.Grows ts us → List.Forall₂ Scope.Grows ss us := by
    intro ss ts us h
    induction h generalizing us with
    | nil => exact id
    | cons hscope _ ih =>
      rintro (_ | ⟨hscope', houter'⟩)
      exact .cons (hscope.trans hscope') (ih houter')
  exact htrans h h'

/-- Only the innermost scope has changed. -/
theorem Grows.of_innermost {t : Scope} {outer : List Scope}
    (hs : s.entered = scope :: outer) (h : scope.Grows t) {parameters : List Variable}
    {next : Nat} : s.Grows ⟨parameters, t :: outer, next⟩ := by
  rw [Grows, hs]
  exact .cons h (List.forall₂_same.2 fun scope _ => .refl scope)

/-- The labels that jumps can lead to from within scopes, as far as there are such jumps where
    they return. -/
def targets : List Scope → Set Nat
  | [] => ∅
  | scope :: outer =>
    if scope.kind = .lambda then scope.returned else scope.exits ∪ targets outer

theorem targets_cons (h : scope.kind ≠ .lambda) (outer : List Scope) :
    targets (scope :: outer) = scope.exits ∪ targets outer := if_neg h

theorem targets_lambda (h : scope.kind = .lambda) (outer : List Scope) :
    targets (scope :: outer) = scope.returned := if_pos h

theorem targets_subset {scopes scopes' : List Scope} (h : List.Forall₂ Scope.Grows scopes scopes') :
    targets scopes ⊆ targets scopes' := by
  induction h with
  | nil => exact subset_rfl
  | @cons scope scope' outer outer' hscope _ ih =>
    by_cases hkind : scope.kind = .lambda
    · rw [targets_lambda hkind, targets_lambda (hscope.kind.trans hkind)]
      exact hscope.returned_subset
    · rw [targets_cons hkind, targets_cons (hscope.kind ▸ hkind), hscope.exits_eq]
      exact Set.union_subset_union_right _ ih

theorem grows_modifyLambda (s : Scopes) {f : Scope → Scope} (hf : ∀ scope, Scope.Grows scope (f scope)) :
    s.Grows (s.modifyLambda f) := by
  change List.Forall₂ Scope.Grows s.entered (modifyLambda.go f s.entered)
  induction s.entered with
  | nil => exact .nil
  | cons scope outer ih =>
    rw [modifyLambda.go]
    split
    · exact .cons (hf scope) (List.forall₂_same.2 fun scope _ => .refl scope)
    · exact .cons (.refl scope) ih

/-- Jumps can lead to where the innermost lambda returns to. -/
theorem returned_subset_targets {f : Scope → Scope}
    (h : s.lambda? = some scope) (hf : (f scope).kind = scope.kind) :
    (f scope).returned ⊆ targets (s.modifyLambda f).entered := by
  change _ ⊆ targets (modifyLambda.go f s.entered)
  unfold lambda? at h
  generalize s.entered = scopes at h
  induction scopes with
  | nil => cases h
  | cons first outer ih =>
    rw [List.find?_cons] at h
    by_cases hkind : first.kind = .lambda
    · rw [hkind, beq_self_eq_true] at h
      cases h
      rw [modifyLambda.go, if_pos hkind, targets_lambda (hf.trans hkind)]
    · rw [beq_eq_false_iff_ne.2 hkind] at h
      rw [modifyLambda.go, if_neg hkind, targets_cons hkind]
      exact (ih h).trans Set.subset_union_right

/-- Jumps can lead to a label that the scopes up to the innermost lambda have as an exit. -/
theorem mem_targets {exit : Scope → Option Label} (h : s.withinLambda.findSome? exit = some label)
    (hexit : ∀ scope, exit scope = some label → label.id ∈ scope.exits) :
    label.id ∈ targets s.entered := by
  unfold withinLambda at h
  generalize s.entered = scopes at h
  induction scopes with
  | nil => cases h
  | cons scope outer ih =>
    by_cases hkind : scope.kind = .lambda
    · rw [List.takeWhile_cons_of_neg (by simp [hkind])] at h
      cases h
    · rw [List.takeWhile_cons_of_pos (by simp [hkind]), List.findSome?_cons] at h
      rw [targets_cons hkind]
      cases hscope : exit scope with
      | none =>
        rw [hscope] at h
        exact .inr (ih h)
      | some l =>
        rw [hscope] at h
        cases h
        exact .inl (hexit scope hscope)

theorem mem_targets_of_breakTarget? (h : s.breakTarget? = some label) :
    label.id ∈ targets s.entered :=
  mem_targets h fun scope hscope => .inl (by rw [hscope]; rfl)

theorem mem_targets_of_continueTarget?
    (h : s.continueTarget? = some label) : label.id ∈ targets s.entered :=
  mem_targets h fun scope hscope => .inr (by rw [hscope]; rfl)

end Scopes

/-- A cursor of the language from which on there is no `goto`, unless there may be any. -/
def Cursor.Free (M : Trait) (c : Cursor) : Prop := M.gotos ∨ c.Spares "goto"

/-- A token that is no `goto`, with none in its holes if it is a template, unless there may be
    any. -/
structure Token.Tame (M : Trait) (t : Token) : Prop where
  word : M.gotos ∨ t.is "goto" = false
  holes : t.kind = .template → ∀ segments, Template.split t.lexeme t.start = .ok segments →
    ∀ text offset alignment format, .hole text offset alignment format ∈ segments →
      (Cursor.ofSource text offset).Free M

theorem Cursor.Free.tame {M : Trait} {c d : Cursor} {t : Token} (h : c.Free M)
    (hread : c.read true = (.ok t, d)) : t.Tame M := by
  rcases h with h | h
  · exact ⟨.inl h, fun _ _ _ _ _ _ _ _ => .inl h⟩
  refine ⟨.inr (h.lacks t (.next hread)), fun htemplate segments hsplit text offset _ _ hhole => ?_⟩
  exact .inr (Lacks.spares text offset fun u hu =>
    h.lacks u (.hole hread htemplate hsplit hhole hu))

namespace Reading

variable {α β γ : Type} {M : Trait} {T : Set Nat} {P : Set Nat → α → Prop} {Q : Set Nat → β → Prop}
  {r : Reading α} {k : α → Reading β} {p q : Position}

/-! ## From a position -/

/-- From a position, a reading keeps where jumps lead to. What it gives has a property for some of
    the labels that jumps can lead to then, among them those that were given before. -/
structure Leads (M : Trait) (T : Set Nat) (P : Set Nat → α → Prop) (r : Reading α) (p : Position) : Prop where
  grows : p.scopes.Grows (r.stop p).scopes
  gives : ∀ a q, r p = .ok a q → q.cursor.Free M ∧
    ∃ T', T ⊆ T' ∧ T' ⊆ Scopes.targets q.scopes.entered ∧ P T' a

namespace Leads

theorem of_ok {a : α} (h : r p = .ok a q) (hgrows : p.scopes.Grows q.scopes) (hfree : q.cursor.Free M)
    {S : Set Nat} (hT : T ⊆ S) (hS : S ⊆ Scopes.targets q.scopes.entered) (hP : P S a) :
    Leads M T P r p := by
  refine ⟨by rw [stop_ok h]; exact hgrows, fun b q' hb => ?_⟩
  rw [h] at hb
  cases hb
  exact ⟨hfree, S, hT, hS, hP⟩

theorem of_error {e : Error} (h : r p = .error e q) (hgrows : p.scopes.Grows q.scopes) :
    Leads M T P r p := by
  refine ⟨by rw [stop_error h]; exact hgrows, fun b q' hb => ?_⟩
  rw [h] at hb
  cases hb

theorem bind (h : Leads M T P r p)
    (hk : ∀ a q T', r p = .ok a q → q.cursor.Free M → T ⊆ T' →
      T' ⊆ Scopes.targets q.scopes.entered → P T' a → Leads M T' Q (k a) q) :
    Leads M T Q (r >>= k) p := by
  cases hr : r p with
  | ok a q =>
    obtain ⟨hfree, T', hT, hT', hP⟩ := h.gives a q hr
    obtain ⟨hgrows, hgives⟩ := hk a q T' hr hfree hT hT' hP
    refine ⟨?_, fun b q' hb => ?_⟩
    · have hstop : (r >>= k).stop p = (k a).stop q := by rw [stop, bind_ok hr]; rfl
      rw [hstop]
      exact (stop_ok hr ▸ h.grows).trans hgrows
    · rw [bind_ok hr] at hb
      obtain ⟨hfree', T'', hT'', hrest⟩ := hgives b q' hb
      exact ⟨hfree', T'', hT.trans hT'', hrest⟩
  | error e q => exact of_error (bind_error hr) (stop_error hr ▸ h.grows)

end Leads

/-- Wherever a reading starts in a text without `goto`, with some labels that jumps can lead to,
    it leads there. -/
def Bounded (M : Trait) (T : Set Nat) (P : Set Nat → α → Prop) (r : Reading α) : Prop :=
  ∀ p : Position, p.cursor.Free M → T ⊆ Scopes.targets p.scopes.entered → Leads M T P r p

/-- A property that holds for more labels too. -/
def Rising (P : Set Nat → α → Prop) : Prop :=
  ∀ ⦃S S' : Set Nat⦄ ⦃a : α⦄, S ⊆ S' → P S a → P S' a

theorem rising_holds : Rising M.Holds := fun _ _ _ => M.mono

theorem Rising.list (h : Rising P) : Rising fun T (as : List α) => ∀ a ∈ as, P T a :=
  fun _ _ _ hS has a ha => h hS (has a ha)

theorem Rising.option (h : Rising P) : Rising fun T (o : Option α) => ∀ a ∈ o, P T a :=
  fun _ _ _ hS ho a ha => h hS (ho a ha)

/-- A reading that keeps where jumps lead to, and comes to no `goto`. -/
class Steady (r : Reading α) : Prop where
  grows : ∀ p : Position, p.scopes.Grows (r.stop p).scopes
  free : ∀ {p q : Position} {a : α}, r p = .ok a q → p.cursor.Spares "goto" →
    q.cursor.Spares "goto"

namespace Bounded

theorem pure {a : α} (h : P T a) : Bounded M T P (Pure.pure a : Reading α) := fun p hfree hT =>
  .of_ok rfl (.refl p.scopes) hfree subset_rfl hT h

theorem throw {e : Error} : Bounded M T P (throw e : Reading α) := fun p _ _ =>
  .of_error rfl (.refl p.scopes)

theorem imp {P' : Set Nat → α → Prop} (h : Bounded M T P r) (hP : ∀ S a, P S a → P' S a) :
    Bounded M T P' r := by
  refine fun p hfree hT => ⟨(h p hfree hT).grows, fun a q hr => ?_⟩
  obtain ⟨hfree', T', hT', hsub, ha⟩ := (h p hfree hT).gives a q hr
  exact ⟨hfree', T', hT', hsub, hP T' a ha⟩

theorem bind (h : Bounded M T P r) (hk : ∀ T' a, T ⊆ T' → P T' a → Bounded M T' Q (k a)) :
    Bounded M T Q (r >>= k) :=
  fun p hfree hT => (h p hfree hT).bind fun a q T' _ hfree' hT' hsub ha => hk T' a hT' ha q hfree' hsub

/-- What was read before does not matter. -/
theorem skip [h : Steady r] (hk : ∀ a, Bounded M T Q (k a)) : Bounded M T Q (r >>= k) := by
  refine bind (P := fun S _ => S = T) (fun p hfree hT => ⟨h.grows p, fun a q hr => ?_⟩) ?_
  · have hsub := Scopes.targets_subset (stop_ok hr ▸ h.grows p)
    exact ⟨Or.imp_right (h.free hr) hfree, T, subset_rfl, hT.trans hsub, rfl⟩
  · rintro _ a - rfl
    exact hk a

theorem map {f : α → β} (h : Bounded M T P r) (hf : ∀ S a, P S a → Q S (f a)) :
    Bounded M T Q (f <$> r) := by
  rw [map_eq_pure_bind]
  exact h.bind fun T' a _ ha => pure (hf T' a ha)

theorem ofExcept {x : Except Error α} (h : ∀ a, x = .ok a → P T a) :
    Bounded M T P (MonadExcept.ofExcept x : Reading α) := by
  cases x with
  | ok a => exact pure (h a rfl)
  | error e => exact throw

theorem get_bind {k : Position → Reading β}
    (hk : ∀ p : Position, p.cursor.Free M → T ⊆ Scopes.targets p.scopes.entered → Leads M T Q (k p) p) :
    Bounded M T Q (get >>= k) := by
  refine fun p hfree hT => Leads.bind (P := fun S a => S = T ∧ a = p)
    (.of_ok rfl (.refl p.scopes) hfree subset_rfl hT ⟨rfl, rfl⟩) ?_
  rintro _ q _ ⟨⟩ - - - ⟨rfl, -⟩
  exact hk p hfree hT

theorem elsewhere {c : Cursor} (hc : c.Free M) (h : Bounded M T P r) :
    Bounded M T P (Reading.elsewhere c r) := by
  intro p hfree hT
  obtain ⟨hgrows, hgives⟩ := h { p with cursor := c } hc hT
  cases hr : r { p with cursor := c } with
  | ok a q =>
    obtain ⟨-, T', hT', hsub, ha⟩ := hgives a q hr
    have he : Reading.elsewhere c r p = .ok a { q with cursor := p.cursor } := by
      rw [Reading.elsewhere, hr]
    exact .of_ok he (stop_ok hr ▸ hgrows) hfree hT' hsub ha
  | error e q =>
    have he : Reading.elsewhere c r p = .error e { q with cursor := p.cursor } := by
      rw [Reading.elsewhere, hr]
    exact .of_error he (stop_error hr ▸ hgrows)

/-- Within a scope jumps can also lead to where its `break` and `continue` do. -/
theorem within {s : Scope} (hs : s.kind ≠ .lambda) (hP : Rising P)
    (h : Bounded M T P r) :
    Bounded M T (fun S x => P (S ∪ s.exits) x.1) (Reading.within s r) := by
  intro p hfree hT
  have henter : (modify fun p => { p with scopes := p.scopes.enter s } : Reading Unit) p =
      .ok () { p with scopes := p.scopes.enter s } := rfl
  have hinner : T ⊆ Scopes.targets (s :: p.scopes.entered) := by
    rw [Scopes.targets_cons hs]
    exact hT.trans Set.subset_union_right
  obtain ⟨hgrows, hgives⟩ := h { p with scopes := p.scopes.enter s } hfree hinner
  cases hr : r { p with scopes := p.scopes.enter s } with
  | ok a q =>
    have ho : Reading.outcome r { p with scopes := p.scopes.enter s } = .ok (.ok a) q := by
      rw [Reading.outcome, hr]
    obtain ⟨hfree', T', hT', hsub, ha⟩ := hgives a q hr
    obtain ⟨s', outer, hgrown, houter, hentered⟩ :=
      List.forall₂_cons_left_iff.1 (stop_ok hr ▸ hgrows)
    have hleave : q.scopes.leave.2.entered = outer := by rw [Scopes.leave, hentered]; rfl
    rw [hentered, Scopes.targets_cons (hgrown.kind ▸ hs), hgrown.exits_eq] at hsub
    have hgrows' : p.scopes.Grows q.scopes.leave.2 := by rw [Scopes.Grows, hleave]; exact houter
    refine .of_ok ((bind_ok henter).trans ((bind_ok ho).trans rfl)) hgrows' hfree'
      (S := T' ∩ Scopes.targets outer) ?_ ?_ (hP ?_ ha)
    · exact Set.subset_inter hT' (hT.trans (Scopes.targets_subset houter))
    · change _ ⊆ Scopes.targets q.scopes.entered.tail
      rw [hentered]
      exact Set.inter_subset_right
    · intro id hid
      rcases hsub hid with hexit | htarget
      · exact .inr hexit
      · exact .inl ⟨hid, htarget⟩
  | error e q =>
    have ho : Reading.outcome r { p with scopes := p.scopes.enter s } = .ok (.error e) q := by
      rw [Reading.outcome, hr]
    obtain ⟨s', outer, hgrown, houter, hentered⟩ :=
      List.forall₂_cons_left_iff.1 (stop_error hr ▸ hgrows)
    have hgrows' : p.scopes.Grows q.scopes.leave.2 := by
      rw [Scopes.Grows, Scopes.leave, hentered]
      exact houter
    exact .of_error ((bind_ok henter).trans ((bind_ok ho).trans rfl)) hgrows'

theorem withinBlock (hP : Rising P) (h : Bounded M T P r) :
    Bounded M T (fun S x => P S x.1) (Reading.within {} r) := by
  have hexits : ({} : Scope).exits = ∅ := by simp [Scope.exits]
  refine (h.within (s := {}) nofun hP).imp fun S x hx => ?_
  rwa [hexits, Set.union_empty] at hx

/-! ### Repetition -/

/-- What a round of a repetition keeps and what it ends with. -/
def Step (I : Set Nat → α → Prop) (Q : Set Nat → β → Prop) (S : Set Nat) : Round α β → Prop
  | .again a => I S a
  | .done b => Q S b

theorem iterateWithin {I : Set Nat → α → Prop} {round : α → Reading (Round α β)}
    (h : ∀ S a, I S a → Bounded M S (Step I Q) (round a)) (rounds : Nat) :
    ∀ {T a}, I T a → Bounded M T Q (Reading.iterateWithin round rounds a) := by
  induction rounds with
  | zero => exact fun _ p _ _ => .of_error rfl (.refl p.scopes)
  | succ rounds ih =>
    intro T a ha
    refine (h T a ha).bind fun T' next _ hnext => ?_
    cases next with
    | again a => exact ih hnext
    | done b => exact pure hnext

theorem iterate {I : Set Nat → α → Prop} {round : α → Reading (Round α β)} {a : α}
    (h : ∀ S a, I S a → Bounded M S (Step I Q) (round a)) (ha : I T a) :
    Bounded M T Q (Reading.iterate round a) :=
  get_bind fun p hfree hT => iterateWithin h _ ha p hfree hT

theorem gather {item : Reading (Option α)} (hP : Rising P)
    (h : ∀ S, Bounded M S (fun S o => ∀ a ∈ o, P S a) item) :
    Bounded M T (fun S as => ∀ a ∈ as, P S a) (Reading.gather item) := by
  refine map (P := fun S as => ∀ a ∈ as, P S a)
    (iterate (I := fun S as => ∀ a ∈ as, P S a) (fun S as has => ?_) nofun) fun S as has a ha => ?_
  · refine (h S).bind fun S' o hS ho => ?_
    have has' := hP.list hS has
    cases o with
    | none => exact pure has'
    | some a => exact pure (List.forall_mem_cons.2 ⟨ho a rfl, has'⟩)
  · exact has a (List.mem_reverse.1 ha)

/-! ### Lists -/

theorem mapM {f : γ → Reading α} {as : List γ} (hP : Rising P)
    (h : ∀ a ∈ as, ∀ S, T ⊆ S → Bounded M S P (f a)) :
    Bounded M T (fun S bs => ∀ b ∈ bs, P S b) (as.mapM f) := by
  induction as generalizing T with
  | nil => exact pure nofun
  | cons a as ih =>
    rw [List.mapM_cons]
    refine (h a List.mem_cons_self T subset_rfl).bind fun T' b hT hb => ?_
    refine (ih fun a' ha' S hS => h a' (List.mem_cons_of_mem a ha') S (hT.trans hS)).bind
      fun T'' bs hT' hbs => ?_
    exact pure (List.forall_mem_cons.2 ⟨hP hT' hb, hbs⟩)

theorem filterMapM {f : γ → Reading (Option α)} {as : List γ} (hP : Rising P)
    (h : ∀ a ∈ as, ∀ S, T ⊆ S → Bounded M S (fun S o => ∀ b ∈ o, P S b) (f a)) :
    Bounded M T (fun S bs => ∀ b ∈ bs, P S b) (as.filterMapM f) := by
  induction as generalizing T with
  | nil => exact pure nofun
  | cons a as ih =>
    rw [List.filterMapM_cons]
    refine (h a List.mem_cons_self T subset_rfl).bind fun T' o hT ho => ?_
    have hrest := ih fun a' ha' S hS => h a' (List.mem_cons_of_mem a ha') S (hT.trans hS)
    cases o with
    | none => exact hrest
    | some b =>
      exact hrest.bind fun T'' bs hT' hbs =>
        pure (List.forall_mem_cons.2 ⟨hP hT' (ho b rfl), hbs⟩)

end Bounded

/-! ## Steady readings -/

namespace Steady

theorem skip [h : Steady r] (hk : ∀ a, Steady (k a)) : Steady (r >>= k) := by
  refine ⟨fun p => ?_, fun {p q b} hb hfree => ?_⟩
  · cases hr : r p with
    | ok a q =>
      have hstop : (r >>= k).stop p = (k a).stop q := by rw [stop, bind_ok hr]; rfl
      rw [hstop]
      exact (stop_ok hr ▸ h.grows p).trans ((hk a).grows q)
    | error e q =>
      rw [stop_error (bind_error hr)]
      exact stop_error hr ▸ h.grows p
  · cases hr : r p with
    | ok a p' =>
      rw [bind_ok hr] at hb
      exact (hk a).free hb (h.free hr hfree)
    | error e p' =>
      rw [bind_error hr] at hb
      cases hb

instance bind [Steady r] [hk : ∀ a, Steady (k a)] : Steady (r >>= k) := skip hk

/-- A reading that goes along tokens and leaves the scopes alone. -/
theorem of_runs [Plain r] {n : Nat} {y : α → Option Nat} (h : Runs (some n) y r)
    (hy : ∀ a, (y a).isSome) : Steady r :=
  ⟨fun p => by rw [Plain.unscoped p]; exact .refl p.scopes, fun hq hfree => h.spares hy (by decide) hq hfree⟩

instance (priority := low) of_level [Plain r] [h : Level r] : Steady r := of_runs h fun _ => rfl

/-- What happens in the scopes only. -/
theorem of_scopes (h : ∀ p : Position, (r.stop p).cursor = p.cursor ∧ p.scopes.Grows (r.stop p).scopes) :
    Steady r :=
  ⟨fun p => (h p).2, fun {p q a} hr hfree => by rw [← stop_ok hr, (h p).1]; exact hfree⟩

theorem still (h : ∀ p, r.stop p = p) : Steady r :=
  of_scopes fun p => by rw [h p]; exact ⟨rfl, .refl p.scopes⟩

instance pure {a : α} : Steady (Pure.pure a : Reading α) := still fun _ => rfl

instance throw {e : Error} : Steady (throw e : Reading α) := still fun _ => rfl

instance ofExcept {x : Except Error α} : Steady (MonadExcept.ofExcept x : Reading α) :=
  still fun p => by cases x <;> rfl

instance map {f : α → β} [h : Steady r] : Steady (f <$> r) := by
  rw [map_eq_pure_bind]
  infer_instance

instance ite {c : Prop} [Decidable c] {r r' : Reading α} [Steady r] [Steady r'] :
    Steady (if c then r else r') := by
  split <;> assumption

instance get : Steady (get : Reading Position) := still fun _ => rfl

instance atStatementEnd : Steady atStatementEnd := by
  unfold Reading.atStatementEnd
  infer_instance

instance atEnd : Steady atEnd := by
  unfold Reading.atEnd
  infer_instance

instance lookup? (name : String) : Steady (lookup? name) := still fun _ => rfl

instance token : Steady token :=
  ⟨fun p => by rw [Plain.unscoped p]; exact .refl p.scopes,
    fun hr hfree => hfree.read (read_of_token hr)⟩

instance accept (w : String) : Steady (accept w) := by
  refine ⟨fun p => by rw [Plain.unscoped p]; exact .refl p.scopes, fun hr hfree => ?_⟩
  rcases Cursor.readSymbol_cases (onCursor_eq_ok hr).1 with ⟨-, hstill⟩ | ⟨t, -, hread, -⟩
  · rwa [hstill]
  · exact hfree.read hread

instance expect (w : String) : Steady (expect w) := by
  have hunscoped : Unscoped (Reading.expect w) := .onCursor
  refine ⟨fun p => by rw [hunscoped p]; exact .refl p.scopes, fun hr hfree => ?_⟩
  rcases Cursor.expectSymbol_cases (onCursor_eq_ok hr).1 with ⟨-, hstill⟩ | ⟨t, -, hread, -⟩
  · rwa [hstill]
  · exact hfree.read hread

instance identifier : Steady identifier := by
  unfold Reading.identifier
  infer_instance

instance memberName : Steady memberName := by
  unfold Reading.memberName
  infer_instance

/-! ### Scopes -/

instance freshVariable (name : String) (type : Ty) : Steady (freshVariable name type) :=
  of_scopes fun p => ⟨rfl, .refl p.scopes⟩

instance freshLabel (name : String) : Steady (freshLabel name) :=
  of_scopes fun p => ⟨rfl, .refl p.scopes⟩

instance label (name : String) : Steady (onScopes (·.label name)) := by
  refine of_scopes fun p => ⟨rfl, ?_⟩
  change p.scopes.Grows (p.scopes.label name).2
  unfold Scopes.label
  split
  · exact .refl p.scopes
  · dsimp only [Scopes.freshLabel]
    cases hentered : p.scopes.entered with
    | nil =>
      rw [Scopes.Grows, hentered]
      exact .nil
    | cons scope outer =>
      refine Scopes.Grows.of_innermost hentered (t := { scope with labels := _ }) ?_
      exact ⟨rfl, rfl, rfl, rfl, Nat.le_refl _⟩

instance declare (name : Token) (type : Ty) : Steady (declare name type) := by
  refine of_scopes fun p => ?_
  unfold stop Reading.declare
  rw [bind_ok (rfl : (MonadState.get : Reading Position) p = .ok p p)]
  cases hdeclare : p.scopes.declare name.word type name.start with
  | error e => exact ⟨rfl, .refl p.scopes⟩
  | ok x =>
    refine ⟨rfl, ?_⟩
    change p.scopes.Grows x.2
    unfold Scopes.declare at hdeclare
    split at hdeclare
    · cases hdeclare
    · rename_i scope outer hentered
      split at hdeclare
      · cases hdeclare
      · cases hdeclare
        refine Scopes.Grows.of_innermost hentered (t := { scope with locals := _ }) ?_
        exact ⟨rfl, rfl, rfl, rfl, Nat.le_refl _⟩

instance headRest (d : Directory) : Steady (headRest d) :=
  of_runs (runs_headRest d) fun o => by cases o <;> rfl

end Steady

namespace Bounded

/-- What goes on with a token can take it to be tame. -/
theorem token_bind {k : Token → Reading β} (hk : ∀ t, t.Tame M → Bounded M T Q (k t)) :
    Bounded M T Q (token >>= k) := by
  refine bind (P := fun S t => S = T ∧ t.Tame M) (fun p hfree hT => ?_) ?_
  · refine ⟨Steady.token.grows p, fun t q hr => ?_⟩
    have hread := read_of_token hr
    have hsub := Scopes.targets_subset (stop_ok hr ▸ Steady.token.grows p)
    exact ⟨Or.imp_right (·.read hread) hfree, T, subset_rfl, hT.trans hsub, rfl, hfree.tame hread⟩
  · rintro _ t - ⟨rfl, ht⟩
    exact hk t ht

theorem separated {item : Reading α} (hP : Rising P) (h : ∀ S, Bounded M S P item) :
    Bounded M T (fun S as => ∀ a ∈ as, P S a) (Reading.separated item) := by
  refine map (P := fun S as => ∀ a ∈ as, P S a)
    (iterate (I := fun S as => ∀ a ∈ as, P S a) (fun S as has => ?_) nofun) fun S as has a ha => ?_
  · refine (h S).bind fun S' a hS ha => skip fun more => ?_
    have hall : ∀ b ∈ a :: as, P S' b := List.forall_mem_cons.2 ⟨ha, hP.list hS has⟩
    split
    · exact pure hall
    · exact pure hall
  · exact has a (List.mem_reverse.1 ha)

end Bounded

end Reading

end Scriptlet

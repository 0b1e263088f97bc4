import Scriptlet.Proofs.Reading.Bounded
import Scriptlet.Reading.Call

/-!
# Calls have the traits of their arguments

Which method is called is found out by trying to bind the arguments to each candidate. A lambda
among them is read for that, maybe several times, with failures that only count against the
candidate. So a trial always comes to an answer (`Reading.Answers`), and if the lambdas that are
read have a trait, then so do the arguments of the method that is chosen
(`Overload.answers_select`).
-/

namespace Scriptlet

open Reading

/-! ## Readings that always answer -/

namespace Reading

variable {α β : Type} {M : Trait} {P : α → Prop} {Q : β → Prop}

/-- Wherever it starts in a text without forbidden words, a reading gives something with a property, and
    keeps where jumps lead to. -/
def Answers (M : Trait) (P : α → Prop) (r : Reading α) : Prop :=
  ∀ p : Position, p.cursor.Free M →
    ∃ a q, r p = .ok a q ∧ p.scopes.Grows q.scopes ∧ q.cursor.Free M ∧ P a

namespace Answers

variable {r : Reading α} {k : α → Reading β}

theorem pure {a : α} (h : P a) : Answers M P (Pure.pure a : Reading α) :=
  fun p hfree => ⟨a, p, rfl, .refl p.scopes, hfree, h⟩

theorem bind (h : Answers M P r) (hk : ∀ a, P a → Answers M Q (k a)) : Answers M Q (r >>= k) := by
  intro p hfree
  obtain ⟨a, p', hr, hgrows, hfree', ha⟩ := h p hfree
  obtain ⟨b, q, hb, hgrows', hfree'', hQ⟩ := hk a ha p' hfree'
  exact ⟨b, q, (bind_ok hr).trans hb, hgrows.trans hgrows', hfree'', hQ⟩

theorem map {f : α → β} (h : Answers M P r) (hf : ∀ a, P a → Q (f a)) : Answers M Q (f <$> r) := by
  rw [map_eq_pure_bind]
  exact h.bind fun a ha => pure (hf a ha)

/-- An answer does not depend on the labels that jumps can lead to. -/
theorem bounded (h : Answers M P r) {T : Set Nat} : Bounded M T (fun _ => P) r := by
  intro p hfree hT
  obtain ⟨a, q, hr, hgrows, hfree', ha⟩ := h p hfree
  exact .of_ok hr hgrows hfree' subset_rfl (hT.trans (Scopes.targets_subset hgrows)) ha

/-- A failure that is an answer can be looked at. -/
theorem outcome {r : Reading (Except Error α)}
    (h : Answers M (fun x : Except Error α => ∀ a, x = .ok a → P a) r) :
    Answers M (fun x : Except Error α => ∀ a, x = .ok a → P a)
      (Reading.outcome do ofExcept (← r)) := by
  intro p hfree
  obtain ⟨x, q, hr, hgrows, hfree', hx⟩ := h p hfree
  refine ⟨x, q, ?_, hgrows, hfree', hx⟩
  unfold Reading.outcome
  rw [bind_ok hr]
  cases x <;> rfl

end Answers

end Reading

/-! ## Choosing a method -/

namespace Overload

variable {cs : List Candidate} {slots : List (Slot Deferred)} {args : List (Argument Deferred)}
  {explicit : List Ty} {offset : Nat}

/-- A trial of a method, seen from the results that it has. -/
def TrialAnswers {α : Type} (M : Trait) (P : α → Prop) (r : Trial Reading α) : Prop :=
  Answers M (fun x : Except (Option Error) α => ∀ a, x = .ok a → P a) r.run

namespace TrialAnswers

variable {α β : Type} {M : Trait} {P : α → Prop} {Q : β → Prop} {r : Trial Reading α}

theorem pure {a : α} (h : P a) : TrialAnswers M P (Pure.pure a : Trial Reading α) :=
  Answers.pure (by rintro _ ⟨⟩; exact h)

theorem throw {e : Option Error} : TrialAnswers M P (throw e : Trial Reading α) :=
  Answers.pure nofun

theorem bind {k : α → Trial Reading β} (h : TrialAnswers M P r)
    (hk : ∀ a, P a → TrialAnswers M Q (k a)) : TrialAnswers M Q (r >>= k) := by
  refine Answers.bind h fun x hx => ?_
  cases x with
  | error e => exact Answers.pure nofun
  | ok a => exact hk a (hx a rfl)

theorem lift {m : Reading α} (h : Answers M P m) : TrialAnswers M P (liftM m : Trial Reading α) :=
  h.map fun a ha => by rintro _ ⟨⟩; exact ha

end TrialAnswers

/-- The expression that an argument is, if it is one, has a trait. A lambda that is read later
    stands in a text without forbidden words. -/
def ArgumentHolds (M : Trait) (L : Set Nat) : Argument Deferred → Prop
  | .typed e => M.Holds L e
  | .lambda l => l.body.cursor.Free M

/-- The same of a slot. -/
def SlotHolds (M : Trait) (L : Set Nat) : Slot Deferred → Prop
  | .typed e | .bound e => M.Holds L e
  | .pending l => l.body.cursor.Free M

/-- A chosen method is one of those to choose from, and its arguments have a trait. -/
structure Chosen (M : Trait) (cs : List Candidate) (L : Set Nat) (s : Selection) : Prop where
  method : ∃ c ∈ cs, s.method = c.method
  ret : ∃ b, s.ret = s.method.ret.substitute b
  args : ∀ e ∈ s.args, M.Holds L e

/-- Calling the method that was chosen gives an expression with the trait if the methods to choose
    from may be called so. -/
theorem Chosen.toCall {M : Trait} {L : Set Nat} {s : Selection}
    (h : Chosen M cs L s) {receiver : Option Expr} (hr : ∀ e ∈ receiver, M.Holds L e)
    (hcs : ∀ c ∈ cs, ∀ b, M.Admits c.method receiver.isSome (c.method.ret.substitute b)) :
    M.Holds L (s.toCall receiver) := by
  obtain ⟨c, hc, hmethod⟩ := h.method
  obtain ⟨b, hret⟩ := h.ret
  refine M.call ?_ hr h.args
  rw [hret, hmethod]
  exact hcs c hc b

/-- Lambdas are read as expressions with a trait, and no jump leads out of them. -/
def BinderHolds (M : Trait) (bind : Binder Reading Deferred) : Prop :=
  ∀ l : PendingLambda Deferred, l.body.cursor.Free M → ∀ params ret,
    Answers M (fun x => ∀ o, x = .ok o → ∀ e ∈ o, ∀ L, M.Holds L e) (bind l params ret)

variable {M : Trait} {L : Set Nat} {d : Directory} {bind : Binder Reading Deferred} {a : Attempt}
  {b : Ty.Bindings} (hbind : BinderHolds M bind)

include hbind in
theorem trialAnswers_bindLambda (target : Ty) {l : PendingLambda Deferred} (hl : l.body.cursor.Free M) :
    TrialAnswers M (fun o => ∀ x ∈ o, M.Holds L x.1) (bindLambda d bind a target l) := by
  unfold bindLambda
  split
  · exact .throw
  · split
    · exact .throw
    · split
      · exact .pure (by rintro _ ⟨⟩)
      · split
        · exact .throw
        · refine .bind (.lift (hbind l hl _ _)) fun x hx => ?_
          split
          · rename_i e
            refine .pure ?_
            rintro _ ⟨⟩
            exact hx _ rfl e rfl L
          · exact .throw
          · exact .throw

include hbind in
theorem trialAnswers_bindPass (h : ∀ s ∈ slots, SlotHolds M L s) (i : Nat) :
    TrialAnswers M (fun p => ∀ s ∈ p.slots, SlotHolds M L s) (bindPass d bind a i b slots) := by
  induction slots generalizing i b with
  | nil => exact .pure nofun
  | cons s slots ih =>
    obtain ⟨hs, hslots⟩ := List.forall_mem_cons.1 h
    cases s with
    | pending l =>
      refine .bind (trialAnswers_bindLambda (L := L) hbind _ hs) fun o ho => ?_
      rcases o with _ | ⟨e, found⟩
      · exact .bind (ih hslots (i + 1)) fun p hp => .pure (List.forall_mem_cons.2 ⟨hs, hp⟩)
      · exact .bind (ih hslots (i + 1)) fun p hp =>
          .pure (List.forall_mem_cons.2 ⟨ho _ rfl, hp⟩)
    | typed e | bound e =>
      exact .bind (ih hslots (i + 1)) fun p hp => .pure (List.forall_mem_cons.2 ⟨hs, hp⟩)

include hbind in
theorem trialAnswers_bindLambdas (h : ∀ s ∈ slots, SlotHolds M L s) (steps : Nat) :
    TrialAnswers M (fun x => ∀ s ∈ x.2, SlotHolds M L s) (bindLambdas d bind a steps b slots) := by
  induction steps generalizing b slots with
  | zero => exact .pure h
  | succ steps ih =>
    refine .bind (trialAnswers_bindPass hbind h 0) fun p hp => ?_
    split
    · exact ih hp
    · exact .pure hp

theorem holds_settle (h : ∀ s ∈ slots, SlotHolds M L s)
    {settled : List (Expr × Nat)} (hs : settle? d a b slots = some settled) :
    ∀ x ∈ settled, M.Holds L x.1 := by
  have hall : ∀ (ps : List (Slot Deferred × Nat)) xs, (∀ p ∈ ps, SlotHolds M L p.1) →
      (ps.mapM fun p => p.1.settle? d ((wanted a.method a.expanded p.2).substitute b)) = some xs →
      ∀ x ∈ xs, M.Holds L x.1 := by
    intro ps
    induction ps with
    | nil => rintro _ - ⟨⟩; exact List.forall_mem_nil _
    | cons p ps ih =>
      intro xs hp hxs
      obtain ⟨hp, hps⟩ := List.forall_mem_cons.1 hp
      rw [List.mapM_cons] at hxs
      obtain ⟨x, hx, hxs⟩ := Option.bind_eq_some_iff.1 hxs
      obtain ⟨ys, hys, hxs⟩ := Option.bind_eq_some_iff.1 hxs
      cases hxs
      refine List.forall_mem_cons.2 ⟨?_, ih ys hps hys⟩
      obtain ⟨s, i⟩ := p
      cases s with
      | typed e =>
        obtain ⟨n, -, rfl⟩ := Option.map_eq_some_iff.1 hx
        exact Trait.Holds.coerce hp _
      | bound e => cases hx; exact hp
      | pending l => cases hx
  exact hall slots.zipIdx settled (fun p hp => h p.1 (List.fst_mem_of_mem_zipIdx hp)) hs

theorem holds_collect {args : List Expr} (h : ∀ e ∈ args, M.Holds L e) :
    ∀ e ∈ collect a b args, M.Holds L e := by
  unfold collect
  split
  · intro e he
    rcases List.mem_append.1 he with he | he
    · exact h e (List.mem_of_mem_take he)
    · obtain rfl := List.mem_singleton.1 he
      exact M.node rfl rfl fun c hc => h c (List.mem_of_mem_drop hc)
  · exact h

include hbind in
theorem trialAnswers_tryCandidate {c : Candidate} (hc : c ∈ cs)
    (hargs : ∀ x ∈ args, ArgumentHolds M L x) :
    TrialAnswers M (Chosen M cs L) (tryCandidate d bind c explicit args offset) := by
  unfold tryCandidate
  split
  · exact .throw
  · dsimp only
    split
    · exact .throw
    · have hslots : ∀ s ∈ args.map Slot.ofArgument, SlotHolds M L s := by
        intro s hs
        obtain ⟨x, hx, rfl⟩ := List.mem_map.1 hs
        cases x <;> exact hargs _ hx
      refine .bind (trialAnswers_bindLambdas hbind hslots _) ?_
      rintro ⟨b, slots⟩ hslots
      dsimp only
      split
      · exact .throw
      · split
        · exact .throw
        · rename_i settled hsettled
          refine .pure ⟨⟨c, hc, rfl⟩, ⟨b, rfl⟩, holds_collect fun e he => ?_⟩
          obtain ⟨x, hx, rfl⟩ := List.mem_map.1 he
          exact holds_settle hslots hsettled x hx

include hbind in
theorem answers_tryAll {all : List Candidate} (hcs : ∀ c ∈ cs, c ∈ all) (hargs : ∀ x ∈ args, ArgumentHolds M L x)
    {best : Best} (hbest : ∀ s, best.selection = some s → Chosen M all L s) :
    Answers M (fun best' => ∀ s, best'.selection = some s → Chosen M all L s)
      (tryAll d bind explicit args offset cs best) := by
  induction cs generalizing best with
  | nil => exact .pure hbest
  | cons c cs ih =>
    obtain ⟨hc, hcs⟩ := List.forall_mem_cons.1 hcs
    refine Answers.bind (trialAnswers_tryCandidate hbind hc hargs) fun x hx => ih hcs ?_
    intro s hs
    unfold Best.add at hs
    split at hs
    · split at hs
      · split at hs
        · cases hs
          exact hx _ rfl
        · exact hbest s hs
      · cases hs
        exact hx _ rfl
    · exact hbest s hs
    · exact hbest s hs

include hbind in
/-- The arguments of a chosen method have the trait if those to choose with have it. -/
theorem answers_select {name : String} (hargs : ∀ x ∈ args, ArgumentHolds M L x) :
    Answers M (fun x => ∀ s : Selection, x = .ok s → Chosen M cs L s)
      (select d bind name cs explicit args offset) := by
  have hstart : ∀ s : Selection, ({} : Best).selection = some s → Chosen M cs L s := by
    rintro s ⟨⟩
  refine (answers_tryAll hbind (fun _ => id) hargs hstart).bind fun best hbest => ?_
  split
  · rename_i s hs
    refine .pure ?_
    rintro _ ⟨⟩
    exact hbest s hs
  · exact .pure (by rintro _ ⟨⟩)
  · exact .pure (by rintro _ ⟨⟩)

end Overload

end Scriptlet

import Scriptlet.Proofs.Reading.TypeRuns
import Scriptlet.Reading.Call

/-!
# How lambdas and calls run

The body of a lambda is read within a scope of its own, which is left again however the
reading ends. So a lambda that is read to try a method with it disturbs nothing: whether it
can be read or not, the cursor and the scopes are as they were, and only numbers for
variables and labels have been used up (`Reading.Quiet`). Choosing a method is quiet too,
since lambdas are all that is read for it.

The parts of constructs are taken to be level (`Grammar.IsLevel`); then so are the constructs.
-/

namespace Scriptlet

open Reading

variable {e : Error}

/-! ## Quiet readings -/

namespace Reading

variable {α β : Type} {r : Reading α} {k : α → Reading β}

/-- A reading leaves the scopes as they were, but for the number of the next variable. -/
class Secluded (r : Reading α) : Prop where
  leaves : ∀ p, ∃ next, (r.stop p).scopes = { p.scopes with next }

/-- A reading leaves everything as it was, but for the number of the next variable. -/
class Quiet (r : Reading α) : Prop where
  leaves : ∀ p, ∃ next, r.stop p = { p with scopes := { p.scopes with next } }

theorem stop_bind_ok {p q : Position} {a : α}
    (h : r p = .ok a q) : (r >>= k).stop p = (k a).stop q := by
  rw [stop, bind_ok h]
  rfl

theorem stop_bind_error {p q : Position} (h : r p = .error e q) : (r >>= k).stop p = q :=
  stop_error (bind_error h)

/-- What readings do to positions, they do one after the other. -/
theorem stop_bind_of_trans {R : Position → Position → Prop}
    (htrans : ∀ p q t, R p q → R q t → R p t) (h : ∀ p, R p (r.stop p))
    (hk : ∀ a p, R p ((k a).stop p)) (p : Position) : R p ((r >>= k).stop p) := by
  have hp := h p
  rcases hr : r p with ⟨a, q⟩ | ⟨e, q⟩
  · rw [stop_ok hr] at hp
    rw [stop_bind_ok hr]
    exact htrans p q _ hp (hk a q)
  · rw [stop_error hr] at hp
    rwa [stop_bind_error hr]

instance [h : Secluded r] [hk : ∀ a, Secluded (k a)] : Secluded (r >>= k) := by
  refine ⟨stop_bind_of_trans (R := fun p q => ∃ next, q.scopes = { p.scopes with next }) ?_ h.leaves
    fun a => (hk a).leaves⟩
  rintro p q t ⟨next, hq⟩ ⟨next', ht⟩
  exact ⟨next', by rw [ht, hq]⟩

/-- What is read elsewhere without changing the scopes is quiet. -/
instance [h : Secluded r] (c : Cursor) : Quiet (elsewhere c r) := by
  refine ⟨fun p => ?_⟩
  obtain ⟨next, hnext⟩ := h.leaves { p with cursor := c }
  refine ⟨next, ?_⟩
  unfold stop elsewhere
  unfold stop at hnext
  rcases hr : r { p with cursor := c } with ⟨a, q⟩ | ⟨e, q⟩ <;> rw [hr] at hnext <;>
    exact congrArg (Position.mk p.cursor) hnext

namespace Quiet

variable {r : Reading α}

theorem still (h : ∀ p, r.stop p = p) : Quiet r := ⟨fun p => ⟨p.scopes.next, h p⟩⟩

instance {a : α} : Quiet (Pure.pure a : Reading α) := still fun _ => rfl

instance : Quiet (throw e : Reading α) := still fun _ => rfl

instance {x : Except Error α} : Quiet (ofExcept x : Reading α) := by
  cases x <;> exact still fun _ => rfl

theorem skip [h : Quiet r] (hk : ∀ a, Quiet (k a)) : Quiet (r >>= k) := by
  refine ⟨stop_bind_of_trans (R := fun p q => ∃ next, q = { p with scopes := { p.scopes with next } })
    ?_ h.leaves fun a => (hk a).leaves⟩
  rintro p q t ⟨next, hq⟩ ⟨next', ht⟩
  exact ⟨next', by rw [ht, hq]⟩

instance [Quiet r] [hk : ∀ a, Quiet (k a)] : Quiet (r >>= k) := skip hk

instance {f : α → β} [Quiet r] : Quiet (f <$> r) := by
  rw [map_eq_pure_bind]
  infer_instance

instance [h : Quiet r] : Quiet (outcome r) := by
  refine ⟨fun p => ?_⟩
  obtain ⟨next, hnext⟩ := h.leaves p
  refine ⟨next, ?_⟩
  rw [← hnext]
  unfold stop outcome
  cases r p <;> rfl

instance {f : α → Reading β} {as : List α} [∀ a, Quiet (f a)] : Quiet (as.mapM f) := by
  induction as with
  | nil => exact inferInstanceAs (Quiet (Pure.pure []))
  | cons a as ih =>
    rw [List.mapM_cons]
    infer_instance

instance {c : Prop} [Decidable c] {r r' : Reading α} [Quiet r] [Quiet r'] :
    Quiet (if c then r else r') := by
  split <;> assumption

instance secluded [h : Quiet r] : Secluded r :=
  ⟨fun p => let ⟨next, hnext⟩ := h.leaves p; ⟨next, by rw [hnext]⟩⟩

instance level [h : Quiet r] : Level r := by
  refine ⟨fun n p => ?_⟩
  obtain ⟨next, hnext⟩ := h.leaves p
  refine ⟨by rw [hnext]; exact .of_entered rfl rfl, fun a q hr => ?_, fun a q hr => ?_⟩
  · rw [← stop_ok hr, hnext]
    exact ⟨.of_entered rfl rfl, rfl⟩
  · rw [← stop_ok hr, hnext]
    exact .stay

instance (name : String) (type : Ty) : Quiet (freshVariable name type) :=
  ⟨fun p => ⟨p.scopes.next + 1, rfl⟩⟩

end Quiet

end Reading

/-! ## Trying methods -/

namespace Overload

variable {α β γ : Type}

/-- A trial of a method that disturbs nothing. -/
class QuietTrial (r : Trial Reading α) : Prop where
  quiet : Quiet r.run

namespace QuietTrial

instance {a : α} : QuietTrial (pure a : Trial Reading α) := ⟨inferInstanceAs (Quiet (pure _))⟩

instance {e : Option Error} : QuietTrial (throw e : Trial Reading α) :=
  ⟨inferInstanceAs (Quiet (pure _))⟩

theorem skip {r : Trial Reading α} {k : α → Trial Reading β} [h : QuietTrial r]
    (hk : ∀ a, QuietTrial (k a)) : QuietTrial (r >>= k) := by
  have := h.quiet
  refine ⟨Quiet.skip (r := r.run) fun x => ?_⟩
  cases x with
  | error e => exact inferInstanceAs (Quiet (pure _))
  | ok a => exact (hk a).quiet

instance {r : Trial Reading α} {k : α → Trial Reading β} [QuietTrial r]
    [hk : ∀ a, QuietTrial (k a)] : QuietTrial (r >>= k) :=
  skip hk

instance {c : Prop} [Decidable c] {r r' : Trial Reading α} [QuietTrial r] [QuietTrial r'] :
    QuietTrial (if c then r else r') := by
  split <;> assumption

instance {m : Reading α} [Quiet m] : QuietTrial (liftM m : Trial Reading α) :=
  ⟨inferInstanceAs (Quiet (_ <$> m))⟩

end QuietTrial

variable {d : Directory} {bind : Binder Reading γ} {a : Attempt}
  [∀ l params ret, Quiet (bind l params ret)]

instance (target : Ty) (l : PendingLambda γ) : QuietTrial (bindLambda d bind a target l) := by
  unfold bindLambda
  repeat' split
  all_goals first | infer_instance | exact .skip fun x => by split <;> infer_instance

instance (i : Nat) (b : Ty.Bindings) (slots : List (Slot γ)) :
    QuietTrial (bindPass d bind a i b slots) := by
  induction slots generalizing i b with
  | nil => exact inferInstanceAs (QuietTrial (pure _))
  | cons s slots ih =>
    cases s with
    | pending l => exact .skip fun o => by rcases o with _ | ⟨e, found⟩ <;> infer_instance
    | typed e | bound e => exact .skip inferInstance

instance (steps : Nat) (b : Ty.Bindings) (slots : List (Slot γ)) :
    QuietTrial (bindLambdas d bind a steps b slots) := by
  induction steps generalizing b slots <;> unfold bindLambdas <;> infer_instance

instance (c : Candidate) (explicit : List Ty) (args : List (Argument γ)) (offset : Nat) :
    QuietTrial (tryCandidate d bind c explicit args offset) := by
  unfold tryCandidate
  split
  · infer_instance
  · dsimp only
    split
    · infer_instance
    · refine .skip fun ⟨b, slots⟩ => ?_
      dsimp only
      split
      · infer_instance
      · split <;> infer_instance

instance (explicit : List Ty) (args : List (Argument γ)) (offset : Nat) (cs : List Candidate)
    (best : Best) : Quiet (tryAll d bind explicit args offset cs best) := by
  induction cs generalizing best with
  | nil => exact inferInstanceAs (Quiet (pure _))
  | cons c cs ih =>
    have hc : QuietTrial (tryCandidate d bind c explicit args offset) := inferInstance
    have := hc.quiet
    exact .skip inferInstance

/-- Choosing a method reads nothing but lambdas. -/
instance (name : String) (cs : List Candidate) (explicit : List Ty) (args : List (Argument γ))
    (offset : Nat) : Quiet (select d bind name cs explicit args offset) :=
  .skip fun best => by split <;> infer_instance

end Overload

/-! ## Parts -/

/-- The readings of parts are level, and an expression that is said to stand in front of a
    closing symbol does so. -/
class Grammar.IsLevel (g : Grammar) : Prop where
  operand : ∀ floor closing, Level (g.operand floor closing)
  closed : ∀ floor closing p e q, g.operand floor closing p = .ok (e, true) q →
    ∃ t, q.cursor.peek = .ok t ∧ closing.any (t.is ·) = true
  statement : Level g.statement

attribute [instance] Grammar.IsLevel.operand Grammar.IsLevel.statement

namespace Grammar

variable {g : Grammar} {close : String} {t : Ty} {offset : Nat}

instance (e : Expr) : Level (g.coerce e t offset) := by
  unfold coerce
  infer_instance

section

variable [g.IsLevel]

instance (closing : List String) : Level (g.expressionUpTo closing) := by
  unfold expressionUpTo
  infer_instance

instance : Level g.expression := by
  unfold expression
  infer_instance

instance [hclose : Turns close 1 0] : Closes (g.enclosed close) := by
  have hoperand : Level (g.operand 0 [close]) := inferInstance
  refine ⟨fun n p => ((hoperand.runs (some 1)).moves n p).bind fun (e, closed) q hq => ?_⟩
  cases closed with
  | false => exact Runs.moves (r := missing close) n q
  | true =>
    obtain ⟨t, hpeek, ht⟩ := IsLevel.closed _ _ _ _ _ hq
    have ht : t.is close = true := by simpa using ht
    have hread : RunsBefore t (some 1) (fun _ => some 0) (token >>= fun _ => pure e) :=
      .token_bind (.of_is ht hclose.after (.pure rfl))
    exact hread n q hpeek

instance [Turns close 1 0] : Closes (g.items close) := by
  unfold items
  infer_instance

instance : Level g.condition := by
  unfold condition
  infer_instance

instance : Closes g.blockRest := by
  refine Runs.bind (y := fun _ => some 0) (.within (by decide) (.gather ?_)) inferInstance
  refine .accept_bind rfl (.pure rfl) (.skip fun b => ?_)
  split
  · infer_instance
  · exact Runs.map (Level.runs inferInstance (some 1))

instance : Level g.block := by
  unfold block
  infer_instance

end

/-! ## Bodies of lambdas -/

section Bodies

variable {params : List Variable} {ret : Option Ty} {body : Reading Expr}

/-- Where the body of a lambda is read. -/
def inLambda (params : List Variable) (ret : Option Ty) (p : Position) : Position :=
  { p with
    scopes := (p.scopes.freshLabel "return").2.enter
      (.ofLambda params (p.scopes.freshLabel "return").1 ret) }

theorem withinLambda_error {p q : Position} (h : body (inLambda params ret p) = .error e q) :
    g.withinLambda params ret offset body p =
      .error e { q with scopes := q.scopes.unwind p.scopes.depth } := by
  have ho : outcome body (inLambda params ret p) = .ok (.error e) q := by rw [outcome, h]
  exact (bind_ok rfl).trans ((bind_ok rfl).trans ((bind_ok rfl).trans ((bind_ok ho).trans rfl)))

theorem withinLambda_ok {p q : Position} {e : Expr} (h : body (inLambda params ret p) = .ok e q) :
    g.withinLambda params ret offset body p =
      (ofExcept (g.finish params e (q.scopes.leave.1.getD {}) ret offset) : Reading Lambda)
        { q with scopes := q.scopes.leave.2 } := by
  have ho : outcome body (inLambda params ret p) = .ok (.ok e) q := by rw [outcome, h]
  exact (bind_ok rfl).trans ((bind_ok rfl).trans ((bind_ok rfl).trans ((bind_ok ho).trans rfl)))

/-- The scope of a lambda stands on the scopes around it, which have not changed. -/
theorem entered_inLambda {p q : Position} (h : (inLambda params ret p).scopes.Keeps q.scopes) :
    (∃ scope, q.scopes.entered = scope :: p.scopes.entered) ∧
      q.scopes.parameters = p.scopes.parameters :=
  ⟨Scopes.Keeps.lambda (s := (p.scopes.freshLabel "return").2) rfl h, h.parameters⟩

theorem leave_inLambda {p q : Position} (h : (inLambda params ret p).scopes.Keeps q.scopes) :
    q.scopes.leave.2 = { p.scopes with next := q.scopes.next } := by
  obtain ⟨⟨scope, hentered⟩, hparameters⟩ := entered_inLambda h
  rw [Scopes.leave, hentered, hparameters]
  rfl

theorem unwind_inLambda {p q : Position} (h : (inLambda params ret p).scopes.Keeps q.scopes) :
    q.scopes.unwind p.scopes.depth = { p.scopes with next := q.scopes.next } := by
  obtain ⟨⟨scope, hentered⟩, hparameters⟩ := entered_inLambda h
  rw [Scopes.unwind, hentered, hparameters, Scopes.depth, List.length_cons, Nat.add_sub_cancel_left]
  rfl

/-- However the body of a lambda ends, its scope is left. -/
instance [hbody : Level body] : Secluded (g.withinLambda params ret offset body) := by
  refine ⟨fun p => ?_⟩
  have hkeeps := (hbody.moves 0 (inLambda params ret p)).keeps
  rcases hb : body (inLambda params ret p) with ⟨e, q⟩ | ⟨e, q⟩
  · rw [stop_ok hb] at hkeeps
    refine ⟨q.scopes.next, ?_⟩
    rw [stop, withinLambda_ok hb, leave_inLambda hkeeps]
    cases g.finish params e (q.scopes.leave.1.getD {}) ret offset <;> rfl
  · -- A failed body has left the scopes that it entered: only that of the lambda is unwound.
    rw [stop_error hb] at hkeeps
    exact ⟨q.scopes.next, by rw [stop_error (withinLambda_error hb), unwind_inLambda hkeeps]⟩

instance [hbody : Level body] : Level (g.withinLambda params ret offset body) := by
  refine ⟨fun n p => ?_⟩
  have hmoves := hbody.moves n (inLambda params ret p)
  have hkeeps := hmoves.keeps
  rcases hb : body (inLambda params ret p) with ⟨e, q⟩ | ⟨e, q⟩
  · rw [stop_ok hb] at hkeeps
    have hfinish : Level (ofExcept (g.finish params e (q.scopes.leave.1.getD {}) ret offset) :
      Reading Lambda) := inferInstance
    refine .goOn (withinLambda_ok hb) ?_ ((hfinish.moves n _).imp fun _ _ hwalks =>
      (hmoves.gives e q hb).trans hwalks)
    rw [leave_inLambda hkeeps]
    exact ⟨.of_entered rfl rfl, (hmoves.follows e q hb).cursor⟩
  · rw [stop_error hb] at hkeeps
    refine .of_error (withinLambda_error hb) ?_
    rw [unwind_inLambda hkeeps]
    exact .of_entered rfl rfl

end Bodies

/-- The body of a lambda: a block or an expression. -/
def bodyRest (g : Grammar) : Reading Expr := do
  if ← accept "\x7b" then g.blockRest else g.expressionUpTo bodyClosing

variable [g.IsLevel]

instance : Level g.bodyRest := by
  unfold bodyRest
  infer_instance

section

variable (names : List String) (types : List Ty) (ret : Option Ty)

instance level_lambdaBody : Level (g.lambdaBody names types ret offset) := by
  have : Level g.bodyRest := inferInstance
  unfold lambdaBody
  infer_instance

instance : Secluded (g.lambdaBody names types ret offset) := by
  unfold lambdaBody
  split <;> infer_instance

/-- Reading a lambda to try a method with it disturbs nothing. -/
instance quiet_bind (l : PendingLambda Deferred) : Quiet (g.bind l types ret) := by
  unfold Grammar.bind
  infer_instance

end

/-! ## Calls -/

instance (close : String) : Level (g.argument close) := .skip fun o => by cases o <;> infer_instance

instance [Turns close 1 0] : Closes (g.arguments close) := by
  unfold arguments
  infer_instance

section

variable {name : String} {explicit : List Ty} {args : List Arg} {receiver : Expr}

instance (candidates : List Candidate) : Quiet (g.select name candidates explicit args offset) :=
  .skip inferInstance

instance : Quiet (g.staticCall t name explicit args offset) := by
  unfold staticCall
  split <;> infer_instance

instance : Quiet (g.extensionCall receiver name explicit args offset) := by
  unfold extensionCall
  split <;> infer_instance

instance : Quiet (g.instanceCall receiver name explicit args offset) := by
  unfold instanceCall
  split
  · infer_instance
  · refine .skip fun x => ?_
    cases x <;> infer_instance

end

omit [g.IsLevel] in
instance : Level g.explicitTypes :=
  (Level.attempt (.skip fun o => by cases o <;> infer_instance)).bind inferInstance

instance (target : Option Expr) (name : Token) : Level (g.memberAccess target t name) := by
  refine .skip fun explicit => .accept_bind rfl ?_ ?_
  · exact .close fun args => by cases target <;> infer_instance
  · cases target with
    | none => infer_instance
    | some array =>
      rw [if_neg Bool.false_ne_true]
      dsimp only
      infer_instance

end Grammar

end Scriptlet

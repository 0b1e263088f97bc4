import Scriptlet.Proofs.Reading.CallRuns
import Scriptlet.Proofs.Reading.ExpressionRuns
import Scriptlet.Proofs.Reading.ProgramRuns
import Scriptlet.Proofs.Reading.TraitCalls

/-!
# Programs have the traits of their parts

For each construct of the language it is shown that the expression that is read has a trait if the
parts do (`Grammar.Gives`). The grammar is put together level by level, and so is the property
(`Surroundings.gives_grammar`); every program that is read has it (`Trait.holds_of_parse`).

Labels come in and go out with the scopes of loops, switches and lambdas: a loop takes up the jumps
to its own, behind a switch stands the label of its `break`, and at the end of a lambda that
returns somewhere the one of its `return`.
-/

namespace Scriptlet

open Reading

/-- The expression that is read has a trait for labels that jumps can lead to. -/
abbrev Reading.Returns (M : Trait) (T : Set Nat) (r : Reading Expr) : Prop := Bounded M T M.Holds r

/-! ## Steady parts -/

namespace Reading.Steady

instance mapM {α β : Type} {f : α → Reading β} [h : ∀ a, Steady (f a)] (as : List α) :
    Steady (as.mapM f) := by
  induction as with
  | nil => exact pure
  | cons a as ih =>
    rw [List.mapM_cons]
    infer_instance

instance optionMapM {α β : Type} {f : α → Reading β} [h : ∀ a, Steady (f a)] (o : Option α) :
    Steady (o.mapM f) := by
  cases o with
  | none => exact pure
  | some a => exact map (h := h a)

instance tokensAhead : Steady (ahead do Pure.pure (← Reading.token, ← Reading.token)) :=
  have := Grammar.level_twoAhead
  of_level

instance loopLabels : Steady Grammar.loopLabels := by
  unfold Grammar.loopLabels
  infer_instance

variable (g : Grammar)

instance castTarget : Steady g.castTarget :=
  of_runs Grammar.runs_castTarget fun o => by cases o <;> rfl

instance bracketedType : Steady g.bracketedType := by
  unfold Grammar.bracketedType
  infer_instance

instance caughtType : Steady g.caughtType := by
  unfold Grammar.caughtType
  infer_instance

end Reading.Steady

/-! ## Lambdas -/

/-- A lambda that is read later stands in a text without forbidden words. -/
theorem Reading.bounded_pendingLambda (d : Directory) {M : Trait} {T : Set Nat} :
    Bounded M T (fun _ o => ∀ l ∈ o, l.body.cursor.Free M) (pendingLambda d) := by
  refine .skip fun next => .skip fun params => ?_
  cases params with
  | none => exact .pure nofun
  | some params =>
    refine .get_bind fun p hfree hT => ?_
    refine (Bounded.skip fun _ => .pure ?_) p hfree hT
    rintro _ ⟨⟩
    exact hfree

/-- What is read elsewhere and looked at, be it a failure, is an answer. -/
theorem Reading.answers_elsewhere {α : Type} {M : Trait} {P : α → Prop} {r : Reading α} {c : Cursor}
    (hc : c.Free M) (h : Bounded M ∅ (fun _ => P) r) :
    Answers M (fun x : Except Error (Option α) => ∀ o, x = .ok o → ∀ a ∈ o, P a)
      (outcome (some <$> elsewhere c r)) := by
  intro p hfree
  obtain ⟨hgrows, hgives⟩ := h { p with cursor := c } hc (Set.empty_subset _)
  cases hr : r { p with cursor := c } with
  | ok a q =>
    obtain ⟨-, -, -, -, ha⟩ := hgives a q hr
    have ho : outcome (some <$> elsewhere c r) p = .ok (.ok (some a)) { q with cursor := p.cursor } := by
      have he : elsewhere c r p = .ok a { q with cursor := p.cursor } := by rw [elsewhere, hr]
      rw [outcome, map_eq_pure_bind, bind_ok he]
      rfl
    refine ⟨_, _, ho, stop_ok hr ▸ hgrows, hfree, ?_⟩
    rintro _ ⟨⟩ _ ⟨⟩
    exact ha
  | error e q =>
    have ho : outcome (some <$> elsewhere c r) p = .ok (.error e) { q with cursor := p.cursor } := by
      have he : elsewhere c r p = .error e { q with cursor := p.cursor } := by rw [elsewhere, hr]
      rw [outcome, map_eq_pure_bind, bind_error he]
    exact ⟨_, _, ho, stop_error hr ▸ hgrows, hfree, by rintro _ ⟨⟩⟩

namespace Grammar

variable {M : Trait} {g : Grammar} {e : Expr} {n : Nat}

/-- The body of a lambda has a trait on its own if it has it for the label that it returns to. -/
theorem holds_finish {params : List Variable} {scope : Scope} {declared : Option Ty}
    {lambda : Lambda} (he : M.Holds scope.returned e)
    (h : g.finish params e scope declared n = .ok lambda) : M.Holds ∅ lambda.body := by
  unfold finish at h
  dsimp only at h
  split at h
  · rename_i label _ hlabel _
    cases h
    refine .inScope (.blockOf ?_)
    refine List.forall_mem_cons.2 ⟨he.mono ?_, List.forall_mem_singleton.2 (.labelAt ?_)⟩
    · rintro id ⟨hid, -⟩
      rw [hlabel] at hid
      cases hid
      exact .inr (List.mem_cons_of_mem _ (List.mem_singleton_self _))
    · intro x hx
      split at hx
      · cases hx
      · cases hx
        exact .default _
  · rename_i hnone
    have hreturned : scope.returned = ∅ := by
      refine Set.eq_empty_of_forall_notMem fun id ⟨hid, hreturns⟩ => ?_
      obtain ⟨label, hlabel, -⟩ := Option.map_eq_some_iff.1 hid.symm
      obtain ⟨m, hm⟩ := Nat.exists_eq_add_of_lt hreturns
      exact hnone label m hlabel (by omega)
    obtain ⟨body, hbody, h⟩ := exists_of_bind_eq_ok h
    cases h
    exact .inScope (.coerceIn (hreturned ▸ he) hbody)

/-- No jump leads out of a lambda. -/
theorem bounded_withinLambda {params : List Variable} {ret : Option Ty} {body : Reading Expr}
    {T : Set Nat} (h : Returns M ∅ body) :
    Bounded M T (fun _ l => M.Holds ∅ l.body) (g.withinLambda params ret n body) := by
  intro p hfree hT
  obtain ⟨hgrows, hgives⟩ := h (inLambda params ret p) hfree (Set.empty_subset _)
  cases hb : body (inLambda params ret p) with
  | ok e q =>
    obtain ⟨hfree', S, -, hS, he⟩ := hgives e q hb
    obtain ⟨scope, outer, hscope, houter, hentered⟩ :=
      List.forall₂_cons_left_iff.1 (stop_ok hb ▸ hgrows)
    have hleave : q.scopes.leave = (some scope, { q.scopes with entered := outer }) := by
      rw [Scopes.leave, hentered]
      rfl
    have hgrows' : p.scopes.Grows { q.scopes with entered := outer } := houter
    rw [hentered, Scopes.targets_lambda hscope.kind] at hS
    have hr : g.withinLambda params ret n body p = _ := withinLambda_ok hb
    rw [hleave] at hr
    cases hf : g.finish params e scope ret n with
    | ok lambda =>
      rw [Option.getD_some, hf] at hr
      exact .of_ok hr hgrows' hfree' subset_rfl (hT.trans (Scopes.targets_subset houter))
        (holds_finish (he.mono hS) hf)
    | error e =>
      rw [Option.getD_some, hf] at hr
      exact .of_error hr hgrows'
  | error e q =>
    obtain ⟨scope, outer, -, houter, hentered⟩ :=
      List.forall₂_cons_left_iff.1 (stop_error hb ▸ hgrows)
    refine .of_error (withinLambda_error hb) ?_
    have hlength : outer.length = p.scopes.depth := houter.length_eq.symm
    rw [Scopes.Grows, Scopes.unwind, hentered, List.length_cons, ← hlength,
      Nat.add_sub_cancel_left]
    exact houter

end Grammar

/-- The methods that are found by their name may be called so. -/
structure Trait.Suits (M : Trait) (d : Directory) : Prop where
  static {t : Ty} {name : String} {c : Candidate} : c ∈ d.staticMethods t name →
    ∀ b, M.Admits c.method false (c.method.ret.substitute b)
  extension {name : String} {c : Candidate} : c ∈ d.extensionMethods name →
    ∀ b, M.Admits c.method false (c.method.ret.substitute b)
  onReceiver {t : Ty} {name : String} {c : Candidate} : c ∈ d.instanceMethods t name →
    ∀ b, M.Admits c.method true (c.method.ret.substitute b)

/-- Expressions and statements are read as expressions with a trait. -/
structure Grammar.Gives (M : Trait) (g : Grammar) : Prop where
  suits : M.Suits g.directory
  receiver : ∀ e, g.receiver = some e → ∀ L, M.Holds L e
  operand : ∀ floor closing T, Bounded M T (fun S x => M.Holds S x.1) (g.operand floor closing)
  statement : ∀ T, Returns M T g.statement

namespace Grammar.Gives

variable {M : Trait} {g : Grammar} (hg : g.Gives M) {e l : Expr} {n : Nat} {T : Set Nat}

/-! ## Expressions and blocks -/

include hg

theorem expressionUpTo (closing : List String) : Returns M T (g.expressionUpTo closing) :=
  (hg.operand 0 closing T).map fun _ _ => id

theorem expression : Returns M T g.expression := hg.expressionUpTo []

theorem enclosed (close : String) : Returns M T (g.enclosed close) := by
  refine (hg.operand 0 [close] T).bind fun S ⟨e, closed⟩ _ he => ?_
  cases closed with
  | false => exact .skip fun _ => .throw
  | true => exact .skip fun _ => .pure he

omit hg in
theorem append_single {es : List Expr} (hes : ∀ x ∈ es, M.Holds T x) (he : M.Holds T e) :
    ∀ x ∈ es ++ [e], M.Holds T x := by
  simpa [or_imp, forall_and] using ⟨hes, he⟩

theorem items (close : String) :
    Bounded M T (fun S es => ∀ e ∈ es, M.Holds S e) (g.items close) := by
  refine .skip fun empty => ?_
  split
  · exact .pure nofun
  · refine .iterate (I := fun S es => ∀ e ∈ es, M.Holds S e) (fun S es hes => ?_) nofun
    refine (hg.expressionUpTo _).bind fun S' e hS he => ?_
    have hall := append_single (rising_holds.list hS hes) he
    refine .skip fun more => ?_
    split
    · refine .skip fun closed => ?_
      split
      · exact .pure hall
      · exact .pure hall
    · refine .skip fun closed => ?_
      split
      · exact .pure hall
      · exact .skip fun _ => .throw

theorem condition : Returns M T g.condition := by
  refine .skip fun _ => .skip fun start => (hg.enclosed ")").bind fun S test _ htest => ?_
  split
  · exact .pure htest
  · exact .throw

omit hg in
theorem coerce (he : M.Holds T e) (t : Ty) : Returns M T (g.coerce e t n) :=
  .ofExcept fun _ h => .coerceIn he h

omit hg in
theorem some_map {r : Reading Expr} (h : Returns M T r) :
    Bounded M T (fun S o => ∀ e ∈ o, M.Holds S e) (some <$> r) :=
  h.map fun S e he => by rintro _ ⟨⟩; exact he

theorem blockRest : Returns M T g.blockRest := by
  have hitem (S : Set Nat) : Bounded M S (fun S o => ∀ e ∈ o, M.Holds S e) (do
      if ← accept "\x7d" then pure none
      else if ← atEnd then missing "\x7d"
      else some <$> g.statement : Reading (Option Expr)) := by
    refine .skip fun closed => ?_
    split
    · exact .pure nofun
    · refine .skip fun ended => ?_
      split
      · exact .skip fun _ => .throw
      · exact some_map (hg.statement S)
  exact ((Bounded.gather rising_holds hitem).withinBlock rising_holds.list).bind
    fun S ⟨body, locals⟩ _ hbody => .pure (.blockOf_of_each hbody)

theorem block : Returns M T g.block := .skip fun _ => hg.blockRest

/-! ## Lambdas -/

theorem lambdaBody (names : List String) (types : List Ty) (ret : Option Ty) :
    Bounded M T (fun _ e => ∀ L, M.Holds L e) (g.lambdaBody names types ret n) := by
  unfold Grammar.lambdaBody
  split
  · exact .throw
  · refine .skip fun params => (bounded_withinLambda ?_).bind fun S lambda _ hl =>
      .pure fun L => M.lambda hl
    refine .skip fun braced => ?_
    split
    · exact hg.blockRest
    · exact hg.expressionUpTo _

theorem bind : Overload.BinderHolds M g.bind := fun _ hl _ _ =>
  answers_elsewhere hl (hg.lambdaBody _ _ _)

/-! ## Calls and members -/

theorem argument (close : String) : Bounded M T (Overload.ArgumentHolds M) (g.argument close) := by
  refine (bounded_pendingLambda g.directory).bind fun S pending _ hpending => ?_
  cases pending with
  | none => exact (hg.expressionUpTo _).map fun _ _ => id
  | some l => exact .pure (hpending l rfl)

omit hg in
theorem rising_argument : Rising (Overload.ArgumentHolds M) := by
  intro S S' a hS ha
  cases a with
  | typed e => exact M.mono hS ha
  | lambda l => exact ha

theorem arguments (close : String) :
    Bounded M T (fun S args => ∀ a ∈ args, Overload.ArgumentHolds M S a) (g.arguments close) := by
  refine .skip fun empty => ?_
  split
  · exact .pure nofun
  · refine (Bounded.separated rising_argument fun S => hg.argument close).bind
      fun S args _ hargs => .skip fun closed => ?_
    split
    · exact .pure hargs
    · exact .skip fun _ => .throw

omit hg in
theorem rising_chosen (cs : List Candidate) : Rising (Overload.Chosen M cs) :=
  fun _ _ _ hS hs => ⟨hs.method, hs.ret, rising_holds.list hS hs.args⟩

theorem select {name : String} {cs : List Candidate} {explicit : List Ty} {args : List Grammar.Arg}
    (hargs : ∀ a ∈ args, Overload.ArgumentHolds M T a) :
    Bounded M T (Overload.Chosen M cs) (g.select name cs explicit args n) :=
  (Overload.answers_select hg.bind hargs).bounded.bind fun _ _ hS hx => .ofExcept fun s hs =>
    rising_chosen cs hS (hx s hs)

omit hg in
theorem forall_mem_none : ∀ x ∈ (none : Option Expr), M.Holds T x := by
  rintro _ ⟨⟩

omit hg in
theorem forall_mem_some (he : M.Holds T e) : ∀ x ∈ some e, M.Holds T x := by
  rintro _ ⟨⟩
  exact he

theorem staticCall {t : Ty} {name : String} {explicit : List Ty} {args : List Grammar.Arg}
    (hargs : ∀ a ∈ args, Overload.ArgumentHolds M T a) :
    Returns M T (g.staticCall t name explicit args n) := by
  unfold Grammar.staticCall
  split
  · exact .throw
  · exact (hg.select hargs).bind fun S s _ hs => .pure (hs.toCall forall_mem_none fun _ => hg.suits.static)

theorem extensionCall {name : String} {explicit : List Ty} {args : List Grammar.Arg}
    (he : M.Holds T e) (hargs : ∀ a ∈ args, Overload.ArgumentHolds M T a) :
    Returns M T (g.extensionCall e name explicit args n) := by
  unfold Grammar.extensionCall
  split
  · exact .throw
  · have hall : ∀ a ∈ .typed e :: args, Overload.ArgumentHolds M T a :=
      List.forall_mem_cons.2 ⟨he, hargs⟩
    exact (hg.select hall).bind fun S s _ hs =>
      .pure (hs.toCall forall_mem_none fun _ => hg.suits.extension)

/-- A method that is chosen for a receiver is one of those that need a receiver. -/
theorem toCall_some {s : Selection} {cs : List Candidate} (he : M.Holds T e)
    (hcs : ∀ c ∈ cs, ∃ t name, c ∈ g.directory.instanceMethods t name)
    (hs : Overload.Chosen M cs T s) : M.Holds T (s.toCall (some e)) := by
  refine hs.toCall (forall_mem_some he) fun c hc => ?_
  obtain ⟨t, name, hc⟩ := hcs c hc
  exact hg.suits.onReceiver hc

theorem instanceCall {name : String} {explicit : List Ty} {args : List Grammar.Arg}
    (he : M.Holds T e) (hargs : ∀ a ∈ args, Overload.ArgumentHolds M T a) :
    Returns M T (g.instanceCall e name explicit args n) := by
  unfold Grammar.instanceCall
  split
  · exact hg.extensionCall he hargs
  · refine (Overload.answers_select hg.bind hargs).outcome.bounded.bind fun S x hS hx => ?_
    have he' := he.mono hS
    cases x with
    | error =>
      dsimp only
      split
      · exact .throw
      · exact hg.extensionCall he' fun a ha => rising_argument hS (hargs a ha)
    | ok s => exact .pure (hg.toCall_some he' (fun _ h => ⟨_, _, h⟩) (rising_chosen _ hS (hx s rfl)))

omit hg in
theorem property {target : Option Expr} {t : Ty} {name : String} {x : Expr}
    (ht : ∀ e ∈ target, M.Holds T e) (h : g.property target t name n = .ok x) :
    M.Holds T x := by
  unfold Grammar.property at h
  split at h
  · cases h
  · split at h
    · cases h
      exact .constant _
    · cases h
      exact M.node rfl rfl fun c hc => ht c (Option.mem_toList.1 hc)

theorem memberAccess {target : Option Expr} {t : Ty} {name : Token}
    (ht : ∀ e ∈ target, M.Holds T e) : Returns M T (g.memberAccess target t name) := by
  refine .skip fun explicit => .skip fun called => ?_
  split
  · refine (hg.arguments ")").bind fun S args hS hargs => ?_
    cases target with
    | none => exact hg.staticCall hargs
    | some receiver => exact hg.instanceCall ((ht _ rfl).mono hS) hargs
  · cases target with
    | none => exact .ofExcept fun _ h => property ht h
    | some array =>
      dsimp only
      split
      · exact .ofExcept fun _ h => .applyUnary (ht _ rfl) h
      · exact .ofExcept fun _ h => property ht h

/-! ## Names and declarations -/

/-- A lambda that is read where its types are known. -/
theorem bindTo {l : PendingLambda Deferred} (hl : l.body.cursor.Free M) {params : List Ty}
    {ret : Option Ty} {refused : Error} :
    Returns M T (do
      match ← ofExcept (← g.bind l params ret) with
      | some e => pure e
      | none => throw refused) := by
  refine (hg.bind l hl params ret).bounded.bind fun S x _ hx =>
    (Bounded.ofExcept (P := fun _ o => ∀ e ∈ o, ∀ L, M.Holds L e) hx).bind fun S' o _ ho => ?_
  cases o with
  | none => exact .throw
  | some e => exact .pure (ho e rfl S')

theorem initialValue (t : Ty) : Returns M T (g.initialValue t n) := by
  unfold Grammar.initialValue
  split
  · refine (bounded_pendingLambda g.directory).bind fun S pending _ hpending => ?_
    cases pending with
    | none => exact hg.expression.bind fun _ e _ he => coerce he _
    | some l =>
      dsimp only
      split
      · exact .throw
      · exact hg.bindTo (hpending l rfl)
  · exact hg.expression.bind fun _ e _ he => coerce he _

theorem declarator (t : Ty) :
    Bounded M T (fun S o => ∀ e ∈ o, M.Holds S e) (g.declarator t) := by
  refine .skip fun name => .skip fun assigned => ?_
  split
  · refine (hg.initialValue t).bind fun S value _ hv => .skip fun v => .pure ?_
    exact forall_mem_some (.assignTo (.parameter v) hv)
  · exact .skip fun _ => .pure nofun

theorem declaration (t : Ty) : Returns M T (g.declaration t) := by
  refine (Bounded.separated rising_holds.option fun S => hg.declarator t).bind
    fun S os _ hos => ?_
  have hall : ∀ e ∈ os.filterMap id, M.Holds S e := by
    intro e he
    obtain ⟨o, ho, he⟩ := List.mem_filterMap.1 he
    exact hos o ho e he
  split
  · exact .pure (.default _)
  · rename_i heq
    rw [heq] at hall
    exact .pure (hall _ List.mem_cons_self)
  · exact .pure (.blockOf_of_each hall)

theorem inferredDeclaration : Returns M T g.inferredDeclaration := by
  refine .skip fun name => .skip fun _ => hg.expression.bind fun S value _ hv => ?_
  split
  · exact .throw
  · exact .skip fun v => .pure (.assignTo (.parameter v) hv)

theorem afterType (t : Ty) : Returns M T (g.afterType t) := by
  refine .skip fun next => ?_
  split
  · exact hg.declaration t
  · refine .skip fun dotted => ?_
    split
    · exact .skip fun _ => hg.memberAccess nofun
    · exact .throw

theorem name (t : Token) : Returns M T (g.name t) := by
  refine .skip fun found => ?_
  split
  · exact .pure (.parameter _)
  · exact .pure (.constant _)
  · rename_i target type _ _ hsurrounding
    refine hg.memberAccess fun e he => ?_
    rw [Option.mem_def] at he
    subst he
    unfold Grammar.surroundingMember? at hsurrounding
    rcases Option.or_eq_some_iff.1 hsurrounding with h | ⟨-, h⟩
    · obtain ⟨r, hr, h⟩ := Option.bind_eq_some_iff.1 h
      split at h
      · cases h
        exact hg.receiver _ hr T
      · cases h
    · obtain ⟨r, hr, h⟩ := Option.bind_eq_some_iff.1 h
      split at h <;> cases h
  · refine .skip fun type => ?_
    cases type with
    | none => exact .throw
    | some t => exact hg.afterType t

/-! ## Operators -/

theorem binaryRest {op : BinaryOp} (hl : M.Holds T l) : Returns M T (g.binaryRest op l n) :=
  (hg.operand _ _ T).bind fun _ _ hS hr => .ofExcept fun _ h =>
    .applyBinary (hl.mono hS) hr h

theorem conditionalRest (hl : M.Holds T l) : Returns M T (g.conditionalRest l n) := by
  refine (hg.operand _ _ T).bind fun S ⟨a, closed⟩ hS ha => ?_
  cases closed with
  | false => exact .skip fun _ => .throw
  | true =>
    refine .skip fun _ => (hg.operand _ _ S).bind fun S' _ hS' hb => .ofExcept fun _ h => ?_
    exact .choose (hl.mono (hS.trans hS')) (ha.mono hS') hb h

omit hg in
theorem typeIsRest (hl : M.Holds T l) : Returns M T (g.typeIsRest l) :=
  .skip fun _ => .pure (M.node rfl rfl (by simpa [Expr.children] using hl))

omit hg in
theorem typeAsRest (hl : M.Holds T l) : Returns M T (g.typeAsRest l n) := by
  refine .skip fun t => ?_
  split
  · exact .pure (M.node rfl rfl (by simpa [Expr.children] using hl))
  · exact .throw

omit hg in
theorem assigned {op : Option BinaryOp} {x : Expr} (he : M.Holds T e) (hl : M.Holds T l)
    (h : Grammar.assigned op e l n = .ok x) : M.Holds T x := by
  unfold Grammar.assigned at h
  split at h
  · cases h
    exact hl
  · obtain ⟨y, hy, h⟩ := exists_of_bind_eq_ok h
    cases h
    exact .convertTo (.applyBinary he hl hy) _

omit hg in
theorem map_typed {es : List Expr} (hes : ∀ e ∈ es, M.Holds T e) :
    ∀ a ∈ es.map (Argument.typed (β := Deferred)), Overload.ArgumentHolds M T a := by
  intro a ha
  obtain ⟨x, hx, rfl⟩ := List.mem_map.1 ha
  exact hes x hx

theorem assignRest {op : Option BinaryOp} (he : M.Holds T e) :
    Returns M T (g.assignRest op e n) := by
  refine (hg.operand _ _ T).bind fun S ⟨value, _⟩ hS hv => ?_
  replace he := he.mono hS
  dsimp only at hv ⊢
  split
  · rename_i receiver args helement
    have hparts : M.Holds S receiver ∧ ∀ a ∈ args, M.Holds S a := by
      unfold Grammar.element? at helement
      split at helement
      · split at helement
        · cases helement
          exact List.forall_mem_cons.1 (M.child rfl he)
        · cases helement
      · cases helement
    refine (Bounded.ofExcept (P := fun S v => M.Holds S v) fun _ h => assigned he hv h).bind
      fun S' v hS' hv => ?_
    split
    · exact .throw
    · exact (hg.select (map_typed (append_single (rising_holds.list hS' hparts.2) hv))).bind
        fun S'' s hS'' hs =>
          .pure (hg.toCall_some (hparts.1.mono (hS'.trans hS'')) (fun _ h => ⟨_, _, h⟩) hs)
  · split
    · exact .throw
    · split
      · exact (coerce hv _).bind fun S' v hS' hv =>
          .pure (.assignTo (he.mono hS') hv)
      · exact (Bounded.ofExcept (P := fun S v => M.Holds S v) fun _ h => assigned he hv h).bind
          fun S' v hS' hv => .pure (.assignTo (he.mono hS') hv)

omit hg in
theorem asIndex {es : List Expr} (hes : ∀ e ∈ es, M.Holds T e) :
    Bounded M T (fun S xs => ∀ x ∈ xs, M.Holds S x)
      (MonadExcept.ofExcept (es.mapM fun e => e.asIndex n) : Reading (List Expr)) := by
  refine .ofExcept fun xs hxs => ?_
  have hends : Scriptlet.Ends (List.Forall₂ (fun _ y => M.Holds T y) es) (fun _ => True)
      (es.mapM fun e => e.asIndex n) := Scriptlet.Ends.mapM fun e he => by
    cases hy : e.asIndex n with
    | error => trivial
    | ok y => exact .asIndex (hes e he) hy
  rw [hxs] at hends
  exact forall_of_forall₂ hends fun _ _ => id

theorem indexRest (he : M.Holds T e) : Returns M T (g.indexRest e n) := by
  refine (hg.items _).bind fun S es hS hes => ?_
  replace he := he.mono hS
  split
  · split
    · exact .throw
    · exact (asIndex hes).bind fun S' xs hS' hxs =>
        .pure (M.node rfl rfl (List.forall_mem_cons.2 ⟨he.mono hS', hxs⟩))
  · split
    · exact .throw
    · refine (hg.select (map_typed hes)).bind fun S' s hS' hs =>
        .pure (hg.toCall_some (he.mono hS') (fun c hc => ?_) hs)
      unfold Grammar.elementGetters at hc
      split at hc
      · exact ⟨_, _, hc⟩
      · exact ⟨_, _, hc⟩

theorem delegateArgument {arg : Grammar.Arg} {t : Ty} {refused : Error}
    (ha : Overload.ArgumentHolds M T arg) :
    Returns M T (g.delegateArgument arg t refused n) := by
  unfold Grammar.delegateArgument
  split
  · exact coerce ha _
  · exact hg.bindTo ha
  · exact .throw

theorem invokeRest (he : M.Holds T e) : Returns M T (g.invokeRest e n) := by
  unfold Grammar.invokeRest
  split
  · refine (hg.arguments ")").bind fun S args hS hargs => ?_
    dsimp only
    split
    · exact .throw
    · refine (Bounded.mapM rising_holds fun a ha S' hS' => ?_).bind fun S' xs hS' hxs =>
        .pure (M.node rfl rfl (List.forall_mem_cons.2 ⟨he.mono (hS.trans hS'), hxs⟩))
      exact hg.delegateArgument (rising_argument hS' (hargs _ (List.of_mem_zip ha).1))
  · exact .throw

theorem follow {f : Follow} (hl : M.Holds T l) : Returns M T (g.follow f l n) := by
  cases f with
  | binary op => exact hg.binaryRest hl
  | conditional => exact hg.conditionalRest hl
  | assign op => exact hg.assignRest hl
  | typeIs => exact typeIsRest hl
  | typeAs => exact typeAsRest hl
  | member => exact .skip fun _ => hg.memberAccess (forall_mem_some hl)
  | index => exact hg.indexRest hl
  | invoke => exact hg.invokeRest hl
  | increment op => exact .ofExcept fun _ h => .applyUnary hl h

theorem followAll {floor : Nat} {closing : List String} (hl : M.Holds T l) :
    Bounded M T (fun S x => M.Holds S x.1) (g.followAll floor closing l) := by
  refine .iterate (I := fun S e => M.Holds S e) (fun S l hl => ?_) hl
  refine .skip fun next => ?_
  split
  · exact .pure hl
  · split
    · exact .pure hl
    · split
      · exact .pure hl
      · exact .skip fun _ => (hg.follow hl).bind fun S' e _ he => .pure he

/-! ## New objects and arrays -/

theorem memberBinding (t : Ty) : Bounded M T (fun S b => M.Holds S b.value) (g.memberBinding t) :=
  .skip fun _ => .skip fun _ => (hg.expressionUpTo _).bind fun _ _ _ he => .skip fun _ =>
    (coerce he _).bind fun _ _ _ hx => .pure hx

theorem memberBindings (t : Ty) :
    Bounded M T (fun S bs => ∀ b ∈ bs, M.Holds S b.value) (g.memberBindings t) := by
  refine .iterate (I := fun S bs => ∀ b ∈ bs, M.Holds S b.value) (fun S bs hbs => ?_) nofun
  refine .skip fun closed => ?_
  split
  · exact .pure hbs
  · refine (hg.memberBinding t).bind fun S' b hS hb => .skip fun more => ?_
    have hall : ∀ x ∈ bs ++ [b], M.Holds S' x.value := by
      refine List.forall_mem_append.2 ⟨fun x hx => (hbs x hx).mono hS, ?_⟩
      exact List.forall_mem_singleton.2 hb
    split
    · exact .pure hall
    · exact .skip fun _ => .pure hall

theorem addedItems (he : M.Holds T e) : Returns M T (g.addedItems e n) := by
  unfold Grammar.addedItems
  split
  · exact .throw
  · refine (hg.items _).bind fun S es hS hes => ?_
    refine (Bounded.mapM (rising_chosen (M := M)
      (g.directory.instanceMethods e.type "Add")) fun x hx S' hS' => ?_).bind fun S' ss hS' hss => ?_
    · exact hg.select (List.forall_mem_singleton.2 ((hes x hx).mono hS'))
    · replace he := he.mono (hS.trans hS')
      cases ss with
      | nil => exact .pure he
      | cons s ss =>
        refine .pure (M.node rfl rfl (List.forall_mem_cons.2 ⟨he, fun x hx => ?_⟩))
        obtain ⟨s', hs', hx⟩ := List.mem_flatMap.1 hx
        exact (hss s' hs').args x hx

theorem initializer (he : M.Holds T e) : Returns M T (g.initializer e) := by
  refine .skip fun _ => .skip fun (first, second) => ?_
  dsimp only
  split
  · refine (hg.memberBindings _).bind fun S bs hS hbs => .pure (M.node rfl rfl ?_)
    refine List.forall_mem_cons.2 ⟨he.mono hS, fun x hx => ?_⟩
    obtain ⟨b, hb, rfl⟩ := List.mem_map.1 hx
    exact hbs b hb
  · exact hg.addedItems he

omit hg in
theorem arrayOf {d : Directory} {t : Ty} {items : List Expr} {x : Expr}
    (hitems : ∀ e ∈ items, M.Holds T e) (h : d.arrayOf t items n = .ok x) : M.Holds T x := by
  obtain ⟨es, hes, h⟩ := exists_of_bind_eq_ok h
  cases h
  have hends : Scriptlet.Ends (List.Forall₂ (fun _ y => M.Holds T y) items) (fun _ => True)
      (items.mapM fun e => d.coerce e t n) := Scriptlet.Ends.mapM fun e he => by
    cases hy : d.coerce e t n with
    | error => trivial
    | ok y => exact .coerceIn (hitems e he) hy
  rw [hes] at hends
  exact M.node rfl rfl (forall_of_forall₂ hends fun _ _ => id)

theorem untypedArrayRest : Returns M T (g.untypedArrayRest n) :=
  .skip fun _ => .skip fun _ => (hg.items _).bind fun _ _ _ hes => .skip fun _ =>
    .ofExcept fun _ h => arrayOf hes h

theorem sizedArrayRest (t : Ty) : Returns M T (g.sizedArrayRest t n) := by
  refine (hg.items _).bind fun S es _ hes => ?_
  split
  · exact .throw
  · exact (asIndex hes).bind fun S' xs _ hxs => .pure (M.node rfl rfl hxs)

theorem arrayRest (t : Ty) (rank : Nat) : Returns M T (g.arrayRest t rank n) := by
  refine .skip fun braced => ?_
  split
  · split
    · exact .throw
    · exact (hg.items _).bind fun S es _ hes => .ofExcept fun _ h => arrayOf hes h
  · exact .throw

theorem objectRest (t : Ty) : Returns M T (g.objectRest t n) := by
  have hnew : ∀ (S : Set Nat) (args : List Grammar.Arg),
      (∀ a ∈ args, Overload.ArgumentHolds M S a) → ∀ cs,
      Returns M S (do
        let s ← g.select t.text cs [] args n
        let new : Expr := .new s.method s.args t
        if ← peekIs "\x7b" then g.initializer new else pure new) := by
    intro S args hargs cs
    refine (hg.select hargs).bind fun S' s _ hs => ?_
    have hnew : M.Holds S' (.new s.method s.args t) := M.node rfl rfl hs.args
    refine .skip fun braced => ?_
    split
    · exact hg.initializer hnew
    · exact .pure hnew
  refine .skip fun opened => ?_
  split
  · cases opened with
    | false => exact .skip fun _ => .throw
    | true => exact (hg.arguments ")").bind fun _ _ _ _ => .throw
  · cases opened with
    | false => exact hnew T [] (List.forall_mem_nil _) _
    | true => exact (hg.arguments ")").bind fun S args _ hargs => hnew S args hargs _

theorem creation : Returns M T (g.creation n) := by
  refine .skip fun untyped => ?_
  split
  · exact hg.untypedArrayRest
  · refine .skip fun t => .skip fun sized => ?_
    split
    · exact hg.sizedArrayRest t
    · split
      · exact hg.arrayRest _ _
      · exact hg.objectRest _

/-! ## Operands -/

theorem unaryOperand : Returns M T g.unaryOperand := (hg.operand _ _ T).map fun _ _ => id

theorem typedLambdaRest (params : Params) : Returns M T (g.typedLambdaRest params n) := by
  unfold Grammar.typedLambdaRest
  split
  · exact (hg.lambdaBody _ _ _).imp fun S _ he => he S
  · exact .throw

theorem bracketRest : Returns M T (g.bracketRest n) := by
  refine .skip fun params => ?_
  cases params with
  | none =>
    refine .skip fun target => ?_
    cases target with
    | none => exact hg.enclosed ")"
    | some t =>
      exact hg.unaryOperand.bind fun _ e _ he => .ofExcept fun _ h => .cast he h
  | some params => exact hg.typedLambdaRest params

theorem unaryRest (op : UnaryOp) : Returns M T (g.unaryRest op n) :=
  hg.unaryOperand.bind fun _ _ _ he => .ofExcept fun _ h => .applyUnary he h

theorem negateRest : Returns M T (g.negateRest n) := by
  refine hg.unaryOperand.bind fun S e _ he => ?_
  split
  · exact .pure (.constant _)
  · exact .ofExcept fun _ h => .applyUnary he h

omit hg in
theorem sizeRest : Returns M T (g.sizeRest n) := by
  refine .skip fun t => ?_
  split
  · exact .pure (.constant _)
  · exact .throw

theorem operandRest? {word : String} {r : Reading Expr} (h : g.operandRest? word n = some r) :
    Returns M T r := by
  unfold Grammar.operandRest? at h
  split at h <;> cases h
  · exact hg.bracketRest
  · exact hg.negateRest
  · exact hg.unaryRest _
  · exact hg.unaryRest _
  · exact hg.unaryRest _
  · exact hg.unaryRest _
  · exact hg.unaryRest _
  · exact hg.creation
  · rw [map_eq_pure_bind]
    exact .skip fun t => .pure (.default t)
  · exact sizeRest
  · exact hg.inferredDeclaration

/-! ## Templates -/

theorem hole {text : List Char} (htext : (Cursor.ofSource text n).Free M) :
    Returns M T (g.hole text n) := by
  refine Bounded.elsewhere htext (hg.expression.bind fun S e _ he => .skip fun next => ?_)
  split
  · exact .pure he
  · exact .throw

theorem formatted {alignment : Option Int} {format : Option (List Char)} (he : M.Holds T e) :
    Returns M T (g.formatted e alignment format n) := by
  unfold Grammar.formatted
  split
  · refine hg.staticCall (List.forall_mem_cons.2 ⟨?_, List.forall_mem_singleton.2 he⟩)
    exact .constant _
  · exact .pure he

theorem templatePart {s : Segment}
    (hs : ∀ text offset alignment format, s = .hole text offset alignment format →
      (Cursor.ofSource text offset).Free M) :
    Bounded M T (fun S o => ∀ e ∈ o, M.Holds S e) (g.templatePart s) := by
  unfold Grammar.templatePart
  split
  · exact .pure forall_mem_none
  · exact .pure (forall_mem_some (.constant _))
  · refine (hg.hole (hs _ _ _ _ rfl)).bind fun S e _ he => (hg.formatted he).bind fun S' x _ hx =>
      .pure (forall_mem_some (.coerce hx _))

theorem template {t : Token} (ht : t.Tame M) (hkind : t.kind = .template) :
    Returns M T (g.template t) := by
  have hconcat (S : Set Nat) (es : List Expr) (hes : ∀ e ∈ es, M.Holds S e) :
      Returns M S (Grammar.template.concat g t es) := hg.staticCall (map_typed hes)
  refine Bounded.bind (P := fun _ segments => Template.split t.lexeme t.start = .ok segments)
    (.ofExcept fun _ h => h) fun S segments _ hsplit => ?_
  refine (Bounded.filterMapM rising_holds fun s hs S' _ => hg.templatePart ?_).bind
    fun S' es _ hes => ?_
  · rintro text offset alignment format rfl
    exact ht.holes hkind segments hsplit text offset alignment format hs
  split
  · exact .pure (.constant _)
  · split
    · exact .pure (hes _ List.mem_cons_self)
    · exact hconcat _ _ hes
  · exact hconcat _ _ hes

/-! ## Jumps -/

theorem valueIfAny : Bounded M T (fun S o => ∀ e ∈ o, M.Holds S e) g.valueIfAny := by
  refine .skip fun ended => ?_
  split
  · exact .pure nofun
  · exact hg.expression.map fun _ _ he => forall_mem_some he

theorem throwRest : Returns M T (g.throwRest n) := by
  refine hg.valueIfAny.bind fun S o _ ho => ?_
  rcases o with _ | e
  · exact .pure (M.node rfl rfl nofun)
  · dsimp only
    split
    · exact .pure (M.node rfl rfl fun c hc => ho c (Option.mem_toList.1 hc))
    · exact .throw

omit hg in
theorem returned {value x : Option Expr} {declared : Option Ty}
    (hv : ∀ e ∈ value, M.Holds T e) (h : g.returned value declared n = .ok x) :
    ∀ e ∈ x, M.Holds T e := by
  unfold Grammar.returned at h
  split at h
  · rename_i e t
    rcases hc : g.directory.coerce e t n with _ | y
    · rw [hc] at h
      cases h
    · rw [hc] at h
      cases h
      exact forall_mem_some (.coerceIn (hv e rfl) hc)
  · cases h
    exact hv
  · split at h
    · cases h
      exact nofun
    · cases h
  · cases h
    exact nofun

/-- A `return` is counted, so that its lambda has the label that it leads to. -/
theorem returnRest : Returns M T (g.returnRest n) := by
  refine hg.valueIfAny.bind fun S o _ ho => .get_bind fun p hfree hS => ?_
  split
  · exact .of_error rfl (.refl p.scopes)
  · rename_i label declared hlabel
    obtain ⟨scope, hscope, hlabel⟩ := Option.bind_eq_some_iff.1 hlabel
    obtain ⟨_, hreturn, ⟨⟩⟩ := Option.map_eq_some_iff.1 hlabel
    cases hvalue : g.returned o scope.returnType n with
    | error e => exact .of_error rfl (.refl p.scopes)
    | ok value =>
      have hgrows := p.scopes.grows_modifyLambda (f := fun s => { s with
        returnType := s.returnType.or (some ((value.map (·.type)).getD .void))
        returns := s.returns + 1 }) fun s => ⟨rfl, rfl, rfl, rfl, Nat.le_succ _⟩
      have hmem : label.id ∈ Scopes.targets (p.scopes.modifyLambda fun s => { s with
          returnType := s.returnType.or (some ((value.map (·.type)).getD .void))
          returns := s.returns + 1 }).entered :=
        Scopes.returned_subset_targets hscope rfl ⟨by rw [hreturn]; rfl, Nat.succ_pos _⟩
      refine .of_ok rfl hgrows hfree (S := S ∪ {label.id}) Set.subset_union_left
        (Set.union_subset (hS.trans (Scopes.targets_subset hgrows)) (Set.singleton_subset_iff.2 hmem))
        (M.jump (.inl (.inr rfl)) fun e he => (returned ho hvalue e he).mono Set.subset_union_left)

omit hg in
theorem leaveTo {kind : JumpKind} {target : Scopes → Option Label} {outside : Misuse}
    (h : ∀ s label, target s = some label → label.id ∈ Scopes.targets s.entered) :
    Returns M T (Grammar.leaveTo kind target outside n) := by
  refine .get_bind fun p hfree hT => ?_
  split
  · rename_i label hlabel
    exact .of_ok rfl (.refl p.scopes) hfree (S := T ∪ {label.id}) Set.subset_union_left
      (Set.union_subset hT (Set.singleton_subset_iff.2 (h p.scopes label hlabel)))
      (M.jump (.inl (.inr rfl)) forall_mem_none)
  · exact .of_error rfl (.refl p.scopes)

theorem jumpRest? {word : String} {r : Reading Expr} (hword : M.gotos ∨ word ≠ "goto")
    (h : g.jumpRest? word n = some r) : Returns M T r := by
  unfold Grammar.jumpRest? at h
  split at h <;> cases h
  · exact hg.throwRest
  · exact hg.returnRest
  · exact leaveTo fun _ _ => Scopes.mem_targets_of_breakTarget?
  · exact leaveTo fun _ _ => Scopes.mem_targets_of_continueTarget?
  · rcases hword with hgotos | hword
    · exact .skip fun _ => .skip fun _ => .pure (M.jump (.inr hgotos) forall_mem_none)
    · exact absurd rfl hword

/-! ## Loops -/

omit hg in
theorem exits_ofLoop (b c : Label) : (Scope.ofLoop b c).exits = Expr.loopLabels b (some c) := by
  ext id
  simp [Scope.exits, Scope.ofLoop, Expr.loopLabels]

theorem loopBody (labels : Grammar.LoopLabels) :
    Bounded M T (fun S e => M.Holds (S ∪ Expr.loopLabels labels.breakLabel labels.continueLabel) e)
      (g.loopBody labels) := by
  refine ((hg.statement T).within (s := .ofLoop labels.breakLabel labels.continueLabel) (by rintro ⟨⟩)
    rising_holds).bind fun S x _ he => .pure ?_
  rw [exits_ofLoop] at he
  exact .inScope he

omit hg in
/-- A loop whose round has the label that `continue` leads to. -/
theorem loopOf {vs : List Variable} {round : List Expr} {b c : Label}
    (h : ∀ e ∈ round, M.Holds (T ∪ Expr.loopLabels b c) e) (hc : .labelAt c none ∈ round) :
    M.Holds T (.loop (.blockOf vs round) b none) := by
  refine M.loop (.blockOf fun e he => (h e he).mono ?_)
  rintro id (hid | rfl | hid)
  · exact .inl (.inl hid)
  · exact .inl (.inr (.inl rfl))
  · cases hid
    exact .inr (Expr.mem_labelsIn hc)

theorem whileRest : Returns M T g.whileRest := by
  refine .skip fun labels => hg.condition.bind fun S test _ ht => (hg.loopBody labels).bind
    fun S' e hS he => .pure (M.loop (.blockOf_of_each ?_))
  exact List.forall_mem_cons.2 ⟨.exitUnless (ht.mono hS),
    List.forall_mem_singleton.2 he⟩

theorem doRest : Returns M T g.doRest := by
  refine .skip fun labels => (hg.loopBody labels).bind fun S e _ he => .skip fun _ =>
    hg.condition.bind fun S' test hS ht => .skip fun _ =>
      .pure (loopOf (c := labels.continueLabel) ?_ (by simp))
  simp only [List.forall_mem_cons]
  exact ⟨he.mono (Set.union_subset_union_left _ hS), .labelAt_none,
    .exitUnless ht, nofun⟩

/-- The jumps of the parts of a `for` are contained; those of the body may lead to its labels. -/
structure Parts (M : Trait) (labels : Grammar.LoopLabels) (S : Set Nat) (p : Grammar.ForParts) :
    Prop where
  start : ∀ e ∈ p.start, M.Holds S e
  test : ∀ e ∈ p.test, M.Holds S e
  steps : ∀ e ∈ p.steps, M.Holds S e
  body : M.Holds (S ∪ Expr.loopLabels labels.breakLabel labels.continueLabel) p.body

omit hg in
theorem rising_parts (labels : Grammar.LoopLabels) : Rising (Parts M labels) :=
  fun _ _ _ hS hp => ⟨rising_holds.list hS hp.start, rising_holds.option hS hp.test,
    rising_holds.list hS hp.steps, hp.body.mono (Set.union_subset_union_left _ hS)⟩

theorem forParts (labels : Grammar.LoopLabels) :
    Bounded M T (Parts M labels) (g.forParts labels n) := by
  have hstart : Bounded M T (fun S es => ∀ e ∈ es, M.Holds S e) g.forStart := by
    refine .skip fun empty => ?_
    split
    · exact .pure nofun
    · exact (Bounded.separated rising_holds fun _ => hg.expression).bind
        fun S es _ hes => .skip fun _ => .pure hes
  have htest (S : Set Nat) : Bounded M S (fun S o => ∀ e ∈ o, M.Holds S e) (g.forTest n) := by
    refine .skip fun empty => ?_
    split
    · exact .pure nofun
    · refine hg.expression.bind fun S e _ he => ?_
      split
      · exact .pure (forall_mem_some he)
      · exact .throw
  have hsteps (S : Set Nat) : Bounded M S (fun S es => ∀ e ∈ es, M.Holds S e) g.forSteps := by
    refine .skip fun empty => ?_
    split
    · exact .pure nofun
    · exact (Bounded.separated rising_holds fun _ => hg.expressionUpTo _).bind
        fun S es _ hes => .skip fun _ => .pure hes
  refine hstart.bind fun S₁ _ _ h₁ => (htest S₁).bind fun S₂ _ hS₂ h₂ => .skip fun _ =>
    (hsteps S₂).bind fun S₃ _ hS₃ h₃ => (hg.loopBody labels).bind fun S₄ _ hS₄ h₄ => .pure ?_
  exact ⟨rising_holds.list (hS₂.trans (hS₃.trans hS₄)) h₁,
    rising_holds.option (hS₃.trans hS₄) h₂, rising_holds.list hS₄ h₃, h₄⟩

theorem forRest : Returns M T (g.forRest n) := by
  refine .skip fun labels => .skip fun _ =>
    (Bounded.withinBlock (rising_parts labels) (hg.forParts labels)).bind
      fun S ⟨p, locals⟩ _ hp => .pure (.blockOf_of_each fun e he => ?_)
  rcases List.mem_append.1 he with he | he
  · exact hp.start e he
  obtain rfl := List.mem_singleton.1 he
  refine loopOf (c := labels.continueLabel) (fun x hx => ?_) (by simp)
  rcases List.mem_append.1 hx with hx | hx
  · rcases List.mem_append.1 hx with hx | hx
    · obtain ⟨y, hy, rfl⟩ := Option.map_eq_some_iff.1 (Option.mem_toList.1 hx)
      exact .exitUnless (hp.test y hy)
    · simp only [List.mem_cons, List.not_mem_nil, or_false] at hx
      rcases hx with rfl | rfl
      · exact hp.body
      · exact .labelAt_none
  · exact (hp.steps x hx).mono Set.subset_union_left

theorem itemBody (labels : Grammar.LoopLabels) (name : Token) (t : Ty) :
    Bounded M T
      (fun S x => M.Holds (S ∪ Expr.loopLabels labels.breakLabel labels.continueLabel) x.2.1)
      (g.itemBody labels name t) := by
  have hbody : Bounded M T (fun S x => M.Holds S x.2) (do
      let item ← declare name t
      pure (item, ← g.statement) : Reading (Variable × Expr)) :=
    .skip fun _ => (hg.statement T).bind fun _ _ _ he => .pure he
  refine (hbody.within (s := .ofLoop labels.breakLabel labels.continueLabel) (by rintro ⟨⟩)
    fun _ _ _ hS he => he.mono hS).bind ?_
  rintro S ⟨⟨_, _⟩, _⟩ - he
  rw [exits_ofLoop] at he
  exact .pure he

theorem arrayLoop {labels : Grammar.LoopLabels} {element : Ty} {declared : Option Ty} {name : Token}
    (he : M.Holds T e) : Returns M T (g.arrayLoop labels e element declared name n) := by
  refine .skip fun array => .skip fun index => (hg.itemBody labels name _).bind
    fun S ⟨item, body, locals⟩ hS hbody => ?_
  have hp (L : Set Nat) (v : Variable) : M.Holds L (.parameter v) := .parameter v
  have hlength : ∀ x, Expr.applyUnary .arrayLength (.parameter array) n = .ok x → M.Holds ∅ x :=
    fun _ h => .applyUnary (hp ∅ array) h
  have hless {l : Expr} (hl : M.Holds ∅ l) :
      ∀ x, Expr.applyBinary .lessThan (.parameter index) l n = .ok x → M.Holds ∅ x :=
    fun _ h => .applyBinary (hp ∅ index) hl h
  have hadd : ∀ x, Expr.applyBinary .add (.parameter index) (.number (.int 1)) n = .ok x →
      M.Holds ∅ x :=
    fun _ h => .applyBinary (hp ∅ index) (.constant _) h
  refine (Bounded.ofExcept (P := fun _ x => M.Holds ∅ x) hlength).bind
    fun S₁ length hS₁ hlength => (Bounded.ofExcept (P := fun _ x => M.Holds ∅ x)
      (hless hlength)).bind fun S₂ test hS₂ htest => (Bounded.ofExcept
        (P := fun _ x => M.Holds ∅ x) hadd).bind fun S₃ next hS₃ hnext =>
          .pure (.blockOf_of_each ?_)
  have hS' := hS₁.trans (hS₂.trans hS₃)
  have hcurrent : M.Holds ∅ (.index (.parameter array) [.parameter index] element) :=
    M.node rfl rfl (by simp [Expr.children, hp])
  simp only [List.forall_mem_cons]
  refine ⟨.assignTo (hp _ _) (he.mono (hS.trans hS')),
    .assignTo (hp _ _) (.constant _),
    loopOf (c := labels.continueLabel) ?_ (by simp), List.forall_mem_nil _⟩
  simp only [List.forall_mem_cons]
  have hassign {v : Variable} {x : Expr} (hx : M.Holds ∅ x) :
      M.Holds (S₃ ∪ Expr.loopLabels labels.breakLabel labels.continueLabel)
        (.assignTo (.parameter v) x) :=
    .assignTo (hp _ v) (hx.mono (Set.empty_subset _))
  exact ⟨.exitUnless (htest.mono (Set.empty_subset _)),
    hassign (.convertTo hcurrent _),
    hbody.mono (Set.union_subset_union_left _ hS'), .labelAt_none,
    hassign hnext, List.forall_mem_nil _⟩

theorem enumeration (t : Ty) :
    Bounded M T (fun S x => ∀ S' ⊇ S, ∀ e, M.Holds S' e →
      M.Holds S' (x.start.toCall (some e)) ∧ M.Holds S' (x.advance.toCall (some e)))
      (g.enumeration t n) := by
  have hargs : ∀ S, ∀ a ∈ ([] : List Grammar.Arg), Overload.ArgumentHolds M S a :=
    fun _ _ ha => nomatch ha
  unfold Grammar.enumeration
  split
  · exact .throw
  · refine (hg.select (hargs T)).bind fun S start _ hstart => ?_
    split
    · rename_i hmovers
      refine (hg.select (hargs S)).bind fun S₁ advance hS hadvance =>
        .pure fun S' hS' e he => ⟨?_, ?_⟩
      · exact hg.toCall_some he (fun _ h => ⟨_, _, h⟩) (rising_chosen _ (hS.trans hS') hstart)
      · exact hg.toCall_some he (fun c hc => ⟨_, _, hmovers ▸ hc⟩) (rising_chosen _ hS' hadvance)
    · exact .throw

theorem enumeratorLoop {labels : Grammar.LoopLabels} {declared : Option Ty} {name : Token}
    (he : M.Holds T e) : Returns M T (g.enumeratorLoop labels e declared name n) := by
  refine (hg.enumeration _).bind fun S x hS hx => .skip fun enumerator =>
    (hg.itemBody labels name _).bind fun S' ⟨item, body, locals⟩ hS' hbody =>
      .pure (.blockOf_of_each ?_)
  have hp (L : Set Nat) (v : Variable) : M.Holds L (.parameter v) := .parameter v
  have hstart := (hx S' hS' e (he.mono (hS.trans hS'))).1
  have hadvance := (hx S' hS' _ (hp S' enumerator)).2
  have hcurrent (L : Set Nat) : M.Holds L (.member (some (.parameter enumerator)) x.current.member
      x.current.owner x.current.type) :=
    M.node rfl rfl (by simp [Expr.children, hp])
  simp only [List.forall_mem_cons]
  refine ⟨.assignTo (hp _ _) hstart, loopOf (c := labels.continueLabel) ?_ (by simp),
    List.forall_mem_nil _⟩
  simp only [List.forall_mem_cons]
  exact ⟨.exitUnless hadvance,
    .assignTo (hp _ _) (.convertTo (hcurrent _) _), hbody,
    .labelAt_none, List.forall_mem_nil _⟩

theorem foreachRest : Returns M T (g.foreachRest n) := by
  refine .skip fun labels => .skip fun _ => .skip fun inferred => ?_
  -- whether or not a type is written
  split <;> refine .skip fun declared => .skip fun name => .skip fun _ =>
    (hg.enclosed ")").bind fun S source _ hs => ?_
  all_goals
    split
    · exact hg.arrayLoop hs
    · exact hg.enumeratorLoop hs

/-! ## Statements -/

theorem scopedStatement : Returns M T g.scopedStatement :=
  (Bounded.withinBlock rising_holds (hg.statement T)).bind fun _ _ _ he =>
    .pure (.inScope he)

theorem ifRest : Returns M T g.ifRest := by
  refine hg.condition.bind fun S test _ ht => hg.scopedStatement.bind fun S' a hS ha =>
    .skip fun other => ?_
  split
  · exact hg.scopedStatement.bind fun S'' b hS' hb =>
      .pure (.conditional (ht.mono (hS.trans hS')) (ha.mono hS') hb)
  · exact .pure (.conditional (ht.mono hS) ha (.default _))

theorem caseBody : Returns M T g.caseBody := by
  have hitem (S : Set Nat) : Bounded M S (fun S o => ∀ e ∈ o, M.Holds S e) (do
      let next ← peek
      if next.is "case" || next.is "default" || next.is "\x7d" || next.isEof then pure none
      else some <$> g.statement : Reading (Option Expr)) := by
    refine .skip fun next => ?_
    split
    · exact .pure nofun
    · exact some_map (hg.statement S)
  exact (Bounded.gather rising_holds hitem).bind fun _ _ _ hes =>
    .pure (.blockOf_of_each hes)

theorem caseTests (t : Ty) :
    Bounded M T (fun S es => ∀ e ∈ es, M.Holds S e) (g.caseTests t n) := by
  refine .iterate (I := fun S es => ∀ e ∈ es, M.Holds S e) (fun S es hes => ?_) nofun
  refine (hg.expressionUpTo _).bind fun S₁ e hS₁ he => (coerce he t).bind fun S₂ x hS₂ hx =>
    .skip fun _ => ?_
  have hall : ∀ y ∈ es ++ [x], M.Holds S₂ y :=
    append_single (rising_holds.list (hS₁.trans hS₂) hes) hx
  refine .skip fun more => ?_
  split
  · exact .pure hall
  · exact .pure hall

/-- The jumps of the cases of a switch are contained. -/
structure CasesHold (M : Trait) (S : Set Nat) (c : Grammar.Cases) : Prop where
  tests : ∀ x ∈ c.cases, ∀ e ∈ x.tests, M.Holds S e
  bodies : ∀ x ∈ c.cases, M.Holds S x.body
  default : ∀ e ∈ c.default, M.Holds S e

omit hg in
theorem rising_cases : Rising (CasesHold M) := fun _ _ _ hS hc =>
  ⟨fun x hx => rising_holds.list hS (hc.tests x hx), fun x hx => (hc.bodies x hx).mono hS,
    rising_holds.option hS hc.default⟩

theorem switchCases (t : Ty) : Bounded M T (CasesHold M) (g.switchCases t) := by
  refine .iterate (I := CasesHold M) (fun S c hc => ?_) ⟨nofun, nofun, nofun⟩
  refine .skip fun closed => ?_
  split
  · exact .pure hc
  · refine .skip fun first => ?_
    split
    · refine (hg.caseTests t).bind fun S₁ tests hS₁ ht => hg.caseBody.bind fun S₂ body hS₂ hb =>
        .pure ?_
      have hc' := rising_cases (hS₁.trans hS₂) hc
      refine ⟨fun x hx => ?_, fun x hx => ?_, hc'.default⟩ <;>
        rcases List.mem_append.1 hx with hx | hx
      · exact hc'.tests x hx
      · obtain rfl := List.mem_singleton.1 hx
        exact rising_holds.list hS₂ ht
      · exact hc'.bodies x hx
      · obtain rfl := List.mem_singleton.1 hx
        exact hb
    · split
      · refine .skip fun _ => hg.caseBody.bind fun S₁ body hS₁ hb => .pure ?_
        exact { rising_cases hS₁ hc with default := forall_mem_some hb }
      · split
        · exact .skip fun _ => .throw
        · exact .throw

/-- The label behind a switch takes up the jumps that `break` makes in it. -/
theorem switchRest : Returns M T g.switchRest := by
  refine .skip fun label => .skip fun _ => (hg.enclosed ")").bind fun S value _ hv => .skip fun _ =>
    ((hg.switchCases _).within (s := .ofSwitch label) (by rintro ⟨⟩) rising_cases).bind ?_
  rintro S' ⟨c, locals⟩ hS hc
  refine .pure (.blockOf ?_)
  have hexits : (Scope.ofSwitch label).exits ⊆
      Expr.labelsIn [.switch value c.cases c.default, .labelAt label none] := by
    rintro id (hid | hid) <;> cases hid
    exact Expr.mem_labelsIn (List.mem_cons_of_mem _ (List.mem_singleton_self _))
  replace hc := rising_cases (Set.union_subset_union_right S' hexits) hc
  simp only [List.forall_mem_cons]
  refine ⟨M.node rfl rfl fun x hx => ?_, .labelAt_none, List.forall_mem_nil _⟩
  simp only [Expr.children, List.cons_append, List.mem_cons, List.mem_append, List.mem_flatMap,
    Option.mem_toList] at hx
  rcases hx with rfl | ⟨y, hy, hx⟩ | hx
  · exact hv.mono (hS.trans Set.subset_union_left)
  · rcases hx with hx | rfl | hx
    · exact hc.tests y hy x hx
    · exact hc.bodies y hy
    · cases hx
  · exact hc.default x hx

theorem typedHandler : Bounded M T (fun S h => M.Holds S h.body) g.typedHandler := by
  have hbody (name : Option Token) (t : Ty) : Bounded M T (fun S x => M.Holds S x.2) (do
      let binder ← name.mapM fun name => declare name t
      pure (binder, ← g.blockRest) : Reading (Option Variable × Expr)) :=
    .skip fun _ => hg.blockRest.bind fun _ _ _ he => .pure he
  refine .skip fun t => .skip fun next => ?_
  split <;> refine .skip fun name => .skip fun _ => .skip fun _ =>
    ((hbody name t).withinBlock fun _ _ _ hS he => he.mono hS).bind ?_
  all_goals
    rintro S ⟨⟨_, _⟩, _⟩ - he
    exact .pure he

theorem handler : Bounded M T (fun S h => M.Holds S h.body) g.handler := by
  refine .skip fun typed => ?_
  split
  · exact hg.typedHandler
  · exact hg.block.bind fun _ body _ hb => .skip fun _ => .pure hb

theorem tryRest : Returns M T (g.tryRest n) := by
  have hhandlers (S : Set Nat) : Bounded M S (fun S hs => ∀ h ∈ hs, M.Holds S h.body) (gather do
      if ← accept "catch" then some <$> g.handler else pure none) := by
    refine Bounded.gather (P := fun S (h : Handler Expr) => M.Holds S h.body)
      (fun _ _ _ hS hh => hh.mono hS) fun S => .skip fun more => ?_
    split
    · refine hg.handler.map fun S h hh => ?_
      rintro _ ⟨⟩
      exact hh
    · exact .pure nofun
  have hlast (S : Set Nat) body hs (last : Option Expr) (hb : M.Holds S body)
      (hhs : ∀ h ∈ hs, M.Holds S h.body) (hl : ∀ e ∈ last, M.Holds S e) : Returns M S (do
        if hs.isEmpty && last.isNone then throw (.misuse n .handlerMissing)
        else pure (.tryCatch body hs last)) := by
    split
    · exact .throw
    refine .pure (M.node rfl rfl fun x hx => ?_)
    simp only [Expr.children, List.cons_append, List.mem_cons, List.mem_append, List.mem_map,
      Option.mem_toList] at hx
    rcases hx with rfl | ⟨h, hh, rfl⟩ | hx
    · exact hb
    · exact hhs h hh
    · exact hl x hx
  refine hg.block.bind fun S body _ hb => (hhandlers S).bind fun S₁ hs hS₁ hhs =>
    .skip fun more => ?_
  cases more with
  | false => exact hlast S₁ body hs none (hb.mono hS₁) hhs forall_mem_none
  | true =>
    exact (some_map hg.block).bind fun S₂ last hS₂ hl => hlast S₂ body hs last
      (hb.mono (hS₁.trans hS₂)) (fun h hh => (hhs h hh).mono hS₂) hl

theorem compoundRest? {word : String} {r : Reading Expr} (h : g.compoundRest? word n = some r) :
    Returns M T r := by
  unfold Grammar.compoundRest? at h
  split at h <;> cases h
  · exact hg.blockRest
  · exact hg.ifRest
  · exact hg.whileRest
  · exact hg.doRest
  · exact hg.forRest
  · exact hg.foreachRest
  · exact hg.switchRest
  · exact hg.tryRest

theorem compound? {t : Token} {r : Reading Expr} (h : g.compound? t = some r) :
    Returns M T r := by
  unfold Grammar.compound? at h
  split at h
  · exact hg.compoundRest? h
  · cases h

theorem start {t : Token} (ht : t.Tame M) : Returns M T (g.start t) := by
  have hword (hkind : t.kind.isSymbol || t.kind.isKeyword) : M.gotos ∨ t.word ≠ "goto" := by
    refine ht.word.imp_right fun his hgoto => ?_
    have hlexeme : t.lexeme = "goto".toList := by rw [← hgoto, Token.word, String.toList_ofList]
    rw [Token.is, hkind, hlexeme] at his
    cases his
  unfold Grammar.start
  split
  · exact .pure (.constant _)
  · exact .pure (.constant _)
  · exact .pure (.constant _)
  · rename_i hkind
    exact hg.template ht hkind
  · exact hg.name t
  all_goals try exact .throw
  all_goals
    rename_i hkind
    split
    · rename_i rest hrest
      rcases Option.or_eq_some_iff.1 hrest with hrest | ⟨-, hrest⟩
      · rcases Option.or_eq_some_iff.1 hrest with hrest | ⟨-, hrest⟩
        · exact hg.operandRest? hrest
        · exact hg.jumpRest? (hword (by simp [hkind, TokenKind.isSymbol, TokenKind.isKeyword])) hrest
      · exact hg.compound? hrest
    · split
      · exact hg.name t
      · exact .throw

theorem anyOperand (floor : Nat) (closing : List String) :
    Bounded M T (fun S x => M.Holds S x.1) (g.anyOperand floor closing) :=
  .token_bind fun _ ht => (hg.start ht).bind fun _ _ _ he => hg.followAll he

theorem expressionStatement : Returns M T g.expressionStatement := by
  refine hg.expression.bind fun S e _ he => .skip fun closed => ?_
  split
  · exact .pure he
  · refine .skip fun ended => ?_
    split
    · exact .pure he
    · exact .skip fun _ => .throw

theorem anyStatement : Returns M T g.anyStatement := by
  refine .skip fun next => ?_
  split
  · exact .skip fun _ => .pure (.default _)
  · refine .skip fun label => ?_
    rcases label with _ | name
    · dsimp only
      split
      · rename_i hrest
        exact .skip fun _ => hg.compound? hrest
      · exact hg.expressionStatement
    · exact .skip fun _ => .pure .labelAt_none

theorem statementsToEnd : Returns M T g.statementsToEnd := by
  have hitem (S : Set Nat) : Bounded M S (fun S o => ∀ e ∈ o, M.Holds S e)
      (do if ← atEnd then pure none else some <$> g.statement : Reading (Option Expr)) := by
    refine .skip fun ended => ?_
    split
    · exact .pure nofun
    · exact some_map (hg.statement S)
  refine (Bounded.gather rising_holds hitem).bind fun S es _ hes => ?_
  split
  · exact .skip fun _ => .throw
  · exact .pure (hes _ List.mem_cons_self)
  · exact .pure (.blockOf_of_each hes)

end Grammar.Gives

/-! ## Programs -/

/-- Every level of the grammar reads expressions with a trait, because the level below does. -/
theorem Surroundings.gives_grammar {M : Trait} {s : Surroundings} (hs : M.Suits s.directory)
    (hr : ∀ e, s.receiver = some e → ∀ L, M.Holds L e) (levels : Nat) :
    (s.grammar levels).Gives M := by
  induction levels with
  | zero => exact ⟨hs, hr, fun _ _ _ => .skip fun _ => .throw, fun _ => .skip fun _ => .throw⟩
  | succ levels ih =>
    exact ⟨hs, hr, fun floor closing _ => ih.anyOperand floor closing, fun _ => ih.anyStatement⟩

namespace Options

variable {M : Trait} {o : Options} {d : Directory} {T : Set Nat}

instance steady_writtenParameter (p : Option Ty × String) : Steady (o.writtenParameter d p) := by
  unfold writtenParameter
  split
  · infer_instance
  · split <;> infer_instance

instance steady_programParameters : Steady (o.programParameters d) :=
  .skip fun params => by cases params <;> infer_instance

instance steady_setParameters (params : List Variable) :
    Steady (modify fun p => { p with scopes := { p.scopes with parameters := params } } :
      Reading Unit) :=
  .of_scopes fun p => ⟨rfl, .refl p.scopes⟩

theorem bounded_surroundings (params : List Variable) :
    Bounded M T (fun _ s => s.directory = d ∧ ∀ e, s.receiver = some e → ∀ L, M.Holds L e)
      (o.surroundings d params) := by
  refine Bounded.bind (P := fun _ o => ∀ e, o = some e → ∀ L, M.Holds L e) ?_
    fun _ _ _ hr => .skip fun _ => .pure ⟨rfl, hr⟩
  cases o.defaultReceiver with
  | none => exact .pure (by rintro _ ⟨⟩)
  | some name =>
    refine Bounded.map (P := fun _ e => ∀ L, M.Holds L e) ?_ fun _ _ he => ?_
    · dsimp only
      split
      · exact .pure fun _ => .parameter _
      · exact .throw
    · rintro _ ⟨⟩
      exact he

theorem bounded_program (hd : M.Suits d) (levels : Nat) :
    Bounded M T (fun _ l => M.Holds ∅ l.body) (o.program d levels) := by
  refine .skip fun params => .skip fun _ => (bounded_surroundings params).bind fun _ s _ hs =>
    .skip fun ret => Grammar.bounded_withinLambda ?_
  exact (Surroundings.gives_grammar (hs.1 ▸ hd) hs.2 levels).statementsToEnd

end Options

/-- Every program that is read from a text without forbidden words has the trait. -/
theorem Trait.holds_of_parse {M : Trait} {d : Directory} {o : Options} {first next : Nat}
    {source : String} {l : Lambda} (hd : M.Suits d) (hfree : (Cursor.ofSource source.toList 0).Free M)
    (h : parse d o first source = .ok (l, next)) : M.Holds ∅ l.body := by
  unfold parse at h
  dsimp only at h
  split at h
  · rename_i l' p hl
    cases h
    obtain ⟨-, -, -, -, hbody⟩ := (Options.bounded_program (o := o) hd _ _ hfree
      (Set.empty_subset _)).gives _ _ hl
    exact hbody
  · cases h

end Scriptlet

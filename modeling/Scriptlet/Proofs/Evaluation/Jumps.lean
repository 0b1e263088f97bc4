import Scriptlet.Proofs.Evaluation.Library

/-!
# Contained jumps do not escape

A loop takes up the jumps to its labels, and a block those to the labels that stand in it. So
what leaves the evaluation of an expression is, if a jump, one to a label that its jumps are
contained in (`Machine.contained_evaluate`). A function whose body is contained on its own is
left by no jump, and as functions are only made of such lambdas, neither are the functions that
it calls (`Lambda.orderly_invoke`).
-/

namespace Scriptlet

variable {α β : Type} {L L' : Set Nat} {body : Evaluation Value}

/-- A signal that is a jump to one of some labels, or no jump; and that does not say that a jump
    was left over. -/
def Signal.IsWithin (L : Set Nat) : Signal → Prop
  | halt h => h.IsOrderly
  | jump label _ => label ∈ L
  | throw _ => True

/-- Wherever it takes place, an evaluation leaves functions contained, and it is left by no jump
    but to one of some labels. -/
class Evaluation.IsContained (L : Set Nat) (ev : Evaluation α) : Prop where
  confined : ∀ site, Confined Store.IsContained (fun _ => True) (Signal.IsWithin L) (ev site)

namespace Evaluation

variable {block rest : List Statement}

namespace IsContained

variable {ev ev' : Evaluation α}

instance pure (a : α) : IsContained L (Pure.pure a : Evaluation α) := ⟨fun _ => .pureAt trivial⟩

instance bind {k : α → Evaluation β} [h : IsContained L ev] [hk : ∀ a, IsContained L (k a)] :
    IsContained L (ev >>= k) :=
  ⟨fun site => (h.confined site).bindAt fun a _ => (hk a).confined site⟩

theorem followed {k : α → Evaluation β} [IsContained L ev] (h : ∀ a, IsContained L (k a)) :
    IsContained L (ev >>= k) := bind

instance ite {c : Prop} [Decidable c] [h : IsContained L ev] [h' : IsContained L ev'] :
    IsContained L (if c then ev else ev') := by
  split
  · exact h
  · exact h'

instance ofRun {r : Run α} [h : r.Orderly] : IsContained L (ofRun r) := ⟨fun _ => .ofRun h.isOrderly⟩

instance fault {f : Fault} [f.Ordinary] : IsContained L (fault f : Evaluation α) := ofRun

instance get : IsContained L (MonadState.get : Evaluation Store) :=
  ⟨fun _ => Confined.getAt.imp (fun _ _ => trivial) fun _ => id⟩

instance read : IsContained L (read : Evaluation Site) :=
  ⟨fun _ => Confined.readAt.imp (fun _ _ => trivial) fun _ => id⟩

theorem leave {signal : Signal} (h : signal.IsWithin L) :
    IsContained L (leave signal : Evaluation α) :=
  ⟨fun _ _ hs => ⟨h, hs⟩⟩

instance withinFrame [h : IsContained L ev] (slots : List (Nat × Value)) :
    IsContained L (withinFrame slots ev) :=
  ⟨fun _ s hs => h.confined _ _ (show (s.newFrame _).2.IsContained from hs)⟩

end IsContained

/-! ## Loops and blocks -/

/-- A loop takes up the jumps to its labels. -/
theorem IsContained.repeated {b : Label} {c : Option Label}
    [h : IsContained (L ∪ Expr.loopLabels b c) body] (rounds : Nat) :
    IsContained L (repeated body b.id (c.map (·.id)) rounds) := by
  refine ⟨fun site => ?_⟩
  induction rounds with
  | zero => exact fun s hs => ⟨nofun, hs⟩
  | succ rounds ih =>
    intro s hs
    have hbody := h.confined site s hs
    rw [Evaluation.repeated]
    cases hr : body site s with
    | ok v s' =>
      rw [hr] at hbody
      exact ih s' hbody.2
    | error signal s' =>
      rw [hr] at hbody
      cases signal with
      | halt e => exact hbody
      | throw v => exact hbody
      | jump label value =>
        dsimp only
        by_cases hb : label = b.id
        · rw [if_pos hb]
          exact ⟨trivial, hbody.2⟩
        by_cases hc : some label = c.map (·.id)
        · rw [if_neg hb, if_pos hc]
          exact ih s' hbody.2
        · rw [if_neg hb, if_neg hc]
          exact ⟨hbody.1.resolve_right fun hlabel => hlabel.elim hb hc, hbody.2⟩

/-- The labels of statements. -/
def labelsOf (block : List Statement) : Set Nat := {id | some id ∈ block.map (·.1)}

theorem mem_of_behind {label : Nat} (h : behind? label block = some rest) :
    ∀ st ∈ rest, st ∈ block := by
  induction block with
  | nil => cases h
  | cons st block ih =>
    obtain ⟨l, ev⟩ := st
    rw [behind?] at h
    split at h
    · cases h
      exact fun st hst => List.mem_cons_of_mem _ hst
    · exact fun st hst => List.mem_cons_of_mem _ (ih h st hst)

theorem notMem_of_behind {label : Nat} (h : behind? label block = none) :
    label ∉ labelsOf block := by
  induction block with
  | nil => exact List.not_mem_nil
  | cons st block ih =>
    obtain ⟨l, ev⟩ := st
    rw [behind?] at h
    split at h
    · cases h
    · rename_i hl
      intro hmem
      rcases List.mem_cons.1 hmem with heq | hmem
      · exact hl heq.symm
      · exact ih h hmem

/-- Going through statements, where the block takes up jumps to its labels. -/
theorem confined_pass (h : ∀ st ∈ block, IsContained (L ∪ labelsOf block) st.2) (site : Site)
    (hrest : ∀ st ∈ rest, st ∈ block) (last : Value) :
    Confined Store.IsContained
      (fun p => match p with
        | .done _ => True
        | .jumped rest _ => ∀ st ∈ rest, st ∈ block)
      (Signal.IsWithin L) (pass block rest last site) := by
  induction rest generalizing last with
  | nil => exact .pureAt trivial
  | cons st rest ih =>
    obtain ⟨l, ev⟩ := st
    obtain ⟨hst, hrest⟩ := List.forall_mem_cons.1 hrest
    intro s hs
    have hev : IsContained (L ∪ labelsOf block) ev := h _ hst
    replace hev := hev.confined site s hs
    rw [pass]
    dsimp only
    cases hr : ev site s with
    | ok v s' =>
      rw [hr] at hev
      exact ih hrest v s' hev.2
    | error signal s' =>
      rw [hr] at hev
      cases signal with
      | halt e => exact hev
      | throw v => exact hev
      | jump label value =>
        cases hbehind : behind? label block with
        | some rest' =>
          dsimp only
          rw [hbehind]
          exact ⟨mem_of_behind hbehind, hev.2⟩
        | none =>
          dsimp only
          rw [hbehind]
          exact ⟨hev.1.resolve_right (notMem_of_behind hbehind), hev.2⟩

theorem confined_passAll (h : ∀ st ∈ block, IsContained (L ∪ labelsOf block) st.2) (site : Site)
    (rounds : Nat) (hrest : ∀ st ∈ rest, st ∈ block) (last : Value) :
    Confined Store.IsContained (fun _ => True) (Signal.IsWithin L)
      (passAll block rounds rest last site) := by
  induction rounds generalizing rest last with
  | zero => exact fun s hs => ⟨nofun, hs⟩
  | succ rounds ih =>
    refine (confined_pass h site hrest last).bindAt fun p hp => ?_
    cases p with
    | done v => exact .pureAt trivial
    | jumped rest v => exact ih hp v

/-- A block takes up the jumps to the labels that stand in it. -/
theorem contained_block (h : ∀ st ∈ block, IsContained (L ∪ labelsOf block) st.2) (rounds : Nat)
    (locals : List Variable) (t : Ty) : IsContained L (Machine.block rounds locals block t) := by
  have hpass : IsContained L (passAll block rounds block .null) :=
    ⟨fun site => confined_passAll h site rounds (fun _ => id) .null⟩
  exact .bind

end Evaluation

namespace Machine

open Evaluation Run

/-! ## Handlers -/

section Handlers

variable {m : Machine}

theorem contained_handle {catches : List Catch} (h : ∀ c ∈ catches, IsContained L c.body)
    (exception : Value) : IsContained L (m.handle catches exception) := by
  refine ⟨fun site s hs => ?_⟩
  unfold handle
  cases hfind : catches.find? fun c => m.isInstance s exception c.type with
  | none => exact ⟨trivial, hs⟩
  | some c =>
    have hc := h c (List.mem_of_find?_eq_some hfind)
    exact (IsContained.withinFrame _).confined ⟨site.frame, exception :: site.handling⟩ s hs

theorem contained_guarded {catches : List Catch} [hbody : IsContained L body]
    (h : ∀ c ∈ catches, IsContained L c.body) : IsContained L (m.guarded body catches) := by
  refine ⟨fun site s hs => ?_⟩
  have hr := hbody.confined site s hs
  unfold guarded
  cases hbs : body site s with
  | ok v s' =>
    rw [hbs] at hr
    exact hr
  | error signal s' =>
    rw [hbs] at hr
    cases signal with
    | jump label value => exact hr
    | throw v => exact (contained_handle h v).confined site s' hr.2
    | halt e =>
      cases e with
      | exhausted => exact hr
      | error e =>
        dsimp only
        cases e.exception? with
        | none => exact hr
        | some o =>
          exact (contained_handle h _).confined site _ (show (s'.newObject o).2.IsContained from hr.2)

theorem contained_finishing {last : Evaluation (Option Value)} [hbody : IsContained L body]
    [hlast : IsContained L last] : IsContained L (finishing body last) := by
  refine ⟨fun site s hs => ?_⟩
  have hr := hbody.confined site s hs
  unfold finishing
  cases hbs : body site s with
  | ok v s' =>
    rw [hbs] at hr
    have hl := hlast.confined site s' hr.2
    dsimp only
    cases hls : last site s' with
    | ok w s'' =>
      rw [hls] at hl
      exact ⟨trivial, hl.2⟩
    | error signal s'' =>
      rw [hls] at hl
      exact hl
  | error signal s' =>
    rw [hbs] at hr
    have hl := hlast.confined site s' hr.2
    obtain (e | _) | ⟨label, v⟩ | v := signal
    -- an exhausted machine stops at once
    case halt.exhausted => exact hr
    all_goals
      dsimp only
      cases hls : last site s' with
      | ok w s'' =>
        rw [hls] at hl
        exact ⟨hr.1, hl.2⟩
      | error signal s'' =>
        rw [hls] at hl
        exact hl

instance (rethrow : Bool) (v : Value) : IsContained L (raise rethrow v) := by
  refine .followed fun site => ?_
  split
  · infer_instance
  · infer_instance
  · exact .leave trivial

end Handlers

/-! ## Variables and operators -/

instance (v : Variable) : IsContained L (loadVariable v) := .bind

instance (v : Variable) (value : Value) : IsContained L (storeVariable v value) :=
  .followed fun _ => .ofRun (h := .followed fun _ => .followed fun _ => .modify fun _ => rfl)

/-- A function whose body is left by no jump can be made. -/
theorem contained_newFunction {l : Lambda} (h : l.body.Contained ∅) :
    IsContained L (newFunction l) := by
  refine .followed fun site => .ofRun (h := ⟨fun s hs => ⟨trivial, fun f hf => ?_⟩⟩)
  rcases Array.mem_push.1 hf with hf | rfl
  · exact hs f hf
  · exact h

variable {l r : Evaluation Value} [IsContained L l] [IsContained L r]

instance : IsContained L (truth l) := .bind

instance (t : Ty) : IsContained L (converted l t) := .bind

instance (op : BinaryOp) (t : Ty) : IsContained L (binary op l r t) := by
  cases op <;> unfold binary <;> infer_instance

/-! ## Expressions -/

section Expressions

variable {m : Machine} {e : Expr}

theorem contained_evaluateAll {es : List Expr} (h : ∀ e ∈ es, IsContained L (m.evaluate e))
    {f : Nat → Value → Run Value} [∀ i v, Run.Orderly (f i v)] (i : Nat) :
    IsContained L (m.evaluateAll f i es) := by
  induction es generalizing i with
  | nil =>
    rw [evaluateAll]
    infer_instance
  | cons e es ih =>
    obtain ⟨_, hes⟩ := List.forall_mem_cons.1 h
    have := ih hes (i + 1)
    rw [evaluateAll]
    infer_instance

theorem contained_evaluateOption {e : Option Expr} (h : ∀ x ∈ e, IsContained L (m.evaluate x)) :
    IsContained L (m.evaluateOption e) := by
  cases e with
  | none =>
    rw [evaluateOption]
    infer_instance
  | some e =>
    have := h e rfl
    rw [evaluateOption]
    infer_instance

theorem contained_bindMembers {bindings : List (Binding Expr)}
    (h : ∀ b ∈ bindings, IsContained L (m.evaluate b.value)) (object : Value) :
    IsContained L (m.bindMembers object bindings) := by
  induction bindings with
  | nil =>
    rw [bindMembers]
    infer_instance
  | cons b bindings ih =>
    obtain ⟨_, hbindings⟩ := List.forall_mem_cons.1 h
    have := ih hbindings
    rw [bindMembers]
    infer_instance

theorem contained_anyEquals {tests : List Expr} (h : ∀ e ∈ tests, IsContained L (m.evaluate e))
    (v : Value) : IsContained L (m.anyEquals v tests) := by
  induction tests with
  | nil =>
    rw [anyEquals]
    infer_instance
  | cons e tests ih =>
    obtain ⟨_, htests⟩ := List.forall_mem_cons.1 h
    have := ih htests
    rw [anyEquals]
    infer_instance

theorem contained_takeCase {cases : List (Case Expr)}
    (h : ∀ c ∈ cases, (∀ e ∈ c.tests, IsContained L (m.evaluate e)) ∧
      IsContained L (m.evaluate c.body)) (v : Value) :
    IsContained L (m.takeCase v cases) := by
  induction cases with
  | nil =>
    rw [takeCase]
    infer_instance
  | cons c cases ih =>
    obtain ⟨⟨htests, _⟩, hcases⟩ := List.forall_mem_cons.1 h
    have := contained_anyEquals htests v
    have := ih hcases
    rw [takeCase]
    infer_instance

theorem contained_catches {handlers : List (Handler Expr)}
    (h : ∀ c ∈ handlers, IsContained L (m.evaluate c.body)) :
    ∀ c ∈ m.catches handlers, IsContained L c.body := by
  induction handlers with
  | nil =>
    rw [catches]
    nofun
  | cons c handlers ih =>
    obtain ⟨hc, hhandlers⟩ := List.forall_mem_cons.1 h
    rw [catches]
    exact List.forall_mem_cons.2 ⟨hc, ih hhandlers⟩

theorem labelsOf_statements (body : List Expr) :
    labelsOf (m.statements body) = Expr.labelsIn body := by
  have hmap : (m.statements body).map (·.1) = body.map labelOf := by
    induction body with
    | nil => rw [statements]; rfl
    | cons e body ih => rw [statements, List.map_cons, List.map_cons, ih]
  rw [labelsOf, Expr.labelsIn, hmap]

theorem contained_statements {body : List Expr} (h : ∀ e ∈ body, IsContained L (m.evaluate e)) :
    ∀ st ∈ m.statements body, IsContained L st.2 := by
  induction body with
  | nil =>
    rw [statements]
    nofun
  | cons e body ih =>
    obtain ⟨he, hbody⟩ := List.forall_mem_cons.1 h
    rw [statements]
    exact List.forall_mem_cons.2 ⟨he, ih hbody⟩

theorem contained_store (h : ∀ c ∈ e.children, IsContained L (m.evaluate c))
    (v : Value) : IsContained L (m.store e v) := by
  cases e with
  | parameter x =>
    rw [store]
    infer_instance
  | index array indices t =>
    obtain ⟨_, hindices⟩ := List.forall_mem_cons.1 h
    have := contained_evaluateAll hindices (f := takeIndex) 0
    rw [store]
    infer_instance
  | member target member owner t =>
    cases target with
    | none =>
      rw [store]
      · infer_instance
      all_goals nofun
    | some target =>
      have := h target (List.mem_singleton_self _)
      rw [store]
      infer_instance
  | _ =>
    rw [store]
    · infer_instance
    all_goals nofun

theorem contained_store_turning (he : e.isTurning = true) (v : Value) :
    IsContained L (m.store e v) := by
  cases e with
  | block | loop | jump | lambda =>
    rw [store]
    · infer_instance
    all_goals nofun
  | _ => cases he

/-- A node that has nothing to do with jumps is left by none but those of its parts. -/
theorem contained_evaluate_node (hm : m.IsOrderly) (he : e.isTurning = false)
    (h : ∀ c ∈ e.children, IsContained L (m.evaluate c))
    (hstore : ∀ c ∈ e.children, ∀ v, IsContained L (m.store c v)) : IsContained L (m.evaluate e) := by
  have hcall := orderly_callMethod hm
  cases e with
  | constant c | default t | parameter v =>
    rw [evaluate]
    infer_instance
  | unary op e t =>
    have := h e (List.mem_singleton_self e)
    have := hstore e (List.mem_singleton_self e)
    rw [evaluate]
    infer_instance
  | binary op l r t =>
    have := h l (by simp [Expr.children])
    have := h r (by simp [Expr.children])
    rw [evaluate]
    infer_instance
  | convert e t | typeIs e t | typeAs e t =>
    have := h e (List.mem_singleton_self e)
    rw [evaluate]
    infer_instance
  | call method receiver args typeArgs t =>
    have := contained_evaluateOption fun e he => h e (List.mem_append_left _ (Option.mem_toList.2 he))
    have := contained_evaluateAll (fun e he => h e (List.mem_append_right _ he))
      (f := takeArgument method args.length) 0
    rw [evaluate]
    refine .followed fun v => ?_
    split <;> infer_instance
  | invoke target args t =>
    obtain ⟨_, hargs⟩ := List.forall_mem_cons.1 h
    have := contained_evaluateAll hargs (f := fun _ v => pure v) 0
    have (f : Nat) (vs : List Value) : (m.apply f vs).Orderly := ⟨hm.apply f vs⟩
    rw [evaluate]
    infer_instance
  | new constructor args t =>
    have : IsContained L (m.evaluateAll (takeArgument constructor args.length) 0 args) :=
      contained_evaluateAll h 0
    rw [evaluate]
    infer_instance
  | memberInit new bindings t =>
    obtain ⟨_, hbindings⟩ := List.forall_mem_cons.1 h
    have := contained_bindMembers fun b hb => hbindings _ (List.mem_map_of_mem hb)
    rw [evaluate]
    infer_instance
  | listInit new add items t =>
    obtain ⟨_, hitems⟩ := List.forall_mem_cons.1 h
    have (v : Value) := contained_evaluateAll hitems (f := fun _ item => m.callMethod add [v, item]) 0
    rw [evaluate]
    infer_instance
  | arrayOfSize element bounds =>
    have : IsContained L (m.evaluateAll takeBound 0 bounds) := contained_evaluateAll h 0
    rw [evaluate]
    infer_instance
  | arrayOfItems element items =>
    have : IsContained L (m.evaluateAll (fun _ v => ofFault (v.convertTo element)) 0 items) :=
      contained_evaluateAll h 0
    rw [evaluate]
    infer_instance
  | member target member owner t =>
    have := contained_evaluateOption fun e he => h e (Option.mem_toList.2 he)
    have := orderly_loadMember hm
    rw [evaluate]
    infer_instance
  | index array indices t =>
    obtain ⟨_, hindices⟩ := List.forall_mem_cons.1 h
    have := contained_evaluateAll hindices (f := takeIndex) 0
    rw [evaluate]
    infer_instance
  | conditional test a b t =>
    have := h test (by simp [Expr.children])
    have := h a (by simp [Expr.children])
    have := h b (by simp [Expr.children])
    rw [evaluate]
    infer_instance
  | assign target value t =>
    have := h value (by simp [Expr.children])
    have := hstore target (by simp [Expr.children])
    rw [evaluate]
    infer_instance
  | label target default t =>
    have := contained_evaluateOption fun e he => h e (Option.mem_toList.2 he)
    rw [evaluate]
    infer_instance
  | switch value cases default =>
    have hcases : ∀ c ∈ cases, (∀ e ∈ c.tests, IsContained L (m.evaluate e)) ∧
        IsContained L (m.evaluate c.body) := by
      intro c hc
      have hparts : ∀ e ∈ c.tests ++ [c.body], IsContained L (m.evaluate e) := fun e he =>
        h e (List.mem_append_left _ (List.mem_cons_of_mem _ (List.mem_flatMap.2 ⟨c, hc, he⟩)))
      obtain ⟨htests, hbody⟩ := List.forall_mem_append.1 hparts
      exact ⟨htests, hbody _ (List.mem_singleton_self _)⟩
    have := h value (by simp [Expr.children])
    have := contained_takeCase hcases
    have := contained_evaluateOption fun e he => h e (List.mem_append_right _ (Option.mem_toList.2 he))
    rw [evaluate]
    infer_instance
  | tryCatch body handlers last =>
    obtain ⟨hparts, hlast⟩ := List.forall_mem_append.1 h
    obtain ⟨_, hhandlers⟩ := List.forall_mem_cons.1 hparts
    have : IsContained L (m.guarded (m.evaluate body) (m.catches handlers)) :=
      contained_guarded (contained_catches fun c hc => hhandlers _ (List.mem_map_of_mem hc))
    have := contained_evaluateOption fun e he => hlast e (Option.mem_toList.2 he)
    rw [evaluate]
    exact contained_finishing
  | throw value =>
    have := contained_evaluateOption fun e he => h e (Option.mem_toList.2 he)
    rw [evaluate]
    infer_instance
  | block | loop | jump | lambda => cases he

/-- The jumps that leave the evaluation of an expression lead to the labels that its jumps are
    contained in. -/
theorem contained_evaluate (hm : m.IsOrderly) (h : e.Contained L) :
    IsContained L (m.evaluate e) := by
  suffices IsContained L (m.evaluate e) ∧ ∀ v, IsContained L (m.store e v) from this.1
  induction h with
  | node he _ ih =>
    have hparts := fun c hc => (ih c hc).1
    exact ⟨contained_evaluate_node hm he hparts fun c hc => (ih c hc).2, contained_store hparts⟩
  | @block L locals body t _ ih =>
    refine ⟨?_, fun v => ?_⟩
    · rw [evaluate]
      refine contained_block ?_ _ locals t
      rw [labelsOf_statements]
      exact contained_statements fun e he => (ih e he).1
    · exact contained_store_turning rfl v
  | loop _ ih =>
    refine ⟨?_, fun v => ?_⟩
    · have := ih.1
      rw [evaluate]
      exact .repeated _
    · exact contained_store_turning rfl v
  | jump htarget _ ih =>
    refine ⟨?_, fun v => ?_⟩
    · have := contained_evaluateOption fun e he => (ih e he).1
      rw [evaluate]
      exact .followed fun _ => .leave htarget
    · exact contained_store_turning rfl v
  | lambda hbody _ =>
    refine ⟨?_, fun v => ?_⟩
    · rw [evaluate]
      exact contained_newFunction hbody
    · exact contained_store_turning rfl v

end Expressions

/-! ## Calls -/

section Calls

variable {m : Machine} (hm : m.IsOrderly)

include hm

omit hm in
/-- What a call of a function comes to, if no jump leaves its body. -/
theorem orderly_conclude {ev : EStateM Signal Store Value}
    (h : Confined Store.IsContained (fun _ => True) (Signal.IsWithin ∅) ev) (ret : Ty) :
    Run.IsOrderly fun s => conclude ret (ev s) := by
  intro s hs
  have hev := h s hs
  dsimp only
  cases hr : ev s with
  | ok v s' =>
    rw [hr] at hev
    by_cases hret : ret = .void
    · rw [conclude, if_pos hret]
      exact hev
    · rw [conclude, if_neg hret]
      have hconvert : Fault.Orderly (v.convertTo ret) := inferInstance
      cases hv : v.convertTo ret with
      | ok w => exact hev
      | error f =>
        refine ⟨fun label hlabel => hconvert.ne label ?_, hev.2⟩
        cases hlabel
        exact hv
  | error signal s' =>
    rw [hr] at hev
    cases signal with
    | halt e => exact hev
    | throw v => exact ⟨nofun, hev.2⟩
    | jump label v => exact absurd hev.1 (Set.notMem_empty label)

/-- A call of a function whose body is contained. -/
theorem orderly_call {f : FunctionData} (h : f.lambda.body.Contained ∅) (args : List Value) :
    Run.IsOrderly (m.call f args) := by
  unfold call
  split
  · exact orderly_fault nofun
  refine (Run.Orderly.followed fun slots => ⟨fun s hs => ?_⟩).isOrderly
  exact orderly_conclude ((contained_evaluate hm h).confined ⟨(s.newFrame ⟨slots, some f.frame⟩).1, []⟩)
    _ (s.newFrame ⟨slots, some f.frame⟩).2 hs

/-- A call by number, as the store has contained functions only. -/
theorem orderly_applyWith (r : Nat) (args : List Value) : Run.IsOrderly (m.applyWith r args) := by
  refine Confined.get.bind fun s hs => ?_
  dsimp only
  split
  · exact orderly_fault nofun
  · exact orderly_call hm (hs.function r) args

end Calls

/-- On a machine of any depth. -/
theorem orderly_ofDepth {d : Directory} {host : Host}
    (hcall : ∀ name args, Run.IsOrderly (host.call name args))
    (hget : ∀ name v, Run.IsOrderly (host.get name v)) (rounds depth : Nat) :
    (ofDepth d host rounds depth).IsOrderly := by
  induction depth with
  | zero => exact ⟨fun _ _ => Confined.throw nofun, hcall, hget⟩
  | succ depth ih => exact ⟨fun r args => orderly_applyWith ih r args, hcall, hget⟩

end Machine

/-- However a program is called whose body is contained, no jump is left over: neither in its own
    body nor in that of a function that it calls. -/
theorem Lambda.orderly_invoke {m : Machine} (hm : m.IsOrderly) {l : Lambda}
    (h : l.body.Contained ∅) (args : List Value) : Run.IsOrderly (l.invoke m args) :=
  Confined.bind (P := fun _ => True) (fun _ hs => ⟨trivial, hs⟩) fun _ _ =>
    Machine.orderly_call hm h args

end Scriptlet

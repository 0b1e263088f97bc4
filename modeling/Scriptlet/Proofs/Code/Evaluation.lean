import Scriptlet.Evaluation.Call
import Scriptlet.Proofs.Code.Basic
import Scriptlet.Proofs.Value.Frames

/-!
# Evaluating code

Code is evaluated as its meaning says. A store shows an environment from a frame
(`Sees`) if each variable is found from there with the value that the environment gives
it. An evaluation tracks a meaning (`Tracks`) if from each such store it comes to a value
that shows the meaning's value, and leaves a store that shows the meaning's environment.
Nothing else changes: each slot that was there before keeps its value unless it is that of
a variable of the code (`Advances`). The constructs of the evaluator keep this relation, so
evaluating code tracks its meaning (`Code.tracks`), and calling a function with code as its
body comes to the meaning's value (`Code.outcome_invoke`).
-/

namespace Scriptlet

/-! ## Values -/

/-- A value that comes to a pattern of thirty-two bits. -/
def Value.Shows (v : Value) (x : BitVec 32) : Prop :=
  ∃ n : Number, v = .number n ∧ n.onLadder ∧ n.low = x

/-- The value of an `int` variable. -/
def Value.ofBits (x : BitVec 32) : Value := .number (.integral .int x)

namespace Value

variable {v w : Value} {x y : BitVec 32}

theorem shows_ofBits (x : BitVec 32) : (ofBits x).Shows x :=
  ⟨_, rfl, rfl, Number.low_integral_int x⟩

theorem ok_number_ne {k : IntKind} {x y : BitVec k.width} (h : x ≠ y) :
    (Except.ok (.number (.integral k x)) : Except Fault Value) ≠ .ok (.number (.integral k y)) := by
  intro heq
  cases heq
  exact h rfl

theorem Shows.convertTo (h : v.Shows x) : v.convertTo .int = .ok (ofBits x) := by
  obtain ⟨n, rfl, -, rfl⟩ := h
  rfl

/-- Operators on values do with their low digits what they do with patterns. -/
theorem Shows.onValues {op : BinaryOp} (hop : op.isModular) (hv : v.Shows x) (hw : w.Shows y)
    (s : Store) : op.onValues v w .int s = .ok (ofBits (op.onBits x y)) s := by
  obtain ⟨arith, harith, hmodular⟩ := (Option.any_eq_true _ _).1 hop
  obtain ⟨a, rfl, ha, rfl⟩ := hv
  obtain ⟨b, rfl, hb, rfl⟩ := hw
  obtain ⟨n, hn, -, hlow⟩ := Number.binary_low hmodular ha hb
  obtain ⟨hcompare, hequal, hnot⟩ := BinaryOp.isComparison_of_arith harith
  have hbits : op.onBits a.low b.low = n.low := by simp [BinaryOp.onBits, harith, hlow]
  rw [hbits]
  simp only [BinaryOp.onValues, if_neg hequal, if_neg hnot, BinaryOp.onPresent, hcompare, harith]
  rw [if_neg (fun h => nomatch h.2), if_neg (by simp [Value.isNull]), if_neg (by decide)]
  show (Run.ofArith (Number.binary arith a b) >>= fun n =>
    pure (Value.number (n.convert .int))) s = _
  rw [hn]
  rfl

/-- Negation and complement do with low digits what they do with patterns. -/
theorem Shows.onValue {op : UnaryOp} (hop : op = .negate ∨ op = .complement) (hv : v.Shows x)
    (s : Store) : op.onValue v .int s = .ok (ofBits (op.onBits x)) s := by
  obtain ⟨a, rfl, -, rfl⟩ := hv
  have hneg := Number.negate_low (a := .integral .int a.low) rfl
  obtain ⟨n, hn, -, hlow⟩ := Number.complement_low (a := .integral .int a.low) rfl
  rcases hop with rfl | rfl
  · show EStateM.Result.ok (Value.number ((Number.integral .int a.low).negate.convert .int)) s = _
    rw [Number.convert_int, hneg.2, Number.low_integral_int]
    rfl
  · have hone : UnaryOp.complement.onNumber a .int = .ok (n.convert .int) := by
      simp only [UnaryOp.onNumber, Number.convert_int, hn]
      rfl
    show (Value.number <$> Run.ofFault (UnaryOp.complement.onNumber a .int)) s = _
    rw [hone, Number.convert_int, hlow, Number.low_integral_int]
    rfl

/-- Counting on does with low digits what it does with patterns. -/
theorem Shows.stepped {op : UnaryOp} (hv : v.Shows x) (s : Store) :
    op.stepped v .int s = .ok (ofBits (op.stepArith.onBits x 1)) s := by
  obtain ⟨a, rfl, -, rfl⟩ := hv
  have hmodular : op.stepArith.isModular := by cases op <;> rfl
  obtain ⟨n, hn, -, hlow⟩ := Number.binary_low (a := .integral .int a.low)
    (b := .integral .int 1) hmodular rfl rfl
  show (Run.ofArith (Number.binary op.stepArith (.integral .int a.low) (.integral .int 1)) >>=
    fun n => pure (Value.number (n.convert .int))) s = _
  have hbits : n.low = op.stepArith.onBits a.low 1 :=
    hlow.trans (congrArg₂ _ (Number.low_integral_int _) (Number.low_integral_int _))
  rw [hn, ← hbits]
  rfl

end Value

/-! ## Stores and environments -/

variable {s s' : Store} {f : Nat} {Γ : List Nat} {ρ : Env}

/-- From a frame, variables are found with the values that an environment gives them. -/
def Sees (s : Store) (f : Nat) (Γ : List Nat) (ρ : Env) : Prop :=
  ∀ id ∈ Γ, ∃ r, s.holder? f id = some r ∧ s.slot? r id = some (.ofBits (ρ id))

/-- What may become of a store by evaluating code with some variables in a frame. -/
structure Advances (f : Nat) (Γ : List Nat) (s s' : Store) : Prop where
  /-- Variables are found where they were. -/
  found : ∀ {g id r}, s.holder? g id = some r → s'.holder? g id = some r
  /-- Slots keep their values, except those of the variables. -/
  kept : ∀ {r id}, (s.slot? r id).isSome → ¬(id ∈ Γ ∧ s.holder? f id = some r) →
    s'.slot? r id = s.slot? r id

namespace Advances

theorem refl (f : Nat) (Γ : List Nat) (s : Store) : Advances f Γ s s := ⟨id, fun _ _ => rfl⟩

theorem trans {s'' : Store} (h : Advances f Γ s s') (h' : Advances f Γ s' s'')
    (hs : Sees s f Γ ρ) : Advances f Γ s s'' := by
  refine ⟨fun hr => h'.found (h.found hr), fun {r id} hr hout => ?_⟩
  rw [← h.kept hr hout]
  refine h'.kept (by rw [h.kept hr hout]; exact hr) fun ⟨hid, hr'⟩ => hout ⟨hid, ?_⟩
  obtain ⟨r₀, hr₀, -⟩ := hs id hid
  rwa [h.found hr₀, ← hr₀] at hr'

end Advances

theorem Sees.lookup_eq {v : Variable} (hs : Sees s f Γ ρ) (hv : v.id ∈ Γ) :
    s.lookup f v = .ok (.ofBits (ρ v.id)) := by
  obtain ⟨r, hr, hslot⟩ := hs v.id hv
  rw [Store.lookup_of_holder? hr, hslot]
  rfl

/-- Setting a variable of the code. -/
theorem Sees.define (hs : Sees s f Γ ρ) {v : Variable} (hv : v.id ∈ Γ) (x : BitVec 32) :
    ∃ r, s.holder f v = .ok r ∧ Sees (s.define r v (.ofBits x)) f Γ (Function.update ρ v.id x) ∧
      Advances f Γ s (s.define r v (.ofBits x)) := by
  obtain ⟨r, hr, hslot⟩ := hs v.id hv
  have hsome : (s.slot? r v.id).isSome := by rw [hslot]; rfl
  have hlt := Store.lt_size_of_slot hsome
  refine ⟨r, by simp only [Store.holder, hr]; rfl, ?_, ?_, ?_⟩
  · intro id hid
    obtain ⟨r', hr', hslot'⟩ := hs id hid
    refine ⟨r', by rw [Store.holder?_define _ hsome, hr'], ?_⟩
    rw [Store.slot?_define _ hlt]
    by_cases h : id = v.id
    · subst h
      obtain rfl : r = r' := Option.some.inj (hr.symm.trans hr')
      simp
    · rw [if_neg (fun h' => h h'.2), hslot', Function.update_of_ne h]
  · intro g id r' hr'
    rwa [Store.holder?_define _ hsome]
  · intro r' id _ hout
    rw [Store.slot?_define _ hlt, if_neg]
    rintro ⟨rfl, rfl⟩
    exact hout ⟨hv, hr⟩

/-! ## Frames of calls -/

/-- The slots of variables that are bound to patterns. -/
def slotsOf (ids : List Nat) (xs : List (BitVec 32)) : List (Nat × Value) :=
  (ids.zip xs).foldl (fun slots (id, x) => Frame.set id (.ofBits x) slots) []

theorem lookup_slotsOf {ids : List Nat} {xs : List (BitVec 32)} (hlen : xs.length = ids.length)
    (ρ : Env) (id : Nat) : (slotsOf ids xs).lookup id =
      if id ∈ ids then some (.ofBits (ρ.bind ids xs id)) else none := by
  -- behind any bindings that were made before
  have hfold : ∀ (ids : List Nat) (xs : List (BitVec 32)) (slots : List (Nat × Value)) (ρ : Env),
      xs.length = ids.length →
      ((ids.zip xs).foldl (fun slots (id, x) => Frame.set id (.ofBits x) slots) slots).lookup id =
        if id ∈ ids then some (.ofBits (ρ.bind ids xs id)) else slots.lookup id := by
    intro ids
    induction ids with
    | nil => intro xs slots ρ _; simp
    | cons i ids ih =>
      intro xs slots ρ hlen
      obtain ⟨x, xs, rfl⟩ := List.exists_cons_of_length_eq_add_one hlen
      have hstep := ih xs (Frame.set i (.ofBits x) slots) (Function.update ρ i x) (by simpa using hlen)
      rw [List.zip_cons_cons, List.foldl_cons, hstep, Frame.lookup_set]
      by_cases hid : id ∈ ids
      · rw [if_pos hid, if_pos (List.mem_cons_of_mem _ hid)]; rfl
      · rw [if_neg hid]
        by_cases heq : id = i
        · subst heq
          have : ρ.bind (id :: ids) (x :: xs) id = x :=
            (Env.bind_of_notMem hid).trans (Function.update_self ..)
          rw [if_pos rfl, if_pos List.mem_cons_self, this]
        · rw [if_neg heq, if_neg (by simp [heq, hid])]
  exact hfold ids xs [] ρ hlen

/-- In the frame of a call, the parameters are bound. -/
theorem Sees.enter {ids : List Nat} {xs : List (BitVec 32)} (hlen : xs.length = ids.length)
    (ρ : Env) : Sees (s.newFrame ⟨slotsOf ids xs, some f⟩).2 s.frames.size ids (ρ.bind ids xs) := by
  intro id hid
  have hlookup := lookup_slotsOf hlen ρ id
  rw [if_pos hid] at hlookup
  refine ⟨s.frames.size, Store.holder?_inner_own _ (by rw [hlookup]; rfl), ?_⟩
  rw [Store.slot?, Store.frame_newFrame_self, hlookup]

/-! ## Evaluations that follow a meaning -/

namespace Evaluation

variable {α β : Type} {site : Site}

theorem bind_of_ok {m : Evaluation α} (k : α → Evaluation β) {x : α}
    (h : m site s = .ok x s') : (m >>= k) site s = k x site s' := by
  show EStateM.bind (m site) (fun x => k x site) s = _
  rw [EStateM.bind, h]

theorem bind_of_error {m : Evaluation α} (k : α → Evaluation β) {x : Signal}
    (h : m site s = .error x s') : (m >>= k) site s = .error x s' := by
  show EStateM.bind (m site) (fun x => k x site) s = _
  rw [EStateM.bind, h]

theorem ofRun_of_ok (site : Site) {r : Run α} {x : α} (h : r s = .ok x s') : ofRun r site s = .ok x s' := by
  rw [ofRun, h]

end Evaluation

/-- An evaluation that does as a meaning says, wherever the variables are seen, with a value in
    relation to its value. -/
def Tracks {α β : Type} (Γ : List Nat) (R : α → β → Prop) (m : Evaluation α) (μ : Meaning β) : Prop :=
  ∀ (site : Site) (s : Store) (ρ : Env), Sees s site.frame Γ ρ →
    ∃ v s', m site s = .ok v s' ∧ R v (μ.value ρ) ∧ Sees s' site.frame Γ (μ.after ρ) ∧
      Advances site.frame Γ s s'

namespace Tracks

variable {α α' β β' : Type} {R : α → β → Prop} {R' : α' → β' → Prop} {m : Evaluation α}
  {μ : Meaning β}

theorem ret {v : α} {x : β} (h : R v x) : Tracks Γ R (pure v) (pure x) :=
  fun site s _ hs => ⟨v, s, rfl, h, hs, .refl site.frame Γ s⟩

theorem run {r : Run α} {v : α} {x : β} (hr : ∀ s, r s = .ok v s) (h : R v x) :
    Tracks Γ R (Evaluation.ofRun r) (pure x) :=
  fun site s _ hs => ⟨v, s, Evaluation.ofRun_of_ok site (hr s), h, hs, .refl site.frame Γ s⟩

theorem run_bind {r : Run α} {v : α} (hr : ∀ s, r s = .ok v s) {k : α → Evaluation α'}
    {μ : Meaning β'} (h : Tracks Γ R' (k v) μ) : Tracks Γ R' (Evaluation.ofRun r >>= k) μ := by
  intro site s ρ hs
  rw [Evaluation.bind_of_ok k (Evaluation.ofRun_of_ok site (hr s))]
  exact h site s ρ hs

theorem bind {k : α → Evaluation α'} {κ : β → Meaning β'} (hm : Tracks Γ R m μ)
    (hk : ∀ v x, R v x → Tracks Γ R' (k v) (κ x)) : Tracks Γ R' (m >>= k) (μ >>= κ) := by
  intro site s ρ hs
  obtain ⟨v, s₁, hv, hR, hs₁, ha⟩ := hm site s ρ hs
  obtain ⟨w, s₂, hw, hR', hs₂, ha'⟩ := hk v _ hR site s₁ _ hs₁
  rw [Evaluation.bind_of_ok k hv]
  exact ⟨w, s₂, hw, hR', hs₂, ha.trans ha' hs⟩

theorem load {v : Variable} (hv : v.id ∈ Γ) :
    Tracks Γ Value.Shows (Machine.loadVariable v) (Meaning.load v.id) := by
  intro site s ρ hs
  refine ⟨.ofBits (ρ v.id), s, Evaluation.ofRun_of_ok site ?_, Value.shows_ofBits _, hs,
    .refl site.frame Γ s⟩
  show Run.ofFault (s.lookup site.frame v) s = _
  rw [hs.lookup_eq hv]
  rfl

theorem store {v : Variable} (ht : v.type = .int) (hv : v.id ∈ Γ) {w : Value} {x : BitVec 32}
    (hw : w.Shows x) :
    Tracks Γ (fun _ _ => True) (Machine.storeVariable v w) (Meaning.store v.id x) := by
  intro site s ρ hs
  obtain ⟨r, hr, hs', ha⟩ := hs.define hv x
  refine ⟨(), s.define r v (.ofBits x), Evaluation.ofRun_of_ok site ?_, trivial, hs', ha⟩
  rw [ht, hw.convertTo]
  show (Run.ofFault (s.holder site.frame v) >>= fun r => modify (·.define r v (.ofBits x))) s = _
  rw [hr]
  rfl

end Tracks

/-! ## Calls -/

/-- The slots of parameters. -/
theorem slotsOf_parameters {params : List Variable} (h : ∀ v ∈ params, v.type = .int)
    {vs : List Value} {xs : List (BitVec 32)} (hvs : List.Forall₂ Value.Shows vs xs) :
    Machine.parameterSlots params vs = .ok (slotsOf (idsOf params) xs) := by
  -- behind any slots that are there before
  have hfold : ∀ (params : List Variable) (slots : List (Nat × Value)) (vs : List Value)
      (xs : List (BitVec 32)), (∀ v ∈ params, v.type = .int) → List.Forall₂ Value.Shows vs xs →
      (params.zip vs).foldlM (m := Except Fault) (fun slots p => do
        pure (Frame.set p.1.id (← p.2.convertTo p.1.type) slots)) slots =
      .ok (((idsOf params).zip xs).foldl
        (fun slots p => Frame.set p.1 (.ofBits p.2) slots) slots) := by
    intro params
    induction params with
    | nil => intro slots vs xs _ _; rfl
    | cons p params ih =>
      intro slots vs xs h hvs
      cases hvs with
      | nil => rfl
      | cons hv hvs =>
        have hp := hv.convertTo
        rw [← h p List.mem_cons_self] at hp
        rw [List.zip_cons_cons, List.foldlM_cons]
        dsimp only
        rw [hp]
        exact ih _ _ _ (fun w hw => h w (List.mem_cons_of_mem _ hw)) hvs
  exact hfold params [] vs xs h hvs

theorem Machine.binary_of_modular {op : BinaryOp} (h : op.isModular) (l r : Evaluation Value)
    (t : Ty) : binary op l r t = (do
      let a ← l
      let b ← r
      Evaluation.ofRun (op.onValues a b t)) := by
  cases op <;> first | rfl | cases h

/-- What a run comes to, whatever store it leaves. -/
def Run.outcome {α : Type} (r : Run α) (s : Store) : Except Halt α :=
  match r s with
  | .ok x _ => .ok x
  | .error h _ => .error h

namespace Code

variable {ν : String → Nat} {e : Expr} {m : Machine}

/-- Code is evaluated as its meaning says. -/
theorem tracks (h : Code ν Γ e) (m : Machine) : Tracks Γ Value.Shows (m.evaluate e) e.meaning := by
  induction h with
  | number hn =>
    refine .ret ⟨_, rfl, ?_, rfl⟩
    rw [Number.isExact, Bool.and_eq_true] at hn
    exact hn.1
  | zero => exact .ret (Value.shows_ofBits 0)
  | read _ _ hΓ => exact .load hΓ
  | negate _ ih =>
    rw [Machine.evaluate, if_neg (by decide), Expr.meaning]
    exact ih.bind fun v x hv => .run (hv.onValue (.inl rfl)) (Value.shows_ofBits _)
  | complement _ ih =>
    rw [Machine.evaluate, if_neg (by decide), Expr.meaning]
    exact ih.bind fun v x hv => .run (hv.onValue (.inr rfl)) (Value.shows_ofBits _)
  | convert _ ih =>
    rw [Machine.evaluate, Machine.converted, Expr.meaning, ← bind_pure (Expr.meaning _)]
    exact ih.bind fun v x hv => .run (fun s => by rw [hv.convertTo]; rfl) (Value.shows_ofBits x)
  | count hop ht _ hΓ =>
    rw [Machine.evaluate, if_pos hop, Machine.evaluate, Expr.meaning, Expr.meaning]
    refine (Tracks.load hΓ).bind fun v x hv => ?_
    rw [Expr.unaryMeaning, if_pos hop]
    refine .run_bind hv.stepped ?_
    rw [Machine.store]
    refine (Tracks.store ht hΓ (Value.shows_ofBits _)).bind fun _ _ _ => .ret ?_
    split
    · exact hv
    · exact Value.shows_ofBits _
  | binary hop _ _ ihl ihr =>
    rw [Machine.evaluate, Machine.binary_of_modular hop, Expr.meaning]
    refine ihl.bind fun v x hv => ihr.bind fun w y hw => ?_
    exact .run (hv.onValues hop hw) (Value.shows_ofBits _)
  | assign ht _ hΓ _ ih =>
    rw [Machine.evaluate, Expr.meaning]
    refine ih.bind fun v x hv => ?_
    rw [Machine.store]
    exact (Tracks.store ht hΓ hv).bind fun _ _ _ => .ret hv

/-- Calling a function with code as its body. -/
theorem invoke {params : List Variable} {body : Expr} (h : Code ν (idsOf params) body)
    (hparams : ∀ v ∈ params, v.type = .int) {vs : List Value} {xs : List (BitVec 32)}
    (hvs : List.Forall₂ Value.Shows vs xs) (hlen : vs.length = params.length) (s : Store) :
    ∃ s', Lambda.invoke m ⟨params, body, .int⟩ vs s =
      .ok (.ofBits (body.meaning.value (Env.bind (idsOf params) xs fun _ => 0))) s' := by
  have hlen' : xs.length = (idsOf params).length := by rw [← hvs.length_eq, hlen, List.length_map]
  obtain ⟨v, s', hv, hshows, -⟩ :=
    h.tracks m { frame := (s.newFrame {}).2.frames.size } _ _ (Sees.enter hlen' _)
  have hcall : Lambda.invoke m ⟨params, body, .int⟩ vs s =
      Machine.conclude .int (m.evaluate body { frame := (s.newFrame {}).2.frames.size }
        ((s.newFrame {}).2.newFrame ⟨slotsOf (idsOf params) xs, some s.frames.size⟩).2) := by
    show m.call ⟨⟨params, body, .int⟩, s.frames.size⟩ vs (s.newFrame {}).2 = _
    rw [Machine.call, if_neg (not_not.2 hlen), slotsOf_parameters hparams hvs]
    rfl
  refine ⟨s', ?_⟩
  rw [hcall, hv, Machine.conclude, if_neg (by decide), hshows.convertTo]

/-- What the call of a program made of code comes to. -/
theorem outcome_invoke {params : List Variable} {body : Expr}
    (h : Code ν (idsOf params) body) (hparams : ∀ v ∈ params, v.type = .int)
    (args : List (BitVec 32)) (s : Store) :
    Run.outcome (Lambda.invoke m ⟨params, body, .int⟩ (args.map .ofBits)) s =
      if args.length = params.length then
        .ok (.ofBits (body.meaning.value (Env.bind (idsOf params) args fun _ => 0)))
      else .error (.error (.fault (.lambdaArity params.length args.length))) := by
  split
  case isTrue hlen =>
    have hvs : List.Forall₂ Value.Shows (args.map .ofBits) args := by
      rw [List.forall₂_map_left_iff]
      exact List.forall₂_same.2 fun x _ => Value.shows_ofBits x
    obtain ⟨s', hs'⟩ := h.invoke hparams hvs (by simpa using hlen) s
    rw [Run.outcome, hs']
  case isFalse hlen =>
    have hcall : Lambda.invoke m ⟨params, body, .int⟩ (args.map .ofBits) s =
        m.call ⟨⟨params, body, .int⟩, s.frames.size⟩ (args.map .ofBits) (s.newFrame {}).2 := rfl
    rw [Run.outcome, hcall, Machine.call, if_pos (by simpa using hlen), List.length_map]
    rfl

end Code

end Scriptlet

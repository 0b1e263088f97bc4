import Scriptlet.Proofs.Number.Integral
import Scriptlet.Proofs.Reading.Phrase

/-!
# Programs that are one operator expression

A program whose body is a phrase is read as the function with that body
(`Options.gives_program`): the phrase is neither a label nor a compound statement, the
source ends behind it, and a body needs no conversion to its own type
(`Directory.coerce_type`).
-/

namespace Scriptlet

/-! ## A value where its own type is wanted -/

theorem Number.lossless?_integral (k : IntKind) (bits : BitVec k.width) :
    (Number.integral k bits).lossless? (.integral k) = some (.integral k bits) := by
  rw [Number.lossless?, Number.convert_self]
  simp [Number.survives, Number.toInt?]

/-- A value of a type needs no conversion to it. -/
theorem Directory.coerce_type (d : Directory) (e : Expr) (offset : Nat) :
    d.coerce e e.type offset = .ok e := by
  have hself : (d.distance? e.type e.type).isSome = true := by simp [Directory.distance?]
  have hcoerce : e.coerce e.type = e := if_pos (.inl rfl)
  have hnone (h : e.constantAs? e.type = none) : d.coerce e e.type offset = .ok e := by
    rw [Directory.coerce, h]
    dsimp only
    rw [if_pos (.inr hself), hcoerce]
    rfl
  cases hn : e.number? with
  | none => exact hnone (by simp [Expr.constantAs?, hn])
  | some n =>
    obtain rfl : e = .number n := by
      unfold Expr.number? at hn
      split at hn
      · cases hn
        rfl
      · cases hn
    cases n with
    | integral k bits =>
      have hsome : (Expr.number (.integral k bits)).constantAs?
          (Expr.number (.integral k bits)).type = some (.number (.integral k bits)) := by
        change Option.map _ ((Number.integral k bits).lossless? (.integral k)) = _
        rw [Number.lossless?_integral]
        exact congrArg some hcoerce
      rw [Directory.coerce, hsome]
      rfl
    | float x | double x | decimal x => exact hnone rfl

/-! ## Statements -/

namespace Phrase

open Reading Grammar

variable {su : Surroundings} {s : Scopes} {p : Phrase} {n : Nat} {c c' : Cursor}
  {text : List Char} {t : Token}

/-- The ways in which an expression can begin. -/
inductive Begins (values : String → Bool) : Lexeme → Prop
  | word {w : String} (hw : NamesValue values w) : Begins values (.word w)
  | number (n : Number) (text : List Char) : Begins values ⟨.number n, text⟩
  | symbol {w : String} (hw : w ∈ ["(", "-", "+", "!", "~"]) : Begins values (.symbol w)

theorem begins {values : String → Bool} {types : String → Option Ty} (h : p.Bound values types) :
    ∃ l ls, p.lexemes = l :: ls ∧ Begins values l := by
  induction p with
  | word w => exact ⟨_, _, rfl, .word h⟩
  | number n text => exact ⟨_, _, rfl, .number n text⟩
  | group p _ | cast first rest p _ => exact ⟨_, _, rfl, .symbol (by simp)⟩
  | unary op p _ =>
    refine ⟨_, _, rfl, .symbol ?_⟩
    have hop := h.1
    cases op <;> first | decide | cases hop
  | binary op l r ih _ | conditional q a b ih _ _ =>
    obtain ⟨x, xs, hx, hb⟩ := ih h.1
    exact ⟨x, _, by rw [lexemes, hx]; rfl, hb⟩

theorem Begins.not_semicolon {values : String → Bool} {l : Lexeme} (h : Begins values l)
    (start : Nat) : (l.token start).is ";" = false := by
  cases h with
  | word hw => exact Lexeme.is_word_of_not_keyword _ _ (by decide)
  | number n text => rfl
  | symbol hw =>
    simp only [List.mem_cons, List.not_mem_nil, or_false] at hw
    rcases hw with rfl | rfl | rfl | rfl | rfl <;> rfl

theorem Begins.not_compound {values : String → Bool} {l : Lexeme} (h : Begins values l)
    (g : Grammar) (start : Nat) : g.compound? (l.token start) = none := by
  cases h with
  | @word w hw =>
    cases hk : isKeyword w with
    | false => simp [compound?, Lexeme.word, hk, TokenKind.isSymbol, TokenKind.isKeyword]
    | true =>
      have hmem := hw.2 hk
      simp only [List.mem_cons, List.not_mem_nil, or_false] at hmem
      rcases hmem with rfl | rfl | rfl <;> rfl
  | number n text => rfl
  | symbol hw =>
    simp only [List.mem_cons, List.not_mem_nil, or_false] at hw
    rcases hw with rfl | rfl | rfl | rfl | rfl <;> rfl

theorem word_ne_symbol {w o : String} : Lexeme.word w ≠ .symbol o := by
  unfold Lexeme.word Lexeme.symbol
  cases isKeyword w <;> simp

/-- Behind a word at the beginning stands an operator, or nothing. -/
def OperatorSecond (ls : List Lexeme) : Prop :=
  ∀ w ms, ls = .word w :: ms → ms = [] ∨ ∃ o ms', ms = .symbol o :: ms' ∧ o ≠ ":"

theorem OperatorSecond.append {q : Phrase} {o : String} {ms : List Lexeme}
    (h : OperatorSecond q.lexemes) (ho : o ≠ ":") :
    OperatorSecond (q.lexemes ++ .symbol o :: ms) := by
  intro w ls hls
  obtain ⟨x, xs, hx⟩ := List.exists_cons_of_length_pos q.lexemes_length_pos
  rw [hx] at hls
  obtain ⟨rfl, rfl⟩ := List.cons.inj hls
  rcases h w xs hx with rfl | ⟨o', ms', rfl, ho'⟩
  · exact .inr ⟨o, ms, rfl, ho⟩
  · exact .inr ⟨o', _, rfl, ho'⟩

theorem operatorSecond (p : Phrase) : OperatorSecond p.lexemes := by
  have hsymbol (o : String) (ls : List Lexeme) : OperatorSecond (.symbol o :: ls) :=
    fun w ms h => absurd (List.cons.inj h).1.symm word_ne_symbol
  induction p with
  | word v =>
    intro w ms h
    exact .inl (List.cons.inj h).2.symm
  | number n text =>
    intro w ms h
    have hkind := congrArg Lexeme.kind (List.cons.inj h).1
    unfold Lexeme.word at hkind
    cases hk : isKeyword w <;> simp [hk] at hkind
  | group p _ | cast first rest p _ | unary op p _ => exact hsymbol _ _
  | binary op l r ihl _ => exact ihl.append (by cases op <;> decide)
  | conditional q a b ihq _ _ => exact ihq.append (by decide)

/-- An expression does not start with a label. -/
theorem labelName_declines
    (h : p.Bound (valueNames su.directory s) fun name => su.directory.instantiate? name [])
    (hr : c.Reads p.lexemes c') (hp : c'.peek = .ok t) (ht : t.is ":" = false) :
    labelName ⟨c, s⟩ = .ok none ⟨c, s⟩ := by
  obtain ⟨l, ls, hl, hb⟩ := begins h
  rw [hl] at hr
  obtain ⟨start, hp₀⟩ := hr.peek
  obtain ⟨_, c₁, hread, hr₁⟩ := hr
  rw [labelName, bind_ok (peek_ok hp₀)]
  cases hid : (l.token start).kind.isIdentifier with
  | false => rfl
  | true =>
    cases hb with
    | number n text => cases hid
    | symbol hw => cases hid
    | word hw =>
      rw [if_pos rfl]
      refine attempt_none (d := c₁) ?_
      have hcolon : accept ":" ⟨c₁, s⟩ = .ok false ⟨c₁, s⟩ := by
        rcases p.operatorSecond _ _ hl with rfl | ⟨o, ms, rfl, ho⟩
        · cases hr₁
          exact accept_false hp ht
        · obtain ⟨start₁, hp₁⟩ := hr₁.peek
          exact accept_false hp₁ (by simpa using ho)
      rw [bind_ok (token_ok hread), bind_ok hcolon]
      rfl

/-- At the end of the source. -/
theorem endsAt_eof (p : Phrase) (ht : t.isEof = true) : p.EndsAt t := by
  obtain ⟨kind, lexeme, start⟩ := t
  cases kind with
  | eof => exact ⟨rfl, fun f hf => by cases hf⟩
  | _ => cases ht

/-- A phrase up to the end of the source is a statement. -/
theorem gives_statement
    (h : p.Bound (valueNames su.directory s) fun name => su.directory.instantiate? name [])
    (hc : c.StandsAt text) (hr : c.Reads p.lexemes c') (hp : c'.peek = .ok t)
    (ht : t.isEof = true) (hn : p.lexemes.length ≤ n) :
    Gives (su.grammar (n + 1)).statement ⟨c, s⟩ (p.value su s) ⟨c', s⟩ := by
  obtain ⟨l, ls, hl, hb⟩ := begins h
  obtain ⟨start, hp₀⟩ := (hl ▸ hr : c.Reads (l :: ls) c').peek
  have hstart : (su.grammar (n + 1)).statement ⟨c, s⟩ =
      (su.grammar n).expressionStatement ⟨c, s⟩ := by
    change (su.grammar n).anyStatement ⟨c, s⟩ = _
    rw [anyStatement, bind_ok (peek_ok hp₀), hb.not_semicolon start, if_neg (by simp),
      bind_ok (labelName_declines h hr hp (Token.is_of_isEof ht ":"))]
    dsimp only
    rw [hb.not_compound]
  refine Gives.of_eq hstart ?_
  have hend := p.endsAt_eof ht
  have hnone (f : Follow) : Follow.ofToken? t ≠ some f := by
    obtain ⟨kind, lexeme, start⟩ := t
    cases kind with
    | eof => nofun
    | _ => cases ht
  have hoperand := IsRead.gives (isRead h) hc hr hp hend p.above_zero not_closing hn
    (.inr fun f hf => absurd hf (hnone f))
  have hexpr := hoperand.map (f := Prod.fst)
  rw [Option.map_map, show Prod.fst ∘ (fun e => (e, [].any fun w => t.is w)) = (id : Expr → Expr)
    from rfl, Option.map_id] at hexpr
  rw [← Option.bind_fun_some (p.value su s)]
  refine Gives.bind hexpr fun e _ => ?_
  refine Gives.of_eq (bind_ok (accept_false hp (Token.is_of_isEof ht ";"))) ?_
  have hstop : atStatementEnd ⟨c', s⟩ = .ok true ⟨c', s⟩ := by
    rw [atStatementEnd, bind_ok (peek_ok hp), ht]
    rfl
  exact bind_ok hstop

/-- A phrase up to the end of the source is all there is to read. -/
theorem gives_statementsToEnd
    (h : p.Bound (valueNames su.directory s) fun name => su.directory.instantiate? name [])
    (hc : c.StandsAt text) (hr : c.Reads p.lexemes c') (hp : c'.peek = .ok t)
    (ht : t.isEof = true) (hn : p.lexemes.length ≤ n) :
    Gives (su.grammar (n + 1)).statementsToEnd ⟨c, s⟩ (p.value su s) ⟨c', s⟩ := by
  obtain ⟨l, ls, hl, hb⟩ := begins h
  obtain ⟨start, hp₀⟩ := (hl ▸ hr : c.Reads (l :: ls) c').peek
  have hl_eof : (l.token start).isEof = false := p.isEof_lexemes l (by rw [hl]; exact .head _)
  have hitem : Gives (do if ← atEnd then pure none else some <$> (su.grammar (n + 1)).statement)
      ⟨c, s⟩ ((p.value su s).map some) ⟨c', s⟩ := by
    refine Gives.of_eq (bind_ok (atEnd_ok hp₀)) ?_
    rw [hl_eof, if_neg (by simp)]
    exact (gives_statement h hc hr hp ht hn).map
  have hend : (do if ← atEnd then pure none else some <$> (su.grammar (n + 1)).statement :
      Reading (Option Expr)) ⟨c', s⟩ = .ok none ⟨c', s⟩ := by
    rw [bind_ok (atEnd_ok hp), ht]
    rfl
  have hleft : 0 < c.remaining.length := by
    obtain ⟨text', -, hle⟩ := hc.reads hr p.isEof_lexemes
    have := p.lexemes_length_pos
    rw [hc.remaining]
    omega
  rw [← Option.bind_fun_some (p.value su s)]
  exact (hitem.gather_one hend hleft).bind_map fun e _ => rfl

end Phrase

/-! ## Scopes -/

namespace Scope

theorem mem_insert {v w : Variable} {ws : List Variable} (h : w ∈ insert v ws) : w = v ∨ w ∈ ws := by
  induction ws with
  | nil => exact .inl (List.mem_singleton.mp h)
  | cons u ws ih =>
    unfold insert at h
    split at h
    · rcases List.mem_cons.mp h with h | h
      · exact .inl h
      · exact .inr (.tail _ h)
    · rcases List.mem_cons.mp h with h | h
      · exact .inr (h ▸ .head _)
      · exact (ih h).imp id (.tail _)

/-- The variables in the scope of a lambda are its parameters. -/
theorem mem_locals_ofLambda {params : List Variable} {label : Label} {ret : Option Ty}
    {w : Variable} (h : w ∈ (ofLambda params label ret).locals) : w ∈ params := by
  have hfold (vs : List Variable) (h : w ∈ params.foldl (fun vs v => insert v vs) vs) :
      w ∈ params ∨ w ∈ vs := by
    clear * - h
    induction params generalizing vs with
    | nil => exact .inr h
    | cons v params ih =>
      rcases ih _ h with h | h
      · exact .inl (.tail _ h)
      · rcases mem_insert h with rfl | h
        · exact .inl (.head _)
        · exact .inr h
  exact (hfold [] h).resolve_right (by simp)

theorem find?_insert (v : Variable) (vs : List Variable) (w : String) :
    (insert v vs).find? (·.name == w) =
      if v.name == w then some v else vs.find? (·.name == w) := by
  induction vs with
  | nil => simp [insert, List.find?_cons]; split <;> simp_all
  | cons u us ih =>
    unfold insert
    split
    · rename_i heq
      rw [List.find?_cons, List.find?_cons, heq]
      cases v.name == w <;> rfl
    · rename_i hne
      rw [List.find?_cons, List.find?_cons, ih]
      cases hu : u.name == w with
      | false => rfl
      | true =>
        have : (v.name == w) = false := by
          rw [beq_eq_false_iff_ne]
          rintro rfl
          exact hne (eq_of_beq hu)
        simp [this]

/-- Of the parameters with one name, the last one can be used. -/
theorem find?_foldl_insert (params vs : List Variable) (w : String) :
    (params.foldl (fun vs v => insert v vs) vs).find? (·.name == w) =
      (params.reverse.find? (·.name == w)).or (vs.find? (·.name == w)) := by
  induction params generalizing vs with
  | nil => rfl
  | cons v params ih =>
    rw [List.foldl_cons, ih, find?_insert, List.reverse_cons, List.find?_append, Option.or_assoc]
    congr 1
    cases h : v.name == w <;> simp [h]

end Scope

/-- A body in which nothing is declared and from which nothing returns is the body of the
    function as it is. -/
theorem Grammar.finish_expression (g : Grammar) (params : List Variable) (e : Expr) (label : Label)
    (offset : Nat) :
    g.finish params e (.ofLambda params label none) none offset = .ok ⟨params, e, e.type⟩ := by
  have hlocals : (Scope.ofLambda params label none).locals.filter
      (fun v => params.all fun p => p.id != v.id) = [] := by
    rw [List.filter_eq_nil_iff]
    intro v hv hall
    have := List.all_eq_true.mp hall v (Scope.mem_locals_ofLambda hv)
    simp at this
  have hcoerce := g.directory.coerce_type e offset
  simp only [Grammar.finish, hlocals]
  change (g.directory.coerce e e.type offset >>= fun body =>
    (pure ⟨params, body.scoped [], e.type⟩ : Except Error Lambda)) = _
  rw [hcoerce]
  rfl

/-- The scopes in the body of a function with these parameters. -/
def Scopes.inBody (s : Scopes) (params : List Variable) : Scopes :=
  { s with
    entered := .ofLambda params ⟨s.next, "return"⟩ none :: s.entered
    next := s.next + 1 }

open Reading in
/-- The body of a function is read within the scope of its parameters. -/
theorem Grammar.gives_withinLambda {g : Grammar} {params : List Variable} {body : Reading Expr}
    {x : Option Expr} {c c' : Cursor} {s : Scopes} {offset : Nat}
    (h : Gives body ⟨c, s.inBody params⟩ x ⟨c', s.inBody params⟩) :
    Gives (g.withinLambda params none offset body) ⟨c, s⟩
      (x.map fun e => ⟨params, e, e.type⟩) ⟨c', { s with next := s.next + 1 }⟩ := by
  unfold Grammar.withinLambda
  refine Gives.of_eq (bind_ok (rfl : (get : Reading Position) ⟨c, s⟩ = .ok ⟨c, s⟩ ⟨c, s⟩)) ?_
  refine Gives.of_eq (bind_ok (rfl : freshLabel "return" ⟨c, s⟩ =
    .ok ⟨s.next, "return"⟩ ⟨c, { s with next := s.next + 1 }⟩)) ?_
  refine Gives.of_eq (bind_ok (rfl : (modify _ : Reading Unit) _ =
    .ok () ⟨c, s.inBody params⟩)) ?_
  cases x with
  | none =>
    obtain ⟨err, q, he⟩ := h
    refine ⟨err, { q with scopes := q.scopes.unwind s.depth }, ?_⟩
    have houtcome : outcome body ⟨c, s.inBody params⟩ = .ok (.error err) q := by
      rw [outcome, he]
    rw [bind_ok houtcome]
    rfl
  | some e =>
    have houtcome : outcome body ⟨c, s.inBody params⟩ = .ok (.ok e) ⟨c', s.inBody params⟩ := by
      rw [outcome, (h : body _ = _)]
    refine (bind_ok houtcome).trans ?_
    change (ofExcept (g.finish params e (.ofLambda params ⟨s.next, "return"⟩ none) none offset) :
      Reading Lambda) _ = _
    rw [Grammar.finish_expression]
    rfl

namespace Options

open Reading Grammar Phrase

variable {o : Options} {d : Directory} {params : List Variable} {p : Phrase} {n k : Nat}
  {c c₁ c' : Cursor} {s : Scopes} {text : List Char} {t : Token}

/-- The scopes in the body of a program. -/
def bodyScopes (params : List Variable) (next : Nat) : Scopes :=
  Scopes.inBody { parameters := params, next } params

theorem lookup?_bodyScopes (params : List Variable) (k : Nat) (w : String) :
    (bodyScopes params k).lookup? w = params.reverse.find? (·.name == w) := by
  have hlambda : (Scope.ofLambda params ⟨k, "return"⟩ none).declared? w =
      params.reverse.find? (·.name == w) := by
    refine (Scope.find?_foldl_insert params [] w).trans ?_
    simp
  unfold Scopes.lookup?
  simp only [bodyScopes, Scopes.inBody, List.findSome?_cons, List.findSome?_nil, hlambda]
  cases h : params.reverse.find? (·.name == w) with
  | some v => rfl
  | none =>
    rw [List.find?_eq_none] at h
    exact List.find?_eq_none.mpr fun v hv => h v (List.mem_reverse.mpr hv)

/-- A program with a phrase for its body, behind its parameters if they are written. -/
theorem gives_program (hret : o.returnType = none) (hreceiver : o.defaultReceiver = none)
    (hstatic : o.staticType = none)
    (hparams : o.programParameters d ⟨c, s⟩ = .ok params ⟨c₁, { next := k }⟩)
    (h : p.Bound (valueNames d (bodyScopes params k)) fun name => d.instantiate? name [])
    (hc : c₁.StandsAt text) (hr : c₁.Reads p.lexemes c') (hp : c'.peek = .ok t)
    (ht : t.isEof = true) (hn : p.lexemes.length ≤ n) :
    Gives (o.program d (n + 1)) ⟨c, s⟩
      ((p.value { directory := d } (bodyScopes params k)).map fun e => ⟨params, e, e.type⟩)
      ⟨c', { parameters := params, next := k + 1 }⟩ := by
  have hsurroundings (q : Position) :
      o.surroundings d params q = .ok { directory := d } q := by
    unfold surroundings
    rw [hreceiver, hstatic]
    rfl
  have hreturn (q : Position) : o.returnType.mapM (namedType d) q = .ok none q := by
    rw [hret]
    rfl
  have hprogram : o.program d (n + 1) ⟨c, s⟩ =
      (Surroundings.grammar { directory := d } (n + 1)).withinLambda params none 0
        (Surroundings.grammar { directory := d } (n + 1)).statementsToEnd
        ⟨c₁, { parameters := params, next := k }⟩ := by
    rw [program, bind_ok hparams]
    refine (bind_ok (a := ()) (q := ⟨c₁, { parameters := params, next := k }⟩) (by rfl)).trans ?_
    rw [bind_ok (hsurroundings _), bind_ok (hreturn _)]
  refine Gives.of_eq hprogram ?_
  have hbody : Gives (Surroundings.grammar { directory := d } (n + 1)).statementsToEnd
      ⟨c₁, bodyScopes params k⟩ (p.value { directory := d } (bodyScopes params k))
      ⟨c', bodyScopes params k⟩ := gives_statementsToEnd h hc hr hp ht hn
  exact gives_withinLambda hbody

theorem ok_of_toOption {ε α : Type} {x : Except ε α} {a : α} (h : x.toOption = some a) :
    x = .ok a := by
  cases x with
  | error => cases h
  | ok => exact congrArg _ (Option.some.inj h)

/-- A text with a phrase for the body of its program is read as what the phrase means. -/
theorem parse_phrase {source : String} {first : Nat} (hret : o.returnType = none)
    (hreceiver : o.defaultReceiver = none) (hstatic : o.staticType = none)
    (hparams : o.programParameters d ⟨.ofSource source.toList 0, { next := first }⟩ =
      .ok params ⟨c₁, { next := k }⟩)
    (h : p.Bound (valueNames d (bodyScopes params k)) fun name => d.instantiate? name [])
    (hc : c₁.StandsAt text) (htext : text.length ≤ source.toList.length)
    (hr : c₁.Reads p.lexemes c') (hp : c'.peek = .ok t) (ht : t.isEof = true) :
    (parse d o first source).toOption =
      (p.value { directory := d } (bodyScopes params k)).map
        fun e => (⟨params, e, e.type⟩, k + 1) := by
  obtain ⟨rest, -, hlength⟩ := hc.reads hr p.isEof_lexemes
  have hprogram := gives_program (n := 2 * source.toList.length + 1) hret hreceiver hstatic
    hparams h hc hr hp ht (by omega)
  unfold parse
  dsimp only
  cases hvalue : p.value { directory := d } (bodyScopes params k) with
  | some e =>
    rw [hvalue] at hprogram
    rw [(hprogram : program _ _ _ _ = _)]
    rfl
  | none =>
    rw [hvalue] at hprogram
    obtain ⟨err, q, he⟩ := hprogram
    rw [he]
    rfl

end Options

end Scriptlet

import Scriptlet.Proofs.Reading.Brackets
import Scriptlet.Reading.Program

/-!
# Reading operator expressions

A `Phrase` is an expression as it is written with operators: values, groups in brackets,
casts, operators in front of an operand or between two, and conditionals. It stands for a
list of lexemes (`Phrase.lexemes`), and it means the expression that its operators build
(`Phrase.meaning`), if they can be applied.

How operators bind is said by two properties. A phrase is `Above` a floor if all operators
that are taken into it one after another, on its left edge, have a level above the floor.
It `GivesWay` to a level if no operand on its right edge takes up an operator of that level
behind it. A phrase is `Bound` if each of its operators finds its operands so.

The reading of an operand gives what a bound phrase means, and stops behind the phrase
(`Phrase.isRead`).
-/

namespace Scriptlet

/-- Whether the operator stands in front of its operand and does not change it. -/
def UnaryOp.isSign : UnaryOp → Bool
  | negate | plus | not | complement => true
  | _ => false

/-- An operator in front of an operand. The negative of a constant is a constant. -/
def Expr.signed? (op : UnaryOp) (e : Expr) : Option Expr :=
  match op, e.number? with
  | .negate, some n => some (.number n.negate)
  | op, _ => (e.applyUnary op 0).toOption

/-- An expression as it is written with operators. -/
inductive Phrase
  /-- The word for a value. -/
  | word (w : String)
  | number (n : Number) (text : List Char)
  | group (inner : Phrase)
  /-- A cast to the type with a name, which is a word and further words behind points. -/
  | cast (first : String) (rest : List String) (operand : Phrase)
  | unary (op : UnaryOp) (operand : Phrase)
  | binary (op : BinaryOp) (left right : Phrase)
  | conditional (test ifTrue ifFalse : Phrase)

namespace Phrase

open Reading

/-- The lexemes of a phrase. -/
def lexemes : Phrase → List Lexeme
  | word w => [.word w]
  | number n text => [⟨.number n, text⟩]
  | group p => .symbol "(" :: (p.lexemes ++ [Lexeme.symbol ")"])
  | cast first rest p => .symbol "(" :: (Grammar.castLexemes first rest ++ p.lexemes)
  | unary op p => .symbol op.symbol :: p.lexemes
  | binary op l r => l.lexemes ++ .symbol op.symbol :: r.lexemes
  | conditional t a b => t.lexemes ++ .symbol "?" :: (a.lexemes ++ .symbol ":" :: b.lexemes)

/-- The expression that a phrase means, where words name values and types. -/
def meaning (values : String → Option Expr) (types : String → Option Ty) : Phrase → Option Expr
  | word w => values w
  | number n _ => some (.number n)
  | group p => p.meaning values types
  | cast first rest p => do
    let e ← p.meaning values types
    let t ← types (dotted first rest)
    (e.cast t 0).toOption
  | unary op p => do (← p.meaning values types).signed? op
  | binary op l r => do
    let l ← l.meaning values types
    let r ← r.meaning values types
    (Expr.applyBinary op l r 0).toOption
  | conditional t a b => do
    let t ← t.meaning values types
    let a ← a.meaning values types
    let b ← b.meaning values types
    (Expr.choose t a b 0).toOption

/-! ## How operators bind -/

/-- Every operator on the left edge has a level above the floor. -/
def Above (floor : Nat) : Phrase → Prop
  | binary op l _ => floor < op.level ∧ l.Above floor
  | conditional t _ _ => floor < Follow.conditional.level ∧ t.Above floor
  | _ => True

/-- No operand on the right edge takes up an operator of the level behind the phrase. -/
def GivesWay (level : Nat) : Phrase → Prop
  | cast _ _ p | unary _ p => level ≤ UnaryOp.level ∧ p.GivesWay level
  | binary op _ r => level ≤ (Follow.binary op).floor ∧ r.GivesWay level
  | conditional _ _ b => level ≤ Follow.conditional.floor ∧ b.GivesWay level
  | _ => True

/-- Every operator of the phrase has the operands it is written with, every word names a
    value and every cast a type. -/
def Bound (values : String → Bool) (types : String → Option Ty) : Phrase → Prop
  | word w => NamesValue values w
  | number _ _ => True
  | group p => p.Bound values types
  | cast first rest p =>
    values first = false ∧ (types (dotted first rest)).isSome ∧ p.Bound values types ∧
      p.Above UnaryOp.level
  | unary op p => op.isSign = true ∧ p.Bound values types ∧ p.Above UnaryOp.level
  | binary op l r =>
    l.Bound values types ∧ r.Bound values types ∧ l.GivesWay op.level ∧
      r.Above (Follow.binary op).floor
  | conditional t a b =>
    t.Bound values types ∧ a.Bound values types ∧ b.Bound values types ∧
      t.GivesWay Follow.conditional.level ∧ b.Above Follow.conditional.floor

theorem above_zero (p : Phrase) : p.Above 0 := by
  induction p with
  | binary op l r ih _ => exact ⟨by cases op <;> decide, ih⟩
  | conditional t a b ih _ _ => exact ⟨by decide, ih⟩
  | _ => trivial

variable {values : String → Bool} {types : String → Option Ty} {p : Phrase}

theorem opening (h : p.Bound values types) : Opening values p.lexemes := by
  induction p with
  | word w => exact .alone h
  | number n text | group p _ | cast first rest p _ => exact .other (fun _ => rfl) (fun _ => rfl)
  | unary op p _ =>
    refine .other (fun _ => rfl) fun _ => ?_
    have hop := h.1
    cases op <;> first | rfl | cases hop
  | binary op l r ihl ihr =>
    refine (ihl h.1).append ?_ (ihr h.2.1) ?_
    · cases op <;> decide
    · cases op <;> simp [BinaryOp.symbol]
  | conditional t a b iht iha ihb =>
    refine (iht h.1).append (by decide) ?_ ?_
    · exact (iha h.2.1).append (by decide) (ihb h.2.2.1) (by simp)
    · intro _ v hv
      obtain ⟨l, ms, hl, -⟩ := (iha h.2.1).head
      rw [hl] at hv
      cases ms <;> cases hv

/-- No lexeme of a phrase is the end of the source. -/
theorem isEof_lexemes (p : Phrase) : ∀ l ∈ p.lexemes, l.kind.isEof = false := by
  have hsymbol (w : String) : (Lexeme.symbol w).kind.isEof = false := rfl
  induction p with
  | word w => simpa [lexemes] using Lexeme.isEof_word w
  | number n text => simp [lexemes, TokenKind.isEof]
  | group p ih => simpa [lexemes, hsymbol, or_imp, forall_and] using ih
  | cast first rest p ih =>
    simpa [lexemes, hsymbol, or_imp, forall_and] using
      ⟨Grammar.isEof_castLexemes first rest, ih⟩
  | unary op p ih => simpa [lexemes, hsymbol] using ih
  | binary op l r ihl ihr =>
    simpa [lexemes, hsymbol, or_imp, forall_and] using ⟨ihl, ihr⟩
  | conditional t a b iht iha ihb =>
    simpa [lexemes, hsymbol, or_imp, forall_and] using ⟨iht, iha, ihb⟩

theorem lexemes_length_pos (p : Phrase) : 0 < p.lexemes.length := by
  cases p <;> simp [lexemes] <;> omega

end Phrase

/-! ## Offsets are for errors only -/

namespace Expr

theorem toOption_cast (e : Expr) (t : Ty) (offset : Nat) :
    (e.cast t offset).toOption = (e.cast t 0).toOption := by
  unfold Expr.cast
  split <;> rfl

theorem toOption_choose (test a b : Expr) (offset : Nat) :
    (choose test a b offset).toOption = (choose test a b 0).toOption := by
  unfold choose
  split
  · rfl
  · split <;> rfl

theorem toOption_applyUnary (op : UnaryOp) (e : Expr) (offset : Nat) :
    (applyUnary op e offset).toOption = (applyUnary op e 0).toOption := by
  unfold applyUnary
  dsimp only
  split <;> first | rfl | (split <;> rfl)

theorem toOption_applyBinary (op : BinaryOp) (l r : Expr) (offset : Nat) :
    (applyBinary op l r offset).toOption = (applyBinary op l r 0).toOption := by
  unfold applyBinary
  dsimp only
  split <;> first | rfl | (split <;> first | rfl | (split <;> rfl))

end Expr

/-! ## Rounds -/

namespace Reading

/-- The value that a word names. -/
def valueNamed (d : Directory) (s : Scopes) (w : String) : Option Expr :=
  match s.lookup? w with
  | some v => some (.parameter v)
  | none => (d.catalog.constant? w).map .constant

end Reading

namespace Grammar

open Reading

variable (g : Grammar)

/-- One round in reading what follows an operand. -/
def followRound (floor : Nat) (closing : List String) (left : Expr) :
    Reading (Round Expr (Expr × Bool)) := do
  let next ← peek
  if closing.any (next.is ·) then pure (.done (left, true))
  else
    match Follow.ofToken? next with
    | none => pure (.done (left, false))
    | some f =>
      if f.level ≤ floor then pure (.done (left, false))
      else
        let _ ← token
        pure (.again (← g.follow f left next.start))

theorem followAll_eq (floor : Nat) (closing : List String) (left : Expr) :
    g.followAll floor closing left = iterate (g.followRound floor closing) left := rfl

section Rounds

variable {g} {floor : Nat} {closing : List String} {s : Scopes} {c c₁ c' : Cursor} {t : Token}
  {x : Option Expr}

/-- What follows an operand at a token: nothing that is read above the floor. -/
theorem followRound_done {left : Expr} (hp : c.peek = .ok t)
    (hstop : closing.any (t.is ·) = true ∨ ∀ f, Follow.ofToken? t = some f → f.level ≤ floor) :
    g.followRound floor closing left ⟨c, s⟩ =
      .ok (.done (left, closing.any (t.is ·))) ⟨c, s⟩ := by
  rw [followRound, bind_ok (peek_ok hp)]
  cases hclose : closing.any (t.is ·) with
  | true => rfl
  | false =>
    have hlevel := hstop.resolve_left (by simp [hclose])
    rw [if_neg (by simp)]
    cases hf : Follow.ofToken? t with
    | none => rfl
    | some f =>
      dsimp only
      rw [if_pos (hlevel f hf)]
      rfl

/-- What follows an operand at a token: an operator above the floor. -/
theorem gives_followRound {left : Expr} {f : Follow} {d : Cursor}
    (hread : c.read true = (.ok t, d)) (hclose : closing.any (t.is ·) = false)
    (hf : Follow.ofToken? t = some f) (hlevel : floor < f.level)
    (hrest : Gives (g.follow f left t.start) ⟨d, s⟩ x ⟨c', s⟩) :
    Gives (g.followRound floor closing left) ⟨c, s⟩ (x.map .again) ⟨c', s⟩ := by
  have hp : c.peek = .ok t := by rw [Cursor.peek, hread]
  have hround : g.followRound floor closing left ⟨c, s⟩ =
      (do pure (.again (← g.follow f left t.start)) : Reading (Round Expr (Expr × Bool)))
        ⟨d, s⟩ := by
    rw [followRound, bind_ok (peek_ok hp), hclose, if_neg (by simp), hf]
    dsimp only
    rw [if_neg (Nat.not_le.mpr hlevel), bind_ok (token_ok hread)]
  refine Gives.of_eq hround ?_
  rw [Option.map_eq_bind]
  exact hrest.bind fun e _ => rfl

variable (g floor closing s c x c') in
/-- An operand has been read up to a cursor, and further rounds decide what follows it; or it
    cannot be read. There are rounds enough for the characters that are left. -/
def Arrives : Prop :=
  ∃ n, c'.remaining.length < n ∧
    match x with
    | some e =>
      g.anyOperand floor closing ⟨c, s⟩ = iterateWithin (g.followRound floor closing) n e ⟨c', s⟩
    | none => ∃ err q, g.anyOperand floor closing ⟨c, s⟩ = .error err q

theorem Arrives.ofStart {d : Cursor} (hread : c.read true = (.ok t, d))
    (h : Gives (g.start t) ⟨d, s⟩ x ⟨c', s⟩) : Arrives g floor closing s c c' x := by
  refine ⟨c'.remaining.length + 1, Nat.lt_succ_self _, ?_⟩
  cases x with
  | none =>
    obtain ⟨err, q, he⟩ := h
    exact ⟨err, q, by rw [anyOperand, bind_ok (token_ok hread), bind_error he]⟩
  | some e =>
    rw [anyOperand, bind_ok (token_ok hread), bind_ok h, followAll_eq, iterate_eq]

/-- One more round takes up an operator. -/
theorem Arrives.round {f : Expr → Option Expr} (h : Arrives g floor closing s c c₁ x)
    (hround : ∀ e, x = some e →
      Gives (g.followRound floor closing e) ⟨c₁, s⟩ ((f e).map .again) ⟨c', s⟩)
    (hlt : c'.remaining.length < c₁.remaining.length) :
    Arrives g floor closing s c c' (x.bind f) := by
  obtain ⟨n, hn, h⟩ := h
  obtain ⟨n, rfl⟩ : ∃ m, n = m + 1 := ⟨n - 1, by omega⟩
  refine ⟨n, by omega, ?_⟩
  cases x with
  | none => exact h
  | some e =>
    have hround := hround e rfl
    change match f e with | some _ => _ | none => _
    cases hfe : f e with
    | none =>
      rw [hfe] at hround
      obtain ⟨err, q, he⟩ := hround
      exact ⟨err, q, h.trans (iterateWithin_error n he)⟩
    | some e' =>
      rw [hfe] at hround
      exact h.trans (iterateWithin_again n hround)

/-- At a token that is not taken up, the operand is complete. -/
theorem Arrives.gives (h : Arrives g floor closing s c c' x) (hp : c'.peek = .ok t)
    (hstop : closing.any (t.is ·) = true ∨ ∀ f, Follow.ofToken? t = some f → f.level ≤ floor) :
    Gives (g.anyOperand floor closing) ⟨c, s⟩ (x.map fun e => (e, closing.any (t.is ·)))
      ⟨c', s⟩ := by
  obtain ⟨n, hn, h⟩ := h
  obtain ⟨n, rfl⟩ : ∃ m, n = m + 1 := ⟨n - 1, by omega⟩
  cases x with
  | none => exact h
  | some e => exact h.trans (iterateWithin_done n (followRound_done hp hstop))

end Rounds

end Grammar

/-! ## Operands -/

namespace Phrase

open Reading Grammar

/-- A token does not belong to a phrase in front of it. -/
def EndsAt (p : Phrase) (t : Token) : Prop :=
  t.is "=>" = false ∧ ∀ f, Follow.ofToken? t = some f → p.GivesWay f.level

theorem ofToken?_binary (op : BinaryOp) (start : Nat) :
    Follow.ofToken? ((Lexeme.symbol op.symbol).token start) = some (.binary op) := by
  cases op <;> rfl

theorem ofToken?_mark (start : Nat) :
    Follow.ofToken? ((Lexeme.symbol "?").token start) = some .conditional := rfl

theorem ofToken?_close (start : Nat) :
    Follow.ofToken? ((Lexeme.symbol ")").token start) = none := rfl

theorem ofToken?_colon (start : Nat) :
    Follow.ofToken? ((Lexeme.symbol ":").token start) = none := rfl

section Operands

variable {su : Surroundings} {s : Scopes} {n floor : Nat} {closing : List String}
  {c c₁ c' : Cursor} {text : List Char} {t : Token} {start : Nat} {p : Phrase}

theorem directory_grammar (su : Surroundings) (n : Nat) :
    (su.grammar n).directory = su.directory := by
  cases n <;> rfl

theorem not_closing : ∀ w ∈ ([] : List String), w ∈ [")", ":"] := by simp

variable (su s) in
/-- The expression that a phrase means at a place in a program. -/
def value (p : Phrase) : Option Expr :=
  p.meaning (valueNamed su.directory s) fun name => su.directory.instantiate? name []

variable (su s) in
/-- Wherever a phrase stands in a program and is not continued, it is read as an operand
    above any floor that its operators are above. -/
def IsRead (p : Phrase) : Prop :=
  ∀ {n floor : Nat} {closing : List String} {c c' : Cursor} {text : List Char} {t : Token},
    c.StandsAt text → c.Reads p.lexemes c' → c'.peek = .ok t → p.EndsAt t → p.Above floor →
    (∀ w ∈ closing, w ∈ [")", ":"]) → p.lexemes.length ≤ n + 1 →
    Arrives (su.grammar n) floor closing s c c' (p.value su s)

/-- The operand that a phrase is, on the next level of the grammar. -/
theorem IsRead.gives (h : p.IsRead su s) (hc : c.StandsAt text)
    (hr : c.Reads p.lexemes c') (hp : c'.peek = .ok t) (ht : p.EndsAt t) (hfloor : p.Above floor)
    (hclosing : ∀ w ∈ closing, w ∈ [")", ":"]) (hn : p.lexemes.length ≤ n)
    (hstop : closing.any (t.is ·) = true ∨ ∀ f, Follow.ofToken? t = some f → f.level ≤ floor) :
    Gives ((su.grammar n).operand floor closing) ⟨c, s⟩
      ((p.value su s).map fun e => (e, closing.any (t.is ·))) ⟨c', s⟩ := by
  have hpos := p.lexemes_length_pos
  obtain ⟨n, rfl⟩ : ∃ m, n = m + 1 := ⟨n - 1, by omega⟩
  exact (h hc hr hp ht hfloor hclosing hn).gives hp hstop

/-- The operand of an operator in front of it. -/
theorem IsRead.givesUnary (h : p.IsRead su s) (hc : c.StandsAt text)
    (hr : c.Reads p.lexemes c') (hp : c'.peek = .ok t) (hend : t.is "=>" = false)
    (ht : ∀ f, Follow.ofToken? t = some f → f.level ≤ UnaryOp.level ∧ p.GivesWay f.level)
    (hfloor : p.Above UnaryOp.level) (hn : p.lexemes.length ≤ n) :
    Gives (su.grammar n).unaryOperand ⟨c, s⟩ (p.value su s) ⟨c', s⟩ := by
  have hop := (h.gives hc hr hp ⟨hend, fun f hf => (ht f hf).2⟩ hfloor not_closing hn
    (.inr fun f hf => (ht f hf).1)).map (f := Prod.fst)
  rwa [Option.map_map, show Prod.fst ∘ (fun e => (e, [].any fun w => t.is w)) = (id : Expr → Expr)
    from rfl, Option.map_id] at hop

theorem gives_name {g : Grammar} {w : String} (hw : valueNames g.directory s w = true)
    (ht : t.word = w) : Gives (g.name t) ⟨c, s⟩ (valueNamed g.directory s w) ⟨c, s⟩ := by
  subst ht
  refine Gives.of_eq (bind_ok (a := s.lookup? t.word) (q := ⟨c, s⟩) (by rfl)) ?_
  unfold valueNames at hw
  unfold valueNamed
  cases hv : s.lookup? t.word with
  | some v => rfl
  | none =>
    cases hk : g.directory.catalog.constant? t.word with
    | some k => rfl
    | none => simp [hv, hk] at hw

theorem gives_word {g : Grammar} {w : String} (hw : NamesValue (valueNames g.directory s) w) :
    Gives (g.start ((Lexeme.word w).token start)) ⟨c, s⟩ (valueNamed g.directory s w) ⟨c, s⟩ := by
  have hname := gives_name (c := c) hw.1 (Lexeme.token_word_word w start)
  cases hk : isKeyword w with
  | false =>
    have hstart : g.start ((Lexeme.word w).token start) =
        g.name ((Lexeme.word w).token start) := by
      simp [Grammar.start, Lexeme.word, hk]
    rwa [hstart]
  | true =>
    have hmem := hw.2 hk
    simp only [List.mem_cons, List.not_mem_nil, or_false] at hmem
    rcases hmem with rfl | rfl | rfl <;> exact hname

/-- A group in brackets is what stands in it. -/
theorem gives_group (h : p.IsRead su s)
    (hb : Opening (valueNames su.directory s) p.lexemes) (hc : c.StandsAt text)
    (hr : c.Reads (p.lexemes ++ [Lexeme.symbol ")"]) c') (hp : c'.peek = .ok t)
    (ht : t.is "=>" = false) (hn : p.lexemes.length ≤ n) :
    Gives ((su.grammar n).bracketRest start) ⟨c, s⟩ (p.value su s) ⟨c', s⟩ := by
  obtain ⟨c₁, hr₁, hr₂⟩ := Cursor.reads_append.mp hr
  obtain ⟨start₁, c₂, hclose, rfl⟩ := hr₂
  have hp₁ : c₁.peek = .ok ((Lexeme.symbol ")").token start₁) := by rw [Cursor.peek, hclose]
  have hhead : headRest (su.grammar n).directory ⟨c, s⟩ = .ok none ⟨c, s⟩ := by
    rw [directory_grammar]
    exact headRest_declines hr hb hp ht
  have hcast : (su.grammar n).castTarget ⟨c, s⟩ = .ok none ⟨c, s⟩ :=
    castTarget_declines hr₁ (by rwa [directory_grammar])
  have hbracket : (su.grammar n).bracketRest start ⟨c, s⟩ = (su.grammar n).enclosed ")" ⟨c, s⟩ := by
    rw [bracketRest, bind_ok hhead]
    exact bind_ok hcast
  have hclosing : ∀ w ∈ [")"], w ∈ [")", ":"] := by simp
  have hinner := h.gives hc hr₁ hp₁ ⟨by simp, fun f hf => by rw [ofToken?_close] at hf; cases hf⟩
    p.above_zero hclosing hn (.inl (by simp))
  refine Gives.of_eq hbracket ?_
  rw [← Option.bind_fun_some (p.value su s)]
  refine hinner.bind_map fun e _ => ?_
  simp only [List.any_cons, Lexeme.token_is_symbol, beq_self_eq_true, Bool.true_or, if_true]
  exact bind_ok (token_ok hclose)

/-- A cast of the operand behind it. -/
theorem gives_cast {first : String} {rest : List String} {type : Ty}
    (h : p.IsRead su s) (hb : Opening (valueNames su.directory s) p.lexemes)
    (hfirst : valueNames su.directory s first = false)
    (htype : su.directory.instantiate? (dotted first rest) [] = some type)
    (hc : c.StandsAt text) (hr : c.Reads (castLexemes first rest ++ p.lexemes) c')
    (hp : c'.peek = .ok t) (ht : (cast first rest p).EndsAt t) (hfloor : p.Above UnaryOp.level)
    (hn : p.lexemes.length ≤ n) :
    Gives ((su.grammar n).bracketRest start) ⟨c, s⟩ ((cast first rest p).value su s) ⟨c', s⟩ := by
  obtain ⟨c₁, hr₁, hr₂⟩ := Cursor.reads_append.mp hr
  obtain ⟨l, ms, hl, hstarts⟩ := hb.startsOperand
  obtain ⟨start₁, hp₁⟩ := (hl ▸ hr₂ : c₁.Reads (l :: ms) c').peek
  have hdirectory : (su.grammar n).directory = su.directory := directory_grammar ..
  have hhead : headRest (su.grammar n).directory ⟨c, s⟩ = .ok none ⟨c, s⟩ :=
    headRest_named hc hr₁ hp₁ ((hstarts start₁).2 "=>" (by simp)) (hdirectory ▸ htype)
  have hcast : (su.grammar n).castTarget ⟨c, s⟩ = .ok (some type) ⟨c₁, s⟩ :=
    castTarget_named hc hr₁ hp₁ (hstarts start₁).1 (hdirectory ▸ hfirst) (hdirectory ▸ htype)
  obtain ⟨text₁, hc₁, -⟩ := hc.reads hr₁ (isEof_castLexemes first rest)
  have hbracket : (su.grammar n).bracketRest start ⟨c, s⟩ =
      (do ofExcept (Expr.cast (← (su.grammar n).unaryOperand) type start) : Reading Expr)
        ⟨c₁, s⟩ := by
    rw [bracketRest, bind_ok hhead]
    exact bind_ok hcast
  refine Gives.of_eq hbracket ?_
  have hvalue : (cast first rest p).value su s =
      (p.value su s).bind fun e => (e.cast type 0).toOption := by
    simp only [value, meaning, htype]
    rfl
  rw [hvalue]
  refine (h.givesUnary hc₁ hr₂ hp ht.1 ht.2 hfloor hn).bind fun e _ => ?_
  rw [← Expr.toOption_cast e type start]
  exact Gives.ofExcept

/-- An operator in front of its operand. -/
theorem gives_unary {op : UnaryOp} (h : p.IsRead su s) (hop : op.isSign = true)
    (hc : c.StandsAt text) (hr : c.Reads p.lexemes c') (hp : c'.peek = .ok t)
    (ht : (unary op p).EndsAt t) (hfloor : p.Above UnaryOp.level) (hn : p.lexemes.length ≤ n) :
    Gives ((su.grammar n).start ((Lexeme.symbol op.symbol).token start)) ⟨c, s⟩
      ((unary op p).value su s) ⟨c', s⟩ := by
  have hinner := h.givesUnary hc hr hp ht.1 ht.2 hfloor hn
  have hsign {op : UnaryOp} (hop : op ≠ .negate) :
      Gives ((su.grammar n).unaryRest op start) ⟨c, s⟩ ((unary op p).value su s) ⟨c', s⟩ := by
    refine hinner.bind fun e _ => ?_
    have hsigned : e.signed? op = (e.applyUnary op start).toOption := by
      rw [Expr.toOption_applyUnary, Expr.signed?]
      simp [hop]
    rw [hsigned]
    exact Gives.ofExcept
  cases op with
  | negate =>
    refine hinner.bind fun e _ => ?_
    unfold Expr.signed?
    cases hnum : e.number? with
    | some m => rfl
    | none =>
      change Gives (ofExcept (e.applyUnary .negate start)) _ (e.applyUnary .negate 0).toOption _
      rw [← Expr.toOption_applyUnary .negate e start]
      exact Gives.ofExcept
  | plus | not | complement => exact hsign (by decide)
  | _ => cases hop

theorem closing_any {o : String} (ho : o ∉ [")", ":"]) (hclosing : ∀ w ∈ closing, w ∈ [")", ":"]) :
    closing.any (((Lexeme.symbol o).token start).is ·) = false := by
  rw [List.any_eq_false]
  intro w hw
  rw [Lexeme.token_is_symbol, beq_iff_eq]
  rintro rfl
  exact ho (hclosing _ hw)

/-- An operator between its operands. -/
theorem arrives_binary {l r : Phrase} {op : BinaryOp} (hl : l.IsRead su s) (hr : r.IsRead su s)
    (hpass : l.GivesWay op.level) (habove : r.Above (Follow.binary op).floor) :
    (binary op l r).IsRead su s := by
  intro n floor closing c c' text t hc hreads hp ht hfloor hclosing hn
  have hlen : (binary op l r).lexemes.length = l.lexemes.length + (r.lexemes.length + 1) := by
    simp [lexemes]
  have hlpos := l.lexemes_length_pos
  obtain ⟨c₁, hreads₁, start₁, c₂, hread, hreads₂⟩ := Cursor.reads_append.mp hreads
  obtain ⟨text₁, hc₁, -⟩ := hc.reads hreads₁ l.isEof_lexemes
  obtain ⟨text₂, hc₂, -, hlt₂⟩ := hc₁.read hread
  obtain ⟨text', hc', hle'⟩ := hc₂.reads hreads₂ r.isEof_lexemes
  have hp₁ : c₁.peek = .ok ((Lexeme.symbol op.symbol).token start₁) := by rw [Cursor.peek, hread]
  have hend₁ : l.EndsAt ((Lexeme.symbol op.symbol).token start₁) := by
    refine ⟨by cases op <;> rfl, fun f hf => ?_⟩
    rw [ofToken?_binary] at hf
    cases hf
    exact hpass
  have hleft := hl hc hreads₁ hp₁ hend₁ hfloor.2 hclosing (by omega : l.lexemes.length ≤ n + 1)
  refine hleft.round (fun e _ => ?_) ?_
  · refine gives_followRound hread (closing_any (by cases op <;> decide) hclosing)
      (ofToken?_binary op start₁) hfloor.1 ?_
    have hright := hr.gives hc₂ hreads₂ hp ⟨ht.1, fun f hf => (ht.2 f hf).2⟩ habove not_closing
      (by omega : r.lexemes.length ≤ n) (.inr fun f hf => (ht.2 f hf).1)
    refine hright.bind_map fun e' _ => ?_
    have happly := Expr.toOption_applyBinary op e e' ((Lexeme.symbol op.symbol).token start₁).start
    exact happly ▸ Gives.ofExcept
  · have := hlt₂ rfl
    rw [hc'.remaining, hc₁.remaining]
    omega

/-- A conditional. -/
theorem arrives_conditional {q a b : Phrase} (hq : q.IsRead su s) (ha : a.IsRead su s)
    (hb : b.IsRead su s) (hpass : q.GivesWay Follow.conditional.level)
    (habove : b.Above Follow.conditional.floor) : (conditional q a b).IsRead su s := by
  intro n floor closing c c' text t hc hreads hp ht hfloor hclosing hn
  have hlen : (conditional q a b).lexemes.length =
      q.lexemes.length + (a.lexemes.length + (b.lexemes.length + 1) + 1) := by
    simp [lexemes]
  have hqpos := q.lexemes_length_pos
  obtain ⟨c₁, hreads₁, start₁, c₂, hread, hreads₂⟩ := Cursor.reads_append.mp hreads
  obtain ⟨c₃, hreads₃, start₃, c₄, hread₃, hreads₄⟩ := Cursor.reads_append.mp hreads₂
  obtain ⟨text₁, hc₁, -⟩ := hc.reads hreads₁ q.isEof_lexemes
  obtain ⟨text₂, hc₂, -, hlt₂⟩ := hc₁.read hread
  obtain ⟨text₃, hc₃, hle₃⟩ := hc₂.reads hreads₃ a.isEof_lexemes
  obtain ⟨text₄, hc₄, hle₄, -⟩ := hc₃.read hread₃
  obtain ⟨text', hc', hle'⟩ := hc₄.reads hreads₄ b.isEof_lexemes
  have hp₁ : c₁.peek = .ok ((Lexeme.symbol "?").token start₁) := by rw [Cursor.peek, hread]
  have hp₃ : c₃.peek = .ok ((Lexeme.symbol ":").token start₃) := by rw [Cursor.peek, hread₃]
  have hend₁ : q.EndsAt ((Lexeme.symbol "?").token start₁) := by
    refine ⟨by simp, fun f hf => ?_⟩
    rw [ofToken?_mark] at hf
    cases hf
    exact hpass
  have hend₃ : a.EndsAt ((Lexeme.symbol ":").token start₃) :=
    ⟨by simp, fun f hf => by rw [ofToken?_colon] at hf; cases hf⟩
  have htest := hq hc hreads₁ hp₁ hend₁ hfloor.2 hclosing (by omega : q.lexemes.length ≤ n + 1)
  refine htest.round (fun e _ => ?_) ?_
  · refine gives_followRound hread (closing_any (by decide) hclosing) (ofToken?_mark start₁)
      hfloor.1 ?_
    have hcolon : ∀ w ∈ [":"], w ∈ [")", ":"] := by simp
    have htrue := ha.gives hc₂ hreads₃ hp₃ hend₃ a.above_zero hcolon
      (by omega : a.lexemes.length ≤ n) (.inl (by simp))
    have hfalse := hb.gives hc₄ hreads₄ hp ⟨ht.1, fun f hf => (ht.2 f hf).2⟩ habove not_closing
      (by omega : b.lexemes.length ≤ n) (.inr fun f hf => (ht.2 f hf).1)
    refine htrue.bind_map fun x _ => ?_
    simp only [List.any_cons, Lexeme.token_is_symbol, beq_self_eq_true, Bool.true_or, if_true]
    refine Gives.of_eq (bind_ok (expect_ok hread₃ (by simp))) ?_
    refine hfalse.bind_map fun y _ => ?_
    have hchoose := Expr.toOption_choose e x y ((Lexeme.symbol "?").token start₁).start
    exact hchoose ▸ Gives.ofExcept
  · have := hlt₂ rfl
    rw [hc'.remaining, hc₁.remaining]
    omega

/-- Every phrase whose operators have the operands it is written with is read so. -/
theorem isRead
    (h : p.Bound (valueNames su.directory s) fun name => su.directory.instantiate? name []) :
    p.IsRead su s := by
  induction p with
  | word w =>
    rintro n floor closing c c' text t hc ⟨start, c₁, hread, rfl⟩ hp ht hfloor hclosing hn
    have hw : Gives ((su.grammar n).start ((Lexeme.word w).token start)) ⟨c₁, s⟩
        (valueNamed (su.grammar n).directory s w) ⟨c₁, s⟩ :=
      gives_word (by rwa [directory_grammar])
    rw [directory_grammar] at hw
    exact .ofStart hread hw
  | number m digits =>
    rintro n floor closing c c' text t hc ⟨start, _, hread, rfl⟩ hp ht hfloor hclosing hn
    exact .ofStart hread rfl
  | group p ih =>
    rintro n floor closing c c' text t hc ⟨start, c₁, hread, hreads⟩ hp ht hfloor hclosing hn
    obtain ⟨text₁, hc₁, -, -⟩ := hc.read hread
    simp only [lexemes, List.length_cons, List.length_append, List.length_nil] at hn
    exact .ofStart hread (gives_group (p := p) (ih h) (opening (p := p) h) hc₁ hreads hp ht.1 (by omega))
  | cast first rest p ih =>
    rintro n floor closing c c' text t hc ⟨start, c₁, hread, hreads⟩ hp ht hfloor hclosing hn
    obtain ⟨text₁, hc₁, -, -⟩ := hc.read hread
    obtain ⟨hfirst, htype, hp', habove⟩ := h
    obtain ⟨type, htype⟩ := Option.isSome_iff_exists.mp htype
    simp only [lexemes, List.length_cons, List.length_append] at hn
    exact .ofStart hread
      (gives_cast (ih hp') (opening hp') hfirst htype hc₁ hreads hp ht habove (by omega))
  | unary op p ih =>
    rintro n floor closing c c' text t hc ⟨start, c₁, hread, hreads⟩ hp ht hfloor hclosing hn
    obtain ⟨text₁, hc₁, -, -⟩ := hc.read hread
    obtain ⟨hop, hp', habove⟩ := h
    simp only [lexemes, List.length_cons] at hn
    exact .ofStart hread (gives_unary (ih hp') hop hc₁ hreads hp ht habove (by omega))
  | binary op l r ihl ihr =>
    exact arrives_binary (ihl h.1) (ihr h.2.1) h.2.2.1 h.2.2.2
  | conditional q a b ihq iha ihb =>
    exact arrives_conditional (ihq h.1) (iha h.2.1) (ihb h.2.2.1) h.2.2.2.1 h.2.2.2.2

end Operands

end Phrase

end Scriptlet

import Scriptlet.Proofs.Reading.Balance
import Scriptlet.Reading.Operand

/-!
# What an opening bracket leads to

A bracket opens the head of a lambda, a cast or a group, and which of them is found out by
trying: a head is tried first, then a cast. This module says how these trials end in front
of an expression that is made of values and operators.

The beginning of such an expression is an `Opening`. In front of one, no type is read
(`Reading.typeWithin_declines`), so type arguments are none (`typeArguments_declines`) and
a question mark is that of a conditional (`missingMark_declines`). Hence a bracket in front
of it does not open a head (`headRest_declines`) or a cast (`castTarget_declines`). A cast
is read where a type is named (`castTarget_named`).
-/

namespace Scriptlet

/-! ## Words -/

/-- A word, reserved or not. -/
def Lexeme.word (w : String) : Lexeme :=
  ⟨if isKeyword w then .keyword else .identifier, w.toList⟩

namespace Lexeme

variable (w : String) (start : Nat)

@[simp] theorem token_word_word : ((word w).token start).word = w := String.ofList_toList

@[simp] theorem isWord_word : ((word w).token start).isWord = true := by
  unfold Token.isWord word token
  cases isKeyword w <;> rfl

theorem isIdentifier_word (h : isKeyword w = false) :
    ((word w).token start).kind.isIdentifier = true := by
  simp [word, token, h, TokenKind.isIdentifier]

theorem isEof_word : (word w).kind.isEof = false := by
  unfold word
  cases isKeyword w <;> rfl

/-- A word is no other one. -/
theorem is_word_ne {v : String} (h : w ≠ v) : ((word w).token start).is v = false := by
  unfold Token.is word token
  cases isKeyword w <;> simp [TokenKind.isSymbol, TokenKind.isKeyword, String.toList_inj, h]

/-- A word that is not reserved is no symbol or reserved word. -/
theorem is_word_of_not_keyword {v : String} (h : isKeyword v = false) :
    ((word w).token start).is v = false := by
  by_cases hw : w = v
  · subst hw
    simp [word, token, Token.is, h, TokenKind.isSymbol, TokenKind.isKeyword]
  · exact is_word_ne w start hw

@[simp] theorem isIdentifier_symbol (v : String) :
    ((symbol v).token start).kind.isIdentifier = false := rfl

end Lexeme

/-! ## The beginning of an expression -/

/-- The symbols that stand between operands. -/
def joints : List String := BinaryOp.all.map BinaryOp.symbol ++ ["?", ":"]

/-- A word for a value: one that is not reserved, or that of a constant. -/
def NamesValue (names : String → Bool) (w : String) : Prop :=
  names w = true ∧ (isKeyword w = true → w ∈ ["true", "false", "null"])

/-- The beginning of an expression: something other than a word, or the word for a value
    with nothing behind it, or with an operator and the beginning of another expression. A
    question mark has more than a word behind it. -/
inductive Opening (names : String → Bool) : List Lexeme → Prop
  | other {l : Lexeme} {ls : List Lexeme} (hl : ∀ start, (l.token start).isWord = false)
      (hs : ∀ start, Grammar.startsOperand (l.token start) = true) : Opening names (l :: ls)
  | alone {w : String} (hw : NamesValue names w) : Opening names [Lexeme.word w]
  | joined {w o : String} {ls : List Lexeme} (hw : NamesValue names w) (ho : o ∈ joints)
      (hls : Opening names ls) (hmark : o = "?" → ∀ v, ls ≠ [Lexeme.word v]) :
      Opening names (Lexeme.word w :: Lexeme.symbol o :: ls)

namespace Opening

variable {names : String → Bool} {ls ms : List Lexeme}

/-- The first lexeme is no word, or one for a value. -/
theorem head (h : Opening names ls) :
    ∃ l ms, ls = l :: ms ∧ ((∀ start, (l.token start).isWord = false) ∨
      ∃ w, l = Lexeme.word w ∧ NamesValue names w) := by
  cases h with
  | other hl hs => exact ⟨_, _, rfl, .inl hl⟩
  | alone hw | joined hw _ _ _ => exact ⟨_, _, rfl, .inr ⟨_, rfl, hw⟩⟩

/-- Two beginnings with an operator between them make a beginning. -/
theorem append {o : String} (h : Opening names ls) (ho : o ∈ joints) (hms : Opening names ms)
    (hmark : o = "?" → ∀ v, ms ≠ [Lexeme.word v]) :
    Opening names (ls ++ Lexeme.symbol o :: ms) := by
  induction h with
  | other hl hs => exact .other hl hs
  | alone hw => exact .joined hw ho hms hmark
  | joined hw ho' hls' _ ih =>
    refine .joined hw ho' ih fun _ v hv => ?_
    -- the two parts and the operator between them are more than one lexeme
    obtain ⟨l, ls'', rfl, -⟩ := hls'.head
    have hlen := congrArg List.length hv
    simp at hlen

theorem startsOperand_word {w : String} (hw : NamesValue names w) (start : Nat) :
    Grammar.startsOperand ((Lexeme.word w).token start) = true := by
  by_cases hk : isKeyword w = true
  · have hmem := hw.2 hk
    simp only [List.mem_cons, List.not_mem_nil, or_false] at hmem
    rcases hmem with rfl | rfl | rfl <;> rfl
  · simp [Grammar.startsOperand, Lexeme.word, Lexeme.token, hk]

/-- What starts an operand and is no word, is neither a closing bracket nor an arrow. -/
theorem is_of_startsOperand {t : Token} (hs : Grammar.startsOperand t = true)
    (hw : t.isWord = false) : ∀ w ∈ [")", "=>"], t.is w = false := by
  obtain ⟨kind, lexeme, start⟩ := t
  intro w hmem
  cases kind with
  | symbol =>
    by_contra hc
    have hlex : lexeme = w.toList := by
      simpa [Token.is, TokenKind.isSymbol, TokenKind.isKeyword] using hc
    subst hlex
    simp only [List.mem_cons, List.not_mem_nil, or_false] at hmem
    rcases hmem with rfl | rfl <;> cases hs
  | keyword => cases hw
  | _ => rfl

/-- The first lexeme starts an operand, and does not close or open anything else. -/
theorem startsOperand (h : Opening names ls) :
    ∃ l ms, ls = l :: ms ∧ ∀ start, Grammar.startsOperand (l.token start) = true ∧
      ∀ w ∈ [")", "=>"], (l.token start).is w = false := by
  have hword {w : String} (hw : NamesValue names w) (start : Nat) :
      Grammar.startsOperand ((Lexeme.word w).token start) = true ∧
        ∀ v ∈ [")", "=>"], ((Lexeme.word w).token start).is v = false := by
    refine ⟨startsOperand_word hw start, fun v hv => Lexeme.is_word_of_not_keyword w start ?_⟩
    simp only [List.mem_cons, List.not_mem_nil, or_false] at hv
    rcases hv with rfl | rfl <;> decide
  cases h with
  | other hl hs =>
    exact ⟨_, _, rfl, fun start => ⟨hs start, is_of_startsOperand (hs start) (hl start)⟩⟩
  | alone hw | joined hw _ _ _ => exact ⟨_, _, rfl, hword hw⟩

end Opening

namespace Reading

variable {d : Directory} {s : Scopes} {c e : Cursor} {ls : List Lexeme} {t : Token} {o w : String}
  {names : String → Bool} {type : Ty} {rest : List String} {params : Params}

/-- The words that name values. -/
def valueNames (d : Directory) (s : Scopes) (w : String) : Bool :=
  (s.lookup? w).isSome || (d.catalog.constant? w).isSome

theorem namesValue_ok (w : String) :
    namesValue d w ⟨c, s⟩ = .ok (valueNames d s w) ⟨c, s⟩ := rfl

/-! ## No type is read -/

theorem typeWithin_declines (k : Nat) (hr : c.Reads ls e) (h : Opening (valueNames d s) ls) :
    typeWithin d k ⟨c, s⟩ = .ok none ⟨c, s⟩ := by
  cases k with
  | zero => rfl
  | succ k =>
    obtain ⟨l, ms, rfl, hl⟩ := h.head
    obtain ⟨start, hp⟩ := hr.peek
    rw [typeWithin, bind_ok (peek_ok hp)]
    rcases hl with hl | ⟨w, rfl, hw⟩
    · rw [hl start]
      rfl
    · rw [Lexeme.isWord_word, if_neg (by simp), Lexeme.token_word_word, bind_ok (namesValue_ok w),
        hw.1]
      rfl

/-- A comparison does not start type arguments. -/
theorem typeArguments_declines (k : Nat) (hr : c.Reads (Lexeme.symbol o :: ls) e)
    (h : Opening (valueNames d s) ls) :
    typeArguments (typeWithin d k) ⟨c, s⟩ = .ok none ⟨c, s⟩ := by
  obtain ⟨start, c₁, hread, hr₁⟩ := hr
  have hp : c.peek = .ok ((Lexeme.symbol o).token start) := by rw [Cursor.peek, hread]
  rw [typeArguments, bind_ok (peekIs_ok "<" hp)]
  split
  · refine attempt_none (d := c₁) ?_
    rw [bind_ok (token_ok hread)]
    refine iterate_done ?_
    rw [bind_ok (typeWithin_declines k hr₁ h)]
    rfl
  · rfl

/-- Where no `<` follows, there are no type arguments. -/
theorem typeArguments_absent (inner : Reading (Option Ty)) (hp : c.peek = .ok t)
    (ht : t.is "<" = false) : typeArguments inner ⟨c, s⟩ = .ok none ⟨c, s⟩ := by
  rw [typeArguments, bind_ok (peekIs_ok "<" hp), ht]
  rfl

theorem missingMark_absent (hp : c.peek = .ok t) (ht : t.is "?" = false) :
    missingMark ⟨c, s⟩ = .ok false ⟨c, s⟩ := by
  rw [missingMark, bind_ok (peekIs_ok "?" hp), ht]
  rfl

/-- What starts an operand does not end a type. -/
theorem closesType_startsOperand (h : Grammar.startsOperand t = true) : closesType t = false := by
  obtain ⟨kind, lexeme, start⟩ := t
  cases kind with
  | symbol =>
    have hmem : lexeme ∈ ["(", "!", "~", "-", "+", "++", "--"].map String.toList := by
      simpa [Grammar.startsOperand, Token.is, TokenKind.isSymbol, TokenKind.isKeyword] using h
    have hall : ∀ l ∈ ["(", "!", "~", "-", "+", "++", "--"].map String.toList,
        closesType ⟨.symbol, l, start⟩ = false := by
      simp [closesType, Token.isEof, TokenKind.isEof, Token.is, TokenKind.isSymbol]
    exact hall lexeme hmem
  | eof => cases h
  | _ => rfl

theorem joints_do_not_declare :
    ∀ o ∈ joints, ["=", ";", "in", ")", ","].any (fun w => o == w) = false := by
  decide

/-- Behind the question mark of a conditional no variable is declared. -/
theorem declaresNext_declines (hr : c.Reads ls e) (h : Opening names ls)
    (hmark : ∀ v, ls ≠ [Lexeme.word v]) : declaresNext ⟨c, s⟩ = .ok false ⟨c, s⟩ := by
  rw [declaresNext]
  cases h with
  | other hl hs =>
    obtain ⟨start, hp⟩ := hr.peek
    have hnot := (Bool.or_eq_false_iff.mp (hl start)).1
    rw [bind_ok (peek_ok hp), hnot]
    rfl
  | alone hw => exact absurd rfl (hmark _)
  | joined hw ho hls _ =>
    obtain ⟨start, hp⟩ := hr.peek
    obtain ⟨_, c₁, hread, hr₁⟩ := hr
    obtain ⟨start₁, hp₁⟩ := hr₁.peek
    rw [bind_ok (peek_ok hp)]
    split
    · have hahead := ahead_ok (s := s) (r := token >>= fun _ => peek)
        ((bind_ok (token_ok hread)).trans (peek_ok hp₁))
      rw [bind_ok hahead]
      simp only [Lexeme.token_is_symbol, joints_do_not_declare _ ho]
      rfl
    · rfl

/-- The question mark of a conditional is not that of a type. -/
theorem missingMark_declines (hr : c.Reads (Lexeme.symbol o :: ls) e) (h : Opening names ls)
    (hmark : o = "?" → ∀ v, ls ≠ [Lexeme.word v]) : missingMark ⟨c, s⟩ = .ok false ⟨c, s⟩ := by
  obtain ⟨start, c₁, hread, hr₁⟩ := hr
  have hp : c.peek = .ok ((Lexeme.symbol o).token start) := by rw [Cursor.peek, hread]
  by_cases ho : o = "?"
  · subst ho
    obtain ⟨l, ms, rfl, hl⟩ := h.startsOperand
    obtain ⟨start', hp'⟩ := hr₁.peek
    have hdeclines : attempt markTrial ⟨c, s⟩ = .ok none ⟨c, s⟩ := by
      refine attempt_none (d := c₁) ?_
      rw [markTrial, bind_ok (token_ok hread), bind_ok (peek_ok hp'),
        bind_ok (declaresNext_declines hr₁ h (hmark rfl)), closesType_startsOperand (hl start').1]
      rfl
    rw [missingMark, bind_ok (peekIs_ok "?" hp), Lexeme.token_is_symbol, if_pos (by rfl),
      bind_ok hdeclines]
    rfl
  · exact missingMark_absent hp (by simpa using ho)

theorem arrayBrackets_absent (hp : c.peek = .ok t) (ht : t.is "[" = false) :
    arrayBrackets ⟨c, s⟩ = .ok none ⟨c, s⟩ := by
  rw [arrayBrackets, bind_ok (peekIs_ok "[" hp), ht]
  rfl

/-- Where neither a mark nor a bracket follows, a type stands by itself. -/
theorem typeMarks_absent (hm : missingMark ⟨c, s⟩ = .ok false ⟨c, s⟩)
    (hp : c.peek = .ok t) (ht : t.is "[" = false) : typeMarks type ⟨c, s⟩ = .ok type ⟨c, s⟩ := by
  refine iterate_done ?_
  rw [bind_ok hm, if_neg (by simp), bind_ok (arrayBrackets_absent hp ht)]
  rfl

/-! ## Names of types -/

/-- The name that words with points between them make. -/
def dotted (first : String) (rest : List String) : String :=
  rest.foldl (fun name w => name ++ "." ++ w) first

theorem dotted_cons (first w : String) (rest : List String) :
    dotted first (w :: rest) = dotted (first ++ "." ++ w) rest := rfl

/-- The lexemes behind the first word of a name with points. -/
def dottedLexemes (rest : List String) : List Lexeme :=
  rest.flatMap fun w => [Lexeme.symbol ".", Lexeme.identifier w]

theorem isEof_dottedLexemes (rest : List String) :
    ∀ l ∈ dottedLexemes rest, l.kind.isEof = false := by
  intro l hl
  obtain ⟨w, -, hl⟩ := List.mem_flatMap.mp hl
  simp only [List.mem_cons, List.not_mem_nil, or_false] at hl
  rcases hl with rfl | rfl <;> rfl

/-- One round in reading the name of a type. -/
def nameRound (d : Directory) (inner : Reading (Option Ty)) (part : NamePart) :
    Reading (Round NamePart (Option (Ty × Place))) := do
  let named (args : List Ty) : Reading (Option (Ty × Place)) := do
    let behind ← here
    pure (((d.instantiate? part.name args).map fun t => (t, behind)).or part.best)
  match ← typeArguments inner with
  | some args => do pure (.done (← named args))
  | none =>
    let best ← named []
    match ← nextPart with
    | some t => pure (.again ⟨part.name ++ "." ++ t.word, best⟩)
    | none => pure (.done best)

theorem typeNameAfter_eq (inner : Reading (Option Ty)) (first : Token) :
    typeNameAfter d inner first = iterate (nameRound d inner) ⟨first.word, none⟩ := rfl

/-- The longest part of a name that names a type, when the name ends at a cursor. -/
def NamePart.longest (d : Directory) (part : NamePart) (c : Cursor) : Option (Ty × Place) :=
  ((d.instantiate? part.name []).map fun t => (t, c.place)).or part.best

section Names

variable {inner : Reading (Option Ty)} {part : NamePart}

/-- Where no point follows, a name has no further part. -/
theorem nameRound_done (ha : typeArguments inner ⟨c, s⟩ = .ok none ⟨c, s⟩) (hp : c.peek = .ok t)
    (ht : t.is "." = false) :
    nameRound d inner part ⟨c, s⟩ = .ok (.done (part.longest d c)) ⟨c, s⟩ := by
  have hnext : nextPart ⟨c, s⟩ = .ok none ⟨c, s⟩ := by
    refine attempt_none (d := c) ?_
    rw [bind_ok (accept_false hp ht)]
    rfl
  rw [nameRound, bind_ok ha]
  refine (bind_ok (a := part.longest d c) (q := ⟨c, s⟩) (by rfl)).trans ?_
  rw [bind_ok hnext]
  rfl

/-- A point and a word make a name longer. -/
theorem nameRound_again (hr : c.Reads [Lexeme.symbol ".", Lexeme.identifier w] e) :
    nameRound d inner part ⟨c, s⟩ =
      .ok (.again ⟨part.name ++ "." ++ w, part.longest d c⟩) ⟨e, s⟩ := by
  obtain ⟨start, hp⟩ := hr.peek
  obtain ⟨_, c₁, hread, start₁, c₂, hread₁, rfl⟩ := hr
  have ha : typeArguments inner ⟨c, s⟩ = .ok none ⟨c, s⟩ := typeArguments_absent inner hp (by simp)
  have hnext : nextPart ⟨c, s⟩ = .ok (some ((Lexeme.identifier w).token start₁)) ⟨c₂, s⟩ := by
    refine attempt_some ?_
    rw [bind_ok (accept_true hread (by simp)), if_pos rfl, bind_ok (token_ok hread₁)]
    rfl
  rw [nameRound, bind_ok ha]
  refine (bind_ok (a := part.longest d c) (q := ⟨c, s⟩) (by rfl)).trans ?_
  rw [bind_ok hnext]
  simp only [Lexeme.token_word_identifier]
  rfl

/-- A name with points is read to its end, if it names a type as a whole. -/
theorem iterateWithin_nameRound {n : Nat}
    (hr : c.Reads (dottedLexemes rest) e) (hp : e.peek = .ok t) (hlt : t.is "<" = false)
    (hdot : t.is "." = false) (htype : d.instantiate? (dotted part.name rest) [] = some type)
    (hn : rest.length < n) :
    iterateWithin (nameRound d inner) n part ⟨c, s⟩ = .ok (some (type, e.place)) ⟨e, s⟩ := by
  obtain ⟨n, rfl⟩ : ∃ m, n = m + 1 := ⟨n - 1, by omega⟩
  induction rest generalizing c part n with
  | nil =>
    cases hr
    rw [iterateWithin_done n (nameRound_done (typeArguments_absent inner hp hlt) hp hdot),
      NamePart.longest]
    change d.instantiate? part.name [] = _ at htype
    rw [htype]
    rfl
  | cons w rest ih =>
    obtain ⟨c₁, hr₁, hr₂⟩ := Cursor.reads_append.mp
      (hr : c.Reads ([Lexeme.symbol ".", Lexeme.identifier w] ++ dottedLexemes rest) e)
    obtain ⟨n, rfl⟩ : ∃ m, n = m + 1 := ⟨n - 1, by simp only [List.length_cons] at hn; omega⟩
    rw [iterateWithin_again _ (nameRound_again hr₁)]
    have htype' : d.instantiate? (dotted
        (NamePart.mk (part.name ++ "." ++ w) (part.longest d c)).name rest) [] = some type := by
      rw [← htype, dotted_cons]
    exact ih hr₂ htype' n (by simp only [List.length_cons] at hn; omega)

end Names

/-- A type is read where its name stands, up to something that does not belong to it. -/
theorem typeAfterWith_named {inner : Reading (Option Ty)}
    {first : Token} {text : List Char} (hc : c.StandsAt text)
    (hr : c.Reads (dottedLexemes rest) e) (hp : e.peek = .ok t)
    (ht : ∀ w ∈ ["<", ".", "?", "["], t.is w = false)
    (htype : d.instantiate? (dotted first.word rest) [] = some type) :
    typeAfterWith d inner first ⟨c, s⟩ = .ok (some type) ⟨e, s⟩ := by
  have hrounds : rest.length < c.remaining.length + 1 := by
    obtain ⟨text', -, hle⟩ := hc.reads hr (isEof_dottedLexemes rest)
    have hlen : rest.length ≤ (dottedLexemes rest).length := by
      simp [dottedLexemes]
      omega
    rw [hc.remaining]
    omega
  have hname : typeNameAfter d inner first ⟨c, s⟩ = .ok (some (type, e.place)) ⟨e, s⟩ := by
    have htype' : d.instantiate? (dotted (NamePart.mk first.word none).name rest) [] = some type :=
      htype
    rw [typeNameAfter_eq, iterate_eq]
    exact iterateWithin_nameRound hr hp (ht "<" (by simp)) (ht "." (by simp)) htype' hrounds
  have hmarks : typeMarks type ⟨e, s⟩ = .ok type ⟨e, s⟩ :=
    typeMarks_absent (missingMark_absent hp (ht "?" (by simp))) hp (ht "[" (by simp))
  rw [typeAfterWith, bind_ok (rfl : here ⟨c, s⟩ = .ok c.place ⟨c, s⟩), bind_ok hname]
  refine (bind_ok (a := ()) (q := ⟨e, s⟩) (by rfl)).trans ?_
  exact Gives.map (x := some type) hmarks

/-- In front of an operator, the name of a type has no further part. -/
theorem typeAfter?_stays (first : Token) (hr : c.Reads (Lexeme.symbol o :: ls) e)
    (ho : o ∈ joints) (h : Opening (valueNames d s) ls)
    (hmark : o = "?" → ∀ v, ls ≠ [Lexeme.word v]) :
    ∃ x, typeAfter? d first ⟨c, s⟩ = .ok x ⟨c, s⟩ := by
  obtain ⟨start, hp⟩ := hr.peek
  have hnot : ∀ o ∈ joints, (o == ".") = false ∧ (o == "[") = false := by decide
  obtain ⟨hdot, hbracket⟩ := hnot o ho
  have ht (w : String) (hw : (o == w) = false) : ((Lexeme.symbol o).token start).is w = false := by
    rwa [Lexeme.token_is_symbol]
  have hname (k : Nat) : nameRound d (typeWithin d k) ⟨first.word, none⟩ ⟨c, s⟩ =
      .ok (.done (NamePart.longest d ⟨first.word, none⟩ c)) ⟨c, s⟩ :=
    nameRound_done (typeArguments_declines k hr h) hp (ht _ hdot)
  rw [typeAfter?, bind_ok (rfl : typeDepth ⟨c, s⟩ = .ok (c.remaining.length + 1) ⟨c, s⟩)]
  rw [typeAfterWith, bind_ok (rfl : here ⟨c, s⟩ = .ok c.place ⟨c, s⟩), typeNameAfter_eq,
    bind_ok (iterate_done (hname _))]
  rcases hlong : NamePart.longest d ⟨first.word, none⟩ c with _ | ⟨type, behind⟩
  · exact ⟨none, rfl⟩
  · obtain rfl : behind = c.place := by
      unfold NamePart.longest at hlong
      rcases hi : d.instantiate? first.word [] with _ | type'
      · rw [hi] at hlong
        cases hlong
      · rw [hi] at hlong
        cases hlong
        rfl
    have hmarks : typeMarks type ⟨c, s⟩ = .ok type ⟨c, s⟩ :=
      typeMarks_absent (missingMark_declines hr h hmark) hp (ht _ hbracket)
    refine ⟨some type, (bind_ok (a := ()) (q := ⟨c, s⟩) (by rfl)).trans ?_⟩
    exact Gives.map (x := some type) hmarks

/-! ## Heads -/

/-- An expression does not start with a closing bracket. -/
theorem peek_not_close (hr : c.Reads ls e) (h : Opening names ls) :
    ∃ t, c.peek = .ok t ∧ t.is ")" = false := by
  obtain ⟨l, ms, rfl, hl⟩ := h.startsOperand
  obtain ⟨start, hp⟩ := hr.peek
  exact ⟨_, hp, (hl start).2 ")" (by simp)⟩

/-- A word in front of a closing bracket may be a parameter without a type. -/
theorem parameter_closed {c₁ : Cursor} {start : Nat}
    (hread : c.read true = (.ok ((Lexeme.word w).token start), c₁)) (hp : c₁.peek = .ok t)
    (ht : (t.is "," || t.is ")") = true) :
    parameter d ⟨c, s⟩ = .ok (if isKeyword w then none else some (none, w)) ⟨c₁, s⟩ := by
  rw [parameter, bind_ok (token_ok hread), Lexeme.isWord_word, if_neg (by simp),
    bind_ok (peek_ok hp), ht, if_pos rfl, Lexeme.token_word_word]
  unfold Lexeme.word Lexeme.token
  cases isKeyword w <;> rfl

/-- A word with neither a comma nor a bracket behind it may start the type of a parameter. -/
theorem parameter_typed {c₁ c₂ c₃ : Cursor} {u v : Token} {x : Option Ty}
    (hread : c.read true = (.ok t, c₁)) (hw : t.isWord = true) (hp : c₁.peek = .ok u)
    (hcomma : u.is "," = false) (hclose : u.is ")" = false)
    (hx : typeAfter? d t ⟨c₁, s⟩ = .ok x ⟨c₂, s⟩) (hname : c₂.read true = (.ok v, c₃)) :
    parameter d ⟨c, s⟩ =
      match x with
      | none => .ok none ⟨c₂, s⟩
      | some type =>
        .ok (if v.kind.isIdentifier then some (some type, v.word) else none) ⟨c₃, s⟩ := by
  rw [parameter, bind_ok (token_ok hread), hw, if_neg (by simp), bind_ok (peek_ok hp), hcomma,
    hclose, if_neg (by simp), bind_ok hx]
  cases x with
  | none => rfl
  | some type =>
    refine (bind_ok (token_ok hname)).trans ?_
    rfl

/-- An operand with an operator behind it is no parameter. -/
theorem parameter_declines (hr : c.Reads ls e) (h : Opening (valueNames d s) ls)
    (halone : ∀ w, ls ≠ [Lexeme.word w]) : ∃ c', parameter d ⟨c, s⟩ = .ok none ⟨c', s⟩ := by
  cases h with
  | other hl hs =>
    obtain ⟨start, c₁, hread, -⟩ := hr
    refine ⟨c₁, ?_⟩
    rw [parameter, bind_ok (token_ok hread), hl start]
    rfl
  | alone hw => exact absurd rfl (halone _)
  | joined hw ho hls hmark =>
    rename_i w o ms
    obtain ⟨start, c₁, hread, hr₁⟩ := hr
    obtain ⟨start₁, hp₁⟩ := hr₁.peek
    obtain ⟨x, hx⟩ := typeAfter?_stays ((Lexeme.word w).token start) hr₁ ho hls hmark
    have hnot : ∀ o ∈ joints, (o == ",") = false ∧ (o == ")") = false := by decide
    obtain ⟨hcomma, hclose⟩ := hnot o ho
    obtain ⟨_, c₂, hread₁, -⟩ := hr₁
    have hparam := parameter_typed hread (Lexeme.isWord_word w start) hp₁
      (by rwa [Lexeme.token_is_symbol]) (by rwa [Lexeme.token_is_symbol]) hx hread₁
    cases x with
    | none => exact ⟨c₁, hparam⟩
    | some type => exact ⟨c₂, hparam⟩

/-- The rounds in reading parameters. -/
def parametersRound (d : Directory) (params : Params) : Reading (Round Params (Option Params)) := do
  match ← parameter d with
  | none => pure (.done none)
  | some p =>
    if ← accept "," then pure (.again (params ++ [p]))
    else if ← accept ")" then pure (.done (some (params ++ [p])))
    else pure (.done none)

theorem parameters_eq (hp : c.peek = .ok t) (ht : t.is ")" = false) :
    parameters d ⟨c, s⟩ = iterate (parametersRound d) [] ⟨c, s⟩ := by
  rw [parameters, bind_ok (accept_false hp ht)]
  rfl

theorem parametersRound_none {c' : Cursor} (h : parameter d ⟨c, s⟩ = .ok none ⟨c', s⟩) :
    parametersRound d params ⟨c, s⟩ = .ok (.done none) ⟨c', s⟩ := by
  rw [parametersRound, bind_ok h]
  rfl

theorem parametersRound_close {p : Option Ty × String} {c₁ c₂ : Cursor}
    (h : parameter d ⟨c, s⟩ = .ok (some p) ⟨c₁, s⟩) (hr : c₁.Reads [Lexeme.symbol ")"] c₂) :
    parametersRound d params ⟨c, s⟩ = .ok (.done (some (params ++ [p]))) ⟨c₂, s⟩ := by
  obtain ⟨start, hp⟩ := hr.peek
  obtain ⟨_, _, hread, rfl⟩ := hr
  rw [parametersRound, bind_ok h]
  refine (bind_ok (accept_false hp (by simp))).trans ?_
  rw [if_neg (by simp), bind_ok (accept_true hread (by simp))]
  rfl

theorem parametersRound_comma {p : Option Ty × String} {c₁ c₂ : Cursor}
    (h : parameter d ⟨c, s⟩ = .ok (some p) ⟨c₁, s⟩) (hr : c₁.Reads [Lexeme.symbol ","] c₂) :
    parametersRound d params ⟨c, s⟩ = .ok (.again (params ++ [p])) ⟨c₂, s⟩ := by
  obtain ⟨_, _, hread, rfl⟩ := hr
  rw [parametersRound, bind_ok h]
  refine (bind_ok (accept_true hread (by simp))).trans ?_
  rfl

/-- Where the first parameter cannot be read, there is no head. -/
theorem headRest_none {c' : Cursor} (hp : c.peek = .ok t) (ht : t.is ")" = false)
    (h : parameter d ⟨c, s⟩ = .ok none ⟨c', s⟩) : headRest d ⟨c, s⟩ = .ok none ⟨c, s⟩ := by
  refine attempt_none (d := c') ?_
  rw [bind_ok ((parameters_eq hp ht).trans (iterate_done (parametersRound_none h)))]
  rfl

/-- A word in brackets is a head only if an arrow follows. -/
theorem headRest_word (hr : c.Reads [Lexeme.word w, Lexeme.symbol ")"] e)
    (hp : e.peek = .ok t) (ht : t.is "=>" = false) : headRest d ⟨c, s⟩ = .ok none ⟨c, s⟩ := by
  obtain ⟨start, hp₀⟩ := hr.peek
  obtain ⟨_, c₁, hread, hr₁⟩ := hr
  obtain ⟨start₁, hp₁⟩ := hr₁.peek
  have hparam := parameter_closed (d := d) (s := s) hread hp₁ (by simp)
  have hclose : ((Lexeme.word w).token start).is ")" = false :=
    Lexeme.is_word_of_not_keyword _ _ (by decide)
  cases hk : isKeyword w with
  | true =>
    rw [hk] at hparam
    exact headRest_none hp₀ hclose hparam
  | false =>
    rw [hk] at hparam
    refine attempt_none (d := e) ?_
    rw [bind_ok ((parameters_eq hp₀ hclose).trans
      (iterate_done (parametersRound_close hparam hr₁)))]
    refine (bind_ok (accept_false hp ht)).trans ?_
    rfl

/-- A bracket in front of an expression does not open the head of a lambda, unless an arrow
    follows the bracket that closes it. -/
theorem headRest_declines (hr : c.Reads (ls ++ [Lexeme.symbol ")"]) e)
    (h : Opening (valueNames d s) ls) (hp : e.peek = .ok t) (ht : t.is "=>" = false) :
    headRest d ⟨c, s⟩ = .ok none ⟨c, s⟩ := by
  by_cases halone : ∃ w, ls = [Lexeme.word w]
  · obtain ⟨w, rfl⟩ := halone
    exact headRest_word hr hp ht
  · obtain ⟨c₁, hr₁, -⟩ := Cursor.reads_append.mp hr
    obtain ⟨t₀, hp₀, ht₀⟩ := peek_not_close hr₁ h
    obtain ⟨c', hparam⟩ := parameter_declines hr₁ h (not_exists.mp halone)
    exact headRest_none hp₀ ht₀ hparam

/-- Where a type is named, it is read. -/
theorem typeAfter?_named {first : String} {start : Nat}
    {text : List Char} (hc : c.StandsAt text) (hr : c.Reads (dottedLexemes rest) e)
    (hp : e.peek = .ok t) (ht : ∀ w ∈ ["<", ".", "?", "["], t.is w = false)
    (htype : d.instantiate? (dotted first rest) [] = some type) :
    typeAfter? d ((Lexeme.word first).token start) ⟨c, s⟩ = .ok (some type) ⟨e, s⟩ := by
  rw [typeAfter?, bind_ok (rfl : typeDepth ⟨c, s⟩ = .ok (c.remaining.length + 1) ⟨c, s⟩)]
  refine typeAfterWith_named hc hr hp ht ?_
  rwa [Lexeme.token_word_word]

end Reading

/-! ## Casts -/

namespace Grammar

open Reading

variable {g : Grammar} {s : Scopes} {c e : Cursor} {ls : List Lexeme} {t : Token}

/-- A symbol other than those that belong to a type. -/
theorem is_close_marks (start : Nat) :
    ∀ w ∈ ["<", ".", "?", "["], ((Lexeme.symbol ")").token start).is w = false := by
  simp

/-- A bracket in front of an expression does not open a cast. -/
theorem castTarget_declines (hr : c.Reads ls e) (h : Opening (valueNames g.directory s) ls) :
    g.castTarget ⟨c, s⟩ = .ok none ⟨c, s⟩ := by
  refine attempt_none (d := c) ?_
  have htype : type? g.directory ⟨c, s⟩ = .ok none ⟨c, s⟩ := by
    rw [type?, bind_ok (rfl : typeDepth ⟨c, s⟩ = .ok (c.remaining.length + 1) ⟨c, s⟩)]
    exact typeWithin_declines _ hr h
  rw [bind_ok htype]
  rfl

/-- The name of a type and the bracket that closes a cast to it. -/
def castLexemes (first : String) (rest : List String) : List Lexeme :=
  Lexeme.word first :: (dottedLexemes rest ++ [Lexeme.symbol ")"])

theorem isEof_castLexemes (first : String) (rest : List String) :
    ∀ l ∈ castLexemes first rest, l.kind.isEof = false := by
  simpa [castLexemes, or_imp, forall_and, Lexeme.isEof_word] using
    ⟨isEof_dottedLexemes rest, (rfl : (Lexeme.symbol ")").kind.isEof = false)⟩

section Named

variable {type : Ty} {first : String} {rest : List String} {text : List Char}

/-- The name of a type in brackets is a cast, if an operand follows. -/
theorem castTarget_named (hc : c.StandsAt text) (hr : c.Reads (castLexemes first rest) e)
    (hp : e.peek = .ok t) (ht : startsOperand t = true)
    (hfirst : valueNames g.directory s first = false)
    (htype : g.directory.instantiate? (dotted first rest) [] = some type) :
    g.castTarget ⟨c, s⟩ = .ok (some type) ⟨e, s⟩ := by
  obtain ⟨start, hp₀⟩ := hr.peek
  obtain ⟨start', c₁, hread, hr₁⟩ := hr
  obtain ⟨text₁, hc₁, -, -⟩ := hc.read hread
  obtain ⟨c₂, hr₂, hr₃⟩ := Cursor.reads_append.mp hr₁
  obtain ⟨start₂, hp₂⟩ := hr₃.peek
  obtain ⟨_, _, hclose, rfl⟩ := hr₃
  have hnamed : type? g.directory ⟨c, s⟩ = .ok (some type) ⟨c₂, s⟩ := by
    rw [type?, bind_ok (rfl : typeDepth ⟨c, s⟩ = .ok (c.remaining.length + 1) ⟨c, s⟩), typeWithin,
      bind_ok (peek_ok hp₀), Lexeme.isWord_word, if_neg (by simp), Lexeme.token_word_word,
      bind_ok (namesValue_ok first), hfirst, if_neg (by simp), typeNameWith,
      bind_ok (peek_ok hp₀), Lexeme.isWord_word, if_pos rfl]
    refine attempt_some ?_
    rw [bind_ok (token_ok hread)]
    refine typeAfterWith_named hc₁ hr₂ hp₂ (is_close_marks start₂) ?_
    rw [Lexeme.token_word_word]
    exact htype
  refine attempt_some ?_
  rw [bind_ok hnamed]
  refine (bind_ok (accept_true hclose (by simp))).trans ?_
  rw [if_pos rfl, bind_ok (peek_ok hp), ht]
  rfl

/-- The name of a type in brackets is not a head, if no arrow follows. -/
theorem headRest_named (hc : c.StandsAt text) (hr : c.Reads (castLexemes first rest) e)
    (hp : e.peek = .ok t) (ht : t.is "=>" = false)
    (htype : g.directory.instantiate? (dotted first rest) [] = some type) :
    headRest g.directory ⟨c, s⟩ = .ok none ⟨c, s⟩ := by
  cases rest with
  | nil => exact headRest_word hr hp ht
  | cons w rest =>
    obtain ⟨start, hp₀⟩ := hr.peek
    obtain ⟨_, c₁, hread, hr₁⟩ := hr
    obtain ⟨text₁, hc₁, -, -⟩ := hc.read hread
    obtain ⟨c₂, hr₂, hr₃⟩ := Cursor.reads_append.mp hr₁
    obtain ⟨start₁, hp₁⟩ := hr₂.peek
    obtain ⟨start₂, hp₂⟩ := hr₃.peek
    obtain ⟨_, _, hclose, rfl⟩ := hr₃
    have hparam := parameter_typed hread (Lexeme.isWord_word first _) hp₁ (by simp) (by simp)
      (typeAfter?_named (s := s) hc₁ hr₂ hp₂ (is_close_marks start₂) htype) hclose
    exact headRest_none hp₀ (Lexeme.is_word_of_not_keyword _ _ (by decide)) hparam

end Named

end Grammar

end Scriptlet

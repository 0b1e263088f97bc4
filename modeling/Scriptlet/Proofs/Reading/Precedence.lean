import Scriptlet.Engine
import Scriptlet.Proofs.Reading.Heads
import Scriptlet.Proofs.Reading.OperatorPrograms

/-!
# Precedence

A tree of operators on variables (`OperatorTree`) is written with blanks between all
tokens, and with brackets where an operand binds less tightly than its place needs
(`OperatorTree.text`). A program that is such a text is read as the tree
(`Engine.parse_operatorTree`): the levels of the operators, and the side to which they
group, are those that the brackets have been left out by.
-/

namespace Scriptlet

/-! ## What operators build -/

namespace Expr

theorem number?_applyUnary {op : UnaryOp} {e x : Expr} {offset : Nat}
    (h : (applyUnary op e offset).toOption = some x) : x.number? = none := by
  unfold applyUnary at h
  dsimp only at h
  split at h <;> first
    | (cases h; done)
    | (cases h; rfl)
    | (split at h <;> first | (cases h; done) | (cases h; rfl))

theorem number?_applyBinary {op : BinaryOp} {l r x : Expr} {offset : Nat}
    (h : (applyBinary op l r offset).toOption = some x) : x.number? = none := by
  unfold applyBinary at h
  dsimp only at h
  split at h <;> first
    | (cases h; done)
    | (cases h; rfl)
    | (split at h <;> first
        | (cases h; done)
        | (cases h; rfl)
        | (split at h <;> first | (cases h; done) | (cases h; rfl)))

theorem number?_choose {test a b x : Expr} {offset : Nat}
    (h : (choose test a b offset).toOption = some x) : x.number? = none := by
  unfold choose at h
  split at h
  · cases h
  · split at h <;> cases h
    rfl

end Expr

/-! ## Trees -/

/-- The operators that stand in front of an operand. -/
inductive Sign
  | negate
  | plus
  | not
  | complement
  deriving DecidableEq, Repr

/-- The operator that is written with a sign. -/
def Sign.op : Sign → UnaryOp
  | negate => .negate
  | plus => .plus
  | not => .not
  | complement => .complement

/-- Operators on variables. -/
inductive OperatorTree
  | leaf (name : Identifier)
  | unary (sign : Sign) (operand : OperatorTree)
  | binary (op : BinaryOp) (left right : OperatorTree)
  | conditional (test ifTrue ifFalse : OperatorTree)

namespace OperatorTree

/-- The expression that a tree stands for, with the conversions that its operators need. -/
def build (scope : String → Option Variable) : OperatorTree → Option Expr
  | leaf name => (scope name.word).map .parameter
  | unary sign e => do (Expr.applyUnary sign.op (← e.build scope) 0).toOption
  | binary op l r => do
    let l ← l.build scope
    let r ← r.build scope
    (Expr.applyBinary op l r 0).toOption
  | conditional t a b => do
    let t ← t.build scope
    let a ← a.build scope
    let b ← b.build scope
    (Expr.choose t a b 0).toOption

/-! ## Texts -/

/-- The level at which a tree binds. A variable binds tighter than all operators. -/
def level : OperatorTree → Nat
  | leaf _ => Follow.member.level
  | unary _ _ => UnaryOp.level
  | binary op _ _ => op.level
  | conditional _ _ _ => Follow.conditional.level

end OperatorTree

/-- The level that the left operand of an operator needs: a higher one than that of the
    operator, if it groups to the right. -/
def BinaryOp.leftNeed (op : BinaryOp) : Nat := if op.groupsRight then op.level + 1 else op.level

/-- The level that the right operand of an operator needs: a higher one than that of the
    operator, unless it groups to the right. -/
def BinaryOp.rightNeed (op : BinaryOp) : Nat := if op.groupsRight then op.level else op.level + 1

theorem BinaryOp.level_le_leftNeed (op : BinaryOp) : op.level ≤ op.leftNeed := by
  unfold BinaryOp.leftNeed
  split <;> omega

theorem BinaryOp.rightNeed_eq (op : BinaryOp) :
    op.rightNeed = (Follow.binary op).floor + 1 := by
  cases op <;> rfl

theorem BinaryOp.level_le_floor (op : BinaryOp) : op.level ≤ (Follow.binary op).floor + 1 := by
  cases op <;> decide

theorem BinaryOp.floor_le_level (op : BinaryOp) : (Follow.binary op).floor ≤ op.level := by
  cases op <;> decide

theorem BinaryOp.conditional_lt_leftNeed (op : BinaryOp) :
    Follow.conditional.level < op.leftNeed := by
  cases op <;> decide

theorem BinaryOp.level_le_floor_of_leftNeed {op op' : BinaryOp} (h : op.leftNeed ≤ op'.level) :
    op.level ≤ (Follow.binary op').floor := by
  cases op <;> cases op' <;> revert h <;> decide

theorem BinaryOp.unary_lt_floor {op : BinaryOp} (h : UnaryOp.level ≤ op.level) :
    UnaryOp.level < (Follow.binary op).floor := by
  cases op <;> revert h <;> decide

namespace OperatorTree

/-- Tokens with brackets around them, if they are wanted. -/
def bracketed (wanted : Bool) (tokens : List String) : List String :=
  if wanted then "(" :: (tokens ++ [")"]) else tokens

/-- The tokens that a tree is written with. -/
def tokens : OperatorTree → List String
  | leaf name => [name.word]
  | unary sign e => sign.op.symbol :: bracketed (e.level < UnaryOp.level) e.tokens
  | binary op l r =>
    bracketed (l.level < op.leftNeed) l.tokens ++
      op.symbol :: bracketed (r.level < op.rightNeed) r.tokens
  | conditional t a b =>
    bracketed (t.level < Follow.conditional.level + 1) t.tokens ++
      "?" :: (a.tokens ++ ":" :: bracketed (b.level < Follow.conditional.level) b.tokens)

/-- A tree as it is written. -/
def text (t : OperatorTree) : String := String.intercalate " " t.tokens

/-! ## Phrases -/

/-- A phrase with brackets around it, if they are wanted. -/
def group (wanted : Bool) (p : Phrase) : Phrase := if wanted then .group p else p

/-- The phrase that a tree is written as. -/
def phrase : OperatorTree → Phrase
  | leaf name => .word name.word
  | unary sign e => .unary sign.op (group (e.level < UnaryOp.level) e.phrase)
  | binary op l r =>
    .binary op (group (l.level < op.leftNeed) l.phrase) (group (r.level < op.rightNeed) r.phrase)
  | conditional t a b =>
    .conditional (group (t.level < Follow.conditional.level + 1) t.phrase) a.phrase
      (group (b.level < Follow.conditional.level) b.phrase)

/-- The text of a lexeme. -/
def spelling (l : Lexeme) : String := String.ofList l.text

theorem spelling_group {wanted : Bool} {p : Phrase} {tokens : List String}
    (h : p.lexemes.map spelling = tokens) :
    (group wanted p).lexemes.map spelling = bracketed wanted tokens := by
  subst h
  cases wanted with
  | false => rfl
  | true => simp [group, bracketed, Phrase.lexemes, spelling]

theorem spelling_phrase (t : OperatorTree) : t.phrase.lexemes.map spelling = t.tokens := by
  have hsymbol (s : String) : spelling (.symbol s) = s := String.ofList_toList
  induction t with
  | leaf name => simp [phrase, Phrase.lexemes, spelling, Lexeme.word, tokens]
  | unary sign e ih =>
    rw [phrase, Phrase.lexemes, List.map_cons, hsymbol, spelling_group ih, tokens]
  | binary op l r ihl ihr =>
    rw [phrase, Phrase.lexemes, List.map_append, List.map_cons, hsymbol, spelling_group ihl,
      spelling_group ihr, tokens]
  | conditional t a b iht iha ihb =>
    rw [phrase, Phrase.lexemes, List.map_append, List.map_cons, List.map_append, List.map_cons,
      hsymbol, hsymbol, spelling_group iht, iha, spelling_group ihb, tokens]

theorem tame_group {wanted : Bool} {p : Phrase} (h : ∀ l ∈ p.lexemes, l.Tame) :
    ∀ l ∈ (group wanted p).lexemes, l.Tame := by
  cases wanted with
  | false => exact h
  | true =>
    intro l hl
    simp only [group, if_true, Phrase.lexemes, List.mem_cons, List.mem_append, List.not_mem_nil,
      or_false] at hl
    rcases hl with rfl | hl | rfl
    · exact .symbol (by decide)
    · exact h l hl
    · exact .symbol (by decide)

/-- A tree is written with names and operators only. -/
theorem tame_phrase (t : OperatorTree) : ∀ l ∈ t.phrase.lexemes, l.Tame := by
  induction t with
  | leaf name =>
    intro l hl
    obtain rfl := List.mem_singleton.mp hl
    have := Lexeme.Tame.identifier name.isName name.notReserved
    unfold Lexeme.word
    rw [name.notReserved]
    exact this
  | unary sign e ih =>
    intro l hl
    rcases List.mem_cons.mp hl with rfl | hl
    · exact .symbol (by cases sign <;> decide)
    · exact tame_group ih l hl
  | binary op l r ihl ihr =>
    intro x hx
    rcases List.mem_append.mp hx with hx | hx
    · exact tame_group ihl x hx
    rcases List.mem_cons.mp hx with rfl | hx
    · exact .symbol (by cases op <;> decide)
    · exact tame_group ihr x hx
  | conditional t a b iht iha ihb =>
    intro x hx
    rcases List.mem_append.mp hx with hx | hx
    · exact tame_group iht x hx
    rcases List.mem_cons.mp hx with rfl | hx
    · exact .symbol (by decide)
    rcases List.mem_append.mp hx with hx | hx
    · exact iha x hx
    rcases List.mem_cons.mp hx with rfl | hx
    · exact .symbol (by decide)
    · exact tame_group ihb x hx

/-- A tree is written with a blank between every two tokens. -/
theorem spaced_text (t : OperatorTree) : Spaced t.text.toList t.phrase.lexemes := by
  have hchars : t.tokens.map String.toList = t.phrase.lexemes.map Lexeme.text := by
    rw [← spelling_phrase, List.map_map]
    exact List.map_congr_left fun l _ => String.toList_ofList
  rw [text, String.toList_intercalate, hchars]
  exact spaced_intercalate t.tame_phrase

/-! ## Levels -/

theorem above_group {wanted : Bool} {p : Phrase} {floor : Nat}
    (h : wanted = false → p.Above floor) : (group wanted p).Above floor := by
  cases wanted with
  | false => exact h rfl
  | true => trivial

theorem givesWay_group {wanted : Bool} {p : Phrase} {level : Nat}
    (h : wanted = false → p.GivesWay level) : (group wanted p).GivesWay level := by
  cases wanted with
  | false => exact h rfl
  | true => trivial

theorem bound_group {wanted : Bool} {p : Phrase} {values : String → Bool}
    {types : String → Option Ty} (h : p.Bound values types) :
    (group wanted p).Bound values types := by
  cases wanted with
  | false => exact h
  | true => exact h

/-- The operators on the left edge of a tree bind at its own level at least. -/
theorem above_phrase {t : OperatorTree} {floor : Nat} (h : floor < t.level) :
    t.phrase.Above floor := by
  induction t with
  | leaf | unary => trivial
  | binary op l r ih _ =>
    refine ⟨h, above_group fun hl => ih ?_⟩
    have := BinaryOp.level_le_leftNeed op
    have := of_decide_eq_false hl
    change floor < op.level at h
    omega
  | conditional q a b ih _ _ =>
    refine ⟨h, above_group fun hq => ih ?_⟩
    have := of_decide_eq_false hq
    change floor < Follow.conditional.level at h
    omega

/-- The floor for what is on the right edge of a tree. -/
def edge : OperatorTree → Nat
  | leaf _ => Follow.member.level
  | unary _ _ => UnaryOp.level
  | binary op _ _ => (Follow.binary op).floor
  | conditional _ _ _ => Follow.conditional.floor

theorem level_le_edge (t : OperatorTree) : t.level ≤ t.edge + 1 := by
  cases t with
  | leaf | unary => exact Nat.le_succ _
  | binary op => exact op.level_le_floor
  | conditional => exact Nat.le_refl 45

/-- What binds as tight as a sign takes up no looser operator. -/
theorem unary_le_edge {t : OperatorTree} (h : UnaryOp.level ≤ t.level) :
    UnaryOp.level ≤ t.edge := by
  cases t with
  | leaf | unary => exact h
  | binary op => exact Nat.le_of_lt (BinaryOp.unary_lt_floor h)
  | conditional => exact absurd h (show ¬ 120 ≤ 45 by decide)

/-- A left operand that needs no brackets leaves the operator behind it alone. -/
theorem left_le_edge {op : BinaryOp} {t : OperatorTree} (h : op.leftNeed ≤ t.level) :
    op.level ≤ t.edge := by
  cases t with
  | leaf | unary => exact Nat.le_trans op.level_le_leftNeed h
  | binary op' => exact BinaryOp.level_le_floor_of_leftNeed h
  | conditional => exact absurd op.conditional_lt_leftNeed (Nat.not_lt.mpr h)

/-- A test that needs no brackets leaves the question mark alone. -/
theorem test_le_edge {t : OperatorTree} (h : Follow.conditional.level + 1 ≤ t.level) :
    Follow.conditional.level ≤ t.edge := by
  have := t.level_le_edge
  omega

/-- No operand on the right edge of a tree takes up an operator that the tree does not. -/
theorem givesWay_phrase {t : OperatorTree} {level : Nat} (h : level ≤ t.edge) :
    t.phrase.GivesWay level := by
  induction t with
  | leaf => trivial
  | unary sign e ih =>
    refine ⟨h, givesWay_group fun he => ih (Nat.le_trans h (unary_le_edge ?_))⟩
    exact Nat.not_lt.mp (of_decide_eq_false he)
  | binary op l r _ ih =>
    refine ⟨h, givesWay_group fun hr => ih (Nat.le_trans h ?_)⟩
    have hr := Nat.not_lt.mp (of_decide_eq_false hr)
    have := r.level_le_edge
    rw [BinaryOp.rightNeed_eq] at hr
    change (Follow.binary op).floor ≤ _
    omega
  | conditional q a b _ _ ih =>
    refine ⟨h, givesWay_group fun hb => ih (Nat.le_trans h ?_)⟩
    have hb := Nat.not_lt.mp (of_decide_eq_false hb)
    have := b.level_le_edge
    change Follow.conditional.floor ≤ _
    have : Follow.conditional.level = Follow.conditional.floor + 1 := rfl
    omega

theorem above_unary {t : OperatorTree} (h : UnaryOp.level ≤ t.level) :
    t.phrase.Above UnaryOp.level := by
  cases t with
  | leaf | unary => trivial
  | binary op l r =>
    have hfloor := BinaryOp.unary_lt_floor h
    exact above_phrase (Nat.lt_of_lt_of_le hfloor op.floor_le_level)
  | conditional => exact absurd h (show ¬ 120 ≤ 45 by decide)

/-! ## Meaning -/

/-- What a tree builds is no constant. -/
theorem number?_build {scope : String → Option Variable} {t : OperatorTree} {e : Expr}
    (h : t.build scope = some e) : e.number? = none := by
  cases t with
  | leaf name =>
    obtain ⟨v, -, rfl⟩ := Option.map_eq_some_iff.mp h
    rfl
  | unary sign t =>
    obtain ⟨x, -, h⟩ := Option.bind_eq_some_iff.mp h
    exact Expr.number?_applyUnary h
  | binary op l r =>
    obtain ⟨x, -, h⟩ := Option.bind_eq_some_iff.mp h
    obtain ⟨y, -, h⟩ := Option.bind_eq_some_iff.mp h
    exact Expr.number?_applyBinary h
  | conditional t a b =>
    obtain ⟨x, -, h⟩ := Option.bind_eq_some_iff.mp h
    obtain ⟨y, -, h⟩ := Option.bind_eq_some_iff.mp h
    obtain ⟨z, -, h⟩ := Option.bind_eq_some_iff.mp h
    exact Expr.number?_choose h

theorem meaning_group {wanted : Bool} {p : Phrase} {values : String → Option Expr}
    {types : String → Option Ty} : (group wanted p).meaning values types = p.meaning values types := by
  cases wanted <;> rfl

open Reading in
/-- A tree is written so that it means what it builds. -/
theorem value_phrase {su : Surroundings} {s : Scopes} {t : OperatorTree} {e : Expr}
    (h : t.build s.lookup? = some e) : t.phrase.value su s = some e := by
  unfold Phrase.value
  induction t generalizing e with
  | leaf name =>
    obtain ⟨v, hv, rfl⟩ := Option.map_eq_some_iff.mp h
    simp only [phrase, Phrase.meaning, valueNamed, hv]
  | unary sign t ih =>
    obtain ⟨x, hx, h⟩ := Option.bind_eq_some_iff.mp h
    have hsigned : x.signed? sign.op = (x.applyUnary sign.op 0).toOption := by
      unfold Expr.signed?
      rw [number?_build hx]
      cases sign <;> rfl
    simp only [phrase, Phrase.meaning, meaning_group, ih hx, Option.bind_eq_bind,
      Option.bind_some, hsigned, h]
  | binary op l r ihl ihr =>
    obtain ⟨x, hx, h⟩ := Option.bind_eq_some_iff.mp h
    obtain ⟨y, hy, h⟩ := Option.bind_eq_some_iff.mp h
    simp only [phrase, Phrase.meaning, meaning_group, ihl hx, ihr hy, Option.bind_eq_bind,
      Option.bind_some, h]
  | conditional t a b iht iha ihb =>
    obtain ⟨x, hx, h⟩ := Option.bind_eq_some_iff.mp h
    obtain ⟨y, hy, h⟩ := Option.bind_eq_some_iff.mp h
    obtain ⟨z, hz, h⟩ := Option.bind_eq_some_iff.mp h
    simp only [phrase, Phrase.meaning, meaning_group, iht hx, iha hy, ihb hz,
      Option.bind_eq_bind, Option.bind_some, h]

open Reading in
/-- A tree is written so that each operator finds its own operands. -/
theorem bound_phrase {d : Directory} {s : Scopes} {t : OperatorTree} {e : Expr}
    {types : String → Option Ty} (h : t.build s.lookup? = some e) :
    t.phrase.Bound (valueNames d s) types := by
  induction t generalizing e with
  | leaf name =>
    obtain ⟨v, hv, -⟩ := Option.map_eq_some_iff.mp h
    refine ⟨by simp [valueNames, hv], fun hk => ?_⟩
    rw [name.notReserved] at hk
    cases hk
  | unary sign t ih =>
    obtain ⟨x, hx, h⟩ := Option.bind_eq_some_iff.mp h
    refine ⟨by cases sign <;> rfl, bound_group (ih hx), above_group fun ht => above_unary ?_⟩
    exact Nat.not_lt.mp (of_decide_eq_false ht)
  | binary op l r ihl ihr =>
    obtain ⟨x, hx, h⟩ := Option.bind_eq_some_iff.mp h
    obtain ⟨y, hy, h⟩ := Option.bind_eq_some_iff.mp h
    refine ⟨bound_group (ihl hx), bound_group (ihr hy),
      givesWay_group fun hl => givesWay_phrase (left_le_edge ?_),
      above_group fun hr => above_phrase ?_⟩
    · exact Nat.not_lt.mp (of_decide_eq_false hl)
    · have hr := Nat.not_lt.mp (of_decide_eq_false hr)
      rw [BinaryOp.rightNeed_eq] at hr
      exact hr
  | conditional t a b iht iha ihb =>
    obtain ⟨x, hx, h⟩ := Option.bind_eq_some_iff.mp h
    obtain ⟨y, hy, h⟩ := Option.bind_eq_some_iff.mp h
    obtain ⟨z, hz, h⟩ := Option.bind_eq_some_iff.mp h
    refine ⟨bound_group (iht hx), iha hy, bound_group (ihb hz),
      givesWay_group fun ht => givesWay_phrase (test_le_edge ?_),
      above_group fun hb => above_phrase ?_⟩
    · exact Nat.not_lt.mp (of_decide_eq_false ht)
    · exact Nat.not_lt.mp (of_decide_eq_false hb)

end OperatorTree

/-! ## Programs -/

namespace Options

open Reading

/-- The variables for parameters that options name, numbered from a number on. -/
def variables? (d : Directory) : Nat → List ParameterOption → Option (List Variable)
  | _, [] => some []
  | first, p :: ps => do
    let type ← d.resolve? p.type
    let vs ← variables? d (first + 1) ps
    some (⟨first, p.name, type⟩ :: vs)

/-- A program without parameters of its own has those of the options. -/
theorem programParameters_named {o : Options} {d : Directory} {c : Cursor} {first : Nat}
    {params : List Variable} (hc : c.Lucid) (h : variables? d first o.parameters = some params) :
    o.programParameters d ⟨c, { next := first }⟩ =
      .ok params ⟨c, { next := first + params.length }⟩ := by
  rw [programParameters, bind_ok (head_lucid hc)]
  dsimp only
  generalize o.parameters = ps at h
  induction ps generalizing first params with
  | nil =>
    cases h
    rfl
  | cons p ps ih =>
    obtain ⟨type, htype, h⟩ := Option.bind_eq_some_iff.mp h
    obtain ⟨vs, hvs, h⟩ := Option.bind_eq_some_iff.mp h
    cases h
    have hnamed : namedType d p.type ⟨c, { next := first }⟩ = .ok type ⟨c, { next := first }⟩ := by
      rw [namedType, htype]
      rfl
    have hfresh : (do freshVariable p.name (← namedType d p.type) : Reading Variable)
        ⟨c, { next := first }⟩ = .ok ⟨first, p.name, type⟩ ⟨c, { next := first + 1 }⟩ := by
      rw [bind_ok hnamed]
      rfl
    rw [List.mapM_cons, bind_ok hfresh, bind_ok (ih hvs), List.length_cons,
      Nat.add_right_comm, Nat.add_assoc]
    rfl

end Options

open Options Reading in
/-- A tree of operators on the parameters of a program, written with a blank between every
    two tokens and no brackets but those that the levels of its operators ask for, is read
    as that tree. -/
theorem Engine.parse_operatorTree (catalog : Catalog) (parameters : List ParameterOption)
    (first : Nat) {params : List Variable} {t : OperatorTree} {body : Expr}
    (hparams : variables? { catalog } first parameters = some params)
    (hbody : t.build (fun w => params.reverse.find? (·.name == w)) = some body) :
    Engine.parse { catalog, options := { parameters } } first t.text =
      .ok (⟨params, body, body.type⟩, first + params.length + 1) := by
  have hc := Cursor.standsAt_ofSource t.text.toList 0
  have hlookup : (fun w => params.reverse.find? (·.name == w)) =
      (bodyScopes params (first + params.length)).lookup? :=
    funext fun w => (lookup?_bodyScopes params _ w).symm
  rw [hlookup] at hbody
  obtain ⟨c', eof, hr, hp, heof⟩ := hc.reads_spells t.spaced_text.spells
  have hread := parse_phrase (d := { catalog }) (o := { parameters }) rfl rfl rfl
    (programParameters_named ⟨_, _, hc, t.spaced_text⟩ hparams)
    (OperatorTree.bound_phrase hbody) hc (Nat.le_refl _) hr hp heof
  rw [OperatorTree.value_phrase hbody] at hread
  exact ok_of_toOption hread

/-- Brackets are kept where operators of the same level group to the right, and an operator
    that binds tighter needs none. -/
theorem Engine.parse_operatorTree_differences :
    Engine.parse { options := { parameters := [⟨"a", "int"⟩, ⟨"b", "int"⟩] } } 1
        "a - ( b - a * b )" =
      .ok (⟨[⟨1, "a", .int⟩, ⟨2, "b", .int⟩],
        .binary .subtract (.parameter ⟨1, "a", .int⟩)
          (.binary .subtract (.parameter ⟨2, "b", .int⟩)
            (.binary .multiply (.parameter ⟨1, "a", .int⟩) (.parameter ⟨2, "b", .int⟩) .int)
            .int) .int,
        .int⟩, 4) := by
  let a : OperatorTree := .leaf ⟨"a", ⟨.identifier, by with_unfolding_all rfl⟩, by decide⟩
  let b : OperatorTree := .leaf ⟨"b", ⟨.identifier, by with_unfolding_all rfl⟩, by decide⟩
  let t : OperatorTree := .binary .subtract a (.binary .subtract b (.binary .multiply a b))
  have htext : t.text = "a - ( b - a * b )" := by decide
  have hparams : Options.variables? { catalog := .standard } 1 [⟨"a", "int"⟩, ⟨"b", "int"⟩] =
      some [⟨1, "a", .int⟩, ⟨2, "b", .int⟩] := by decide
  rw [← htext]
  exact Engine.parse_operatorTree .standard _ 1 hparams rfl

end Scriptlet

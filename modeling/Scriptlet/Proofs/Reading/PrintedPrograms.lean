import Scriptlet.Engine
import Scriptlet.Proofs.Expr.Sameness
import Scriptlet.Proofs.Reading.Heads
import Scriptlet.Proofs.Reading.Legible
import Scriptlet.Proofs.Reading.WrittenHeads

/-!
# Printed programs are read back

A legible expression is printed as a phrase (`Expr.phrase`) in which every operator stands in
brackets of its own. The text spells that phrase (`Expr.Legible.spelled`), and the phrase means
the expression again, up to the numbers of its parameters (`Expr.Legible.reread`).

So a program over numbers and truth values that has been read from a text is printed as a text
that is read as the same program (`Engine.parse_source`).
-/

namespace Scriptlet

open Text Reading

variable {v : Nat} {w : String}

/-! ## Texts of operands -/

section Texts

variable {text rest : List Char} {ls ms : List Lexeme} {s w : String}

theorem Spells.symbol (hs : s ∈ Lexeme.programSymbols)
    (hrest : ∀ d ∈ rest.head?, d ∉ SymbolTree.standard.continuations s.toList)
    (hslash : s = "/" → ∀ d ∈ rest.head?, d ≠ '/' ∧ d ≠ '*') (h : Spells rest ms) :
    Spells (s.toList ++ rest) (.symbol s :: ms) :=
  .next noBlanks (Lexeme.fronts_programSymbol hs hrest hslash) h

/-- A bracket is read whatever follows. -/
theorem Spells.bracket (hs : s ∈ ["(", ")"]) (h : Spells rest ms) :
    Spells (s.toList ++ rest) (.symbol s :: ms) := by
  have hall : ∀ s ∈ ["(", ")"], s ∈ Lexeme.programSymbols ∧ s ≠ "/" ∧
      SymbolTree.standard.continuations s.toList = [] := by decide
  obtain ⟨hsymbol, hslash, hnone⟩ := hall s hs
  refine .symbol hsymbol (fun d _ => ?_) (fun heq => absurd heq hslash) h
  rw [hnone]
  exact List.not_mem_nil

/-- A symbol is read where a blank follows. -/
theorem Spells.symbol_blank (hs : s ∈ Lexeme.programSymbols) (h : Spells rest ms) :
    Spells (s.toList ++ ' ' :: rest) (.symbol s :: ms) :=
  .next noBlanks (Lexeme.fronts_blank hs (by simp; decide)) (h.cons_blank (by decide))

theorem Spells.word (hw : IsName w)
    (hrest : ∀ d ∈ rest.head?, continuesName d = false) (h : Spells rest ms) :
    Spells (w.toList ++ rest) (.word w :: ms) :=
  .next noBlanks (Lexeme.fronts_word hw hrest) h

/-- A text spells lexemes wherever a bracket, a blank or the end follows. -/
def Spelled (text : List Char) (ls : List Lexeme) : Prop :=
  ∀ (rest : List Char) (ms : List Lexeme), (∀ c ∈ rest.head?, c ∈ closers) → Spells rest ms →
    Spells (text ++ rest) (ls ++ ms)

/-- A text spells lexemes, and starts with a bracket, a digit or a name. -/
structure SpelledOperand (text : List Char) (ls : List Lexeme) : Prop where
  spelled : Spelled text ls
  opens : ∃ c cs, text = c :: cs ∧ (c = '(' ∨ c.isDigit = true ∨ startsName c = true)

namespace SpelledOperand

theorem word (hw : IsName w) : SpelledOperand w.toList [.word w] := by
  have hclosers : ∀ c ∈ closers, continuesName c = false :=
    List.forall_iff_forall_mem.mp (by decide)
  refine ⟨fun _ _ hrest h => .word hw (fun d hd => hclosers d (hrest d hd)) h, ?_⟩
  obtain ⟨c, cs, hcs, hc, -⟩ := hw.chars
  exact ⟨c, cs, hcs, .inr (.inr hc)⟩

theorem number {k : IntKind} (hk : k ∈ IntKind.literals) (hv : k.holds v = true) :
    SpelledOperand (natDigits v ++ k.letters)
      [⟨.number (.ofInt k v), natDigits v ++ k.letters⟩] := by
  refine ⟨fun _ _ hrest h => .next noBlanks (Lexeme.fronts_number hk hv hrest) h, ?_⟩
  obtain ⟨c, cs, hcs⟩ : ∃ c cs, natDigits v = c :: cs :=
    List.exists_cons_of_ne_nil Nat.toDigits_ne_nil
  exact ⟨c, cs ++ k.letters, by rw [hcs, List.cons_append],
    .inr (.inl (isDigit_natDigits v c (by simp [hcs])))⟩

/-- What stands in brackets is an operand. -/
theorem bracket (h : Spelled text ls) :
    SpelledOperand ('(' :: (text ++ [')'])) (.symbol "(" :: (ls ++ [Lexeme.symbol ")"])) := by
  refine ⟨fun rest ms _ hms => ?_, '(', _, rfl, .inl rfl⟩
  have hclose : Spells (text ++ (')' :: rest)) (ls ++ .symbol ")" :: ms) :=
    h _ _ (by simp; decide) (hms.bracket (s := ")") (by simp))
  have := hclose.bracket (s := "(") (by simp)
  simpa using this

end SpelledOperand

/-- A sign is not made longer by an operand. -/
theorem SpelledOperand.sign {op : UnaryOp} (hop : op.isSign = true) (h : SpelledOperand text ls) :
    Spelled (op.symbol.toList ++ text) (.symbol op.symbol :: ls) := by
  intro rest ms hrest hms
  rw [List.append_assoc]
  obtain ⟨c, cs, rfl, hc⟩ := h.opens
  have hall : ∀ s ∈ ["-", "+", "!", "~"], s ∈ Lexeme.programSymbols ∧ s ≠ "/" ∧
      (SymbolTree.standard.continuations s.toList).Forall fun d =>
        d ≠ '(' ∧ d.isDigit = false ∧ startsName d = false := by decide
  have hsign : op.symbol ∈ ["-", "+", "!", "~"] := by
    cases op <;> first | decide | cases hop
  obtain ⟨hsymbol, hslash, hcontinue⟩ := hall _ hsign
  refine Spells.symbol hsymbol (fun d hd hmem => ?_) (fun heq => absurd heq hslash)
    (h.spelled _ _ hrest hms)
  obtain rfl : c = d := by simpa using hd
  obtain ⟨hbracket, hdigit, hname⟩ := List.forall_iff_forall_mem.mp hcontinue c hmem
  rcases hc with hc | hc | hc
  · exact hbracket hc
  · rw [hdigit] at hc
    cases hc
  · rw [hname] at hc
    cases hc

/-- Two texts with a symbol between blanks. -/
theorem Spelled.joined {text' : List Char} (hs : s ∈ Lexeme.programSymbols) (h : Spelled text ls)
    (h' : Spelled text' ms) :
    Spelled (text ++ ' ' :: (s.toList ++ ' ' :: text')) (ls ++ .symbol s :: ms) := by
  intro rest ns hrest hns
  have hright : Spells (s.toList ++ ' ' :: (text' ++ rest)) (.symbol s :: (ms ++ ns)) :=
    (h' _ _ hrest hns).symbol_blank hs
  have := h _ _ (by simp; decide) (hright.cons_blank (b := ' ') (by decide))
  simpa using this

/-- A cast to a type that has a word for its name. -/
theorem SpelledOperand.cast (hw : IsName w) (h : SpelledOperand text ls) :
    Spelled ('(' :: (w.toList ++ ')' :: text)) (.symbol "(" :: (Grammar.castLexemes w [] ++ ls)) := by
  intro rest ms hrest hms
  have hclose : Spells (')' :: (text ++ rest)) (.symbol ")" :: (ls ++ ms)) :=
    (h.spelled _ _ hrest hms).bracket (s := ")") (by simp)
  have hword := hclose.word hw (by simp; decide)
  have := hword.bracket (s := "(") (by simp)
  simpa [Grammar.castLexemes, dottedLexemes] using this

end Texts

/-! ## Printed expressions -/

/-- A phrase that is a word, a number or in brackets. -/
def Phrase.IsClosed : Phrase → Prop
  | word _ | number _ _ | group _ => True
  | _ => False

theorem Phrase.IsClosed.above {p : Phrase} (h : p.IsClosed) (floor : Nat) : p.Above floor := by
  cases p with
  | word | number | group => trivial
  | _ => cases h

theorem Phrase.IsClosed.givesWay {p : Phrase} (h : p.IsClosed) (level : Nat) :
    p.GivesWay level := by
  cases p with
  | word | number | group => trivial
  | _ => cases h

/-- A number as it is printed. -/
def Number.phrase : Number → Phrase
  | .integral k bits =>
    let v := k.value bits
    let literal (n : Number) := Phrase.number n (natDigits v.natAbs ++ k.letters)
    if v < 0 then .group (.unary .negate (literal (.ofInt k (-v)))) else literal (.ofInt k v)
  | n => .number n []

/-- An expression as it is printed. -/
def Expr.phrase : Expr → Phrase
  | .constant (.bool b) => .word (if b then "true" else "false")
  | .constant (.number n) => n.phrase
  | .parameter v => .word v.name
  | .unary op e _ => .group (.unary op e.phrase)
  | .binary op l r _ => .group (.binary op l.phrase r.phrase)
  | .convert e t => .group (.cast t.text [] e.phrase)
  | .conditional q a b _ => .group (.conditional q.phrase a.phrase b.phrase)
  | _ => .word ""

namespace Number

variable {k : IntKind}

theorem phrase_literal (hv : k.holds v = true) :
    (ofInt k v).phrase = .number (ofInt k v) (natDigits v ++ k.letters) := by
  have hvalue := IntKind.value_ofInt_of_holds hv
  simp only [phrase, ofInt, hvalue]
  rw [if_neg (by omega)]
  rfl

theorem phrase_negative (hv : k.holds (-(v : Int)) = true) (hpos : 0 < v) :
    (ofInt k (-(v : Int))).phrase =
      .group (.unary .negate (.number (ofInt k v) (natDigits v ++ k.letters))) := by
  have hvalue := IntKind.value_ofInt_of_holds hv
  simp only [phrase, ofInt, hvalue]
  rw [if_pos (by omega)]
  simp

theorem holds_neg (hk : k = .int ∨ k = .long) (hv : k.holds v = true) :
    k.holds (-(v : Int)) = true := by
  rw [IntKind.holds_iff] at hv ⊢
  have : k.least ≤ -k.greatest := by rcases hk with rfl | rfl <;> decide
  have : k.least ≤ 0 ∧ 0 ≤ k.greatest := by rcases hk with rfl | rfl <;> decide
  omega

theorem literal_ofInt (hk : k ∈ IntKind.literals) {v : Int} (hv : k.holds v = true) :
    (ofInt k v).literal.toList = intDigits v ++ k.letters := by
  have hvalue := IntKind.value_ofInt_of_holds hv
  simp only [IntKind.literals, List.mem_cons, List.not_mem_nil, or_false] at hk
  rcases hk with rfl | rfl | rfl | rfl <;>
    simp [literal, ofInt, textIn, hvalue, IntKind.letters]

/-- A legible number is printed as its phrase. -/
theorem Legible.spelled {n : Number} (h : n.Legible) :
    SpelledOperand n.source.toList n.phrase.lexemes := by
  cases h with
  | @literal k v hk hv =>
    have htext : (ofInt k v).literal.toList = natDigits v ++ k.letters := literal_ofInt hk hv
    have hsign : startsWith ['-'] (ofInt k v).literal.toList = false := by
      obtain ⟨c, cs, hcs⟩ : ∃ c cs, natDigits v = c :: cs :=
        List.exists_cons_of_ne_nil Nat.toDigits_ne_nil
      have hc : c.isDigit = true := isDigit_natDigits v c (by simp [hcs])
      have hne : '-' ≠ c := by
        rintro rfl
        cases hc
      rw [htext, hcs]
      simp [startsWith, strip?, hne]
    rw [source, hsign, if_neg (by simp), htext, phrase_literal hv]
    exact .number hk hv
  | @negative k v hk hv hpos =>
    have hliterals : k ∈ IntKind.literals := by rcases hk with rfl | rfl <;> decide
    have htext : (ofInt k (-(v : Int))).literal.toList = '-' :: (natDigits v ++ k.letters) := by
      rw [literal_ofInt hliterals (holds_neg hk hv), intDigits, if_pos (by omega)]
      simp
    have hsource : (ofInt k (-(v : Int))).source.toList =
        '(' :: ('-' :: (natDigits v ++ k.letters) ++ [')']) := by
      have hsign : startsWith ['-'] (ofInt k (-(v : Int))).literal.toList = true := by
        rw [htext]
        rfl
      rw [source, hsign, if_pos rfl, String.toList_append, String.toList_append, htext]
      rfl
    rw [hsource, phrase_negative (holds_neg hk hv) hpos]
    exact .bracket ((SpelledOperand.number hliterals hv).sign (rfl : UnaryOp.negate.isSign = true))

end Number

namespace Expr

variable {params : List Variable} {e : Expr}

/-- A kind of numbers is named by a reserved word. -/
theorem isName_kind (k : NumericKind) : IsName k.name := by
  refine .of_isPlainName ?_
  rcases k with k | k <;> cases k <;> decide

theorem isKeyword_kind (k : NumericKind) : isKeyword k.name = true := by
  rcases k with k | k <;> cases k <;> decide

theorem isName_bool (b : Bool) : IsName (if b then "true" else "false") := by
  refine .of_isPlainName ?_
  cases b <;> decide

theorem text_source (bs : Binders) (v : Variable) : v.text .source bs = v.name := by
  unfold Variable.text
  cases bs.place? v.id <;> rfl

/-- A legible expression is printed as its phrase. -/
theorem Legible.spelled (hparams : ∀ v ∈ params, IsName v.name)
    (hscalar : ∀ v ∈ params, v.type.isScalar = true) (h : e.Legible params) (bs : Binders) :
    SpelledOperand (print .source bs e).toList e.phrase.lexemes := by
  induction h with
  | @parameter v hv =>
    have htext : print .source bs (.parameter v) = v.name := text_source bs v
    rw [htext]
    exact .word (hparams v (List.mem_reverse.mp (List.mem_of_find?_eq_some hv)))
  | bool b => exact .word (isName_bool b)
  | @number n hn => exact hn.spelled
  | @convert e j k he hj hne ih =>
    have htext : (print .source bs (.convert e (.numeric k))).toList =
        '(' :: (('(' :: (k.name.toList ++ ')' :: (print .source bs e).toList)) ++ [')']) := by
      rw [print_of_plain rfl]
      simp [children, textWith, Ty.text]
    rw [htext]
    exact .bracket (ih.cast (isName_kind k))
  | @unary op e t hop he hnumber ht hfits ih =>
    have htext : (print .source bs (.unary op e t)).toList =
        '(' :: ((op.symbol.toList ++ (print .source bs e).toList) ++ [')']) := by
      rw [print_of_plain rfl]
      cases op <;> first | (simp [children, textWith, unaryText]; done) | cases hop
    rw [htext]
    exact .bracket (ih.sign hop)
  | @binary op l r s t u hl hr hs ht hfits ihl ihr =>
    have htext : (print .source bs (.binary op l r u)).toList =
        '(' :: (((print .source bs l).toList ++
          ' ' :: (op.symbol.toList ++ ' ' :: (print .source bs r).toList)) ++ [')']) := by
      rw [print_of_plain rfl]
      simp [children, textWith]
    rw [htext]
    have hsymbol : op.symbol ∈ Lexeme.programSymbols := by cases op <;> decide
    exact .bracket (ihl.spelled.joined hsymbol ihr.spelled)
  | @conditional q a b t hq ha hb hbool hs ht ihq iha ihb =>
    have hvoid : t ≠ .void := by
      rintro rfl
      cases hs ▸ ha.isScalar hscalar
    have htext : (print .source bs (.conditional q a b t)).toList =
        '(' :: (((print .source bs q).toList ++ ' ' :: ("?".toList ++ ' ' ::
          ((print .source bs a).toList ++ ' ' :: (":".toList ++ ' ' ::
            (print .source bs b).toList)))) ++ [')']) := by
      rw [print_of_plain rfl]
      simp [children, textWith, hvoid]
    rw [htext]
    exact .bracket (ihq.spelled.joined (by decide) (iha.spelled.joined (by decide) ihb.spelled))

/-- An expression is printed so that operators around it leave it alone. -/
theorem isClosed_phrase (e : Expr) : e.phrase.IsClosed := by
  unfold phrase
  split
  case h_2 n =>
    unfold Number.phrase
    split
    · dsimp only
      split <;> trivial
    · trivial
  all_goals trivial

end Expr

/-! ## Reading a printed expression -/

/-- The directory that programs are read with by default. -/
abbrev Directory.standard : Directory := Engine.directory {}

namespace Directory

theorem instantiate?_kind (k : NumericKind) :
    standard.instantiate? k.name [] = some (.numeric k) := by
  rcases k with k | k <;> cases k <;> decide

theorem constant?_kind (k : NumericKind) : standard.catalog.constant? k.name = none := by
  rcases k with k | k <;> cases k <;> rfl

theorem constant?_bool (b : Bool) :
    standard.catalog.constant? (if b then "true" else "false") = some (.bool b) := by
  cases b <;> rfl

end Directory

namespace WrittenParameter

variable {ps : List WrittenParameter} {v : Variable} {first : Nat}

/-- A variable for a parameter has its name and type. -/
theorem mem_numbered (h : v ∈ numbered first ps) :
    ∃ p ∈ ps, v.name = p.name.word ∧ v.type = p.type := by
  induction ps generalizing first with
  | nil => cases h
  | cons p ps ih =>
    rcases List.mem_cons.mp h with rfl | h
    · exact ⟨p, .head _, rfl, rfl⟩
    · obtain ⟨q, hq, hv⟩ := ih h
      exact ⟨q, .tail _ hq, hv⟩

/-- A reserved word names no parameter. -/
theorem any_keyword (hw : isKeyword w = true) : ps.any (·.name.word == w) = false := by
  refine List.any_eq_false.mpr fun p _ heq => ?_
  have := p.name.notReserved
  rw [eq_of_beq heq, hw] at this
  cases this

/-- Numbered from elsewhere, the variables differ in their numbers only. -/
theorem numbered_eq_map (first second : Nat) (ps : List WrittenParameter) :
    numbered second ps = (numbered first ps).map fun v => { v with id := v.id - first + second } := by
  have hfrom (a : Nat) : numbered (a + second) ps =
      (numbered (a + first) ps).map fun v => { v with id := v.id - first + second } := by
    induction ps generalizing a with
    | nil => rfl
    | cons p ps ih =>
      rw [numbered, numbered, List.map_cons, Nat.add_right_comm a second, Nat.add_right_comm a first,
        ih, Nat.add_sub_cancel]
  simpa using hfrom 0

/-- The place of a variable among those for all parameters. -/
theorem findIdx?_numbered (h : v ∈ numbered first ps) :
    first ≤ v.id ∧
      ((numbered first ps).map (·.id)).findIdx? (· == v.id) = some (v.id - first) := by
  induction ps generalizing first with
  | nil => cases h
  | cons p ps ih =>
    rw [numbered, List.map_cons, List.findIdx?_cons]
    rcases List.mem_cons.mp h with rfl | h
    · simp
    · obtain ⟨hle, hidx⟩ := ih h
      have hne : (first == v.id) = false := by
        rw [beq_eq_false_iff_ne]
        omega
      refine ⟨by omega, ?_⟩
      rw [hne, hidx]
      simp only [Bool.false_eq_true, if_false, Option.map_some]
      congr 1
      omega

/-- What a name means, if the parameters are numbered from elsewhere. -/
theorem find?_numbered (second : Nat)
    (h : (numbered first ps).reverse.find? (·.name == w) = some v) :
    ∃ v', (numbered second ps).reverse.find? (·.name == w) = some v' ∧ v'.type = v.type ∧
      v.corresponds [(numbered first ps).map (·.id)] [(numbered second ps).map (·.id)] v' = true := by
  have hv := List.mem_reverse.mp (List.mem_of_find?_eq_some h)
  obtain ⟨hle, hidx⟩ := findIdx?_numbered hv
  have hfind : (numbered second ps).reverse.find? (·.name == w) =
      some { v with id := v.id - first + second } := by
    rw [numbered_eq_map first second, ← List.map_reverse, List.find?_map]
    exact congrArg (Option.map _) h
  have hv' := List.mem_reverse.mp (List.mem_of_find?_eq_some hfind)
  obtain ⟨-, hidx'⟩ := findIdx?_numbered hv'
  refine ⟨_, hfind, rfl, ?_⟩
  simp only [Variable.corresponds, Binders.place?, hidx, hidx']
  simp

end WrittenParameter

namespace Number

theorem Legible.equivalent {n : Number} (h : n.Legible) : n.equivalent n = true := by
  cases h with
  | literal | negative => exact equivalent_of_toInt? rfl rfl

end Number

section Reread

variable {ps : List WrittenParameter} {first : Nat} {e : Expr}

/-- A printed expression has words for its values, and names for the types of its casts. -/
theorem Expr.Legible.bound (h : e.Legible (WrittenParameter.numbered first ps)) :
    e.phrase.Bound ((ProgramHead.listed ps).values .standard)
      fun name => Directory.standard.instantiate? name [] := by
  induction h with
  | @parameter v hv =>
    have hmem := List.mem_reverse.mp (List.mem_of_find?_eq_some hv)
    obtain ⟨p, hp, hname, -⟩ := WrittenParameter.mem_numbered hmem
    refine ⟨?_, fun hk => ?_⟩
    · rw [ProgramHead.values, Bool.or_eq_true]
      exact .inl (List.any_eq_true.mpr ⟨p, hp, by simp [hname]⟩)
    · rw [hname, p.name.notReserved] at hk
      cases hk
  | bool b =>
    refine ⟨?_, fun _ => by cases b <;> decide⟩
    rw [ProgramHead.values, Directory.constant?_bool, Option.isSome_some, Bool.or_true]
  | number hn =>
    cases hn with
    | literal hk hv =>
      change (Number.phrase _).Bound _ _
      rw [Number.phrase_literal hv]
      trivial
    | negative hk hv hpos =>
      change (Number.phrase _).Bound _ _
      rw [Number.phrase_negative (Number.holds_neg hk hv) hpos]
      exact ⟨rfl, trivial, trivial⟩
  | @convert e j k he hj hne ih =>
    refine ⟨?_, ?_, ih, e.isClosed_phrase.above _⟩
    · change (ps.any (·.name.word == k.name) ||
        (Directory.standard.catalog.constant? k.name).isSome) = false
      rw [WrittenParameter.any_keyword (Expr.isKeyword_kind k), Directory.constant?_kind]
      rfl
    · exact Option.isSome_iff_exists.mpr ⟨_, Directory.instantiate?_kind k⟩
  | @unary op e t hop he hnumber ht hfits ih => exact ⟨hop, ih, e.isClosed_phrase.above _⟩
  | @binary op l r s t u hl hr hs ht hfits ihl ihr =>
    exact ⟨ihl, ihr, l.isClosed_phrase.givesWay _, r.isClosed_phrase.above _⟩
  | @conditional q a b t hq ha hb hbool hs ht ihq iha ihb =>
    exact ⟨ihq, iha, ihb, q.isClosed_phrase.givesWay _, b.isClosed_phrase.above _⟩

/-- The phrase of a printed expression means the same expression, with the parameters that have
    its names. -/
theorem Expr.Legible.reread (second k : Nat) (hscalar : ∀ p ∈ ps, p.type.isScalar = true)
    (h : e.Legible (WrittenParameter.numbered first ps)) :
    ∃ e', e.phrase.value { directory := .standard }
        (Options.bodyScopes (WrittenParameter.numbered second ps) k) = some e' ∧
      e'.type = e.type ∧ (e.number? = none → e'.number? = none) ∧
      e.sameIn [(WrittenParameter.numbered first ps).map (·.id)]
        [(WrittenParameter.numbered second ps).map (·.id)] e' = true := by
  have hparams : ∀ v ∈ WrittenParameter.numbered first ps, v.type.isScalar = true := by
    intro v hv
    obtain ⟨p, hp, -, htype⟩ := WrittenParameter.mem_numbered hv
    exact htype ▸ hscalar p hp
  unfold Phrase.value
  induction h with
  | @parameter v hv =>
    obtain ⟨v', hfind, htype, hplace⟩ := WrittenParameter.find?_numbered second hv
    refine ⟨.parameter v', ?_, htype, fun _ => rfl, ?_⟩
    · simp only [phrase, Phrase.meaning, valueNamed, Options.lookup?_bodyScopes, hfind]
    · refine (sameIn_iff_of_plain rfl rfl).2 ⟨sameNode_iff.2 ⟨rfl, rfl, ?_, ?_⟩, .nil⟩
      · rintro _ _ ⟨⟩
      · rintro _ _ ⟨⟩ ⟨⟩
        exact hplace
  | bool b =>
    refine ⟨.bool b, ?_, rfl, fun _ => rfl, ?_⟩
    · have hkeyword : isKeyword (if b then "true" else "false") = true := by
        cases b <;> decide
      have hnone : (WrittenParameter.numbered second ps).reverse.find?
          (·.name == if b then "true" else "false") = none := by
        rw [← Option.not_isSome_iff_eq_none, ProgramHead.isSome_find?_numbered,
          WrittenParameter.any_keyword hkeyword]
        exact Bool.false_ne_true
      change valueNamed _ _ (if b then "true" else "false") = _
      rw [valueNamed, Options.lookup?_bodyScopes, hnone]
      dsimp only
      rw [Directory.constant?_bool]
      rfl
    · have hsame : (Constant.bool b).equivalent (.bool b) = true := by
        simp [Constant.equivalent, Constant.same]
      exact sameIn_constant hsame
  | @number n hn =>
    refine ⟨.number n, ?_, rfl, id, ?_⟩
    · change n.phrase.meaning _ _ = _
      cases hn with
      | literal hk hv =>
        rw [Number.phrase_literal hv]
        rfl
      | negative hk hv hpos =>
        rw [Number.phrase_negative (Number.holds_neg hk hv) hpos]
        exact congrArg (fun n => some (Expr.number n)) (Number.negate_ofInt hk _)
    · exact sameIn_constant hn.equivalent
  | @convert e j k he hj hne ih =>
    obtain ⟨x, hx, htype, -, hsame⟩ := ih
    refine ⟨.convert x (.numeric k), ?_, rfl, fun _ => rfl,
      sameIn_of_parts rfl rfl rfl rfl (List.cons_ne_nil _ _) (.cons hsame .nil)⟩
    have hcastable : castable x.type (.numeric k) = true := by
      rw [htype, hj]
      simp [castable, Ty.operandKind?, Ty.underlying]
    have hconvert : x.convertTo (.numeric k) = .convert x (.numeric k) := by
      refine if_neg ?_
      rw [htype, hj]
      simpa using hne
    have hcast : (x.cast (.numeric k) 0).toOption = some (.convert x (.numeric k)) := by
      rw [Expr.cast, if_pos hcastable, hconvert]
      rfl
    have hname : Directory.standard.instantiate? (dotted (Ty.numeric k).text []) [] =
        some (.numeric k) := Directory.instantiate?_kind k
    simp only [phrase, Phrase.meaning, hx, hname, Option.bind_eq_bind, Option.bind_some, hcast]
  | @unary op e t hop he hnumber ht hfits ih =>
    obtain ⟨x, hx, htype, hconstant, hsame⟩ := ih
    refine ⟨.unary op x t, ?_, rfl, fun _ => rfl,
      sameIn_of_parts rfl rfl rfl rfl (List.cons_ne_nil _ _) (.cons hsame .nil)⟩
    have hxt : x.type = t := htype.trans ht
    have hsigned : x.signed? op = some (.unary op x t) := by
      rw [signed?_eq fun hop => hconstant (hnumber hop),
        applyUnary_scalar hop (htype ▸ he.isScalar hparams), hxt, hfits, Option.map_some,
        convertTo_of_type_eq hxt]
    simp only [phrase, Phrase.meaning, hx, Option.bind_eq_bind, Option.bind_some, hsigned]
  | @binary op l r s t u hl hr hs ht hfits ihl ihr =>
    obtain ⟨x, hx, htype, -, hsame⟩ := ihl
    obtain ⟨y, hy, htype', -, hsame'⟩ := ihr
    refine ⟨.binary op x y u, ?_, rfl, fun _ => rfl,
      sameIn_of_parts rfl rfl rfl rfl (List.cons_ne_nil _ _) (.cons hsame (.cons hsame' .nil))⟩
    have hxs : x.type = s := htype.trans hs
    have hyt : y.type = t := htype'.trans ht
    have hbuilt : (Expr.applyBinary op x y 0).toOption = some (.binary op x y u) := by
      rw [applyBinary_scalar (htype ▸ hl.isScalar hparams) (htype' ▸ hr.isScalar hparams), hxs, hyt,
        hfits, Option.map_some]
      dsimp only
      rw [convertTo_of_type_eq hxs, convertTo_of_type_eq hyt]
    simp only [phrase, Phrase.meaning, hx, hy, Option.bind_eq_bind, Option.bind_some, hbuilt]
  | @conditional q a b t hq ha hb hbool hs ht ihq iha ihb =>
    obtain ⟨x, hx, htype, -, hsame⟩ := ihq
    obtain ⟨y, hy, htype', -, hsame'⟩ := iha
    obtain ⟨z, hz, htype'', -, hsame''⟩ := ihb
    refine ⟨.conditional x y z t, ?_, rfl, fun _ => rfl,
      sameIn_of_parts rfl rfl rfl rfl (List.cons_ne_nil _ _) (.cons hsame (.cons hsame' (.cons hsame'' .nil)))⟩
    have hyt : y.type = t := htype'.trans hs
    have hzt : z.type = t := htype''.trans ht
    have hbuilt : (Expr.choose x y z 0).toOption = some (.conditional x y z t) := by
      have hy' : y.coerce t = y := if_pos (.inl hyt)
      have hz' : z.coerce t = z := if_pos (.inl hzt)
      have hcommon : conditionalType? y.type z.type = some t := by
        rw [hyt, hzt]
        exact if_pos rfl
      rw [Expr.choose, if_neg (not_not.mpr (htype.trans hbool)), hcommon]
      dsimp only
      rw [hy', hz']
      rfl
    simp only [phrase, Phrase.meaning, hx, hy, hz, Option.bind_eq_bind, Option.bind_some, hbuilt]

end Reread

/-! ## Printed heads -/

namespace WrittenParameter

variable {p : WrittenParameter}

/-- A parameter as it is printed. -/
def printed (p : WrittenParameter) : WrittenParameter := { p with typeName := some (p.type.text, []) }

/-- The text of a parameter. -/
def declaration (p : WrittenParameter) : String := p.type.text ++ " " ++ p.name.word

variable {ps : List WrittenParameter} {rest : List Char} {ms : List Lexeme}

theorem numbered_printed (first : Nat) : numbered first (ps.map printed) = numbered first ps := by
  induction ps generalizing first with
  | nil => rfl
  | cons p ps ih => rw [List.map_cons, numbered, numbered, ih, printed]

theorem declarations_numbered (first depth : Nat) :
    declarations .source depth (numbered first ps) = ps.map declaration := by
  have hnames (vs : List Variable) : declarations .source depth vs =
      vs.map fun v => v.type.text ++ " " ++ v.name := by
    calc declarations .source depth vs
        = (vs.zipIdx.map Prod.fst).map fun v => v.type.text ++ " " ++ v.name := by
          rw [List.map_map]
          rfl
      _ = vs.map fun v => v.type.text ++ " " ++ v.name := by rw [List.zipIdx_map_fst]
  rw [hnames]
  induction ps generalizing first with
  | nil => rfl
  | cons p ps ih => rw [numbered, List.map_cons, List.map_cons, ih, declaration]

theorem isTyped_printed (h : p.type.isScalar = true) : p.printed.IsTyped .standard := by
  change Directory.standard.instantiate? p.type.text [] = some p.type
  rcases Ty.isScalar_iff.mp h with ⟨k, hk⟩ | hbool
  · rw [hk]
    exact Directory.instantiate?_kind k
  · rw [hbool]
    decide

theorem isName_type (h : p.type.isScalar = true) : IsName p.type.text := by
  rcases Ty.isScalar_iff.mp h with ⟨k, hk⟩ | hbool
  · rw [hk]
    exact Expr.isName_kind k
  · rw [hbool]
    exact .of_isPlainName (by decide)

/-- A parameter is printed as its lexemes. -/
theorem spells_declaration (hp : p.type.isScalar = true)
    (hrest : ∀ d ∈ rest.head?, continuesName d = false) (h : Spells rest ms) :
    Spells (p.declaration.toList ++ rest) (p.printed.lexemes ++ ms) := by
  have hname := (h.word p.name.isName hrest).cons_blank (b := ' ') (by decide)
  have := hname.word (isName_type hp) (by simp; decide)
  simpa [declaration, lexemes, printed, dottedLexemes] using this

/-- Parameters are printed with commas between them. -/
theorem spells_declarations (hps : ∀ p ∈ ps, p.type.isScalar = true)
    (hrest : ∀ d ∈ rest.head?, continuesName d = false) (h : Spells rest ms) :
    Spells ((commas (ps.map declaration)).toList ++ rest)
      (listLexemes (ps.map printed) ++ ms) := by
  induction ps with
  | nil => simpa [commas, listLexemes] using h
  | cons p ps ih =>
    obtain ⟨hp, hps⟩ := List.forall_mem_cons.mp hps
    cases ps with
    | nil =>
      have := spells_declaration hp hrest h
      simpa [commas, listLexemes] using this
    | cons q qs =>
      have hcomma := (ih hps).symbol_blank (s := ",") (by decide)
      have := spells_declaration hp (by simp; decide) hcomma
      simpa [commas, listLexemes, String.toList_intercalate, List.intercalate] using this

end WrittenParameter

/-! ## Printed programs -/

section Programs

variable {ps : List WrittenParameter} {e : Expr}

/-- A program is printed as its head and the phrase for its body. -/
theorem Expr.Legible.lexes_source {first : Nat} (ret : Ty)
    (hps : ∀ p ∈ ps, p.type.isScalar = true)
    (h : e.Legible (WrittenParameter.numbered first ps)) :
    Lexes (Lambda.toExpr ⟨WrittenParameter.numbered first ps, e, ret⟩).source
      ((ProgramHead.listed (ps.map .printed)).lexemes ++ e.phrase.lexemes) := by
  have hvariables : ∀ v ∈ WrittenParameter.numbered first ps,
      IsName v.name ∧ v.type.isScalar = true := by
    intro v hv
    obtain ⟨p, hp, hname, htype⟩ := WrittenParameter.mem_numbered hv
    exact ⟨hname ▸ p.name.isName, htype ▸ hps p hp⟩
  have hbody := h.spelled (fun v hv => (hvariables v hv).1) (fun v hv => (hvariables v hv).2)
    [(WrittenParameter.numbered first ps).map (·.id)]
  have hend := hbody.spelled [] [] (by simp) (.stop noBlanks)
  have harrow := (hend.symbol_blank (s := "=>") (by decide)).cons_blank (b := ' ') (by decide)
  have hclose := harrow.bracket (s := ")") (by simp)
  have hhead := (WrittenParameter.spells_declarations hps (by simp; decide) hclose).bracket
    (s := "(") (by simp)
  have hsource : (Lambda.toExpr ⟨WrittenParameter.numbered first ps, e, ret⟩).source.toList =
      "(".toList ++ ((commas (ps.map WrittenParameter.declaration)).toList ++
        (")".toList ++ ' ' :: ("=>".toList ++ ' ' ::
          ((print .source [(WrittenParameter.numbered first ps).map (·.id)] e).toList ++ [])))) := by
    rw [Lambda.toExpr, source, print_eq]
    simp [parts, children, scopes, textWith, Enclosure.all, Enclosure.ids,
      WrittenParameter.declarations_numbered]
  rw [← hsource] at hhead
  have hc := Cursor.standsAt_ofSource
    (Lambda.toExpr ⟨WrittenParameter.numbered first ps, e, ret⟩).source.toList 0
  simpa [ProgramHead.lexemes, Lexes] using hc.reads_spells hhead

/-- A printed program is read, and as the same program. -/
theorem Expr.Legible.printed_parses {first : Nat} (second : Nat)
    (hps : ∀ p ∈ ps, p.type.isScalar = true)
    (h : e.Legible (WrittenParameter.numbered first ps)) :
    ∃ l' next', Engine.parse {} second
        (Lambda.toExpr ⟨WrittenParameter.numbered first ps, e, e.type⟩).source = .ok (l', next') ∧
      (Lambda.toExpr ⟨WrittenParameter.numbered first ps, e, e.type⟩).same l'.toExpr = true := by
  have htyped : ∀ q ∈ (ProgramHead.listed (ps.map .printed)).params, q.IsTyped .standard := by
    intro q hq
    obtain ⟨p, hp, rfl⟩ := List.mem_map.mp hq
    exact WrittenParameter.isTyped_printed (hps p hp)
  have hvalues : (ProgramHead.listed (ps.map .printed)).values .standard =
      (ProgramHead.listed ps).values .standard := by
    funext w
    simp only [ProgramHead.values, ProgramHead.params, List.any_map]
    rfl
  have hread := ProgramHead.parse_written second htyped (hvalues ▸ h.bound)
    (h.lexes_source e.type hps)
  simp only [ProgramHead.params, WrittenParameter.numbered_printed] at hread
  obtain ⟨e', hvalue, htype, -, hsame⟩ := h.reread second
    (second + (ps.map WrittenParameter.printed).length) hps
  rw [hvalue, Option.map_some] at hread
  refine ⟨_, _, Options.ok_of_toOption hread, ?_⟩
  have htypes : (WrittenParameter.numbered second ps).map (·.type) =
      (WrittenParameter.numbered first ps).map (·.type) := by
    rw [WrittenParameter.numbered_eq_map first second, List.map_map]
    rfl
  refine sameIn_iff.2 ⟨sameNode_iff.2 ⟨rfl, ?_, nofun, nofun⟩, .cons hsame .nil⟩
  have hmarks := congrArg (List.map Mark.type) htypes
  rw [List.map_map, List.map_map] at hmarks
  exact congrArg₂ List.cons (congrArg Mark.type htype.symm) hmarks.symm

/-- The words of a body mean parameters and truth values. -/
theorem legible_valueNamed {first k : Nat}
    (hw : w ∈ ps.map (·.name.word) ∨ w = "true" ∨ w = "false")
    (h : valueNamed .standard (Options.bodyScopes (WrittenParameter.numbered first ps) k) w =
      some e) : e.Legible (WrittenParameter.numbered first ps) := by
  rw [valueNamed, Options.lookup?_bodyScopes] at h
  cases hfind : (WrittenParameter.numbered first ps).reverse.find? (·.name == w) with
  | some v =>
    rw [hfind] at h
    cases h
    obtain rfl : v.name = w := by simpa using List.find?_some hfind
    exact .parameter hfind
  | none =>
    rw [hfind] at h
    have hnone : ps.any (·.name.word == w) = false := by
      rw [← ProgramHead.isSome_find?_numbered first, hfind]
      rfl
    rcases hw with hw | rfl | rfl
    · obtain ⟨p, hp, rfl⟩ := List.mem_map.mp hw
      simpa using List.any_eq_false.mp hnone p hp
    · cases (Directory.constant?_bool true ▸ h :
        (some (Constant.bool true)).map Expr.constant = some e)
      exact .bool true
    · cases (Directory.constant?_bool false ▸ h :
        (some (Constant.bool false)).map Expr.constant = some e)
      exact .bool false

end Programs

/-- A program over numbers and truth values, with a body of its parameters, whole numbers, truth
    values, casts and operators, is printed as a text that is read as the same program. -/
theorem Engine.parse_source {source : String} {head : ProgramHead} {body : Phrase} {l : Lambda}
    {first next : Nat} (second : Nat)
    (hhead : ∀ p ∈ head.params, p.IsTyped (Engine.directory {}) ∧ p.type.isScalar = true)
    (hbody : body.Elementary (head.params.map (·.name.word))
      fun name => (Engine.directory {}).instantiate? name [])
    (hbound : body.Bound (head.values (Engine.directory {}))
      fun name => (Engine.directory {}).instantiate? name [])
    (hsource : Lexes source (head.lexemes ++ body.lexemes))
    (hl : Engine.parse {} first source = .ok (l, next)) :
    ∃ l' next', Engine.parse {} second l.toExpr.source = .ok (l', next') ∧
      l.toExpr.same l'.toExpr = true := by
  have hread := ProgramHead.parse_written first (fun p hp => (hhead p hp).1) hbound hsource
  have hparsed : (Scriptlet.parse (Engine.directory {}) {} first source).toOption = some (l, next) :=
    congrArg Except.toOption hl
  rw [hparsed] at hread
  obtain ⟨e, hvalue, heq⟩ := Option.map_eq_some_iff.mp hread.symm
  cases heq
  have hscalar : ∀ p ∈ head.params, p.type.isScalar = true := fun p hp => (hhead p hp).2
  have hparams : ∀ v ∈ WrittenParameter.numbered first head.params, v.type.isScalar = true := by
    intro v hv
    obtain ⟨p, hp, -, htype⟩ := WrittenParameter.mem_numbered hv
    exact htype ▸ hscalar p hp
  have hlegible := Phrase.legible_meaning hparams (fun w e => legible_valueNamed) hbody hvalue
  exact hlegible.printed_parses second hscalar

/-- Operands of several kinds, a cast and a conditional: what is printed has a conversion wherever
    one was needed. -/
theorem Engine.parse_source_conversions :
    ∃ l next l' next',
      Engine.parse {} 1 "( int x , y ) => x < 5u ? ( long ) - x : y" = .ok (l, next) ∧
      Engine.parse {} 1 l.toExpr.source = .ok (l', next') ∧
      l.toExpr.same l'.toExpr = true := by
  let x : Identifier := ⟨"x", .of_isPlainName (by decide), by decide⟩
  let y : Identifier := ⟨"y", .of_isPlainName (by decide), by decide⟩
  let head : ProgramHead := .listed [⟨some ("int", []), x, .int⟩, ⟨none, y, .double⟩]
  let five : Phrase := .number (.ofInt .uint 5) ['5', 'u']
  let body : Phrase := .conditional (.binary .lessThan (.word "x") five)
    (.cast "long" [] (.unary .negate (.word "x"))) (.word "y")
  have hhead : ∀ p ∈ head.params, p.IsTyped (Engine.directory {}) ∧ p.type.isScalar = true := by
    intro p hp
    simp only [head, ProgramHead.params, List.mem_cons, List.not_mem_nil, or_false] at hp
    rcases hp with rfl | rfl <;> exact ⟨by unfold WrittenParameter.IsTyped; decide, rfl⟩
  have hbody : body.Elementary (head.params.map (·.name.word))
      fun name => (Engine.directory {}).instantiate? name [] := by
    have hfive : integralLiteral? 5 (some .unsigned) = some (.ofInt .uint 5) := by
      with_unfolding_all rfl
    exact ⟨⟨.inl (by decide), 5, some .unsigned, by simp, hfive⟩,
      ⟨⟨.long, by decide⟩, rfl, .inl (by decide)⟩, .inl (by decide)⟩
  have hname : ∀ w ∈ ["x", "y"], NamesValue (head.values (Engine.directory {})) w := by
    have hall : ∀ w ∈ ["x", "y"], head.values (Engine.directory {}) w = true ∧
        isKeyword w = false := by decide
    intro w hw
    refine ⟨(hall w hw).1, fun hk => ?_⟩
    rw [(hall w hw).2] at hk
    cases hk
  have hbound : body.Bound (head.values (Engine.directory {}))
      fun name => (Engine.directory {}).instantiate? name [] := by
    have hlong : head.values (Engine.directory {}) "long" = false := by decide
    exact ⟨⟨hname "x" (by simp), trivial, trivial, trivial⟩,
      ⟨hlong, by decide, ⟨rfl, hname "x" (by simp), trivial⟩, trivial⟩,
      hname "y" (by simp), ⟨by decide, trivial⟩, trivial⟩
  have hsource : Lexes "( int x , y ) => x < 5u ? ( long ) - x : y"
      (head.lexemes ++ body.lexemes) := by
    have hword (w : String) (hw : isPlainName w = true) (rest : List Char)
        (hrest : ∀ b ∈ rest.head?, b = ' ') : (Lexeme.word w).Fronts rest :=
      Lexeme.fronts_word (.of_isPlainName hw) fun b hb => by rw [hrest b hb]; decide
    have hsymbol (s : String) (hs : s ∈ Lexeme.programSymbols) (rest : List Char)
        (hrest : ∀ b ∈ rest.head?, b = ' ') : (Lexeme.symbol s).Fronts rest :=
      Lexeme.fronts_blank hs fun b hb => by rw [hrest b hb]; decide
    have hnumber (rest : List Char) (hrest : ∀ b ∈ rest.head?, b = ' ') :
        Lexeme.Fronts ⟨.number (.ofInt .uint 5), ['5', 'u']⟩ rest :=
      Lexeme.fronts_number (k := .uint) (v := 5) (by decide) (by decide) fun b hb => by
        rw [hrest b hb]
        decide
    have hspells : Spells ([' '].intercalate ((head.lexemes ++ body.lexemes).map Lexeme.text))
        (head.lexemes ++ body.lexemes) := by
      refine spells_intercalate fun l hl => ?_
      simp only [head, body, five, ProgramHead.lexemes, WrittenParameter.listLexemes,
        WrittenParameter.lexemes, Phrase.lexemes, Grammar.castLexemes, dottedLexemes, x, y,
        List.flatMap_nil, List.nil_append, List.cons_append, List.mem_cons,
        List.not_mem_nil, or_false] at hl
      rcases hl with rfl | rfl | rfl | rfl | rfl | rfl | rfl | rfl | rfl | rfl | rfl | rfl | rfl |
        rfl | rfl | rfl | rfl | rfl <;>
      first
      | exact hnumber
      | exact hsymbol _ (by decide)
      | exact hword _ (by decide)
    have htext : "( int x , y ) => x < 5u ? ( long ) - x : y".toList =
        [' '].intercalate ((head.lexemes ++ body.lexemes).map Lexeme.text) := by decide
    exact (Cursor.standsAt_ofSource _ 0).reads_spells (htext ▸ hspells)
  have hread := ProgramHead.parse_written 1 (fun p hp => (hhead p hp).1) hbound hsource
  obtain ⟨e, he⟩ : ∃ e, body.value { directory := Engine.directory {} }
      (Options.bodyScopes (WrittenParameter.numbered 1 head.params) 3) = some e :=
    ⟨_, by with_unfolding_all rfl⟩
  have hl := Options.ok_of_toOption (hread.trans (congrArg (Option.map _) he))
  obtain ⟨l', next', hl', hsame⟩ := Engine.parse_source 1 hhead hbody hbound hsource hl
  exact ⟨_, _, l', next', hl, hl', hsame⟩

end Scriptlet

import Scriptlet.Proofs.Reading.Brackets
import Scriptlet.Proofs.Token.Spelling

/-!
# Texts without a head

In front of a program, a head is tried before the names of the program are known. Then
`(a < b …` may well start with a type that has type arguments, and a reading can go some
way into the text before it turns out that there is no arrow.

In a text of names and operators with blanks between them (`Cursor.Lucid`) such a trial
cannot fail: from every place in it that a reading gets to, a further token can be read.
All readings of types come to an end there (`typeWithin_calm`), and since there is no
arrow, no head is found (`head_lucid`).
-/

namespace Scriptlet

open Text

variable {ls : List Lexeme} {w : String}

/-! ## Names and operators with blanks between them -/

/-- The symbols of operator expressions, and what is left of one of them when a closing
    angle bracket has been taken off its front. -/
def operatorSymbols : List String :=
  BinaryOp.all.map BinaryOp.symbol ++ ["!", "~", "?", ":", "(", ")", "="]

/-- A name or a symbol of operator expressions. -/
inductive Lexeme.Tame : Lexeme → Prop
  | identifier {w : String} (hw : IsName w) (hk : isKeyword w = false) : Tame (.identifier w)
  | symbol {s : String} (hs : s ∈ operatorSymbols) : Tame (.symbol s)

/-- A text of names and operators, each with a blank or the end behind it. -/
inductive Spaced : List Char → List Lexeme → Prop
  | stop {ws : List Char} (hws : ∀ b ∈ ws, isBlank b = true) : Spaced ws []
  | next {ws rest : List Char} {l : Lexeme} {ls : List Lexeme} (hws : ∀ b ∈ ws, isBlank b = true)
      (hl : l.Tame) (hrest : ∀ b ∈ rest.head?, isBlank b = true) (h : Spaced rest ls) :
      Spaced (ws ++ (l.text ++ rest)) (l :: ls)

theorem continuesName_blank {b : Char} (h : isBlank b = true) : continuesName b = false := by
  rw [continuesName, Bool.or_eq_false_iff]
  constructor
  · by_contra hc
    rw [not_isBlank_of_isLetterOrNumeral (Bool.not_eq_false _ ▸ hc)] at h
    cases h
  · rw [beq_eq_false_iff_ne]
    rintro rfl
    revert h
    decide

theorem Lexeme.Tame.fronts {l : Lexeme} (h : l.Tame) {rest : List Char}
    (hrest : ∀ b ∈ rest.head?, isBlank b = true) : l.Fronts rest := by
  cases h with
  | @identifier w hw hk =>
    have := Lexeme.fronts_word hw fun d hd => continuesName_blank (hrest d hd)
    rw [hk] at this
    exact this
  | symbol hs =>
    have hall : ∀ s ∈ operatorSymbols, s ∈ programSymbols := by decide
    exact fronts_blank (hall _ hs) hrest

theorem Spaced.spells {text : List Char} (h : Spaced text ls) : Spells text ls := by
  induction h with
  | stop hws => exact .stop hws
  | next hws hl hrest _ ih => exact .next hws (hl.fronts hrest) ih

theorem Spaced.cons_blank {b : Char} {text : List Char} (hb : isBlank b = true)
    (h : Spaced text ls) : Spaced (b :: text) ls := by
  cases h with
  | stop hws => exact .stop (List.forall_mem_cons.mpr ⟨hb, hws⟩)
  | next hws hl hrest h => exact .next (List.forall_mem_cons.mpr ⟨hb, hws⟩) hl hrest h

/-- Names and operators can be written with a blank between every two of them. -/
theorem spaced_intercalate (h : ∀ l ∈ ls, l.Tame) :
    Spaced ([' '].intercalate (ls.map Lexeme.text)) ls := by
  induction ls with
  | nil => exact .stop noBlanks
  | cons l ls ih =>
    obtain ⟨hl, hls⟩ := List.forall_mem_cons.mp h
    cases ls with
    | nil =>
      have : Spaced ([] ++ (l.text ++ [])) [l] := .next noBlanks hl (by simp) (.stop noBlanks)
      simpa using this
    | cons l' ls =>
      have hblank : isBlank ' ' = true := by decide
      have := Spaced.next noBlanks hl (by simp [hblank]) ((ih hls).cons_blank hblank)
      simpa [List.intercalate] using this

/-- The cursor stands at names and operators with blanks between them. -/
def Cursor.Lucid (c : Cursor) : Prop := ∃ text ls, c.StandsAt text ∧ Spaced text ls

/-- What is read next in a text of names and operators. -/
theorem Cursor.Lucid.read {c : Cursor} (h : c.Lucid) :
    ∃ t d, c.read true = (.ok t, d) ∧ d.Lucid ∧ d.remaining.length ≤ c.remaining.length ∧
      (t.isEof = true ∨ ∃ l : Lexeme, l.Tame ∧ (∃ start, t = l.token start) ∧
        d.remaining.length < c.remaining.length) := by
  obtain ⟨text, ls, hc, hs⟩ := h
  cases hs with
  | stop hws =>
    obtain ⟨t, d, hread, ht, hd⟩ := hc.read_end hws
    refine ⟨t, d, hread, ⟨[], [], hd, .stop (by simp)⟩, ?_, .inl ht⟩
    rw [hd.remaining]
    exact Nat.zero_le _
  | next hws hl hrest hs =>
    obtain ⟨d, hread, hd⟩ := hc.read_lexeme hws (hl.fronts hrest)
    have hlt : d.remaining.length < c.remaining.length := by
      rw [hd.remaining, hc.remaining]
      have := List.length_pos_iff.mpr (hl.fronts hrest).notEmpty
      simp only [List.length_append]
      omega
    exact ⟨_, d, hread, ⟨_, _, hd, hs⟩, Nat.le_of_lt hlt, .inr ⟨_, hl, ⟨_, rfl⟩, hlt⟩⟩

/-- A symbol or word that is no operator does not occur. -/
theorem Lexeme.Tame.is {l : Lexeme} (h : l.Tame) (hw : w ∉ operatorSymbols)
    (start : Nat) : (l.token start).is w = false := by
  cases h with
  | identifier => rfl
  | @symbol s hs =>
    rw [Lexeme.token_is_symbol, beq_eq_false_iff_ne]
    rintro rfl
    exact hw hs

namespace Reading

variable {c : Cursor} {t : Token} {inner : Reading (Option Ty)}

/-! ## Readings that do not fail -/

/-- A reading that has gone on in a text of names and operators. -/
structure Onward (p q : Position) : Prop where
  lucid : q.cursor.Lucid
  scopes : q.scopes = p.scopes
  le : q.cursor.remaining.length ≤ p.cursor.remaining.length

theorem Onward.refl {p : Position} (h : p.cursor.Lucid) : Onward p p := ⟨h, rfl, Nat.le_refl _⟩

theorem Onward.trans {p q r : Position} (h : Onward p q) (h' : Onward q r) : Onward p r :=
  ⟨h'.lucid, h'.scopes.trans h.scopes, Nat.le_trans h'.le h.le⟩

/-- A reading that comes to an end wherever it starts in a text of names and operators. -/
def Calm {α : Type} (r : Reading α) : Prop :=
  ∀ p : Position, p.cursor.Lucid → ∃ a q, r p = .ok a q ∧ Onward p q

variable {α β : Type} {p : Position} {d : Directory}

theorem Calm.pure (a : α) : Calm (Pure.pure a : Reading α) := fun p h => ⟨a, p, rfl, .refl h⟩

theorem Calm.bind {r : Reading α} {k : α → Reading β} (hr : Calm r) (hk : ∀ a, Calm (k a)) :
    Calm (r >>= k) := by
  intro p h
  obtain ⟨a, q, ha, hq⟩ := hr p h
  obtain ⟨b, q', hb, hq'⟩ := hk a q hq.lucid
  exact ⟨b, q', (bind_ok ha).trans hb, hq.trans hq'⟩

theorem Calm.ite {c : Prop} [Decidable c] {r r' : Reading α} (hr : Calm r) (hr' : Calm r') :
    Calm (if c then r else r') := by
  split
  · exact hr
  · exact hr'

/-- A trial that declines has moved nothing. -/
theorem Calm.attempt_none {r : Reading (Option α)} [Plain r] (hr : Calm r)
    (h : p.cursor.Lucid) :
    ∃ x q, attempt r p = .ok x q ∧ Onward p q ∧ (x = none → q = p) := by
  obtain ⟨x, ⟨c, s⟩, hx, hq⟩ := hr p h
  obtain rfl : s = p.scopes := hq.scopes
  cases x with
  | none => exact ⟨none, p, Reading.attempt_none hx, .refl h, fun _ => rfl⟩
  | some a => exact ⟨some a, _, attempt_some hx, hq, nofun⟩

theorem Calm.attempt {r : Reading (Option α)} [Plain r] (hr : Calm r) :
    Calm (attempt r) := by
  intro p h
  obtain ⟨x, q, hx, hq, -⟩ := hr.attempt_none h
  exact ⟨x, q, hx, hq⟩

/-- A repetition whose first round is its last one. -/
theorem calm_iterate {round : α → Reading (Round α β)} {a : α}
    (h : ∀ p : Position, p.cursor.Lucid → ∃ b q, round a p = .ok (.done b) q ∧ Onward p q) :
    Calm (iterate round a) := by
  intro p hp
  obtain ⟨b, q, hb, hq⟩ := h p hp
  exact ⟨b, q, iterate_done hb, hq⟩

/-! ## Tokens -/

theorem token_lucid (h : p.cursor.Lucid) :
    ∃ t q, token p = .ok t q ∧ Onward p q ∧ (t.isEof = true ∨ ∃ l : Lexeme, l.Tame ∧
      (∃ start, t = l.token start) ∧ q.cursor.remaining.length < p.cursor.remaining.length) := by
  obtain ⟨t, c, hread, hc, hle, ht⟩ := h.read
  exact ⟨t, ⟨c, p.scopes⟩, token_ok hread, ⟨hc, rfl, hle⟩, ht⟩

theorem peek_lucid (h : p.cursor.Lucid) :
    ∃ t, p.cursor.peek = .ok t ∧
      (t.isEof = true ∨ ∃ l : Lexeme, l.Tame ∧ ∃ start, t = l.token start) := by
  obtain ⟨t, c, hread, -, -, ht⟩ := h.read
  refine ⟨t, by rw [Cursor.peek, hread], ht.imp id ?_⟩
  rintro ⟨l, hl, hstart, -⟩
  exact ⟨l, hl, hstart⟩

theorem calm_token : Calm token := by
  intro p h
  obtain ⟨t, q, ht, hq, -⟩ := token_lucid h
  exact ⟨t, q, ht, hq⟩

theorem calm_peek : Calm peek := by
  intro p h
  obtain ⟨t, ht, -⟩ := peek_lucid h
  exact ⟨t, p, peek_ok ht, .refl h⟩

theorem calm_peekIs (w : String) : Calm (peekIs w) := calm_peek.bind fun _ => .pure _

theorem calm_accept (w : String) : Calm (accept w) := by
  intro p h
  obtain ⟨t, c, hread, hc, hle, -⟩ := h.read
  cases ht : t.is w with
  | true => exact ⟨true, ⟨c, p.scopes⟩, accept_true hread ht, ⟨hc, rfl, hle⟩⟩
  | false => exact ⟨false, p, accept_false (by rw [Cursor.peek, hread]) ht, .refl h⟩

/-- What is no operator is not found. -/
theorem is_lucid (h : p.cursor.Lucid) (hw : w ∉ operatorSymbols) :
    ∃ t, p.cursor.peek = .ok t ∧ t.is w = false := by
  obtain ⟨t, hp, ht⟩ := peek_lucid h
  refine ⟨t, hp, ?_⟩
  rcases ht with ht | ⟨l, hl, start, rfl⟩
  · exact Token.is_of_isEof ht w
  · exact hl.is hw start

theorem accept_lucid (h : p.cursor.Lucid) (hw : w ∉ operatorSymbols) :
    accept w p = .ok false p := by
  obtain ⟨t, hp, ht⟩ := is_lucid h hw
  exact accept_false hp ht

/-- Whether a token is longer than a closing angle bracket that it starts with. -/
def startsWithAngle (t : Token) : Bool :=
  t.kind.isSymbol && decide (">".length < t.lexeme.length) && startsWith ">".toList t.lexeme

theorem readSymbolFront_short (hp : c.peek = .ok t)
    (ht : startsWithAngle t = false) : c.readSymbolFront ">" = c.readSymbol ">" := by
  rw [Cursor.readSymbolFront, hp]
  exact if_neg (Bool.eq_false_iff.mp ht)

theorem readSymbolFront_long (hp : c.peek = .ok t)
    (ht : startsWithAngle t = true) : c.readSymbolFront ">" =
      (.ok true, { c with place := ⟨t.start - c.base, byteSize ">".toList⟩ }) := by
  rw [Cursor.readSymbolFront, hp]
  exact if_pos ht

/-- What is left of an operator, when a closing angle bracket has been taken off its front, is
    an operator again. -/
theorem readSymbolFront_lucid (h : c.Lucid) (hp : c.peek = .ok t) (ht : startsWithAngle t = true) :
    Cursor.Lucid { c with place := ⟨t.start - c.base, byteSize ">".toList⟩ } ∧
      (Cursor.remaining { c with place := ⟨t.start - c.base, byteSize ">".toList⟩ }).length ≤
        c.remaining.length := by
  obtain ⟨text, ls, hc, hs⟩ := h
  cases hs with
  | stop hws =>
    obtain ⟨t', d, hread, heof, -⟩ := hc.read_end hws
    obtain rfl : t' = t := by
      rw [Cursor.peek, hread] at hp
      exact Except.ok.inj hp
    obtain ⟨kind, lexeme, start⟩ := t'
    cases kind with
    | eof => cases ht
    | _ => cases heof
  | @next ws rest l ls hws hl hrest hs =>
    obtain ⟨d, hread, -⟩ := hc.read_lexeme hws (hl.fronts hrest)
    obtain rfl : l.token (c.base + (c.place.index + c.place.length + byteSize ws)) = t := by
      rw [Cursor.peek, hread] at hp
      exact Except.ok.inj hp
    cases hl with
    | identifier => cases ht
    | @symbol o ho =>
      have hall : ∀ o ∈ operatorSymbols, startsWithAngle ((Lexeme.symbol o).token 0) = true →
          ∃ m ∈ operatorSymbols, o.toList = '>' :: m.toList := by decide
      obtain ⟨m, hm, hom⟩ := hall o ho ht
      obtain ⟨done, hsource, hplace⟩ := hc.split
      have hstands : Cursor.StandsAt { c with
          place := ⟨c.place.index + c.place.length + byteSize ws, byteSize ">".toList⟩ }
          (m.toList ++ rest) := by
        refine ⟨⟨done ++ ws ++ ['>'], ?_, ?_⟩, hc.readers, hc.symbols⟩
        · rw [hsource, Lexeme.symbol_text, hom]
          simp only [List.append_assoc, List.cons_append, List.nil_append]
        · rw [byteSize_append, byteSize_append, ← hplace]
          rfl
      rw [Lexeme.token_start, Nat.add_sub_cancel_left]
      refine ⟨⟨_, _, hstands, .next noBlanks (.symbol hm) hrest hs⟩, ?_⟩
      rw [hstands.remaining, hc.remaining, Lexeme.symbol_text, hom]
      simp only [List.length_append, List.length_cons]
      omega

theorem calm_acceptFront : Calm (acceptFront ">") := by
  rintro ⟨c, s⟩ h
  obtain ⟨t, hp, -⟩ := peek_lucid h
  cases ht : startsWithAngle t with
  | true =>
    obtain ⟨hl, hle⟩ := readSymbolFront_lucid h hp ht
    exact ⟨true, _, onCursor_ok (readSymbolFront_long hp ht), ⟨hl, rfl, hle⟩⟩
  | false =>
    obtain ⟨b, q, hb, hq⟩ := calm_accept ">" ⟨c, s⟩ h
    refine ⟨b, q, ?_, hq⟩
    rw [← hb]
    unfold acceptFront accept onCursor
    dsimp only
    rw [readSymbolFront_short hp ht]

/-! ## Types -/

/-- Whether a name is declared is seen without moving. -/
theorem declaresNext_lucid (h : p.cursor.Lucid) : ∃ b, declaresNext p = .ok b p := by
  obtain ⟨t, hp, -⟩ := peek_lucid h
  rw [declaresNext, bind_ok (peek_ok hp)]
  split
  · obtain ⟨t', ⟨c, s⟩, ht', hq, -⟩ := token_lucid h
    obtain rfl : s = p.scopes := hq.scopes
    obtain ⟨t'', hp'', -⟩ := peek_lucid hq.lucid
    have hahead := ahead_ok (r := token >>= fun _ => peek)
      ((bind_ok ht').trans (peek_ok hp''))
    exact ⟨_, bind_ok hahead⟩
  · exact ⟨false, rfl⟩

/-- A mark that is read takes a character; otherwise nothing has moved. -/
theorem missingMark_lucid (h : p.cursor.Lucid) :
    ∃ b q, missingMark p = .ok b q ∧ Onward p q ∧
      (b = true → q.cursor.remaining.length < p.cursor.remaining.length) ∧
      (b = false → q = p) := by
  obtain ⟨t, c, hread, hc, hle, hend⟩ := h.read
  have hp : p.cursor.peek = .ok t := by rw [Cursor.peek, hread]
  rw [missingMark, bind_ok (peekIs_ok "?" hp)]
  cases hmark : t.is "?" with
  | false => exact ⟨false, p, rfl, .refl h, by rintro ⟨⟩, fun _ => rfl⟩
  | true =>
    have hlt : c.remaining.length < p.cursor.remaining.length := by
      rcases hend with heof | ⟨l, -, -, hlt⟩
      · rw [Token.is_of_isEof heof] at hmark
        cases hmark
      · exact hlt
    -- whatever stands behind the mark is only looked at
    obtain ⟨t', hp', -⟩ := peek_lucid (p := ⟨c, p.scopes⟩) hc
    obtain ⟨b, hb⟩ := declaresNext_lucid (p := ⟨c, p.scopes⟩) hc
    have htrial : markTrial p =
        .ok (if closesType t' || b then some () else none) ⟨c, p.scopes⟩ := by
      rw [markTrial, bind_ok (token_ok hread), bind_ok (peek_ok hp'), bind_ok hb]
      rfl
    cases hcond : closesType t' || b with
    | true =>
      rw [hcond] at htrial
      exact ⟨true, ⟨c, p.scopes⟩, bind_ok (attempt_some htrial), ⟨hc, rfl, hle⟩, fun _ => hlt,
        by rintro ⟨⟩⟩
    | false =>
      rw [hcond] at htrial
      exact ⟨false, p, bind_ok (attempt_none htrial), .refl h, by rintro ⟨⟩, fun _ => rfl⟩

/-- Marks behind a type are read one after another. -/
theorem calm_typeMarks (type : Ty) : Calm (typeMarks type) := by
  intro p h
  rw [typeMarks, iterate_eq]
  generalize hn : p.cursor.remaining.length + 1 = n
  have hlt : p.cursor.remaining.length < n := by omega
  clear hn
  induction n generalizing p type with
  | zero => omega
  | succ n ih =>
    obtain ⟨b, q, hb, hq, hless, hstay⟩ := missingMark_lucid h
    cases b with
    | true =>
      have := hless rfl
      rw [iterateWithin_again n (bind_ok hb)]
      obtain ⟨type', q', ht, hq'⟩ := ih type.orNull q hq.lucid (by omega)
      exact ⟨type', q', ht, hq.trans hq'⟩
    | false =>
      obtain rfl := hstay rfl
      obtain ⟨t, hp, ht⟩ := is_lucid h (by decide : "[" ∉ operatorSymbols)
      exact ⟨type, q, iterateWithin_done n ((bind_ok hb).trans
        (bind_ok (arrayBrackets_absent hp ht))), .refl h⟩

theorem calm_typeArguments [Plain inner] (hinner : Calm inner) :
    Calm (typeArguments inner) := by
  refine (calm_peekIs "<").bind fun _ => .ite (.attempt (calm_token.bind fun _ => ?_)) (.pure _)
  refine calm_iterate fun p h => ?_
  obtain ⟨x, q, hx, hq⟩ := hinner p h
  cases x with
  | none => exact ⟨none, q, bind_ok hx, hq⟩
  | some t =>
    obtain ⟨b, q', hb, hq'⟩ := calm_acceptFront q hq.lucid
    have hcomma : accept "," q = .ok false q := accept_lucid hq.lucid (by decide)
    cases b with
    | true | false =>
      exact ⟨_, q', (bind_ok hx).trans ((bind_ok hcomma).trans (bind_ok hb)), hq.trans hq'⟩

/-- The name of a type ends where the cursor has got to. -/
theorem typeNameAfter_lucid [Plain inner] (hinner : Calm inner) (first : Token) (h : p.cursor.Lucid) :
    ∃ x q, typeNameAfter d inner first p = .ok x q ∧ Onward p q ∧
      ∀ t behind, x = some (t, behind) → behind = q.cursor.place := by
  have hbest (part : NamePart) (args : List Ty) (q : Position) (hpart : part.best = none) (t : Ty)
      (behind : Place) (hx : ((d.instantiate? part.name args).map fun t => (t, q.cursor.place)).or
        part.best = some (t, behind)) : behind = q.cursor.place := by
    rw [hpart, Option.or_none] at hx
    obtain ⟨t', -, heq⟩ := Option.map_eq_some_iff.mp hx
    exact (Prod.mk.inj heq).2.symm
  obtain ⟨args, q, ha, hq⟩ := calm_typeArguments hinner p h
  rw [typeNameAfter_eq]
  cases args with
  | some args =>
    exact ⟨_, q, iterate_done (bind_ok ha), hq, hbest ⟨first.word, none⟩ args q rfl⟩
  | none =>
    have hpoint : accept "." q = .ok false q := accept_lucid hq.lucid (by decide)
    have hnext : nextPart q = .ok none q := attempt_none (bind_ok hpoint)
    refine ⟨_, q, iterate_done ((bind_ok ha).trans ?_), hq, hbest ⟨first.word, none⟩ [] q rfl⟩
    exact bind_ok hnext

theorem calm_typeAfterWith [Plain inner] (hinner : Calm inner) (first : Token) :
    Calm (typeAfterWith d inner first) := by
  intro p h
  obtain ⟨x, q, hx, hq, hplace⟩ := typeNameAfter_lucid (d := d) hinner first h
  rw [typeAfterWith, bind_ok (rfl : here p = .ok p.cursor.place p), bind_ok hx]
  rcases x with _ | ⟨t, behind⟩
  · obtain ⟨c, s⟩ := q
    obtain rfl : s = p.scopes := hq.scopes
    have hback := moveTo_ok (s := p.scopes) (Plain.balanced p none _ hx).1
    exact ⟨none, p, bind_ok hback, .refl h⟩
  · obtain rfl := hplace t behind rfl
    obtain ⟨t', q', ht', hq'⟩ := calm_typeMarks t q hq.lucid
    refine ⟨some t', q', ?_, hq.trans hq'⟩
    refine (bind_ok (a := ()) (q := q) (by rfl)).trans ?_
    exact Gives.map (x := some t') ht'

theorem calm_typeWithin (k : Nat) : Calm (typeWithin d k) := by
  induction k with
  | zero => exact .pure none
  | succ k ih =>
    refine calm_peek.bind fun t => .ite (.pure _) ?_
    refine Calm.bind (fun p h => ⟨_, p, namesValue_ok t.word, .refl h⟩) fun _ => .ite (.pure _) ?_
    exact calm_peek.bind fun _ => 
      .ite (.attempt (calm_token.bind fun first => calm_typeAfterWith ih first)) (.pure _)

theorem calm_typeAfter? (first : Token) : Calm (typeAfter? d first) := by
  refine Calm.bind (fun p h => ⟨_, p, rfl, .refl h⟩) fun k => ?_
  exact calm_typeAfterWith (calm_typeWithin k) first

/-! ## Heads -/

theorem calm_parameter : Calm (parameter d) := by
  refine calm_token.bind fun first => .ite (.pure _) (calm_peek.bind fun next => .ite (.pure _) ?_)
  refine (calm_typeAfter? first).bind fun x => ?_
  cases x with
  | none => exact .pure _
  | some t => exact calm_token.bind fun name => .pure _

theorem calm_parameters : Calm (parameters d) := by
  refine (calm_accept ")").bind fun _ => .ite (.pure _) (calm_iterate fun p h => ?_)
  obtain ⟨x, q, hx, hq⟩ := calm_parameter (d := d) p h
  cases x with
  | none => exact ⟨none, q, bind_ok hx, hq⟩
  | some param =>
    obtain ⟨b, q', hb, hq'⟩ := calm_accept ")" q hq.lucid
    have hcomma : accept "," q = .ok false q := accept_lucid hq.lucid (by decide)
    cases b with
    | true | false =>
      exact ⟨_, q', (bind_ok hx).trans ((bind_ok hcomma).trans (bind_ok hb)), hq.trans hq'⟩

/-- Where there is no arrow, there is no head. -/
theorem headRest_lucid (h : p.cursor.Lucid) : headRest d p = .ok none p := by
  obtain ⟨c, s⟩ := p
  obtain ⟨x, ⟨c', s'⟩, hx, hq⟩ := calm_parameters (d := d) ⟨c, s⟩ h
  obtain rfl : s' = s := hq.scopes
  refine attempt_none (d := c') ?_
  cases x with
  | none => exact bind_ok hx
  | some params =>
    have harrow : accept "=>" ⟨c', s'⟩ = .ok false ⟨c', s'⟩ := accept_lucid hq.lucid (by decide)
    exact (bind_ok hx).trans (bind_ok harrow)

theorem head_lucid (h : p.cursor.Lucid) : head d p = .ok none p := by
  obtain ⟨c, s⟩ := p
  obtain ⟨t, c', hread, hc', -, -⟩ := h.read
  have hp : c.peek = .ok t := by rw [Cursor.peek, hread]
  rw [head, bind_ok (peek_ok hp)]
  split
  · have harrow : accept "=>" ⟨c', s⟩ = .ok false ⟨c', s⟩ := accept_lucid hc' (by decide)
    exact attempt_none
      ((bind_ok (token_ok hread)).trans (bind_ok harrow))
  · split
    · exact attempt_none
        ((bind_ok (token_ok hread)).trans (headRest_lucid hc'))
    · rfl

end Reading

end Scriptlet

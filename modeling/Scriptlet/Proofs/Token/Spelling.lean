import Mathlib.Data.List.Basic
import Scriptlet.Expr.Operator
import Scriptlet.Proofs.Token.Sequence

/-!
# Texts that are read as given tokens

A lexeme stands in front of the rest of a text (`Lexeme.Fronts`) if it is the token at the
front of the two together. For a word that depends on the next character only
(`Lexeme.fronts_word`), and for a symbol on whether the next character makes a longer one
(`Lexeme.fronts_symbol`).

A text that spells lexemes, with blanks in front of them or not (`Spells`), is read as tokens
with these lexemes up to its end (`Cursor.StandsAt.reads_spells`).
-/

namespace Scriptlet

open Text

variable {c : Char} {w : String} {rest cs : List Char} {offset : Nat}

/-! ## Classes of characters -/

/-- The spans of code points at which a property holds that changes at these distances from `start`
    on. -/
def spans (start : Nat) : List Nat → List (Nat × Nat)
  | gap :: length :: table =>
    (start + gap, start + gap + length) :: spans (start + gap + length) table
  | _ => []

theorem mem_spans {code start : Nat} {table : List Nat} (heven : table.length % 2 = 0)
    (h : changesBelow code table = true) :
    ∃ s ∈ spans start table, s.1 ≤ start + code ∧ start + code < s.2 := by
  fun_induction spans start table generalizing code with
  | case1 start gap length table ih =>
    simp only [changesBelow] at h
    by_cases hgap : code < gap
    · simp [hgap] at h
    by_cases hlength : code - gap < length
    · exact ⟨_, .head _, by omega, by omega⟩
    · have htail : changesBelow (code - gap - length) table = true := by
        simpa [hgap, hlength] using h
      obtain ⟨s, hs, hspan⟩ := ih (by simp only [List.length_cons] at heven; omega) htail
      exact ⟨s, .tail _ hs, by omega⟩
  | case2 table start hpairs =>
    match table, hpairs with
    | [], _ => cases h
    | [_], _ => cases heven
    | a :: b :: table, hpairs => exact absurd rfl (hpairs a b table)

/-- No letter or numeral is a blank. -/
theorem not_isBlank_of_isLetterOrNumeral (h : isLetterOrNumeral c = true) : isBlank c = false := by
  by_contra hblank
  obtain ⟨s, hs, hlo, hhi⟩ := mem_spans (by decide) (Bool.not_eq_false _ ▸ hblank)
  have hall : ∀ s ∈ spans 0 whiteSpaceChanges, ∀ code ∈ List.range' s.1 (s.2 - s.1),
      (changesBelow code alphabeticChanges || changesBelow code numericChanges) = false := by
    decide +kernel
  have := hall s hs c.toNat (by rw [List.mem_range'_1]; omega)
  rw [isLetterOrNumeral, isLetter, this] at h
  cases h

theorem toNat_mem_of_isDigit (h : c.isDigit = true) : c.toNat ∈ List.range' 48 10 := by
  simp only [Char.isDigit, ge_iff_le, Bool.and_eq_true, decide_eq_true_eq,
    UInt32.le_iff_toNat_le] at h
  rw [List.mem_range'_1]
  exact ⟨h.1, Nat.lt_succ_of_le h.2⟩

/-- No letter is a digit. -/
theorem not_isDigit_of_isLetter (h : isLetter c = true) : c.isDigit = false := by
  by_contra hdigit
  have hall : ∀ code ∈ List.range' 48 10, changesBelow code alphabeticChanges = false := by
    decide
  rw [isLetter, hall _ (toNat_mem_of_isDigit (Bool.not_eq_false _ ▸ hdigit))] at h
  cases h

/-! ## The front of a text -/

/-- A lexeme is the token at the front of a text that goes on behind it. -/
structure Lexeme.Fronts (l : Lexeme) (rest : List Char) : Prop where
  notBlank : ∀ c ∈ l.text.head?, isBlank c = false
  notEmpty : l.text ≠ []
  notComment : l.kind.isComment = false
  front : ∀ offset, Cursor.front Reader.standard .standard offset (l.text ++ rest) =
    .ok (l.token offset)

/-! ## Words -/

/-- Whether a character can stand in a name behind its first. -/
def continuesName (d : Char) : Bool := isLetterOrNumeral d || d == '_'

/-- Whether a name can start with a character. -/
def startsName (c : Char) : Bool := isLetter c || c == '_' || c == '$'

/-- A word is a name if it is taken as a whole where names are read. -/
def IsName (w : String) : Prop := ∃ k, readName w.toList = some (w.toList.length, k)

/-- A word that can name a variable. -/
structure Identifier where
  word : String
  isName : IsName word
  notReserved : isKeyword word = false

theorem readName_cons (c : Char) (cs : List Char) :
    readName (c :: cs) =
      if startsName c && !(c == '$' && (cs.takeWhile continuesName).isEmpty) then
        some ((cs.takeWhile continuesName).length + 1,
          if isKeyword (String.ofList (c :: cs.takeWhile continuesName)) then .keyword
          else .identifier)
      else none := rfl

/-- The characters of a name. -/
theorem IsName.chars (h : IsName w) :
    ∃ c cs, w.toList = c :: cs ∧ startsName c = true ∧ cs.all continuesName = true ∧
      (c = '$' → cs ≠ []) := by
  obtain ⟨k, hk⟩ := h
  match hw : w.toList with
  | [] =>
    rw [hw] at hk
    cases hk
  | c :: cs =>
    rw [hw, readName_cons] at hk
    split at hk
    · rename_i hc
      rw [Bool.and_eq_true] at hc
      have hlen : (cs.takeWhile continuesName).length = cs.length := by
        have := congrArg Prod.fst (Option.some.inj hk)
        simpa using this
      have htake : cs.takeWhile continuesName = cs :=
        (List.takeWhile_prefix continuesName).eq_of_length hlen
      refine ⟨c, cs, rfl, hc.1, ?_, ?_⟩
      · rw [← htake]
        exact List.all_takeWhile
      · rintro rfl rfl
        simp at hc
    · cases hk

/-- Whether a word is a letter or underscore with letters, numerals and underscores behind it. -/
def isPlainName (w : String) : Bool :=
  match w.toList with
  | [] => false
  | c :: cs => startsName c && c != '$' && cs.all continuesName

theorem IsName.of_isPlainName (h : isPlainName w = true) : IsName w := by
  unfold isPlainName at h
  match hw : w.toList with
  | [] =>
    rw [hw] at h
    cases h
  | c :: cs =>
    rw [hw] at h
    simp only [Bool.and_eq_true, bne_iff_ne] at h
    obtain ⟨⟨hc, hdollar⟩, hcs⟩ := h
    have htake : cs.takeWhile continuesName = cs := by
      rw [← List.append_nil cs, List.takeWhile_append_of_pos (List.all_eq_true.mp hcs)]
      rfl
    refine ⟨if isKeyword (String.ofList (c :: cs)) then .keyword else .identifier, ?_⟩
    rw [hw, readName_cons, htake, hc, if_pos (by simpa using .inl hdollar)]
    rfl

/-- A name is read where no character continues it. -/
theorem readName_append (h : IsName w) (hrest : ∀ d ∈ rest.head?, continuesName d = false) :
    readName (w.toList ++ rest) =
      some (w.toList.length, if isKeyword w then .keyword else .identifier) := by
  obtain ⟨c, cs, hw, hc, hcs, hdollar⟩ := h.chars
  have htake : (cs ++ rest).takeWhile continuesName = cs := by
    rw [List.takeWhile_append_of_pos (by simpa using hcs)]
    cases rest with
    | nil => simp
    | cons d rest => simp [hrest d (by simp)]
  have hword : String.ofList (c :: cs) = w := by rw [← hw, String.ofList_toList]
  rw [hw, List.cons_append, readName_cons, htake, hword, hc]
  rw [if_pos]
  · rfl
  · cases cs with
    | nil =>
      have : c ≠ '$' := fun h => hdollar h rfl
      simp [this]
    | cons d cs => simp

theorem startsName_ne {d : Char} (h : startsName c = true) (hd : startsName d = false) : c ≠ d := by
  rintro rfl
  rw [h] at hd
  cases hd

theorem not_isDigit_of_startsName (h : startsName c = true) : c.isDigit = false := by
  simp only [startsName, Bool.or_eq_true, beq_iff_eq] at h
  rcases h with (h | rfl) | rfl
  · exact not_isDigit_of_isLetter h
  · rfl
  · rfl

theorem not_isBlank_of_startsName (h : startsName c = true) : isBlank c = false := by
  simp only [startsName, Bool.or_eq_true, beq_iff_eq] at h
  rcases h with (h | rfl) | rfl
  · exact not_isBlank_of_isLetterOrNumeral (by simp [isLetterOrNumeral, h])
  · decide
  · decide

/-! ## Readers that decline -/

theorem readComment_none
    (h : c = '/' → ∀ d ∈ cs.head?, d ≠ '/' ∧ d ≠ '*') : readComment offset (c :: cs) = .ok none := by
  unfold readComment
  split
  · rename_i heq
    cases heq
    exact absurd rfl (h rfl '/' (by simp)).1
  · rename_i heq
    cases heq
    exact absurd rfl (h rfl '*' (by simp)).2
  · rfl

theorem readNumber_none (hdigit : c.isDigit = false)
    (hpoint : c ≠ '.') : readNumber offset (c :: cs) = .ok none := by
  have hfraction : fractionRun (c :: cs) = 0 := by
    unfold fractionRun
    split
    · rename_i heq
      cases heq
      exact absurd rfl hpoint
    · rfl
  have hstart : startsWithDigit (c :: cs) = false := hdigit
  unfold readNumber
  rw [hfraction, hstart]
  rfl

theorem readString_none (h : Delimiters.of? cs = none) : readString offset cs = .ok none := by
  unfold readString
  rw [h]
  rfl

theorem readChar_none (h : c ≠ '\'') : readChar offset (c :: cs) = .ok none := by
  unfold readChar
  split
  · rename_i heq
    cases heq
    exact absurd rfl h
  · rfl

/-- Where there is no comment, number, string or character, there may be a name. -/
theorem ask_eq_readName
    (hcomment : c = '/' → ∀ d ∈ cs.head?, d ≠ '/' ∧ d ≠ '*') (hdigit : c.isDigit = false)
    (hpoint : c ≠ '.') (hstring : Delimiters.of? (c :: cs) = none) (hquote : c ≠ '\'') :
    Cursor.ask offset (c :: cs) Reader.standard = .ok (readName (c :: cs)) := by
  simp only [Reader.standard, Cursor.ask, Reader.read, readComment_none hcomment,
    readNumber_none hdigit hpoint, readString_none hstring, readChar_none hquote]
  cases readName (c :: cs) <;> rfl

theorem delimiters_none (hdollar : c ≠ '$') (hverbatim : c ≠ '@')
    (hdouble : c ≠ '"') : Delimiters.of? (c :: cs) = none := by
  unfold Delimiters.of?
  split <;> rename_i heq
  all_goals try rfl
  all_goals obtain ⟨rfl, rfl⟩ := List.cons.inj heq
  all_goals contradiction

/-- A name does not start a string: behind a dollar sign stands no quote. -/
theorem delimiters_of_name (hc : startsName c = true)
    (hdollar : c = '$' → ∀ d ∈ cs.head?, d ≠ '"' ∧ d ≠ '@') : Delimiters.of? (c :: cs) = none := by
  by_cases hd : c = '$'
  · subst hd
    unfold Delimiters.of?
    split <;> rename_i heq
    all_goals try rfl
    all_goals obtain ⟨heq, rfl⟩ := List.cons.inj heq
    · exact absurd rfl (hdollar rfl '"' (by simp)).1
    · exact absurd rfl (hdollar rfl '@' (by simp)).2
    · cases heq
    · exact absurd rfl (hdollar rfl '"' (by simp)).1
    all_goals cases heq
  · exact delimiters_none hd (startsName_ne hc (by decide)) (startsName_ne hc (by decide))

namespace Lexeme

/-- A name is read where no character continues it. -/
theorem fronts_word (h : IsName w) (hrest : ∀ d ∈ rest.head?, continuesName d = false) :
    Fronts ⟨if isKeyword w then .keyword else .identifier, w.toList⟩ rest := by
  obtain ⟨c, cs, hw, hc, hcs, hdollar⟩ := h.chars
  have hask (offset : Nat) : Cursor.ask offset (w.toList ++ rest) Reader.standard =
      .ok (some (w.toList.length, if isKeyword w then .keyword else .identifier)) := by
    have hstring : Delimiters.of? (c :: (cs ++ rest)) = none := by
      refine delimiters_of_name hc fun hd d hmem => ?_
      -- behind the dollar sign the name goes on
      match cs, hdollar hd with
      | e :: cs, _ =>
        obtain rfl : e = d := by simpa using hmem
        have he : continuesName e = true := by simp at hcs; exact hcs.1
        constructor
        · rintro rfl
          revert he
          decide
        · rintro rfl
          revert he
          decide
    rw [← readName_append h hrest, hw, List.cons_append]
    refine ask_eq_readName (fun heq => ?_) (not_isDigit_of_startsName hc) ?_ hstring ?_
    · exact absurd heq (startsName_ne hc (by decide))
    · exact startsName_ne hc (by decide)
    · exact startsName_ne hc (by decide)
  refine ⟨?_, ?_, ?_, fun offset => ?_⟩
  · rw [hw]
    intro d hd
    obtain rfl : c = d := by simpa using hd
    exact not_isBlank_of_startsName hc
  · rw [hw]
    exact List.cons_ne_nil _ _
  · cases isKeyword w <;> rfl
  · unfold Cursor.front
    rw [hask offset]
    simp [bind, Except.bind, pure, Except.pure, Lexeme.token]

end Lexeme

/-! ## Symbols -/

namespace SymbolTree

/-- The characters that continue a symbol to a longer one. -/
def continuations (t : SymbolTree) (s : List Char) : List Char :=
  ((t.descend? s).map fun u => u.branches.map Prod.fst).getD []

/-- A symbol is the longest one at the front of a text, if the next character does not
    continue it. -/
theorem longestMatch?_append {t : SymbolTree} {s : List Char} (hs : s ≠ []) (h : t.Spells s)
    (hrest : ∀ d ∈ rest.head?, d ∉ t.continuations s) :
    t.longestMatch? (s ++ rest) = some (byteSize s) := by
  refine IsLongest.longestMatch? ⟨hs, List.prefix_append s rest, h, fun r hr hspells => ?_⟩
  rcases List.prefix_or_prefix_of_prefix hr (List.prefix_append s rest) with hle | ⟨q, rfl⟩
  · exact hle
  -- a longer one would go on along a branch behind this one
  cases q with
  | nil => simp
  | cons d q =>
    obtain ⟨u, hu, -⟩ := h
    obtain ⟨v, hv, -⟩ := hspells
    rw [descend?_append, hu, Option.bind_some] at hv
    obtain ⟨w, hw, -⟩ := Option.bind_eq_some_iff.1 hv
    obtain ⟨q', rfl⟩ := (List.prefix_append_right_inj s).1 hr
    obtain ⟨_, _, hbranches, -⟩ := List.lookup_eq_some_iff.1 hw
    exact absurd (by simp [continuations, hu, hbranches]) (hrest d rfl)

end SymbolTree

namespace Lexeme

variable {s : String} {rest : List Char}

/-- The first characters of symbols other than a point. -/
def symbolStarts : List Char :=
  ['(', ')', '[', ']', ',', ';', ':', '?', '=', '!', '<', '>', '+', '-', '*', '/', '%', '&', '|',
    '^', '~']

/-- A symbol is read where no character continues it, and does not make it a comment. -/
theorem fronts_symbol (hmem : s ∈ symbols) (hstart : s.toList.head?.any (· ∈ symbolStarts) = true)
    (hrest : ∀ d ∈ rest.head?, d ∉ SymbolTree.standard.continuations s.toList)
    (hslash : s.toList.head? = some '/' →
      ∀ d ∈ (s.toList.tail ++ rest).head?, d ≠ '/' ∧ d ≠ '*') : (symbol s).Fronts rest := by
  obtain ⟨c, hhead, hc⟩ := (Option.any_eq_true _ _).1 hstart
  replace hc : c ∈ symbolStarts := of_decide_eq_true hc
  obtain ⟨cs, hs⟩ := List.head?_eq_some_iff.1 hhead
  have hask (offset : Nat) :
      Cursor.ask offset (s.toList ++ rest) Reader.standard = .ok none := by
    have hall : ∀ c ∈ symbolStarts, c.isDigit = false ∧ c ≠ '.' ∧ c ≠ '\'' ∧ startsName c = false ∧
        c ≠ '$' ∧ c ≠ '@' ∧ c ≠ '"' := List.forall_iff_forall_mem.mp (by decide)
    obtain ⟨hdigit, hpoint, hquote, hname, hdollar, hverbatim, hdouble⟩ := hall c hc
    have hcomment : c = '/' → ∀ d ∈ (cs ++ rest).head?, d ≠ '/' ∧ d ≠ '*' := by
      rintro rfl
      simpa [hs] using hslash hhead
    rw [hs, List.cons_append, ask_eq_readName hcomment hdigit hpoint
      (delimiters_none hdollar hverbatim hdouble) hquote, readName_cons, hname]
    rfl
  have hspells : SymbolTree.standard.Spells s.toList :=
    SymbolTree.spells_ofList.2 (List.mem_map_of_mem hmem)
  have hmatch := SymbolTree.longestMatch?_append (by simp [hs]) hspells hrest
  refine ⟨?_, ?_, rfl, fun offset => ?_⟩
  · change ∀ d ∈ s.toList.head?, isBlank d = false
    rw [hhead]
    intro d hd
    cases hd
    have hall : ∀ c ∈ symbolStarts, isBlank c = false := List.forall_iff_forall_mem.mp (by decide)
    exact hall c hc
  · change s.toList ≠ []
    simp [hs]
  · unfold Cursor.front
    change (Cursor.ask offset (s.toList ++ rest) Reader.standard >>= _) = _
    rw [hask offset]
    simp only [bind, Except.bind, symbol, hmatch, takeBytes_append]
    rfl

/-- The symbols that functions with an operator expression are written with. -/
def programSymbols : List String :=
  BinaryOp.all.map BinaryOp.symbol ++ ["!", "~", "?", ":", "(", ")", "=", ",", "=>"]

theorem fronts_programSymbol (hs : s ∈ programSymbols)
    (hrest : ∀ d ∈ rest.head?, d ∉ SymbolTree.standard.continuations s.toList)
    (hslash : s = "/" → ∀ d ∈ rest.head?, d ≠ '/' ∧ d ≠ '*') : (symbol s).Fronts rest := by
  have hall : ∀ s ∈ programSymbols, s ∈ symbols ∧
      s.toList.head?.any (· ∈ symbolStarts) = true ∧ (s.toList.head? = some '/' → s = "/") := by
    decide
  obtain ⟨hmem, hstart, hhead⟩ := hall s hs
  refine fronts_symbol hmem hstart hrest fun hh d hd => ?_
  obtain rfl := hhead hh
  exact hslash rfl d hd

/-- The symbols of programs are read where a blank or the end follows. -/
theorem fronts_blank (hs : s ∈ programSymbols)
    (hrest : ∀ b ∈ rest.head?, isBlank b = true) : (symbol s).Fronts rest := by
  have hall : ∀ s ∈ programSymbols,
      (SymbolTree.standard.continuations s.toList).Forall (isBlank · = false) := by
    decide
  have hne (d : Char) (hd : isBlank d = false) : d ∉ rest.head? := fun hmem => by
    rw [hrest d hmem] at hd
    cases hd
  have hblank := List.forall_iff_forall_mem.mp (hall s hs)
  refine fronts_programSymbol hs (fun d hd hmem => hne d (hblank d hmem) hd) fun _ d hd => ?_
  exact ⟨fun h => hne '/' (by decide) (h ▸ hd), fun h => hne '*' (by decide) (h ▸ hd)⟩

end Lexeme

/-! ## Texts -/

/-- A text spells lexemes one after another, with blanks in front of each and at the end. -/
inductive Spells : List Char → List Lexeme → Prop
  | stop {ws : List Char} (hws : ∀ b ∈ ws, isBlank b = true) : Spells ws []
  | next {ws rest : List Char} {l : Lexeme} {ls : List Lexeme} (hws : ∀ b ∈ ws, isBlank b = true)
      (hl : l.Fronts rest) (h : Spells rest ls) : Spells (ws ++ (l.text ++ rest)) (l :: ls)

theorem Spells.cons_blank {b : Char} {text : List Char} {ls : List Lexeme}
    (hb : isBlank b = true) (h : Spells text ls) : Spells (b :: text) ls := by
  cases h with
  | stop hws => exact .stop (List.forall_mem_cons.mpr ⟨hb, hws⟩)
  | next hws hl h => exact .next (List.forall_mem_cons.mpr ⟨hb, hws⟩) hl h

theorem noBlanks : ∀ b ∈ ([] : List Char), isBlank b = true := by simp

/-- Lexemes that are read where a blank follows can be written with blanks between them. -/
theorem spells_intercalate {ls : List Lexeme}
    (h : ∀ l ∈ ls, ∀ rest : List Char, (∀ b ∈ rest.head?, b = ' ') → l.Fronts rest) :
    Spells ([' '].intercalate (ls.map Lexeme.text)) ls := by
  induction ls with
  | nil => exact .stop noBlanks
  | cons l ls ih =>
    obtain ⟨hl, hls⟩ := List.forall_mem_cons.mp h
    cases ls with
    | nil =>
      have : Spells ([] ++ (l.text ++ [])) [l] := .next noBlanks (hl [] (by simp)) (.stop noBlanks)
      simpa using this
    | cons l' ls =>
      have hblank : isBlank ' ' = true := by decide
      have := Spells.next noBlanks (hl _ (by simp)) ((ih hls).cons_blank hblank)
      simpa [List.intercalate] using this

namespace Cursor

variable {c : Cursor} {ws rest text : List Char} {l : Lexeme} {ls : List Lexeme}

theorem scan_lexeme (hreaders : c.readers = Reader.standard) (hsymbols : c.symbols = .standard)
    (hws : ∀ b ∈ ws, isBlank b = true) (hl : l.Fronts rest) (steps index : Nat)
    (hsteps : ws.length < steps) :
    c.scan true steps index (ws ++ (l.text ++ rest)) =
      (.ok (l.token (c.base + (index + byteSize ws))),
        ⟨index + byteSize ws, byteSize l.text⟩) := by
  induction ws generalizing steps index with
  | nil =>
    obtain ⟨steps, rfl⟩ : ∃ m, steps = m + 1 := ⟨steps - 1, by omega⟩
    obtain ⟨d, ds, htext⟩ := List.exists_cons_of_ne_nil hl.notEmpty
    have hblank : isBlank d = false := hl.notBlank d (by simp [htext])
    have hfront := hl.front (c.base + index)
    rw [htext, List.cons_append] at hfront
    rw [List.nil_append, htext, List.cons_append, scan, hblank, if_neg (by simp), hreaders,
      hsymbols, hfront]
    simp only [Lexeme.token_kind, hl.notComment, Bool.and_false, Bool.false_eq_true, if_false]
    rw [← htext]
    rfl
  | cons b ws ih =>
    obtain ⟨steps, rfl⟩ : ∃ m, steps = m + 1 := ⟨steps - 1, by omega⟩
    obtain ⟨hb, hws⟩ := List.forall_mem_cons.mp hws
    rw [List.cons_append, scan, if_pos hb, if_pos rfl,
      ih hws _ _ (by simp only [List.length_cons] at hsteps; omega), byteSize_cons]
    simp only [Nat.add_assoc]

theorem scan_blanks (c : Cursor) (hws : ∀ b ∈ ws, isBlank b = true) (steps index : Nat)
    (hsteps : ws.length ≤ steps) :
    ∃ t, c.scan true steps index ws = (.ok t, ⟨index + byteSize ws, 0⟩) ∧ t.isEof = true := by
  induction ws generalizing steps index with
  | nil =>
    unfold scan
    exact ⟨_, rfl, rfl⟩
  | cons b ws ih =>
    obtain ⟨steps, rfl⟩ : ∃ m, steps = m + 1 :=
      ⟨steps - 1, by simp only [List.length_cons] at hsteps; omega⟩
    obtain ⟨hb, hws⟩ := List.forall_mem_cons.mp hws
    rw [scan, if_pos hb, if_pos rfl, byteSize_cons, ← Nat.add_assoc]
    exact ih hws _ _ (by simp only [List.length_cons] at hsteps; omega)

/-- A lexeme at the front, behind blanks, is the next token. -/
theorem StandsAt.read_lexeme (h : c.StandsAt (ws ++ (l.text ++ rest)))
    (hws : ∀ b ∈ ws, isBlank b = true) (hl : l.Fronts rest) :
    ∃ d, c.read true =
        (.ok (l.token (c.base + (c.place.index + c.place.length + byteSize ws))), d) ∧
      d.StandsAt rest := by
  obtain ⟨done, hs, hp⟩ := h.split
  have hpos := List.length_pos_iff.mpr hl.notEmpty
  have hscan := scan_lexeme h.readers h.symbols hws hl (ws ++ (l.text ++ rest)).length
    (c.place.index + c.place.length) (by simp only [List.length_append]; omega)
  have hread : c.read true =
      (.ok (l.token (c.base + (c.place.index + c.place.length + byteSize ws))),
        { c with place := ⟨c.place.index + c.place.length + byteSize ws, byteSize l.text⟩ }) := by
    rw [Cursor.read, h.remaining]
    dsimp only
    rw [hscan]
  refine ⟨_, hread, ⟨⟨done ++ ws ++ l.text, ?_, ?_⟩, h.readers, h.symbols⟩⟩
  · rw [← List.append_assoc, ← List.append_assoc] at hs
    exact hs
  · simp only [byteSize_append, hp]

/-- Behind the last lexeme the source ends. -/
theorem StandsAt.read_end (h : c.StandsAt ws) (hws : ∀ b ∈ ws, isBlank b = true) :
    ∃ t d, c.read true = (.ok t, d) ∧ t.isEof = true ∧ d.StandsAt [] := by
  obtain ⟨done, hs, hp⟩ := h.split
  obtain ⟨t, hscan, ht⟩ := scan_blanks c hws ws.length (c.place.index + c.place.length)
    (Nat.le_refl _)
  refine ⟨t, { c with place := ⟨c.place.index + c.place.length + byteSize ws, 0⟩ }, ?_, ht,
    ⟨⟨c.source, (List.append_nil _).symm, ?_⟩, h.readers, h.symbols⟩⟩
  · rw [Cursor.read, h.remaining]
    dsimp only
    rw [hscan]
  · rw [hs, byteSize_append]
    simp only [hp, Nat.add_zero]

/-- A text is read as the tokens that it spells, up to its end. -/
theorem StandsAt.reads_spells (hc : c.StandsAt text) (h : Spells text ls) :
    ∃ c' t, c.Reads ls c' ∧ c'.peek = .ok t ∧ t.isEof = true := by
  induction h generalizing c with
  | stop hws =>
    obtain ⟨t, d, hread, ht, -⟩ := hc.read_end hws
    exact ⟨c, t, rfl, by rw [Cursor.peek, hread], ht⟩
  | next hws hl _ ih =>
    obtain ⟨d, hread, hd⟩ := hc.read_lexeme hws hl
    obtain ⟨c', t, hr, hp, ht⟩ := ih hd
    exact ⟨c', t, ⟨_, d, hread, hr⟩, hp, ht⟩

end Cursor

end Scriptlet

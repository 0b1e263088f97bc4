import Scriptlet.Proofs.Token.Sequence

/-!
# Tokens make up their source

Read with its blanks and comments, a source is cut into tokens without a gap and without
an overlap, by whatever readers, in whatever order.

A token is spelled with just as many characters as were found for it (`Cursor.Spelled`), and
reading goes on behind them (`Cursor.At.read`). By induction on what is left, the tokens make
up the source (`tokens_partition`).
-/

namespace Scriptlet

open Text

namespace Cursor

/-- A token is spelled with the front of a text, as far as it was found to go: a run of
    blanks, what the first reader that does not decline finds, or the longest symbol. -/
inductive Spelled (readers : List Reader) (symbols : SymbolTree) (text : List Char) : Token → Prop
  | blanks {start : Nat} : Spelled readers symbols text ⟨.blank, text.takeWhile isBlank, start⟩
  | found {start : Nat} {lexeme rest : List Char} {kind : TokenKind} (htext : text = lexeme ++ rest)
      (h : ask start text readers = .ok (some (lexeme.length, kind))) :
      Spelled readers symbols text ⟨kind, lexeme, start⟩
  | symbol {start : Nat} {lexeme rest : List Char} (htext : text = lexeme ++ rest)
      (h : ask start text readers = .ok none)
      (hsymbol : symbols.longestMatch? text = some (byteSize lexeme)) :
      Spelled readers symbols text ⟨.symbol, lexeme, start⟩

theorem IsFront.spelled {readers : List Reader} {symbols : SymbolTree} {offset : Nat}
    {text : List Char} {t : Token} (h : IsFront readers symbols offset text t) :
    Spelled readers symbols text t := by
  obtain ⟨kind, lexeme, start⟩ := t
  obtain ⟨rfl, -, ⟨rest, htext⟩, hask | ⟨hask, rfl, hsymbol⟩⟩ := h
  · exact .found htext hask
  · exact .symbol htext hask hsymbol

/-- A cursor stands between what has been read of its source and what is left. -/
structure At (c : Cursor) (done rest : List Char) : Prop where
  source : c.source = done ++ rest
  place : c.place.index + c.place.length = byteSize done

variable {c : Cursor} {done rest : List Char}

theorem At.remaining (h : c.At done rest) : c.remaining = rest := by
  rw [Cursor.remaining, h.place, h.source, dropBytes_append]

/-- What reading a token comes to where blanks and comments are tokens, too: behind the last
    character, the end of the source; else an error, or a token that takes some of what
    is left, and a cursor behind it. -/
theorem At.read (h : c.At done rest) :
    (rest = [] ∧ (c.read false).1 = .ok ⟨.eof, [], c.base + byteSize c.source⟩) ∨
    (∃ e, (c.read false).1 = .error e) ∨
    ∃ t place rest', c.read false = (.ok t, { c with place }) ∧ t.isEof = false ∧
      t.lexeme ≠ [] ∧ t.start = c.base + byteSize done ∧ rest = t.lexeme ++ rest' ∧
      Spelled c.readers c.symbols rest t ∧ At { c with place } (done ++ t.lexeme) rest' := by
  -- a cursor behind a token that starts where the cursor stood
  have behind {t : Token} {rest' : List Char} (hrest : rest = t.lexeme ++ rest') :
      At { c with place := ⟨byteSize done, byteSize t.lexeme⟩ } (done ++ t.lexeme) rest' :=
    ⟨by rw [List.append_assoc, ← hrest]; exact h.source, (byteSize_append _ _).symm⟩
  unfold Cursor.read
  rw [h.remaining, h.place]
  cases rest with
  | nil => exact .inl ⟨rfl, rfl⟩
  | cons d text =>
    right
    simp only [List.length_cons, scan]
    by_cases hd : isBlank d = true
    · have hspell := (List.takeWhile_append_dropWhile (p := isBlank) (l := d :: text)).symm
      refine .inr ⟨⟨.blank, (d :: text).takeWhile isBlank, c.base + byteSize done⟩, _, _,
        by simp only [if_pos hd]; rfl, rfl, ?_, rfl, hspell, .blanks, behind hspell⟩
      rw [List.takeWhile_cons_of_pos hd]
      exact List.cons_ne_nil _ _
    · simp only [if_neg hd]
      rcases hfront : front c.readers c.symbols (c.base + byteSize done) (d :: text) with e | t
      · exact .inl ⟨e, rfl⟩
      · have ht := isFront_of_front hfront
        obtain ⟨rest', hrest⟩ := ht.split
        exact .inr ⟨t, _, rest', rfl, ht.isEof, ht.ne_nil, ht.start, hrest, ht.spelled, behind hrest⟩

/-- Token after token, what is left is cut up until the end or an error is reached. -/
theorem At.tokens (h : c.At done rest) :
    ∃ (ts : List Token) (last : Except Error Token),
      (∀ steps > rest.length, c.tokens false steps = ts.map .ok ++ [last]) ∧
      (∀ t, last = .ok t →
        t = ⟨.eof, [], c.base + byteSize c.source⟩ ∧ ts.flatMap (·.lexeme) = rest) ∧
      ∀ before t after, ts = before ++ t :: after →
        t.isEof = false ∧ t.lexeme ≠ [] ∧
        t.start = c.base + byteSize (done ++ before.flatMap (·.lexeme)) ∧
        ∃ rest', rest = before.flatMap (·.lexeme) ++ t.lexeme ++ rest' ∧
          Spelled c.readers c.symbols (t.lexeme ++ rest') t := by
  induction hlen : rest.length using Nat.strongRecOn generalizing c done rest with
  | ind len ih =>
    subst hlen
    -- after some steps, at least one, the first token is read and the others are left
    have first {steps : Nat} (hsteps : steps > rest.length) :
        ∃ n, steps = n + 1 ∧ n ≥ rest.length := ⟨steps - 1, by omega, by omega⟩
    rcases h.read with ⟨rfl, hread⟩ | ⟨e, hread⟩ | ⟨t, place, rest', hread, heof, hne, hstart, hrest,
      hspelled, hat⟩
    · refine ⟨[], .ok ⟨.eof, [], c.base + byteSize c.source⟩, fun steps hsteps => ?_, ?_, by simp⟩
      · obtain ⟨n, rfl, -⟩ := first hsteps
        simp [Cursor.tokens, hread, Token.isEof, TokenKind.isEof]
      · rintro _ ⟨⟩
        exact ⟨rfl, rfl⟩
    · refine ⟨[], .error e, fun steps hsteps => ?_, ?_, by simp⟩
      · obtain ⟨n, rfl, -⟩ := first hsteps
        simp [Cursor.tokens, hread]
      · rintro _ ⟨⟩
    · have hlt : rest'.length < rest.length := by
        have := List.length_pos_iff.mpr hne
        rw [hrest, List.length_append]
        omega
      obtain ⟨ts, last, htokens, hlast, hts⟩ := ih rest'.length hlt hat rfl
      refine ⟨t :: ts, last, fun steps hsteps => ?_, fun u hu => ?_, fun before u after hu => ?_⟩
      · obtain ⟨n, rfl, hn⟩ := first hsteps
        simp [Cursor.tokens, hread, heof, htokens n (by omega)]
      · obtain ⟨hu, hcat⟩ := hlast u hu
        exact ⟨hu, by rw [List.flatMap_cons, hcat, hrest]⟩
      · cases before with
        | nil =>
          obtain ⟨rfl, -⟩ := List.cons.inj hu
          refine ⟨heof, hne, by simpa using hstart, rest', hrest, ?_⟩
          rw [← hrest]
          exact hspelled
        | cons t' before =>
          obtain ⟨rfl, hts'⟩ := List.cons.inj hu
          obtain ⟨heof', hne', hstart', rest'', hrest', hspelled'⟩ := hts before u after hts'
          refine ⟨heof', hne', ?_, rest'', ?_, hspelled'⟩
          · rw [hstart', List.flatMap_cons, List.append_assoc]
          · rw [hrest, hrest', List.flatMap_cons]
            simp only [List.append_assoc]

end Cursor

/-- Whatever the readers of a cursor, reading the tokens of a source, blanks and comments
    included, comes to an end after at most as many tokens as the source has characters,
    with the end of the source or an error. Every token before has a character at least,
    starts behind all tokens before it, and is spelled as the source is there, as far as the
    readers or the symbols have found. If the end is reached, the tokens make up the
    source. -/
theorem tokens_partition (source : List Char) (base : Nat) (readers : List Reader) :
    ∃ (ts : List Token) (last : Except Error Token),
      (∀ steps > source.length,
        Cursor.tokens false steps { Cursor.ofSource source base with readers } =
          ts.map .ok ++ [last]) ∧
      (∀ t, last = .ok t →
        t = ⟨.eof, [], base + byteSize source⟩ ∧ ts.flatMap (·.lexeme) = source) ∧
      ∀ before t after, ts = before ++ t :: after →
        t.isEof = false ∧ t.lexeme ≠ [] ∧ t.start = base + byteSize (before.flatMap (·.lexeme)) ∧
        ∃ rest, source = before.flatMap (·.lexeme) ++ t.lexeme ++ rest ∧
          Cursor.Spelled readers .standard (t.lexeme ++ rest) t := by
  have h : Cursor.At { Cursor.ofSource source base with readers } [] source := ⟨rfl, rfl⟩
  exact h.tokens

end Scriptlet

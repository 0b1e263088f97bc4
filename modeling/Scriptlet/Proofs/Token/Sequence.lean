import Scriptlet.Proofs.Token.Readers

/-!
# Tokens one after another

A cursor `StandsAt` the text that is still to be read. Behind blanks and comments, reading finds
what stands at the front of the rest (`Cursor.exists_finds_read`). If that is a token, it takes the
cursor to a later part of the text (`Cursor.StandsAt.read`), and a shorter one unless the source has
come to its end.

`Cursor.Reads` says that reading goes from one cursor to another along tokens of given
classes and spellings (`Lexeme`).
-/

namespace Scriptlet

open Text

variable {t : Token}

/-! ## Lexemes -/

/-- A token without its place: its class and the characters it is spelled with. -/
structure Lexeme where
  kind : TokenKind
  text : List Char

namespace Lexeme

/-- The token with a lexeme that starts at an offset. -/
def token (l : Lexeme) (start : Nat) : Token := ⟨l.kind, l.text, start⟩

/-- An operator or a punctuation mark. -/
def symbol (s : String) : Lexeme := ⟨.symbol, s.toList⟩

/-- A name that is not reserved. -/
def identifier (w : String) : Lexeme := ⟨.identifier, w.toList⟩

@[simp] theorem token_kind (l : Lexeme) (start : Nat) : (l.token start).kind = l.kind := rfl

@[simp] theorem token_lexeme (l : Lexeme) (start : Nat) : (l.token start).lexeme = l.text := rfl

@[simp] theorem symbol_text (s : String) : (symbol s).text = s.toList := rfl

@[simp] theorem token_start (l : Lexeme) (start : Nat) : (l.token start).start = start := rfl

@[simp] theorem token_word_identifier (w : String) (start : Nat) :
    ((identifier w).token start).word = w := String.ofList_toList

/-- A symbol is the text it is spelled with. -/
@[simp] theorem token_is_symbol (s w : String) (start : Nat) :
    ((symbol s).token start).is w = (s == w) := by
  rw [Bool.eq_iff_iff]
  simp [Token.is, token, symbol, TokenKind.isSymbol, String.toList_inj]

end Lexeme

/-- The end of the source is no symbol or reserved word. -/
theorem Token.is_of_isEof (h : t.isEof = true) (w : String) : t.is w = false := by
  obtain ⟨kind, lexeme, start⟩ := t
  cases kind with
  | eof => rfl
  | _ => cases h

/-! ## The text that is still to be read -/

namespace Cursor

variable {rest : List Char} {ls : List Lexeme}

/-- What may be found at a place of the source, in front of the rest of it: the end of the source,
    or what stands at the front of the rest, be it an error or a token. -/
inductive Finds (c : Cursor) (index : Nat) (rest : List Char) : Except Error Token × Place → Prop
  | eof : Finds c index rest (.ok ⟨.eof, [], c.base + byteSize c.source⟩, ⟨index, 0⟩)
  | error {e : Error} (h : front c.readers c.symbols (c.base + index) rest = .error e) :
      Finds c index rest (.error e, ⟨index, 0⟩)
  | token {t : Token} (h : front c.readers c.symbols (c.base + index) rest = .ok t) :
      Finds c index rest (.ok t, ⟨index, byteSize t.lexeme⟩)

/-- A scan finds something behind blanks and comments. -/
theorem exists_finds_scan (c : Cursor) (steps index : Nat) (rest : List Char) :
    ∃ skipped rest', rest = skipped ++ rest' ∧
      c.Finds (index + byteSize skipped) rest' (c.scan true steps index rest) := by
  induction steps generalizing index rest with
  | zero => exact ⟨[], rest, rfl, by cases rest <;> exact .eof⟩
  | succ steps ih =>
    cases rest with
    | nil => exact ⟨[], [], rfl, .eof⟩
    | cons d rest =>
      rw [scan]
      split
      · obtain ⟨skipped, rest', rfl, hfinds⟩ := ih (index + d.utf8Size) rest
        refine ⟨d :: skipped, rest', rfl, ?_⟩
        rw [byteSize_cons, ← Nat.add_assoc]
        exact hfinds
      · split
        · exact ⟨[], d :: rest, rfl, .error ‹_›⟩
        · rename_i t hfront
          split
          · obtain ⟨behind, hspell⟩ := (isFront_of_front hfront).split
            rw [hspell, List.drop_left]
            obtain ⟨skipped, rest', rfl, hfinds⟩ := ih (index + byteSize t.lexeme) behind
            refine ⟨t.lexeme ++ skipped, rest', (List.append_assoc _ _ _).symm, ?_⟩
            rw [byteSize_append, ← Nat.add_assoc]
            exact hfinds
          · exact ⟨[], d :: rest, rfl, .token hfront⟩

/-- So does reading, from the current token on. -/
theorem exists_finds_read (c : Cursor) :
    ∃ skipped rest x place, c.remaining = skipped ++ rest ∧ c.read true = (x, { c with place }) ∧
      c.Finds (c.place.index + c.place.length + byteSize skipped) rest (x, place) := by
  obtain ⟨skipped, rest, hrest, hfinds⟩ := c.exists_finds_scan c.remaining.length
    (c.place.index + c.place.length) c.remaining
  exact ⟨skipped, rest, _, _, hrest, rfl, hfinds⟩

/-- A cursor stands in front of the last part of its source, which it reads as a program
    of the language. -/
structure StandsAt (c : Cursor) (rest : List Char) : Prop where
  split : ∃ done, c.source = done ++ rest ∧ c.place.index + c.place.length = byteSize done
  readers : c.readers = Reader.standard
  symbols : c.symbols = .standard

theorem standsAt_ofSource (source : List Char) (base : Nat) :
    (ofSource source base).StandsAt source :=
  ⟨⟨[], rfl, rfl⟩, rfl, rfl⟩

theorem StandsAt.remaining {c : Cursor} (h : c.StandsAt rest) : c.remaining = rest := by
  obtain ⟨done, hs, hp⟩ := h.split
  rw [Cursor.remaining, hp, hs, dropBytes_append]

/-- Reading a token leads to the text behind it. -/
theorem StandsAt.read_spelled {c d : Cursor} (h : c.StandsAt rest) (hr : c.read true = (.ok t, d)) :
    ∃ skipped rest', rest = skipped ++ t.lexeme ++ rest' ∧ d.StandsAt rest' ∧
      (t.isEof = false → t.lexeme ≠ []) := by
  obtain ⟨done, hs, hp⟩ := h.split
  obtain ⟨skipped, rest', x, place, hrest, hread, hfinds⟩ := c.exists_finds_read
  rw [h.remaining] at hrest
  obtain ⟨rfl, rfl⟩ := Prod.mk.inj (hr.symm.trans hread)
  have behind {lexeme rest'' : List Char} (hsplit : rest = skipped ++ lexeme ++ rest'') :
      StandsAt { c with place := ⟨c.place.index + c.place.length + byteSize skipped, byteSize lexeme⟩ }
        rest'' := by
    refine ⟨⟨done ++ skipped ++ lexeme, ?_, by simp only [byteSize_append, hp]⟩, h.readers, h.symbols⟩
    rw [hs, hsplit]
    simp only [List.append_assoc]
  cases hfinds with
  | eof =>
    have hsplit : rest = skipped ++ [] ++ rest' := by rw [hrest, List.append_nil]
    exact ⟨skipped, rest', hsplit, behind hsplit, nofun⟩
  | token hfront =>
    obtain ⟨-, hne, ⟨rest'', rfl⟩, -⟩ := isFront_of_front hfront
    have hsplit : rest = skipped ++ t.lexeme ++ rest'' := by rw [hrest, List.append_assoc]
    exact ⟨skipped, rest'', hsplit, behind hsplit, fun _ => hne⟩

/-- Reading a token leads to a later part of the text. -/
theorem StandsAt.read {c d : Cursor} (h : c.StandsAt rest) (hr : c.read true = (.ok t, d)) :
    ∃ rest', d.StandsAt rest' ∧ rest'.length ≤ rest.length ∧
      (t.isEof = false → rest'.length < rest.length) := by
  obtain ⟨skipped, rest', rfl, hd, hne⟩ := h.read_spelled hr
  simp only [List.length_append]
  refine ⟨rest', hd, by omega, fun he => ?_⟩
  have := List.length_pos_iff.mpr (hne he)
  omega

/-! ## Sequences of tokens -/

/-- Reading goes from a cursor to another one along tokens with these lexemes. -/
def Reads (c : Cursor) : List Lexeme → Cursor → Prop
  | [], e => c = e
  | l :: ls, e => ∃ start d, c.read true = (.ok (l.token start), d) ∧ d.Reads ls e

theorem reads_append {c e : Cursor} {ms : List Lexeme} :
    c.Reads (ls ++ ms) e ↔ ∃ d, c.Reads ls d ∧ d.Reads ms e := by
  induction ls generalizing c with
  | nil => exact ⟨fun h => ⟨c, rfl, h⟩, fun ⟨d, hc, h⟩ => hc ▸ h⟩
  | cons l ls ih =>
    constructor
    · rintro ⟨start, d, hr, h⟩
      obtain ⟨d', h₁, h₂⟩ := ih.mp h
      exact ⟨d', ⟨start, d, hr, h₁⟩, h₂⟩
    · rintro ⟨d', ⟨start, d, hr, h₁⟩, h₂⟩
      exact ⟨start, d, hr, ih.mpr ⟨d', h₁, h₂⟩⟩

theorem reads_cons {c e : Cursor} {l : Lexeme} :
    c.Reads (l :: ls) e ↔ ∃ d, c.Reads [l] d ∧ d.Reads ls e := by
  rw [← List.singleton_append]
  exact reads_append

/-- The next token of a cursor. -/
theorem Reads.peek {c e : Cursor} {l : Lexeme} (h : c.Reads (l :: ls) e) :
    ∃ start, c.peek = .ok (l.token start) := by
  obtain ⟨start, d, hr, -⟩ := h
  exact ⟨start, by rw [Cursor.peek, hr]⟩

/-- Every token takes a character at least, unless it is the end of the source. -/
theorem StandsAt.reads {c e : Cursor} (h : c.StandsAt rest)
    (hr : c.Reads ls e) (hls : ∀ l ∈ ls, l.kind.isEof = false) :
    ∃ rest', e.StandsAt rest' ∧ rest'.length + ls.length ≤ rest.length := by
  induction ls generalizing c rest with
  | nil =>
    cases hr
    exact ⟨rest, h, Nat.le_refl _⟩
  | cons l ls ih =>
    obtain ⟨start, d, hread, hr⟩ := hr
    obtain ⟨hl, hls⟩ := List.forall_mem_cons.mp hls
    obtain ⟨rest₁, hd, -, hlt⟩ := h.read hread
    obtain ⟨rest', he, hle⟩ := ih hd hr hls
    have := hlt hl
    exact ⟨rest', he, by rw [List.length_cons]; omega⟩

end Cursor

/-- A text consists of tokens with these lexemes. -/
def Lexes (source : String) (ls : List Lexeme) : Prop :=
  ∃ e t, (Cursor.ofSource source.toList 0).Reads ls e ∧ e.peek = .ok t ∧ t.isEof = true

end Scriptlet

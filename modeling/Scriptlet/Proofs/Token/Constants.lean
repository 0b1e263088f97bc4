import Mathlib.Data.List.TakeWhile
import Scriptlet.Expr.Printer
import Scriptlet.Proofs.Token.Spelling

/-!
# Constants are read as they are written

Between quotes a character is written as itself, as a letter behind a backslash, or as a code of
four digits (`Escaped`). Decoding gives the character back (`unescape_escape`), and what looks
for the quote that ends a literal passes over all that a character is written with
(`Seeks.escape_append`). So the text of a string or a character is one token with that value, and
so is a string between the marks of a verbatim one with its quotes doubled (`isToken_constants`).
-/

namespace Scriptlet

open Text

variable {c q : Char} {cs rest : List Char} {offset : Nat}

/-! ## Escapes -/

/-- How a character may be written between quotes. -/
inductive Escaped (q c : Char) : List Char → Prop
  | plain (hslash : c ≠ '\\') (hquote : c ≠ q) (hline : c ≠ '\n') : Escaped q c [c]
  | letter {e : Char} (h : escape? e = some c) : Escaped q c ['\\', e]
  | code {ds : List Char} (hlength : ds.length = 4) (hdigits : ∀ d ∈ ds, isHexDigit d = true)
      (h : charOfHex? ds = some c) : Escaped q c ('\\' :: 'u' :: ds)

theorem hexDigits_four {n : Nat} (h : n < 160) :
    (hexDigits 4 n).length = 4 ∧ (hexDigits 4 n).all isHexDigit = true ∧
      charOfHex? (hexDigits 4 n) = some (Char.ofNat n) := by
  have hall : ∀ n ∈ List.range 160, (hexDigits 4 n).length = 4 ∧
      (hexDigits 4 n).all isHexDigit = true ∧
      charOfHex? (hexDigits 4 n) = some (Char.ofNat n) := by decide +kernel
  exact hall n (List.mem_range.2 h)

/-- The escapes for quotes of either kind. -/
theorem escaped_escapeChar (hquote : escape? q = some q) (c : Char) :
    Escaped q c (escapeChar q c) := by
  unfold escapeChar
  split_ifs with hslash hline hreturn htab hnull hq hcontrol
  all_goals try subst c
  · exact .letter rfl
  · exact .letter rfl
  · exact .letter rfl
  · exact .letter rfl
  · exact .letter rfl
  · exact .letter hquote
  · have hlt : c.toNat < 160 := by
      simp only [isControl, Bool.or_eq_true, Bool.and_eq_true, decide_eq_true_eq] at hcontrol
      omega
    obtain ⟨hlength, hdigits, hc⟩ := hexDigits_four hlt
    rw [Char.ofNat_toNat] at hc
    exact .code hlength (List.all_eq_true.1 hdigits) hc
  · exact .plain hslash hq hline

theorem unescapeFrom_skip (offset : Nat) (cs rest : List Char) :
    unescapeFrom offset cs.length (cs ++ rest) = unescapeFrom (offset + byteSize cs) 0 rest := by
  induction cs generalizing offset with
  | nil => rfl
  | cons c cs ih =>
    rw [List.length_cons, List.cons_append, unescapeFrom, ih, byteSize_cons, Nat.add_assoc]

/-- What a character is written as stands for that character. -/
theorem Escaped.unescapeFrom_append (h : Escaped q c cs) :
    unescapeFrom offset 0 (cs ++ rest) =
      (c :: ·) <$> unescapeFrom (offset + byteSize cs) 0 rest := by
  cases h with
  | plain hslash =>
    rw [List.singleton_append, unescapeFrom.eq_def]
    exact if_pos hslash
  | @letter e h =>
    have hcode : ¬(e = 'u' ∨ e = 'x') := by
      rintro (rfl | rfl) <;> cases h
    have hskip := unescapeFrom_skip (offset + 1) [e] rest
    rw [List.cons_append, unescapeFrom.eq_def]
    simp only [List.cons_append, ne_eq, not_true, if_false, hcode, h, Nat.add_assoc] at hskip ⊢
    exact congrArg _ hskip
  | @code ds hlength hdigits h =>
    have htake : ((ds ++ rest).take 4).takeWhile isHexDigit = ds := by
      rw [← hlength, List.take_left, List.takeWhile_eq_self_iff.2 hdigits]
    have hskip := unescapeFrom_skip (offset + 1) ('u' :: ds) rest
    rw [List.cons_append, unescapeFrom.eq_def]
    simp only [List.cons_append, ne_eq, not_true, true_or, if_true, and_false, if_false, htake,
      hlength, h, List.length_cons, Nat.add_assoc] at hskip ⊢
    exact congrArg _ hskip

theorem unescape_escape (hquote : escape? q = some q) (s : List Char) (offset : Nat) :
    unescape (escape q s) offset = .ok s := by
  rw [unescape]
  induction s generalizing offset with
  | nil => rfl
  | cons c s ih =>
    rw [escape, List.flatMap_cons, (escaped_escapeChar hquote c).unescapeFrom_append, ← escape, ih]
    rfl

/-! ## Closing quotes -/

/-- What looks for the quote that ends a literal on one line passes over escapes. -/
structure Seeks (q : Char) (close? : List Char → Option Nat) : Prop where
  notDigit : isHexDigit q = false
  nil : close? [] = none
  line (rest : List Char) : close? ('\n' :: rest) = none
  slash : close? ['\\'] = none
  here (rest : List Char) : close? (q :: rest) = some 1
  past {c : Char} (hslash : c ≠ '\\') (hquote : c ≠ q) (hline : c ≠ '\n') (rest : List Char) :
    close? (c :: rest) = (close? rest).map (· + 1)
  escape (e : Char) (rest : List Char) : close? ('\\' :: e :: rest) = (close? rest).map (· + 2)

theorem seeks_closeQuoted? : Seeks '"' closeQuoted? where
  notDigit := by decide
  nil := rfl
  line _ := rfl
  slash := rfl
  here _ := rfl
  past hslash hquote hline rest := by rw [closeQuoted?] <;> simp [*]
  escape _ _ := rfl

theorem seeks_closeChar? : Seeks '\'' closeChar? where
  notDigit := by decide
  nil := rfl
  line _ := rfl
  slash := rfl
  here _ := rfl
  past hslash hquote hline rest := by rw [closeChar?] <;> simp [*]
  escape _ _ := rfl

namespace Seeks

variable {close? : List Char → Option Nat} (h : Seeks q close?)

include h

theorem digits (hcs : ∀ d ∈ cs, isHexDigit d = true) :
    close? (cs ++ rest) = (close? rest).map (· + cs.length) := by
  induction cs with
  | nil => simp
  | cons d cs ih =>
    obtain ⟨hd, hcs⟩ := List.forall_mem_cons.1 hcs
    rw [List.cons_append, h.past, ih hcs, Option.map_map]
    · rfl
    all_goals rintro rfl
    · cases hd
    · simp [h.notDigit] at hd
    · cases hd

theorem escaped (hcs : Escaped q c cs) :
    close? (cs ++ rest) = (close? rest).map (· + cs.length) := by
  cases hcs with
  | plain hslash hquote hline => exact h.past hslash hquote hline rest
  | letter => exact h.escape _ rest
  | code hlength hdigits =>
    rw [List.cons_append, List.cons_append, h.escape, h.digits hdigits, Option.map_map]
    rfl

/-- A literal ends behind what its text is written with. -/
theorem escape_append (hquote : escape? q = some q) (s rest : List Char) :
    close? (Text.escape q s ++ q :: rest) = some ((Text.escape q s).length + 1) := by
  induction s with
  | nil => exact h.here rest
  | cons c s ih =>
    rw [Text.escape, List.flatMap_cons, List.append_assoc, h.escaped (escaped_escapeChar hquote c),
      ← Text.escape, ih, List.length_append, Option.map_some, Nat.add_right_comm,
      Nat.add_comm (List.length _)]

end Seeks

/-! ## Verbatim strings -/

/-- A text with each of its quotes doubled. -/
def doubleQuotes (s : List Char) : List Char :=
  s.flatMap fun c => if c = '"' then ['"', '"'] else [c]

theorem closeVerbatim?_doubleQuotes (s : List Char) :
    closeVerbatim? (doubleQuotes s ++ ['"']) = some ((doubleQuotes s).length + 1) := by
  induction s with
  | nil => rfl
  | cons c s ih =>
    by_cases hc : c = '"'
    · subst hc
      exact congrArg (Option.map (· + 2)) ih
    · have hcons : doubleQuotes (c :: s) = c :: doubleQuotes s := by simp [doubleQuotes, hc]
      rw [hcons, List.cons_append, closeVerbatim?, ih]
      · rfl
      · exact hc

theorem replace_doubleQuotes (s : List Char) : replace ['"', '"'] ['"'] (doubleQuotes s) = s := by
  change replaceFrom ['"', '"'] ['"'] 0 (doubleQuotes s) = s
  induction s with
  | nil => rfl
  | cons c s ih =>
    by_cases hc : c = '"'
    · subst hc
      exact congrArg ('"' :: ·) ih
    · have hcons : doubleQuotes (c :: s) = c :: doubleQuotes s := by simp [doubleQuotes, hc]
      rw [hcons, replaceFrom, ih]
      simp [startsWith, strip?, Ne.symm hc]

/-! ## Tokens -/

theorem Delimiters.body_append {d : Delimiters} (front : List Char) {body back : List Char}
    (hfront : front.length = d.opening) (hback : back.length = d.closing) :
    d.body (front ++ (body ++ back)) = body := by
  have hlength : (front ++ (body ++ back)).length - back.length = (front ++ body).length := by
    simp only [List.length_append]
    omega
  rw [Delimiters.body, ← hback, hlength, ← List.append_assoc, List.take_left, ← hfront,
    List.drop_left]

theorem readString_of_decode {d : Delimiters} {n : Nat} {s : List Char}
    (hd : Delimiters.of? cs = some d) (hstring : d.template = false)
    (hclose : closeString d offset (offset + d.opening) (cs.drop d.opening) = .ok n)
    (hn : d.opening + n = cs.length) (hs : decodeString cs offset = .ok s) :
    readString offset cs = .ok (some (cs.length, .string (String.ofList s))) := by
  simp only [readString, hd, hclose, hstring, bind, Except.bind, hn, List.take_length, hs]
  rfl

theorem readString_quoted (s : List Char) :
    readString offset ('"' :: (escape '"' s ++ ['"'])) =
      .ok (some (('"' :: (escape '"' s ++ ['"'])).length, .string (String.ofList s))) := by
  have hd : Delimiters.of? ('"' :: (escape '"' s ++ ['"'])) = some ⟨.quoted, false, 1, 1⟩ := by
    cases s with
    | nil => rfl
    | cons c s =>
      -- behind the quote stands no other one, so these are not the quotes of a raw string
      rw [escape, List.flatMap_cons]
      have hc := escaped_escapeChar (q := '"') rfl c
      generalize escapeChar '"' c = cs at hc
      cases hc with
      | plain _ hquote => simp [Delimiters.of?, hquote]
      | letter => rfl
      | code => rfl
  have hbody : Delimiters.body ⟨.quoted, false, 1, 1⟩ ('"' :: (escape '"' s ++ ['"'])) =
      escape '"' s := Delimiters.body_append ['"'] rfl rfl
  refine readString_of_decode hd rfl (n := (escape '"' s).length + 1) ?_ ?_ ?_
  · rw [closeString, List.drop_one, List.tail_cons, seeks_closeQuoted?.escape_append rfl]
    rfl
  · simp [Nat.add_comm]
  · simp [decodeString, hd, hbody, unescape_escape (q := '"') rfl]

theorem readString_verbatim (s : List Char) :
    readString offset ('@' :: '"' :: (doubleQuotes s ++ ['"'])) =
      .ok (some (('@' :: '"' :: (doubleQuotes s ++ ['"'])).length, .string (String.ofList s))) := by
  have hbody : Delimiters.body ⟨.verbatim, false, 2, 1⟩ ('@' :: '"' :: (doubleQuotes s ++ ['"'])) =
      doubleQuotes s := Delimiters.body_append ['@', '"'] rfl rfl
  refine readString_of_decode rfl rfl (n := (doubleQuotes s).length + 1) ?_ ?_ ?_
  · rw [closeString]
    simp [closeVerbatim?_doubleQuotes]
    rfl
  · simp only [List.length_cons, List.length_append, List.length_nil]
    omega
  · simp [decodeString, Delimiters.of?, hbody, StringStyle.decode, replace_doubleQuotes]
    rfl

theorem readChar_quoted (c : Char) :
    readChar offset ('\'' :: (escapeChar '\'' c ++ ['\''])) =
      .ok (some (('\'' :: (escapeChar '\'' c ++ ['\''])).length, .char c)) := by
  have hclose := seeks_closeChar?.escape_append rfl [c] []
  have hdecode := unescape_escape (q := '\'') rfl [c] (offset + 1)
  simp only [escape, List.flatMap_singleton] at hclose hdecode
  simp [readChar, hclose, hdecode]
  rfl

/-- A text is one token with nothing behind it. -/
def IsToken (text : List Char) (kind : TokenKind) : Prop :=
  ∀ base skip, tokenize (.ofSource text base) skip =
    [.ok ⟨kind, text, base⟩, .ok ⟨.eof, [], base + byteSize text⟩]

theorem isToken_of_ask {kind : TokenKind} (hblank : isBlank c = false)
    (hcomment : kind.isComment = false) (heof : kind.isEof = false)
    (h : ∀ offset,
      Cursor.ask offset (c :: cs) Reader.standard = .ok (some ((c :: cs).length, kind))) :
    IsToken (c :: cs) kind := by
  intro base skip
  have hfront : Cursor.front Reader.standard .standard base (c :: cs) =
      .ok ⟨kind, c :: cs, base⟩ := by
    simp only [Cursor.front, h base, bind, Except.bind, List.take_length]
    rfl
  have hrest : dropBytes (byteSize (c :: cs)) (c :: cs) = [] := by
    have := dropBytes_append (c :: cs) []
    rwa [List.append_nil] at this
  have hread : (Cursor.ofSource (c :: cs) base).read skip = (.ok ⟨kind, c :: cs, base⟩,
      { Cursor.ofSource (c :: cs) base with place := ⟨0, byteSize (c :: cs)⟩ }) := by
    simp [Cursor.read, Cursor.remaining, Cursor.ofSource, Cursor.scan, hblank, hfront, hcomment,
      pure, Except.pure]
  have hremaining : (Cursor.ofSource (c :: cs) base).remaining = c :: cs := dropBytes_zero _
  rw [tokenize, hremaining, List.length_cons, Cursor.tokens, hread]
  simp only [Token.isEof, heof, Cursor.tokens, Cursor.read, Cursor.remaining, Nat.zero_add]
  rw [show (Cursor.ofSource (c :: cs) base).source = c :: cs from rfl, hrest]
  rfl

theorem isToken_string (hc : c = '"' ∨ c = '@') {s : String}
    (h : ∀ offset, readString offset (c :: cs) = .ok (some ((c :: cs).length, .string s))) :
    IsToken (c :: cs) (.string s) := by
  refine isToken_of_ask (by rcases hc with rfl | rfl <;> decide) rfl rfl fun offset => ?_
  have hcomment : readComment offset (c :: cs) = .ok none :=
    readComment_none (by rcases hc with rfl | rfl <;> nofun)
  have hnumber : readNumber offset (c :: cs) = .ok none :=
    readNumber_none (by rcases hc with rfl | rfl <;> rfl) (by rcases hc with rfl | rfl <;> decide)
  simp only [Reader.standard, Cursor.ask, Reader.read, hcomment, hnumber, h]
  rfl

/-- The texts of strings and characters are tokens with these values, and so is a string with its
    quotes doubled between the marks of a verbatim one. -/
theorem isToken_constants (form : Form) :
    (∀ s : String, IsToken (Constant.text form (.string s)).toList (.string s)) ∧
      (∀ c : Char, IsToken (Constant.text form (.char c)).toList (.char c)) ∧
      ∀ s : String, IsToken ('@' :: '"' :: (doubleQuotes s.toList ++ ['"'])) (.string s) := by
  refine ⟨fun s => ?_, fun c => ?_, fun s => ?_⟩
  · have htext : (Constant.text form (.string s)).toList =
        '"' :: (escape '"' s.toList ++ ['"']) := by
      simp [Constant.text]
    rw [htext]
    refine isToken_string (.inl rfl) fun offset => ?_
    rw [readString_quoted, String.ofList_toList]
  · have htext : (Constant.text form (.char c)).toList =
        '\'' :: (escapeChar '\'' c ++ ['\'']) := by
      simp [Constant.text]
    rw [htext]
    refine isToken_of_ask rfl rfl rfl fun offset => ?_
    have hdelimiters : ∀ cs, Delimiters.of? ('\'' :: cs) = none := fun _ => rfl
    have hcomment (cs : List Char) : readComment offset ('\'' :: cs) = .ok none :=
      readComment_none (absurd · (by decide))
    simp only [Reader.standard, Cursor.ask, Reader.read, hcomment,
      readNumber_none (c := '\'') rfl (by decide), readString_none (hdelimiters _), readChar_quoted]
    rfl
  · refine isToken_string (.inr rfl) fun offset => ?_
    rw [readString_verbatim, String.ofList_toList]

end Scriptlet

import Mathlib.Data.List.TakeWhile
import Scriptlet.Proofs.Token.Partition

/-!
# Passing over blanks and comments

A cursor can give blanks and comments as tokens, or pass over them in front of the next
token. The first way takes a run of blanks as one token; the second goes through it
character by character, and through comments after that, all within one reading.

Both come to the same. In front of a blank or a comment, reading with skipping is reading
with skipping behind it (`Cursor.At.read_gap`); elsewhere the two readings do not differ
(`Cursor.At.read_other`). So the tokens are the same but for blanks and comments, with the
same end or error behind them (`tokens_skip`).
-/

namespace Scriptlet

open Text

/-- Whether a token is a blank or a comment. -/
def Token.isGap (t : Token) : Bool :=
  match t.kind with
  | .blank | .comment => true
  | _ => false

theorem Token.isGap_of_isEof {t : Token} (h : t.isEof = true) : t.isGap = false := by
  obtain ⟨kind, lexeme, start⟩ := t
  cases kind with
  | eof => rfl
  | _ => cases h

namespace Cursor

/-- Where there is no blank, a gap is a comment. -/
theorem isGap_of_front {readers : List Reader} {symbols : SymbolTree} {offset : Nat}
    {text : List Char} {t : Token} (h : front readers symbols offset text = .ok t) :
    t.isGap = t.kind.isComment := by
  have hblank : t.kind ≠ .blank := by
    intro hkind
    rcases (isFront_of_front h).reader with hsymbol | ⟨r, hr⟩
    · rw [hkind] at hsymbol
      cases hsymbol
    · have hfinds := (Reader.found hr).2.2
      rw [hkind] at hfinds
      cases r <;> cases hfinds
  unfold Token.isGap
  cases hkind : t.kind with
  | blank => exact absurd hkind hblank
  | _ => rfl

variable {c : Cursor} {done rest : List Char}

/-! ## One reading -/

/-- More steps than there are characters make no difference. -/
theorem scan_eq_of_le {m n index : Nat} (hm : rest.length ≤ m) (hn : rest.length ≤ n) :
    c.scan true m index rest = c.scan true n index rest := by
  induction m generalizing n index rest with
  | zero =>
    obtain rfl := List.length_eq_zero_iff.mp (Nat.le_zero.mp hm)
    cases n <;> rfl
  | succ m ih =>
    match rest, n with
    | [], n => cases n <;> rfl
    | d :: rest, n + 1 =>
      rw [List.length_cons] at hm hn
      rw [scan, scan]
      split
      · exact ih (by omega) (by omega)
      · split
        · rfl
        · rename_i t hfront
          split
          · -- a comment has a character, so what is left is shorter
            have hpos := List.length_pos_iff.mpr (isFront_of_front hfront).ne_nil
            have hdrop : ((d :: rest).drop t.lexeme.length).length ≤ rest.length := by
              rw [List.length_drop, List.length_cons]
              omega
            exact ih (by omega) (by omega)
          · rfl

/-- What is found does not depend on the token that the cursor is at. -/
theorem scan_place (place : Place) {steps index : Nat} :
    ({ c with place } : Cursor).scan true steps index rest = c.scan true steps index rest := by
  induction steps generalizing index rest with
  | zero => cases rest <;> rfl
  | succ steps ih =>
    cases rest with
    | nil => rfl
    | cons d rest =>
      rw [scan, scan]
      simp only [ih]

/-- Blanks are passed over one by one. -/
theorem scan_blanks_append {ws : List Char} (hws : ∀ b ∈ ws, isBlank b = true) {steps index : Nat}
    (hsteps : (ws ++ rest).length ≤ steps) :
    c.scan true steps index (ws ++ rest) =
      c.scan true rest.length (index + byteSize ws) rest := by
  induction ws generalizing steps index with
  | nil => exact scan_eq_of_le hsteps (Nat.le_refl _)
  | cons b ws ih =>
    obtain ⟨hb, hws⟩ := List.forall_mem_cons.mp hws
    match steps with
    | steps + 1 =>
      rw [List.cons_append, scan, if_pos hb, if_pos rfl,
        ih hws (Nat.le_of_succ_le_succ hsteps), byteSize_cons, Nat.add_assoc]

/-- A comment is passed over at once. -/
theorem scan_comment {d : Char} {text rest' : List Char} {t : Token} {steps index : Nat}
    (hd : isBlank d = false) (hfront : front c.readers c.symbols (c.base + index) (d :: text) = .ok t)
    (ht : t.kind.isComment = true) (hrest : d :: text = t.lexeme ++ rest')
    (hsteps : (d :: text).length ≤ steps) :
    c.scan true steps index (d :: text) =
      c.scan true rest'.length (index + byteSize t.lexeme) rest' := by
  match steps with
  | steps + 1 =>
    have hpos := List.length_pos_iff.mpr (isFront_of_front hfront).ne_nil
    rw [scan, if_neg (Bool.eq_false_iff.mp hd), hfront]
    dsimp only
    rw [if_pos (by rw [ht]; rfl), hrest, List.drop_left]
    refine scan_eq_of_le ?_ (Nat.le_refl _)
    rw [hrest, List.length_append] at hsteps
    omega

/-- What reading does at a place in the source. -/
theorem At.read_eq (h : c.At done rest) (skip : Bool) :
    c.read skip = ((c.scan skip rest.length (byteSize done) rest).1,
      { c with place := (c.scan skip rest.length (byteSize done) rest).2 }) := by
  unfold Cursor.read
  dsimp only
  rw [h.remaining, h.place]

/-- In front of a blank or a comment, reading with skipping is reading behind it. -/
theorem At.read_gap (h : c.At done rest) {t : Token} {rest' : List Char} {place : Place}
    (hread : c.read false = (.ok t, { c with place })) (ht : t.isGap = true)
    (hrest : rest = t.lexeme ++ rest') (hat : At { c with place } (done ++ t.lexeme) rest') :
    c.read true = ({ c with place } : Cursor).read true := by
  rw [h.read_eq false] at hread
  obtain ⟨hscan, -⟩ := Prod.mk.inj hread
  -- behind the token, the two scans go on in the same way
  suffices hmeet : c.scan true rest.length (byteSize done) rest =
      c.scan true rest'.length (byteSize done + byteSize t.lexeme) rest' by
    rw [h.read_eq, hat.read_eq, byteSize_append, scan_place (c := c) place, hmeet]
  cases rest with
  | nil =>
    cases hscan
    cases ht
  | cons d text =>
    rw [List.length_cons, scan] at hscan
    split at hscan
    · cases hscan
      have hpass : c.scan true ((d :: text).takeWhile isBlank ++ rest').length (byteSize done)
          ((d :: text).takeWhile isBlank ++ rest') = _ :=
        scan_blanks_append (fun b hb => List.mem_takeWhile_imp hb) (Nat.le_refl _)
      rwa [← hrest] at hpass
    · rename_i hd
      split at hscan
      · cases hscan
      · rename_i hfront
        cases hscan
        rw [isGap_of_front hfront] at ht
        exact scan_comment (Bool.eq_false_iff.mpr hd) hfront ht hrest (Nat.le_refl _)

/-- Elsewhere, the two ways of reading do not differ. -/
theorem At.read_other (h : c.At done rest) (hread : ∀ t, (c.read false).1 = .ok t → t.isGap = false) :
    c.read true = c.read false := by
  rw [h.read_eq false] at hread
  rw [h.read_eq true, h.read_eq false]
  suffices hscan : c.scan true rest.length (byteSize done) rest =
      c.scan false rest.length (byteSize done) rest by rw [hscan]
  cases rest with
  | nil => rfl
  | cons d text =>
    dsimp only at hread
    rw [List.length_cons, scan] at hread ⊢
    rw [scan]
    split at hread
    · cases hread _ rfl
    · rename_i hd
      rw [if_neg hd, if_neg hd]
      split at hread
      · rfl
      · rename_i t hfront
        have ht := hread t rfl
        rw [isGap_of_front hfront] at ht
        rw [ht]
        rfl

/-! ## Token after token -/

/-- Whether what is read is more than a blank or a comment. -/
def isSignificant : Except Error Token → Bool
  | .ok t => !t.isGap
  | .error _ => true

/-- Reading with skipping gives what is read otherwise, without blanks and comments. -/
theorem At.tokens_true (h : c.At done rest) {m n : Nat} (hm : rest.length < m)
    (hn : rest.length < n) : c.tokens true m = (c.tokens false n).filter isSignificant := by
  induction hlen : rest.length using Nat.strongRecOn generalizing c done rest m n with
  | ind len ih =>
    subst hlen
    obtain ⟨m, rfl⟩ : ∃ k, m = k + 1 := ⟨m - 1, by omega⟩
    obtain ⟨n, rfl⟩ : ∃ k, n = k + 1 := ⟨n - 1, by omega⟩
    rcases h.read with ⟨rfl, hread⟩ | ⟨e, hread⟩ | ⟨t, place, rest', hread, heof, hne, -, hrest, -, hat⟩
    · have hsame := h.read_other (by rw [hread]; rintro _ ⟨⟩; rfl)
      simp [Cursor.tokens, hsame, hread, Token.isEof, TokenKind.isEof, isSignificant, Token.isGap]
    · have hsame := h.read_other (by rw [hread]; rintro _ ⟨⟩)
      have hfalse : c.tokens false (n + 1) = [.error e] := by simp [Cursor.tokens, hread]
      have htrue : c.tokens true (m + 1) = [.error e] := by simp [Cursor.tokens, hsame, hread]
      rw [htrue, hfalse]
      rfl
    · have hlt : rest'.length < rest.length := by
        have := List.length_pos_iff.mpr hne
        rw [hrest, List.length_append]
        omega
      have hfalse : c.tokens false (n + 1) = .ok t :: ({ c with place } : Cursor).tokens false n := by
        simp [Cursor.tokens, hread, heof]
      rw [hfalse, List.filter_cons]
      by_cases hgap : t.isGap = true
      · -- the token is passed over on the way to the next one
        have htrue : c.tokens true (m + 1) = ({ c with place } : Cursor).tokens true (m + 1) := by
          rw [Cursor.tokens, Cursor.tokens, h.read_gap hread hgap hrest hat]
        rw [htrue, if_neg (by simp [isSignificant, hgap])]
        exact ih rest'.length hlt hat (by omega) (by omega) rfl
      · have hsame := h.read_other (by rw [hread]; rintro _ ⟨⟩; exact Bool.eq_false_iff.mpr hgap)
        have htrue : c.tokens true (m + 1) = .ok t :: ({ c with place } : Cursor).tokens true m := by
          simp [Cursor.tokens, hsame, hread, heof]
        rw [htrue, if_pos (by simp [isSignificant, hgap])]
        exact congrArg _ (ih rest'.length hlt hat (by omega) (by omega) rfl)

end Cursor

/-- Whatever the readers of a cursor, the tokens that are read with blanks and comments
    passed over are those that are read otherwise without the blanks and comments among
    them, and the same end of the source or the same error comes behind them. -/
theorem tokens_skip (source : List Char) (base : Nat) (readers : List Reader) :
    ∃ (ts : List Token) (last : Except Error Token),
      (∀ t ∈ ts, t.isEof = false) ∧ (∀ t, last = .ok t → t.isEof = true) ∧
      ∀ steps > source.length,
        Cursor.tokens false steps { Cursor.ofSource source base with readers } =
          ts.map .ok ++ [last] ∧
        Cursor.tokens true steps { Cursor.ofSource source base with readers } =
          (ts.filter fun t => !t.isGap).map .ok ++ [last] := by
  have h : Cursor.At { Cursor.ofSource source base with readers } [] source := ⟨rfl, rfl⟩
  obtain ⟨ts, last, htokens, hlast, hts⟩ := h.tokens
  have heof : ∀ t, last = .ok t → t.isEof = true := fun t ht => by rw [(hlast t ht).1]; rfl
  refine ⟨ts, last, fun t ht => ?_, heof, fun steps hsteps => ⟨htokens steps hsteps, ?_⟩⟩
  · obtain ⟨before, after, hsplit⟩ := List.append_of_mem ht
    exact (hts before t after hsplit).1
  · have hkept : Cursor.isSignificant last = true := by
      cases last with
      | error e => rfl
      | ok t => simp [Cursor.isSignificant, Token.isGap_of_isEof (heof t rfl)]
    rw [h.tokens_true hsteps hsteps, htokens steps hsteps, List.filter_append, List.filter_map,
      List.filter_cons_of_pos hkept]
    rfl

end Scriptlet

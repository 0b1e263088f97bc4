import Scriptlet.Catalog.Library
import Scriptlet.Proofs.Reading.ProgramRuns
import Scriptlet.Proofs.Token.Spelling

/-!
# How far the body of a lambda goes

The body of a lambda without types is passed over first and read later. Passing over it
counts brackets (`Cursor.Skips`), while reading it follows the grammar, which also goes
along tokens with balanced brackets (`Cursor.Walk`). The two go along the same tokens, but
for symbols that start with `>` or `=`: of such a symbol, reading may take the front only.
They meet again behind all characters `>` and `=` that follow (`Cursor.Skips.pastMarks`).

So reading stops where passing over did, or earlier, in front of a token that does not end a
body, or it goes on over a comma or a semicolon (`Surroundings.extent_lambdaBody`). That it
stops elsewhere does happen: what follows the body of a lambda in an argument is not looked
at.
-/

namespace Scriptlet

open Text Reading

variable {t : Token} {c : Char} {n : Nat} {cs : List Char}

/-! ## Symbols of marks -/

/-- The characters that symbols starting with a closing angle bracket consist of. -/
def isMark (c : Char) : Bool := c == '>' || c == '='

namespace SymbolTree

/-- Whether all symbols of a tree that is not deeper than this consist of some characters. -/
def consistsOf (p : Char → Bool) : (depth : Nat) → SymbolTree → Bool
  | 0, t => t.branches.isEmpty
  | depth + 1, t => t.branches.all fun (c, u) => p c && u.consistsOf p depth

theorem consistsOf_branch {p : Char → Bool} {depth : Nat} {t u : SymbolTree}
    (h : t.consistsOf p depth = true) (hu : t.branch? c = some u) :
    p c = true ∧ ∃ depth, u.consistsOf p depth = true := by
  obtain ⟨before, after, hbranches, -⟩ := List.lookup_eq_some_iff.mp hu
  have hmem : (c, u) ∈ t.branches := by simp [hbranches]
  cases depth with
  | zero =>
    rw [consistsOf, List.isEmpty_iff] at h
    rw [h] at hmem
    cases hmem
  | succ depth =>
    rw [consistsOf, List.all_eq_true] at h
    obtain ⟨hc, hu'⟩ := Bool.and_eq_true_iff.mp (h _ hmem)
    exact ⟨hc, depth, hu'⟩

/-- A walk down such a tree goes along such characters. -/
theorem all_of_walk {p : Char → Bool} {depth : Nat} {t : SymbolTree} {m : Nat}
    {best : Option Nat} (ht : t.consistsOf p depth = true) (h : t.walk n best cs = some m) :
    best = some m ∨ ∃ front rest, cs = front ++ rest ∧ m = n + byteSize front ∧
      front.all p = true := by
  induction cs generalizing t n best depth with
  | nil => exact .inl h
  | cons c cs ih =>
    rw [walk] at h
    split at h
    · exact .inl h
    · rename_i u hu
      obtain ⟨hc, depth', hu'⟩ := consistsOf_branch ht hu
      rcases ih hu' h with hbest | ⟨front, rest, rfl, rfl, hfront⟩
      · split at hbest
        · cases hbest
          exact .inr ⟨[c], cs, rfl, rfl, by simp [hc]⟩
        · exact .inl hbest
      · exact .inr ⟨c :: front, rest, rfl, by rw [byteSize_cons, Nat.add_assoc],
          by simp [hc, hfront]⟩

/-- What was found on a walk is not lost. -/
theorem isSome_walk (t : SymbolTree) (n m : Nat) (cs : List Char) :
    (t.walk n (some m) cs).isSome = true := by
  induction cs generalizing t n m with
  | nil => rfl
  | cons c cs ih =>
    rw [walk]
    split
    · rfl
    · dsimp only
      split <;> exact ih _ _ _

/-- At a mark stands a symbol, and it consists of marks. -/
theorem longestMatch?_mark (hc : isMark c = true) (cs : List Char) :
    ∃ front rest, cs = front ++ rest ∧ front.all isMark = true ∧
      SymbolTree.standard.longestMatch? (c :: cs) = some (byteSize (c :: front)) := by
  have hbranches : (['>', '='].all fun c => (SymbolTree.standard.branch? c).any
      fun u => u.terminal && u.consistsOf isMark 2) = true := by decide +kernel
  have hmem : c ∈ ['>', '='] := by simpa [isMark] using hc
  obtain ⟨u, hu, hmarks⟩ := (Option.any_eq_true _ _).mp (List.all_eq_true.mp hbranches c hmem)
  obtain ⟨hterminal, hmarks⟩ := Bool.and_eq_true_iff.mp hmarks
  have hwalk : SymbolTree.standard.longestMatch? (c :: cs) =
      u.walk c.utf8Size (some c.utf8Size) cs := by
    rw [longestMatch?, walk, hu]
    dsimp only
    rw [if_pos hterminal, Nat.zero_add]
  obtain ⟨m, hm⟩ := Option.isSome_iff_exists.mp (u.isSome_walk c.utf8Size c.utf8Size cs)
  rw [hwalk, hm]
  rcases all_of_walk hmarks hm with hbest | ⟨front, rest, hcs, rfl, hfront⟩
  · cases hbest
    exact ⟨[], cs, rfl, rfl, rfl⟩
  · exact ⟨front, rest, hcs, hfront, rfl⟩

end SymbolTree

namespace Cursor

/-- At a mark stands a token of marks. -/
theorem fronts_mark (hc : isMark c = true) (cs : List Char) :
    ∃ front rest, cs = front ++ rest ∧ front.all isMark = true ∧
      Lexeme.Fronts ⟨.symbol, c :: front⟩ rest := by
  obtain ⟨front, rest, rfl, hfront, hmatch⟩ := SymbolTree.longestMatch?_mark hc cs
  have hall : ∀ c ∈ ['>', '='], isBlank c = false ∧ c ≠ '/' ∧ c.isDigit = false ∧ c ≠ '.' ∧
      c ≠ '\'' ∧ startsName c = false ∧ c ≠ '$' ∧ c ≠ '@' ∧ c ≠ '"' :=
    List.forall_iff_forall_mem.mp (by decide)
  have hmem : c ∈ ['>', '='] := by simpa [isMark] using hc
  obtain ⟨hblank, hslash, hdigit, hpoint, hquote, hname, hdollar, hverbatim, hdouble⟩ := hall c hmem
  refine ⟨front, rest, rfl, hfront, ?_, List.cons_ne_nil _ _, rfl, fun offset => ?_⟩
  · rintro _ ⟨⟩
    exact hblank
  · have hask : ask offset (c :: (front ++ rest)) Reader.standard = .ok none := by
      rw [ask_eq_readName (fun h => absurd h hslash) hdigit hpoint
        (delimiters_none hdollar hverbatim hdouble) hquote, readName_cons, hname]
      rfl
    unfold Cursor.front
    rw [List.cons_append, hask]
    simp only [bind, Except.bind, hmatch]
    rw [← List.cons_append, takeBytes_append]
    rfl

/-! ## Reading where a cursor stands -/

/-- Behind a front of the token that is read stand the rest of the token and what follows. -/
theorem StandsAt.read_token {c d : Cursor} {text : List Char} (h : c.StandsAt text)
    (hread : c.read true = (.ok t, d)) (ht : t.isEof = false) :
    ∃ skipped rest, text = skipped ++ (t.lexeme ++ rest) ∧ t.lexeme ≠ [] ∧
      front Reader.standard .standard t.start (t.lexeme ++ rest) = .ok t ∧
      d = { c with place := ⟨t.start - c.base, byteSize t.lexeme⟩ } ∧
      ∀ before behind, t.lexeme = before ++ behind →
        StandsAt { c with place := ⟨t.start - c.base, byteSize before⟩ } (behind ++ rest) := by
  obtain ⟨done, hsource, hplace⟩ := h.split
  obtain ⟨skipped, text', x, place, htext, hread', hfinds⟩ := c.exists_finds_read
  rw [h.remaining] at htext
  obtain ⟨rfl, rfl⟩ := Prod.mk.inj (hread.symm.trans hread')
  cases hfinds with
  | eof => cases ht
  | token hfront =>
    obtain ⟨hstarts, hne, ⟨rest, rfl⟩, -⟩ := isFront_of_front hfront
    rw [h.readers, h.symbols] at hfront
    have hstart : t.start - c.base = byteSize done + byteSize skipped := by
      rw [hstarts, hplace, Nat.add_sub_cancel_left]
    refine ⟨skipped, rest, htext, hne, hstarts ▸ hfront, ?_, fun before behind hsplit => ?_⟩
    · rw [hstart, hplace]
    · refine ⟨⟨done ++ skipped ++ before, ?_, ?_⟩, h.readers, h.symbols⟩
      · change c.source = _
        rw [hsource, htext, hsplit]
        simp only [List.append_assoc]
      · simp only [byteSize_append, hstart]

/-- Cursors that stand at the same place of a source read the same. -/
theorem StandsAt.read_congr {c d : Cursor} {text : List Char} (hc : c.StandsAt text)
    (hd : d.StandsAt text) (h : c.unplaced = d.unplaced) : c.read true = d.read true := by
  obtain ⟨done, hsource, hplace⟩ := hc.split
  obtain ⟨done', hsource', hplace'⟩ := hd.split
  have hc' : c = { d with place := c.place } :=
    congrArg (fun e : Cursor => { e with place := c.place }) h
  have hdone : done = done' := by
    have hsources : done ++ text = done' ++ text := by rw [← hsource, ← hsource', hc']
    exact List.append_cancel_right hsources
  unfold Cursor.read
  dsimp only
  rw [hc.remaining, hd.remaining, hplace, hplace', hdone, hc']
  rw [scan_place]

end Cursor

/-- A token within a body that is no bracket. -/
def Token.IsPlain (t : Token) : Prop := ∀ n, endsBody n t = false ∧ t.brackets n = some n

/-- A token that starts with a mark is no bracket and ends no body. -/
theorem Token.isPlain_of_mark (ht : t.isEof = false)
    (hc : t.lexeme.head? = some c) (hmark : isMark c = true) : t.IsPlain := by
  have hall : ∀ w ∈ ["(", "[", "\x7b", ")", "]", "\x7d", ",", ";"],
      w.toList.head?.any isMark = false := by decide
  have hnot : ∀ w ∈ ["(", "[", "\x7b", ")", "]", "\x7d", ",", ";"], t.is w = false := by
    intro w hw
    rw [Bool.eq_false_iff]
    intro his
    have hlexeme : t.lexeme = w.toList := beq_iff_eq.mp (Bool.and_eq_true_iff.mp his).2
    have hunmarked := hall w hw
    rw [← hlexeme, hc, Option.any_some, hmark] at hunmarked
    cases hunmarked
  intro n
  constructor
  · simp [endsBody, ht, hnot]
  · rw [Token.brackets_eq ht]
    simp [hnot]

/-- A token that ends a body and closes no bracket separates the body from what follows. -/
theorem Token.separates_of_endsBody {k : Nat} (h : endsBody n t = true)
    (hn : t.brackets n = some k) : t.is "," = true ∨ t.is ";" = true := by
  rcases Bool.or_eq_true_iff.mp h with heof | hdepth
  · rw [Token.brackets, if_pos heof] at hn
    cases hn
  · obtain ⟨hzero, hends⟩ := Bool.and_eq_true_iff.mp hdepth
    obtain rfl : n = 0 := beq_iff_eq.mp hzero
    rcases Bool.or_eq_true_iff.mp hends with hends | hsemicolon
    · rcases Bool.or_eq_true_iff.mp hends with hcloses | hcomma
      · obtain ⟨w, hw, his⟩ := List.any_eq_true.mp hcloses
        have hclosed : ∀ w ∈ [")", "]", "\x7d"], bracketsAfter w 0 = none := by decide
        rw [Token.brackets_of_is his, hclosed w hw] at hn
        cases hn
      · exact .inl hcomma
    · exact .inr hsemicolon

/-- A text starts with a mark, or no marks are to be passed over. -/
theorem mark_or_dropWhile (text : List Char) :
    (∃ m cs, text = m :: cs ∧ isMark m = true) ∨ text.dropWhile isMark = text := by
  match text with
  | [] => exact .inr rfl
  | m :: cs =>
    by_cases hm : isMark m = true
    · exact .inl ⟨m, cs, rfl, hm⟩
    · exact .inr (List.dropWhile_cons_of_neg hm)

namespace Cursor

variable {c : Cursor} {text : List Char} {t : Token}

/-- At a mark, a symbol is read that ends among marks. -/
theorem StandsAt.read_symbol {m : Char} (h : c.StandsAt (m :: cs)) (hm : isMark m = true) :
    ∃ start front rest d, c.read true = (.ok ⟨.symbol, m :: front, start⟩, d) ∧ d.StandsAt rest ∧
      rest.length ≤ cs.length ∧ rest.dropWhile isMark = (m :: cs).dropWhile isMark := by
  obtain ⟨front, rest, rfl, hfront, hfronts⟩ := fronts_mark hm cs
  have htext : c.StandsAt ([] ++ (m :: front ++ rest)) := h
  obtain ⟨d, hread, hd⟩ := htext.read_lexeme (List.forall_mem_nil _) hfronts
  refine ⟨_, front, rest, d, hread, hd, by simp, ?_⟩
  rw [List.dropWhile_cons_of_pos hm, List.dropWhile_append_of_pos (List.all_eq_true.mp hfront)]

theorem StandsAt.read_mark {m : Char} (h : c.StandsAt (m :: cs)) (hm : isMark m = true) :
    ∃ t d rest, c.read true = (.ok t, d) ∧ t.IsPlain ∧ d.StandsAt rest ∧
      rest.dropWhile isMark = (m :: cs).dropWhile isMark := by
  obtain ⟨start, front, rest, d, hread, hd, -, hdrop⟩ := h.read_symbol hm
  exact ⟨_, d, rest, hread, Token.isPlain_of_mark rfl rfl hm, hd, hdrop⟩

/-- Of a symbol that starts with a closing angle bracket, the front is taken or all of it. -/
theorem exists_of_readSymbolFront {d : Cursor} (h : c.readSymbolFront ">" = (.ok true, d)) :
    ∃ t e behind, c.read true = (.ok t, e) ∧ t.isEof = false ∧ t.lexeme = '>' :: behind ∧
      (d = { c with place := ⟨t.start - c.base, byteSize ['>']⟩ } ∨ d = e) := by
  have heof {t : Token} (ht : (t.kind.isSymbol || t.kind.isKeyword) = true) : t.isEof = false := by
    obtain ⟨kind, lexeme, start⟩ := t
    cases kind <;> first | rfl | cases ht
  rcases readSymbolFront_cases h with ⟨hno, -⟩ | ⟨t, e, -, hread, ⟨his, rfl⟩ | ⟨hkind, hfront, rfl⟩⟩
  · exact absurd rfl hno
  · obtain ⟨hkind, hlexeme⟩ := Bool.and_eq_true_iff.mp his
    exact ⟨t, d, [], hread, heof hkind, beq_iff_eq.mp hlexeme, .inr rfl⟩
  · refine ⟨t, e, t.lexeme.tail, hread, heof (by rw [hkind, Bool.true_or]), ?_, .inl rfl⟩
    match hlexeme : t.lexeme with
    | [] =>
      rw [hlexeme] at hfront
      cases hfront
    | a :: behind =>
      obtain rfl : '>' = a := by simpa [hlexeme, startsWith, strip?] using hfront
      rfl

/-- Behind the front of a symbol stand marks that belong to it, if any. -/
theorem StandsAt.readSymbolFront {d : Cursor} (h : c.StandsAt text)
    (hread : c.readSymbolFront ">" = (.ok true, d)) :
    ∃ t e back rest, c.read true = (.ok t, e) ∧ t.IsPlain ∧ e.StandsAt rest ∧
      d.StandsAt (back ++ rest) ∧ back.all isMark = true ∧
      byteSize (back ++ rest) < byteSize text := by
  obtain ⟨t, e, behind, htoken, ht, hlexeme, hd⟩ := exists_of_readSymbolFront hread
  obtain ⟨skipped, rest, htext, -, hfront, rfl, hstands⟩ := h.read_token htoken ht
  have hangle : isMark '>' = true := rfl
  obtain ⟨marks, rest', hsplit, hmarks, hfronts⟩ := fronts_mark hangle (behind ++ rest)
  have hmarked : behind = marks := by
    have hsame := hfronts.front t.start
    rw [List.cons_append, ← hsplit, ← List.cons_append, ← hlexeme, hfront] at hsame
    injection hsame with hsame
    rw [hsame] at hlexeme
    exact (List.cons.inj hlexeme).2.symm
  have hsize : byteSize text = byteSize skipped + (1 + byteSize behind + byteSize rest) := by
    rw [htext, hlexeme, byteSize_append, byteSize_append, byteSize_cons]
    rfl
  have hplain : t.IsPlain := Token.isPlain_of_mark ht (by rw [hlexeme]; rfl) hangle
  have he := hstands t.lexeme [] (List.append_nil _).symm
  rcases hd with rfl | rfl
  · refine ⟨t, _, behind, rest, htoken, hplain, he, hstands ['>'] behind hlexeme,
      hmarked ▸ hmarks, ?_⟩
    rw [byteSize_append]
    omega
  · refine ⟨t, _, [], rest, htoken, hplain, he, he, rfl, ?_⟩
    rw [List.nil_append]
    omega

/-! ## Where cursors are in their source -/

theorem StandsAt.offset_add {d : Cursor} {rest : List Char} (hc : c.StandsAt text)
    (hd : d.StandsAt rest) (h : d.unplaced = c.unplaced) :
    c.offset + byteSize text = d.offset + byteSize rest := by
  obtain ⟨done, hsource, hplace⟩ := hc.split
  obtain ⟨done', hsource', hplace'⟩ := hd.split
  obtain ⟨hsources, hbase, -⟩ := Cursor.mk.inj h
  have hsize : byteSize done + byteSize text = byteSize done' + byteSize rest := by
    rw [← byteSize_append, ← byteSize_append, ← hsource, ← hsource', hsources]
  unfold offset
  omega

theorem StandsAt.read_lt {d : Cursor} (h : c.StandsAt text)
    (hread : c.read true = (.ok t, d)) (ht : t.isEof = false) :
    ∃ rest, d.StandsAt rest ∧ byteSize rest < byteSize text := by
  obtain ⟨skipped, rest, htext, hne, -, rfl, hstands⟩ := h.read_token hread ht
  refine ⟨rest, hstands t.lexeme [] (List.append_nil _).symm, ?_⟩
  have hpos := (List.length_pos_iff.mpr hne).trans_le (length_le_byteSize t.lexeme)
  rw [htext, byteSize_append, byteSize_append]
  omega

theorem isEof_of_brackets {k : Nat} (h : t.brackets n = some k) : t.isEof = false := by
  rw [Bool.eq_false_iff]
  intro heof
  rw [Token.brackets, if_pos heof] at h
  cases h

/-- A walk goes on in its source. -/
theorem Walk.standsAt {m : Nat} {d : Cursor} (h : Walk n c m d) (hc : c.StandsAt text) :
    d.unplaced = c.unplaced ∧ ∃ rest, d.StandsAt rest ∧ byteSize rest ≤ byteSize text := by
  induction h generalizing text with
  | stay => exact ⟨rfl, text, hc, Nat.le_refl _⟩
  | token hread ht _ ih =>
    obtain ⟨rest, hd, hlt⟩ := hc.read_lt hread (isEof_of_brackets ht)
    obtain ⟨hunplaced, rest', he, hle⟩ := ih hd
    exact ⟨hunplaced.trans (unplaced_of_read hread), rest', he, hle.trans hlt.le⟩
  | @front _ _ c _ _ hread _ ih =>
    obtain ⟨-, -, back, rest, -, -, -, hd, -, hlt⟩ := hc.readSymbolFront hread
    obtain ⟨hunplaced, rest', he, hle⟩ := ih hd
    have hfront := c.unplaced_readSymbolFront ">"
    rw [hread] at hfront
    exact ⟨hunplaced.trans hfront, rest', he, hle.trans hlt.le⟩
  | ended _ _ _ ih => exact ih hc

theorem StandsAt.offset_lt {d : Cursor} (h : c.StandsAt text)
    (hread : c.read true = (.ok t, d)) (ht : t.isEof = false) : c.offset < d.offset := by
  obtain ⟨rest, hd, hlt⟩ := h.read_lt hread ht
  have hadd := h.offset_add hd (unplaced_of_read hread)
  omega

theorem Walk.offset_le {m : Nat} {d : Cursor} (h : Walk n c m d)
    (hc : c.StandsAt text) : c.offset ≤ d.offset := by
  obtain ⟨hunplaced, rest, hd, hle⟩ := h.standsAt hc
  have hadd := hc.offset_add hd hunplaced
  omega

/-! ## Passing over a body -/

/-- Passing over the body of a lambda: token after token, up to one that ends it. -/
inductive Skips : Nat → Cursor → Cursor → Prop
  | stop {n : Nat} {c : Cursor} {t : Token} (hpeek : c.peek = .ok t) (ht : endsBody n t = true) :
      Skips n c c
  | step {n k : Nat} {c d e : Cursor} {t : Token} (hread : c.read true = (.ok t, d))
      (ht : endsBody n t = false) (hn : t.brackets n = some k) (h : Skips k d e) : Skips n c e

/-- What is passed over is a walk, but for brackets that are open where the source ends. -/
theorem Skips.walk {d : Cursor} (h : Skips n c d) : Walk n c 0 d := by
  induction h with
  | stop hpeek ht =>
    rcases Bool.or_eq_true_iff.mp ht with heof | hdepth
    · exact .ended hpeek heof .stay
    · obtain rfl := beq_iff_eq.mp (Bool.and_eq_true_iff.mp hdepth).1
      exact .stay
  | step hread _ hn _ ih => exact .token hread hn ih

/-- Marks at the front are passed over. -/
theorem Skips.pastMarks {d : Cursor} (h : Skips n c d) (hc : c.StandsAt text) :
    ∃ c', Skips n c' d ∧ c'.StandsAt (text.dropWhile isMark) ∧ c'.unplaced = c.unplaced := by
  induction h generalizing text with
  | stop hpeek ht =>
    rcases mark_or_dropWhile text with ⟨m, cs, rfl, hm⟩ | hsame
    · obtain ⟨t, d, rest, hread, hplain, -, -⟩ := hc.read_mark hm
      rw [Cursor.peek, hread] at hpeek
      cases hpeek
      rw [(hplain _).1] at ht
      cases ht
    · exact ⟨_, .stop hpeek ht, hsame.symm ▸ hc, rfl⟩
  | step hread ht hn h ih =>
    rcases mark_or_dropWhile text with ⟨m, cs, rfl, hm⟩ | hsame
    · obtain ⟨t, d, rest, hread', hplain, hd, hdrop⟩ := hc.read_mark hm
      rw [hread] at hread'
      cases hread'
      rw [(hplain _).2] at hn
      cases hn
      obtain ⟨c', hskips, hc', hunplaced⟩ := ih hd
      exact ⟨c', hskips, hdrop ▸ hc', hunplaced.trans (unplaced_of_read hread)⟩
    · exact ⟨_, .step hread ht hn h, hsame.symm ▸ hc, rfl⟩

/-! ## Reading what was passed over -/

/-- Where reading a body may end, if passing over it has ended at another cursor: there, in
    front of it at a token that does not end the body, or behind a comma or semicolon there. -/
def Extent (d q : Cursor) : Prop :=
  d.offset = q.offset ∨
  (d.offset < q.offset ∧ ∃ t, d.peek = .ok t ∧ endsBody 0 t = false) ∨
  (q.offset < d.offset ∧ ∃ t, q.peek = .ok t ∧ (t.is "," = true ∨ t.is ";" = true))

theorem byteSize_pastMarks {m : Char} (hm : isMark m = true) (cs : List Char) :
    byteSize ((m :: cs).dropWhile isMark) < byteSize (m :: cs) := by
  obtain ⟨marks, hmarks⟩ := List.dropWhile_suffix (l := cs) isMark
  have hsize : byteSize cs = byteSize marks + byteSize (cs.dropWhile isMark) := by
    rw [← byteSize_append, hmarks]
  have hpos := m.utf8Size_pos
  rw [List.dropWhile_cons_of_pos hm, byteSize_cons]
  omega

/-- While a walk is among marks, passing over is behind them; otherwise the two are at the
    same place, until the one or the other ends. -/
theorem Walk.extent {m : Nat} {w s d q : Cursor} (h : Walk n w m d) (hm : m = 0)
    (hw : w.StandsAt text) (hs : s.StandsAt (text.dropWhile isMark))
    (hsame : s.unplaced = w.unplaced) (hskips : Skips n s q) : d.Extent q := by
  induction h generalizing s text with
  | @stay n w =>
    subst hm
    have hle := hskips.walk.offset_le hs
    have hadd := hw.offset_add hs hsame
    rcases mark_or_dropWhile text with ⟨m, cs, rfl, hm⟩ | htext
    · obtain ⟨t, e, -, hread, hplain, -, -⟩ := hw.read_mark hm
      have hlt := byteSize_pastMarks hm cs
      exact .inr (.inl ⟨by omega, t, by rw [Cursor.peek, hread], (hplain 0).1⟩)
    · rw [htext] at hs hadd
      have hoffset : w.offset = s.offset := by omega
      cases hskips with
      | stop hpeek ht => exact .inl hoffset
      | @step _ k _ e _ t hread ht hn hskips =>
        have hpeek : w.peek = .ok t := by rw [Cursor.peek, hw.read_congr hs hsame.symm, hread]
        obtain ⟨rest, he, -⟩ := hs.read_lt hread (isEof_of_brackets hn)
        have hlt := hs.offset_lt hread (isEof_of_brackets hn)
        have hle := hskips.walk.offset_le he
        exact .inr (.inl ⟨by omega, t, hpeek, ht⟩)
  | @token n k _ w e d t hread ht h ih =>
    have hunplaced := unplaced_of_read hread
    rcases mark_or_dropWhile text with ⟨m, cs, rfl, hmark⟩ | htext
    · obtain ⟨t', e', rest, hread', hplain, he, hdrop⟩ := hw.read_mark hmark
      rw [hread] at hread'
      cases hread'
      rw [(hplain n).2] at ht
      cases ht
      -- Passing over is behind the marks already and waits there.
      exact ih hm he (hdrop ▸ hs) (hsame.trans hunplaced.symm) hskips
    · rw [htext] at hs
      have hsread := (hs.read_congr hw hsame).trans hread
      obtain ⟨rest, he, -⟩ := hw.read_lt hread (isEof_of_brackets ht)
      cases hskips with
      | @stop _ _ t' hpeek hends =>
        -- Passing over has ended, but not at a closing bracket.
        rw [Cursor.peek, hsread] at hpeek
        cases hpeek
        have hadd := hw.offset_add hs hsame
        have hlt := hw.offset_lt hread (isEof_of_brackets ht)
        have hle := h.offset_le he
        exact .inr (.inr ⟨by omega, t, by rw [Cursor.peek, hsread],
          Token.separates_of_endsBody hends ht⟩)
      | step hread' _ hn hskips =>
        rw [hsread] at hread'
        cases hread'
        rw [ht] at hn
        cases hn
        -- Both have read the token; passing over goes on behind the marks that follow it.
        obtain ⟨s', hskips', hs', hunplaced'⟩ := hskips.pastMarks he
        exact ih hm he hs' hunplaced' hskips'
  | @front n _ w e d hread h ih =>
    obtain ⟨t, e', back, rest, htoken, hplain, he', he, hback, -⟩ := hw.readSymbolFront hread
    have hunplaced : e.unplaced = w.unplaced := by
      rw [← w.unplaced_readSymbolFront ">", hread]
    have hdrop : (back ++ rest).dropWhile isMark = rest.dropWhile isMark :=
      List.dropWhile_append_of_pos (List.all_eq_true.mp hback)
    rcases mark_or_dropWhile text with ⟨m, cs, rfl, hmark⟩ | htext
    · obtain ⟨t', e'', rest', htoken', -, he'', hdrop'⟩ := hw.read_mark hmark
      rw [htoken] at htoken'
      cases htoken'
      rw [← hdrop', ← he''.remaining, he'.remaining, ← hdrop] at hs
      exact ih hm he hs (hsame.trans hunplaced.symm) hskips
    · rw [htext] at hs
      have hsread := (hs.read_congr hw hsame).trans htoken
      cases hskips with
      | stop hpeek hends =>
        rw [Cursor.peek, hsread] at hpeek
        cases hpeek
        rw [(hplain n).1] at hends
        cases hends
      | step hread' _ hn hskips =>
        rw [hsread] at hread'
        cases hread'
        rw [(hplain n).2] at hn
        cases hn
        obtain ⟨s', hskips', hs', hunplaced'⟩ := hskips.pastMarks he'
        rw [← hdrop] at hs'
        exact ih hm he hs' ((hunplaced'.trans (unplaced_of_read htoken)).trans hunplaced.symm) hskips'
  | @ended n k _ w d t hpeek ht h ih =>
    rcases mark_or_dropWhile text with ⟨m, cs, rfl, hmark⟩ | htext
    · obtain ⟨t', e, -, hread, hplain, -, -⟩ := hw.read_mark hmark
      rw [Cursor.peek, hread] at hpeek
      cases hpeek
      rw [isEof_of_brackets (hplain n).2] at ht
      cases ht
    · have hspeek : s.peek = .ok t := by
        rw [Cursor.peek, (htext ▸ hs : s.StandsAt text).read_congr hw hsame]
        exact hpeek
      refine ih hm hw hs hsame ?_
      cases hskips with
      | stop => exact .stop hspeek (by rw [endsBody, ht, Bool.true_or])
      | step hread _ hn =>
        rw [Cursor.peek, hread] at hspeek
        cases hspeek
        rw [isEof_of_brackets hn] at ht
        cases ht

end Cursor

namespace Reading

/-- Passing over a body goes along tokens up to one that ends it. -/
theorem skips_of_skipBody {p q : Position} (h : skipBody p = .ok () q) :
    Cursor.Skips 0 p.cursor q.cursor := by
  rw [skipBody_eq] at h
  -- However far a round has come, passing over the rest is passing over all of it.
  have hends : Ends (iterate skipRound 0) p fun _ q => Cursor.Skips 0 p.cursor q.cursor := by
    refine .iterate (J := fun depth p' => ∀ e, Cursor.Skips depth p'.cursor e → Cursor.Skips 0 p.cursor e)
      (fun _ he => he) fun depth p' hp' => ?_
    have hround := (runs_skipRound depth).moves 0 p'
    refine ⟨hround.keeps, hround.follows, fun o q' ho => ?_⟩
    obtain ⟨next, p₁, hnext, hrest⟩ := exists_of_bind ho
    obtain ⟨hpeek, rfl⟩ := peek_eq_ok hnext
    split at hrest
    · cases hrest
      exact hp' _ (.stop hpeek ‹_›)
    · rename_i hon
      obtain ⟨t, p₂, htoken, hrounds⟩ := exists_of_bind hrest
      cases hrounds
      have hread := read_of_token htoken
      rw [Cursor.peek, hread] at hpeek
      cases hpeek
      have hon := Bool.eq_false_iff.mpr hon
      exact fun e he => hp' e (.step hread hon (brackets_of_endsBody hon) he)
  exact hends.gives () q h

end Reading

/-- A lambda without types is read to where its body was passed over; or it is read less far,
    to a token that does not end a body; or further, over a comma or semicolon. -/
theorem Surroundings.extent_lambdaBody (s : Surroundings) (levels : Nat) {p q r : Position}
    {text : List Char} {l : PendingLambda Deferred} {types : List Ty} {ret : Option Ty}
    {scopes : Scopes} {e : Expr} (hp : p.cursor.StandsAt text)
    (hl : pendingLambda s.directory p = .ok (some l) q)
    (hbody : (s.grammar levels).lambdaBody (l.params.map (·.2)) types ret l.body.offset
      ⟨l.body.cursor, scopes⟩ = .ok e r) : r.cursor.Extent q.cursor := by
  obtain ⟨t, p₁, ht, hread⟩ := exists_of_bind hl
  obtain ⟨-, rfl⟩ := peek_eq_ok ht
  obtain ⟨o, p₂, hhead, hrest⟩ := exists_of_bind hread
  have hreaches := Level.reaches inferInstance hhead
  cases o with
  | none => cases hrest
  | some params =>
    obtain ⟨_, _, hget, hpassed⟩ := exists_of_bind hrest
    cases hget
    obtain ⟨_, p₃, hskip, hgiven⟩ := exists_of_bind hpassed
    cases hgiven
    obtain ⟨-, rest, hcursor, -⟩ := (hreaches.walk 0).standsAt hp
    have hwalk := (Level.reaches inferInstance hbody).walk 0
    obtain ⟨c, hskips, hc, hsame⟩ := (skips_of_skipBody hskip).pastMarks hcursor
    exact hwalk.extent rfl hcursor hc hsame hskips

-- All three occur: the offsets to which a body is passed over and to which it is read.
example :
    let s : Surroundings := { directory := { catalog := .standard } }
    let ends (source : String) : Option (Nat × Nat) :=
      match pendingLambda s.directory ⟨.ofSource source.toList 0, { next := 0 }⟩ with
      | .ok (some l) q =>
        match (s.grammar 10).lambdaBody (l.params.map (·.2)) [.int] none l.body.offset
            ⟨l.body.cursor, { next := 0 }⟩ with
        | .ok _ r => some (q.cursor.offset, r.cursor.offset)
        | .error _ _ => none
      | _ => none
    ends "x => x + 5)" = some (10, 10) ∧ ends "x => x 5)" = some (8, 6) ∧
      ends "x => int y = x, z)" = some (14, 17) := by
  decide +kernel

end Scriptlet

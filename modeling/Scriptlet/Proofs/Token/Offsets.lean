import Mathlib.Data.List.Induction
import Scriptlet.Proofs.Expr.Parts
import Scriptlet.Proofs.Token.Partition
import Scriptlet.Proofs.Token.Symbols
import Scriptlet.Template

/-!
# Where the errors in tokens are

An error in a token is found at a place that the token covers: at its start, at an escape, or at
a literal in a hole. So it lies no further on than the text goes that the token is read from
(`Cursor.ends_front`), and the same holds of what is found behind blanks and comments
(`Cursor.Within.read`). The holes of a template are parts of it, and errors in its parts lie
within it (`Template.ends_split`).

Escapes are decoded after doubled braces have been made single ones. That makes a text shorter, so
the places that are counted in it are not too far on.
-/

namespace Scriptlet

open Text

variable {cs : List Char}

/-- An error lies no further on than a place. -/
def Error.UpTo (n : Nat) (e : Error) : Prop := ∀ k ∈ e.offset?, k ≤ n

theorem Error.UpTo.of {n k : Nat} {e : Error} (he : e.offset? = some k) (h : k ≤ n) : e.UpTo n := by
  intro k' hk'
  rwa [Option.mem_unique hk' he]

/-- If there is an error, it lies no further on than a place. -/
abbrev ErrorsUpTo {α : Type} (n : Nat) : Except Error α → Prop :=
  Ends (fun _ => True) (Error.UpTo n)

theorem byteSize_take_add_drop (k : Nat) (cs : List Char) :
    byteSize (cs.take k) + byteSize (cs.drop k) = byteSize cs := by
  rw [← byteSize_append, List.take_append_drop]

theorem add_byteSize_drop_le {k : Nat} (h : k ≤ cs.length) :
    k + byteSize (cs.drop k) ≤ byteSize cs := by
  have htake := length_le_byteSize (cs.take k)
  have hsplit := byteSize_take_add_drop k cs
  rw [List.length_take_of_le h] at htake
  omega

/-- The body of a literal ends within it. -/
theorem Delimiters.opening_add_le {d : Delimiters} (h : Delimiters.of? cs = some d) :
    d.opening + byteSize (d.body cs) ≤ byteSize cs := by
  have hdrop := add_byteSize_drop_le (opening_bounds h).2
  have htake : byteSize (d.body cs) ≤ byteSize (cs.drop d.opening) := by
    rw [body, List.drop_take]
    exact SymbolTree.byteSize_le_of_prefix ( List.take_prefix _ _)
  omega

/-! ## Literals -/

section

variable {n start offset : Nat} {cs : List Char}

theorem errorsUpTo_unescapeFrom {skip : Nat} (h : offset + byteSize cs ≤ n) :
    ErrorsUpTo n (unescapeFrom offset skip cs) := by
  have hsize := Char.utf8Size_pos
  fun_induction unescapeFrom with
  | case1 => trivial
  | case2 offset skip c cs ih => exact ih (by rw [byteSize_cons] at h; omega)
  | case3 offset c cs _ ih => exact (ih (by rw [byteSize_cons] at h; omega)).map fun _ => id
  | case6 offset c _ e rest _ _ _ _ _ ih | case8 offset c _ e rest _ _ _ ih =>
    rw [byteSize_cons] at h
    exact (ih (by have := hsize c; omega)).map fun _ => id
  | _ => exact .of rfl (by omega)

theorem ends_closeTemplate {style : StringStyle} {steps depth : Nat} (hstart : start ≤ n)
    (h : offset + byteSize cs ≤ n) :
    ErrorsUpTo n (closeTemplate style start steps offset depth cs) := by
  have hgo {k offset : Nat} {cs : List Char} (h : offset + byteSize cs ≤ n) :
      offset + byteSize (cs.take k) + byteSize (cs.drop k) ≤ n := by
    have := byteSize_take_add_drop k cs
    omega
  fun_induction closeTemplate with
  | case3 _ _ _ _ _ _ _ _ _ _ ih | case6 _ _ _ _ _ _ _ _ _ _ ih =>
    exact (ih _ _ (hgo h)).map fun _ => id
  | case5 => exact True.intro
  | _ => exact .of rfl (by omega)

theorem ends_closeString {d : Delimiters} (hstart : start ≤ n) (h : offset + byteSize cs ≤ n) :
    ErrorsUpTo n (closeString d start offset cs) := by
  unfold closeString
  split
  case h_2 => exact ends_closeTemplate hstart h
  all_goals
    split
    · trivial
    · exact .of rfl hstart

theorem ends_decodeString (h : offset + byteSize cs ≤ n) :
    ErrorsUpTo n (decodeString cs offset) := by
  unfold decodeString
  split
  · rename_i d hd
    have hbody := Delimiters.opening_add_le hd
    split
    · exact .of rfl (by omega)
    split
    · exact errorsUpTo_unescapeFrom (by omega)
    · trivial
  · exact .of rfl (by omega)

theorem ends_readString (h : offset + byteSize cs ≤ n) : ErrorsUpTo n (readString offset cs) := by
  unfold readString
  split
  · trivial
  · rename_i d hd
    have hdrop := add_byteSize_drop_le (Delimiters.opening_bounds hd).2
    refine (ends_closeString (by omega) (by omega)).bind fun k _ => ?_
    have htake := byteSize_take_add_drop (d.opening + k) cs
    split
    · trivial
    · exact (ends_decodeString (by omega)).bind fun _ _ => trivial

theorem ends_readNumber (h : offset ≤ n) : ErrorsUpTo n (readNumber offset cs) := by
  have hthrow {α : Type} {e : Error} (he : e.offset? = some offset) :
      ErrorsUpTo n (throw e : Except Error α) := .of he h
  unfold readNumber
  split
  · split
    · unfold readBased
      dsimp only
      repeat' split
      all_goals first | exact True.intro | exact hthrow rfl
    · unfold readTens
      dsimp only
      generalize Binary.readDouble? _ = value
      cases value
      all_goals
        repeat' split
        all_goals first | exact True.intro | exact hthrow rfl
  · trivial

theorem ends_readComment (h : offset ≤ n) : ErrorsUpTo n (readComment offset cs) := by
  unfold readComment
  repeat' split
  all_goals first | exact True.intro | exact .of rfl h

theorem ends_readChar (h : offset + byteSize cs ≤ n) : ErrorsUpTo n (readChar offset cs) := by
  unfold readChar
  split
  · rename_i cs
    have hquote := Char.utf8Size_pos '\''
    rw [byteSize_cons] at h
    split
    · exact .of rfl (by omega)
    · rename_i k _
      have htake := byteSize_take_add_drop (k - 1) cs
      refine (errorsUpTo_unescapeFrom (by omega)).bind fun text _ => ?_
      split
      · trivial
      · exact .of rfl (by omega)
  · trivial

end

/-! ## Tokens -/

/-- A token ends no further on than a place. -/
def Token.UpTo (n : Nat) (t : Token) : Prop := t.start + byteSize t.lexeme ≤ n

/-- A place ends no further on than another one. -/
def Place.UpTo (m : Nat) (p : Place) : Prop := p.index + p.length ≤ m

namespace Cursor

variable {n m offset : Nat} {cs : List Char} {c : Cursor}

theorem ends_ask (h : offset + byteSize cs ≤ n) (readers : List Reader) :
    ErrorsUpTo n (ask offset cs readers) := by
  have hoffset : offset ≤ n := by omega
  have hread (r : Reader) : ErrorsUpTo n (r.read offset cs) := by
    cases r with
    | comment => exact ends_readComment hoffset
    | number => exact ends_readNumber hoffset
    | string => exact ends_readString h
    | char => exact ends_readChar h
    | name => trivial
  induction readers with
  | nil => trivial
  | cons r readers ih =>
    refine (hread r).bind fun found _ => ?_
    cases found with
    | none => exact ih
    | some found => trivial

/-- The token at the front of a text, or the error in it, ends within the text. -/
theorem ends_front (h : offset + byteSize cs ≤ n) (readers : List Reader) (symbols : SymbolTree) :
    ErrorsUpTo n (front readers symbols offset cs) := by
  refine (ends_ask h readers).bind fun found _ => ?_
  cases found with
  | some found => trivial
  | none =>
    dsimp only
    split
    · trivial
    · exact .of rfl (by omega)

/-- A cursor in a source of at most `m` bytes that ends no further on than `n`, with its place and
    the places it keeps in the source. -/
structure Within (n m : Nat) (c : Cursor) : Prop where
  base : c.base + m ≤ n
  source : byteSize c.source ≤ m
  place : c.place.UpTo m
  saved : ∀ p ∈ c.saved, p.UpTo m

theorem within_ofSource {source : List Char} {base : Nat} (h : base + byteSize source ≤ n) :
    (ofSource source base).Within n (byteSize source) :=
  ⟨h, Nat.le_refl _, Nat.zero_le _, by simp [ofSource]⟩

/-- A token of the source that a cursor is in. -/
def Holds (c : Cursor) (m : Nat) (t : Token) : Prop := c.base ≤ t.start ∧ t.UpTo (c.base + m)

theorem byteSize_dropBytes (k : Nat) (cs : List Char) :
    byteSize (dropBytes k cs) ≤ byteSize cs - k := by
  fun_induction dropBytes <;> simp_all
  omega

/-- Reading keeps to the source, and what is found ends within it, be it a token or an error. -/
theorem Within.read (h : c.Within n m) :
    Ends (c.Holds m) (Error.UpTo n) (c.read true).1 ∧ (c.read true).2.Within n m := by
  obtain ⟨skipped, rest, x, place, hrest, hread, hfinds⟩ := c.exists_finds_read
  have hbase := h.base
  have hto : c.place.index + c.place.length + byteSize skipped + byteSize rest ≤ m := by
    have hplace : c.place.index + c.place.length ≤ m := h.place
    have hsource := h.source
    have hremaining := byteSize_dropBytes (c.place.index + c.place.length) c.source
    rw [← Cursor.remaining, hrest, byteSize_append] at hremaining
    omega
  have hwithin {index length : Nat} (hto : index + length ≤ m) :
      Within n m { c with place := ⟨index, length⟩ } :=
    ⟨h.base, h.source, hto, h.saved⟩
  rw [hread]
  cases hfinds with
  | eof =>
    have hend : c.Holds m ⟨.eof, [], c.base + byteSize c.source⟩ :=
      ⟨Nat.le_add_right _ _, Nat.add_le_add_left h.source _⟩
    exact ⟨hend, hwithin (by omega)⟩
  | error herror =>
    have hends := ends_front (show c.base + (c.place.index + c.place.length + byteSize skipped) +
      byteSize rest ≤ n by omega) c.readers c.symbols
    rw [herror] at hends
    exact ⟨hends, hwithin (by omega)⟩
  | token htoken =>
    obtain ⟨hstart, -, ⟨rest', rfl⟩, -⟩ := isFront_of_front htoken
    rw [byteSize_append] at hto
    refine ⟨⟨by omega, ?_⟩, hwithin (by omega)⟩
    rw [Token.UpTo]
    omega

end Cursor

/-! ## Templates -/

/-- A hole ends no further on than a place. -/
def Segment.UpTo (n : Nat) : Segment → Prop
  | .literal _ => True
  | .hole text offset _ _ => offset + byteSize text ≤ n

namespace Template

variable {n offset : Nat} {style : StringStyle} {body : List Char}

/-- A literal text is not longer than what it is written with. -/
theorem ends_literalRun (h : offset + byteSize body ≤ n) :
    Ends (fun x => byteSize x.1 ≤ byteSize body) (Error.UpTo n) (literalRun style offset body) := by
  have hsize := Char.utf8Size_pos
  induction body using List.twoStepInduction generalizing offset with
  | nil => exact Nat.le_refl _
  | singleton c =>
    have heq : literalRun style offset [c] =
        if c = '\\' ∧ style = .quoted then pure ([c], 1)
        else if c = '\x7b' ∨ c = '\x7d' then
          if c = '\x7b' then pure ([], 0) else throw (.malformedTemplate offset .strayBrace)
        else pure ([c], 1) := rfl
    rw [heq]
    repeat' split
    all_goals first | exact Nat.le_refl _ | exact Nat.zero_le _ | exact .of rfl (by omega)
  | cons_cons c d ds ih₁ ih₂ =>
    have heq : literalRun style offset (c :: d :: ds) =
        if c = '\\' ∧ style = .quoted then
          (fun x => (c :: d :: x.1, x.2 + 2)) <$> literalRun style (offset + 1 + d.utf8Size) ds
        else if c = '\x7b' ∨ c = '\x7d' then
          if c = d then (fun x => (c :: x.1, x.2 + 2)) <$> literalRun style (offset + 2) ds
          else if c = '\x7b' then pure ([], 0)
          else throw (.malformedTemplate offset .strayBrace)
        else (fun x => (c :: x.1, x.2 + 1)) <$> literalRun style (offset + c.utf8Size) (d :: ds) :=
      rfl
    rw [byteSize_cons, byteSize_cons] at h ⊢
    have hc := hsize c
    have hd := hsize d
    rw [heq]
    split
    · refine (ih₁ (by omega)).map fun x hx => ?_
      rw [byteSize_cons, byteSize_cons]
      omega
    split
    · split
      · refine (ih₁ (by omega)).map fun x hx => ?_
        rw [byteSize_cons]
        omega
      split
      · exact Nat.zero_le _
      · exact .of rfl (by omega)
    · refine (ih₂ d (by rw [byteSize_cons]; omega)).map fun x hx => ?_
      rw [byteSize_cons] at hx ⊢
      omega

theorem ends_literal (h : offset + byteSize body ≤ n) :
    Ends (fun x => x.1.UpTo n) (Error.UpTo n) (literal style offset body) := by
  refine (ends_literalRun h).bind fun x hx => ?_
  cases style with
  | quoted => exact (errorsUpTo_unescapeFrom (by omega)).bind fun _ _ => trivial
  | _ => trivial

theorem ends_holeMarks {start steps i depth : Nat} {comma colon : Option Nat}
    (hstart : start ≤ n) (h : offset + byteSize cs ≤ n) :
    ErrorsUpTo n (holeMarks start steps offset i depth comma colon cs) := by
  induction steps generalizing offset i depth comma colon cs with
  | zero => exact .of rfl hstart
  | succ steps ih =>
    cases cs with
    | nil => exact .of rfl hstart
    | cons c cs =>
      have hc := c.utf8Size_pos
      rw [byteSize_cons] at h
      have hgo {depth : Nat} {comma colon : Option Nat} :
          ErrorsUpTo n (holeMarks start steps (offset + c.utf8Size) (i + 1) depth comma colon cs) :=
        ih (by omega)
      have hskip {k : Nat} : ErrorsUpTo n (holeMarks start steps (offset + 1 + byteSize (cs.take k))
          (i + 1 + k) depth comma colon (cs.drop k)) := by
        have htake := byteSize_take_add_drop k cs
        exact ih (by omega)
      rw [holeMarks]
      repeat' split
      all_goals first | exact True.intro | exact hgo | exact hskip | exact .of rfl (by omega)

theorem isPrefix_trimEnd (s : List Char) : trimEnd s <+: s :=
  List.reverse_suffix.1 (by rw [trimEnd, List.reverse_reverse]; exact List.dropWhile_suffix _)

theorem ends_hole {inner : List Char} (h : offset + 1 + byteSize inner ≤ n) :
    Ends (fun x => x.1.UpTo n) (Error.UpTo n) (hole offset inner) := by
  refine (ends_holeMarks (by omega) (by omega)).bind fun marks _ => ?_
  dsimp only
  generalize hwhole : inner.take ((marks.comma.or marks.colon).getD marks.close) = whole
  have hinner : byteSize whole ≤ byteSize inner :=
    hwhole ▸ SymbolTree.byteSize_le_of_prefix ( List.take_prefix _ _)
  have htext : byteSize (trim whole) ≤ byteSize (trimStart whole) :=
    SymbolTree.byteSize_le_of_prefix (isPrefix_trimEnd _)
  have hstart : byteSize (trimStart whole) ≤ byteSize whole := by
    have hsplit := List.takeWhile_append_dropWhile (p := isBlank) (l := whole)
    rw [trimStart, ← congrArg byteSize hsplit, byteSize_append]
    exact Nat.le_add_left _ _
  have hupTo : offset + 1 + (byteSize whole - byteSize (trimStart whole)) + byteSize (trim whole) ≤
      n := by omega
  split
  · exact .of rfl (by omega)
  split
  · exact hupTo
  · rename_i c _
    split
    · exact hupTo
    · have htake := byteSize_take_add_drop c inner
      exact .of rfl (by omega)

theorem ends_segment (h : offset + byteSize body ≤ n) :
    Ends (fun x => x.1.UpTo n) (Error.UpTo n) (segment style offset body) := by
  unfold segment
  split
  · exact ends_literal h
  · rw [byteSize_cons] at h
    have hbrace := Char.utf8Size_pos '\x7b'
    exact ends_hole (by omega)
  · exact ends_literal h

theorem ends_segmentsFrom {steps : Nat} (h : offset + byteSize body ≤ n) :
    ∀ x ∈ segmentsFrom style steps offset body, Ends (Segment.UpTo n) (Error.UpTo n) x := by
  induction steps generalizing offset body with
  | zero => simp [segmentsFrom]
  | succ steps ih =>
    cases body with
    | nil => simp [segmentsFrom]
    | cons c cs =>
      have hsegment : Ends _ _ (segment style offset (c :: cs)) := ends_segment h
      rw [segmentsFrom]
      split
      · rename_i heq
        rw [heq] at hsegment
        exact List.forall_mem_singleton.2 hsegment
      · rename_i k heq
        rw [heq] at hsegment
        have htake := byteSize_take_add_drop k (c :: cs)
        exact List.forall_mem_cons.2 ⟨hsegment, ih (by omega)⟩

/-- The parts of a template, or the error in it, end within it. -/
theorem ends_split {lexeme : List Char} {start : Nat} (h : start + byteSize lexeme ≤ n) :
    Ends (fun segments => ∀ s ∈ segments, s.UpTo n) (Error.UpTo n) (split lexeme start) := by
  unfold split
  split
  · rename_i d hd
    split
    · have hbody := Delimiters.opening_add_le hd
      exact (Ends.mapM (ends_segmentsFrom (by omega))).imp fun _ h =>
        forall_of_forall₂ h fun _ _ hs => hs
    · exact .of rfl (by omega)
  · exact .of rfl (by omega)

end Template

end Scriptlet

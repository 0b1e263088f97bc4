import Mathlib.Data.List.Basic
import Scriptlet.Token.Cursor
import Scriptlet.Proofs.Token.Symbols

/-!
# What readers find

A reader that does not decline finds a character at least, and none beyond the end of the text,
and what it finds is a token of its own family (`Reader.found`). The longest symbol is at the
front of the text, too (`SymbolTree.exists_of_longestMatch?`). So the token at
the front of a text is spelled with just as many characters as were found for it
(`Cursor.isFront_of_front`).
-/

namespace Scriptlet

open Text

/-- Whether a class of tokens belongs to the family of a reader. -/
def Reader.finds : Reader → TokenKind → Bool
  | comment, .comment | number, .number _ | string, .string _ | string, .template | char, .char _
  | name, .identifier | name, .keyword => true
  | _, _ => false

theorem Reader.isEof_of_finds {r : Reader} {k : TokenKind} (h : r.finds k = true) :
    k.isEof = false := by
  cases k with
  | eof => cases r <;> cases h
  | _ => rfl

section

variable {offset n : Nat} {cs : List Char} {k : TokenKind}

/-! ## Comments -/

/-- What is found in a text ends within it. -/
theorem find?_le {needle : List Char} (h : find? needle cs = some n) :
    n + needle.length ≤ cs.length := by
  induction cs generalizing n with
  | nil =>
    rw [find?] at h
    split at h
    · cases h
      simp_all
    · cases h
  | cons c cs ih =>
    rw [find?] at h
    split at h
    · rename_i hstart
      cases h
      obtain ⟨rest, hrest⟩ := Option.isSome_iff_exists.mp hstart
      rw [strip?_eq_some hrest, List.length_append]
      omega
    · obtain ⟨m, hm, rfl⟩ := Option.map_eq_some_iff.mp h
      have := ih hm
      rw [List.length_cons]
      omega

theorem readComment_found (h : readComment offset cs = .ok (some (n, k))) :
    0 < n ∧ n ≤ cs.length ∧ Reader.comment.finds k = true := by
  unfold readComment at h
  split at h
  · rename_i cs
    cases h
    have := (List.takeWhile_sublist (l := cs) (· != '\n')).length_le
    simp only [List.length_cons]
    exact ⟨by omega, by omega, rfl⟩
  · split at h
    · rename_i hn
      cases h
      have := find?_le hn
      simp only [List.length_cons, List.length_nil] at this ⊢
      exact ⟨by omega, by omega, rfl⟩
    · cases h
  · cases h

/-! ## Numbers -/

theorem Suffix.length_le (cs : List Char) : Suffix.length (Suffix.of? cs) ≤ cs.length := by
  match cs with
  | [] => exact Nat.le_refl 0
  | [c] =>
    unfold Suffix.of?
    split <;> simp_all [Suffix.length]
  | c :: d :: cs =>
    have : Suffix.length (Suffix.of? (c :: d :: cs)) ≤ 2 := by
      unfold Suffix.length
      split <;> omega
    simp only [List.length_cons]
    omega

/-- A suffix behind the first characters of a text is part of the text. -/
theorem add_suffix_le (h : n ≤ cs.length) :
    n + Suffix.length (Suffix.of? (cs.drop n)) ≤ cs.length := by
  have := Suffix.length_le (cs.drop n)
  rw [List.length_drop] at this
  omega

theorem digitRun_pos (h : startsWithDigit cs = true) : 0 < digitRun cs := by
  cases cs with
  | nil => cases h
  | cons c cs =>
    have hc : c.isDigit = true := h
    simp [digitRun, hc]

/-- A number has a digit, in front of a point or behind it. -/
theorem run_pos (h : (startsWithDigit cs || 0 < fractionRun cs) = true) :
    0 < digitRun cs + fractionRun (cs.drop (digitRun cs)) := by
  rcases Bool.or_eq_true _ _ ▸ h with hd | hf
  · have := digitRun_pos hd
    omega
  · replace hf := of_decide_eq_true hf
    unfold fractionRun at hf
    split at hf
    · rename_i cs
      -- in front of the point there is no digit, so the fraction starts the text
      have h0 : digitRun ('.' :: cs) = 0 := rfl
      rw [h0, List.drop_zero, Nat.zero_add]
      exact hf
    · omega

theorem digitRun_le (cs : List Char) : digitRun cs ≤ cs.length :=
  (List.takeWhile_sublist _).length_le

theorem fractionRun_le (cs : List Char) : fractionRun cs ≤ cs.length := by
  unfold fractionRun
  split
  · rename_i cs
    have := digitRun_le cs
    rw [List.length_cons]
    split <;> omega
  · exact Nat.zero_le _

theorem exponentRun_le (cs : List Char) : exponentRun cs ≤ cs.length := by
  match cs with
  | [] => exact Nat.le_refl 0
  | [c] =>
    have hc : exponentRun [c] = 0 := ite_self 0
    omega
  | c :: s :: ds =>
    have hds := digitRun_le ds
    have hs := digitRun_le (s :: ds)
    simp only [exponentRun, List.length_cons] at hs ⊢
    split_ifs <;> omega

theorem readBased_found {base : Nat} (hcs : 0 < cs.length)
    (h : readBased offset base cs = .ok (some (n, k))) :
    0 < n ∧ n ≤ cs.length ∧ Reader.number.finds k = true := by
  unfold readBased at h
  dsimp only at h
  split at h
  · cases h
  · split at h
    · cases h
    · split at h
      · cases h
        refine ⟨?_, add_suffix_le (List.length_take_le' _ _), rfl⟩
        rw [List.length_take]
        omega
      · cases h

/-- A number in base ten takes its digits, its fraction, its exponent and its suffix. -/
theorem readTens_found (h : readTens offset cs = .ok (some (n, k))) :
    let digits := digitRun cs + fractionRun (cs.drop (digitRun cs))
    let length := digits + exponentRun (cs.drop digits)
    n = length + Suffix.length (Suffix.of? (cs.drop length)) ∧ Reader.number.finds k = true := by
  unfold readTens at h
  dsimp only at h ⊢
  -- the length is the same whatever the suffix asks for
  have found {x : Except Error Float} {f : Float → Number} {m : Nat}
      (h : (do let v ← x; (pure (some (m, .number (f v))) : Finding)) = .ok (some (n, k))) :
      n = m ∧ Reader.number.finds k = true := by
    cases x <;> cases h
    exact ⟨rfl, rfl⟩
  split at h
  · exact found h
  · exact found h
  · exact found h
  · split at h
    · split at h
      · exact found h
      · cases h
    · split at h
      · cases h
        exact ⟨rfl, rfl⟩
      · cases h

theorem readNumber_found (h : readNumber offset cs = .ok (some (n, k))) :
    0 < n ∧ n ≤ cs.length ∧ Reader.number.finds k = true := by
  have hwhole := digitRun_le cs
  have hfraction := fractionRun_le (cs.drop (digitRun cs))
  have hexponent := exponentRun_le (cs.drop (digitRun cs + fractionRun (cs.drop (digitRun cs))))
  rw [List.length_drop] at hfraction hexponent
  unfold readNumber at h
  split at h
  · rename_i hd
    have hpos := run_pos hd
    split at h
    · exact readBased_found (by omega) h
    · obtain ⟨rfl, hk⟩ := readTens_found h
      exact ⟨by omega, add_suffix_le (by omega), hk⟩
  · cases h

/-! ## Strings, characters and names -/

theorem closeQuoted?_le (h : closeQuoted? cs = some n) : n ≤ cs.length := by
  fun_induction closeQuoted? cs generalizing n with
  | case1 => cases h
  | case2 => cases h; simp
  | case3 => cases h
  | case4 => cases h
  | case5 d ds ih =>
    obtain ⟨m, hm, rfl⟩ := Option.map_eq_some_iff.mp h
    exact Nat.add_le_add_right (ih hm) 2
  | case6 c cs _ _ _ ih =>
    obtain ⟨m, hm, rfl⟩ := Option.map_eq_some_iff.mp h
    exact Nat.succ_le_succ (ih hm)

theorem closeVerbatim?_le (h : closeVerbatim? cs = some n) : n ≤ cs.length := by
  fun_induction closeVerbatim? cs generalizing n with
  | case1 => cases h
  | case2 ds ih =>
    obtain ⟨m, hm, rfl⟩ := Option.map_eq_some_iff.mp h
    exact Nat.add_le_add_right (ih hm) 2
  | case3 => cases h; simp
  | case4 c cs _ ih =>
    obtain ⟨m, hm, rfl⟩ := Option.map_eq_some_iff.mp h
    exact Nat.succ_le_succ (ih hm)

theorem closeChar?_le (h : closeChar? cs = some n) : n ≤ cs.length := by
  fun_induction closeChar? cs generalizing n with
  | case1 => cases h
  | case2 => cases h; simp
  | case3 => cases h
  | case4 => cases h
  | case5 d ds ih =>
    obtain ⟨m, hm, rfl⟩ := Option.map_eq_some_iff.mp h
    exact Nat.add_le_add_right (ih hm) 2
  | case6 c cs _ _ _ ih =>
    obtain ⟨m, hm, rfl⟩ := Option.map_eq_some_iff.mp h
    exact Nat.succ_le_succ (ih hm)

/-- A template ends within the text. A step may lead beyond the end, but behind it there is
    no end of the template. -/
theorem closeTemplate_le {style : StringStyle} {start steps depth : Nat}
    (h : closeTemplate style start steps offset depth cs = .ok n) : n ≤ cs.length := by
  induction steps generalizing offset depth n cs with
  | zero => cases h
  | succ steps ih =>
    cases cs with
    | nil => cases h
    | cons c cs =>
      have go {m : Nat} {offset depth : Nat}
          (h : (· + m) <$> closeTemplate style start steps offset depth ((c :: cs).drop m) = .ok n) :
          n ≤ (c :: cs).length := by
        rcases hr : closeTemplate style start steps offset depth ((c :: cs).drop m) with e | r
        · rw [hr] at h
          cases h
        · rw [hr] at h
          cases h
          have hle := ih hr
          have hne : (c :: cs).drop m ≠ [] := by
            intro hnil
            rw [hnil] at hr
            cases steps <;> cases hr
          have := List.length_pos_iff.mpr hne
          rw [List.length_drop] at this hle
          dsimp only
          omega
      rw [closeTemplate] at h
      dsimp only at h
      split at h
      · split at h
        · exact go h
        · cases h
      · split at h
        · rename_i htext
          cases h
          -- the quote that ends the template is one character
          unfold textStep at htext
          split at htext <;> (try split at htext) <;> cases htext <;> simp
        · exact go h
        · cases h

theorem closeString_le {d : Delimiters} {start : Nat} (h : closeString d start offset cs = .ok n) :
    n ≤ cs.length := by
  unfold closeString at h
  split at h
  · split at h
    · rename_i hn
      cases h
      exact find?_le hn
    · cases h
  · exact closeTemplate_le h
  · split at h
    · rename_i hn
      cases h
      exact closeQuoted?_le hn
    · cases h
  · split at h
    · rename_i hn
      cases h
      exact closeVerbatim?_le hn
    · cases h

theorem Delimiters.opening_bounds {d : Delimiters} (h : Delimiters.of? cs = some d) :
    0 < d.opening ∧ d.opening ≤ cs.length := by
  unfold Delimiters.of? at h
  split at h <;> cases h <;> simp

theorem readString_found (h : readString offset cs = .ok (some (n, k))) :
    0 < n ∧ n ≤ cs.length ∧ Reader.string.finds k = true := by
  unfold readString at h
  split at h
  · cases h
  · rename_i d hd
    obtain ⟨hpos, hopening⟩ := Delimiters.opening_bounds hd
    rcases hc : closeString d offset (offset + d.opening) (cs.drop d.opening) with e | m
    · rw [hc] at h
      cases h
    · have hbody := closeString_le hc
      rw [List.length_drop] at hbody
      rw [hc] at h
      simp only [bind, Except.bind] at h
      repeat' split at h
      all_goals cases h
      all_goals exact ⟨by omega, by omega, rfl⟩

theorem readChar_found (h : readChar offset cs = .ok (some (n, k))) :
    0 < n ∧ n ≤ cs.length ∧ Reader.char.finds k = true := by
  unfold readChar at h
  split at h
  · split at h
    · cases h
    · rename_i hm
      simp only [bind, Except.bind] at h
      split at h
      · cases h
      · split at h
        · cases h
          exact ⟨Nat.succ_pos _, Nat.succ_le_succ (closeChar?_le hm), rfl⟩
        · cases h
  · cases h

theorem readName_found (h : readName cs = some (n, k)) :
    0 < n ∧ n ≤ cs.length ∧ Reader.name.finds k = true := by
  unfold readName at h
  split at h
  · dsimp only at h
    split at h
    · cases h
      refine ⟨Nat.succ_pos _, Nat.succ_le_succ (List.takeWhile_sublist _).length_le, ?_⟩
      split <;> rfl
    · cases h
  · cases h

/-- What a reader finds has a character at least, ends within the text, and belongs to its
    family. -/
theorem Reader.found {r : Reader} (h : r.read offset cs = .ok (some (n, k))) :
    0 < n ∧ n ≤ cs.length ∧ r.finds k = true := by
  cases r with
  | comment => exact readComment_found h
  | number => exact readNumber_found h
  | string => exact readString_found h
  | char => exact readChar_found h
  | name =>
    have h' : readName cs = some (n, k) := by injection h
    exact readName_found h'

/-! ## The front of a text -/

namespace Cursor

theorem exists_of_ask {rs : List Reader} (h : ask offset cs rs = .ok (some (n, k))) :
    ∃ r : Reader, r.read offset cs = .ok (some (n, k)) := by
  induction rs with
  | nil => cases h
  | cons r rs ih =>
    unfold ask at h
    rcases hr : r.read offset cs with e | _ | found
    · rw [hr] at h
      cases h
    · rw [hr] at h
      exact ih h
    · rw [hr] at h
      cases h
      exact ⟨r, hr⟩

end Cursor

end

namespace Cursor

variable {readers : List Reader} {symbols : SymbolTree} {offset : Nat} {text : List Char} {t : Token}

/-- A token is spelled with the first characters of a text, as many as the first reader that does
    not decline has found, or as the longest symbol has. -/
structure IsFront (readers : List Reader) (symbols : SymbolTree) (offset : Nat) (text : List Char)
    (t : Token) : Prop where
  start : t.start = offset
  ne_nil : t.lexeme ≠ []
  split : ∃ rest, text = t.lexeme ++ rest
  found : ask offset text readers = .ok (some (t.lexeme.length, t.kind)) ∨
    ask offset text readers = .ok none ∧ t.kind = .symbol ∧
      symbols.longestMatch? text = some (byteSize t.lexeme)

theorem isFront_of_front (h : front readers symbols offset text = .ok t) :
    IsFront readers symbols offset text t := by
  unfold front at h
  rcases ha : ask offset text readers with e | _ | ⟨n, k⟩
  · rw [ha] at h
    cases h
  · rw [ha] at h
    simp only [bind, Except.bind] at h
    split at h
    · rename_i n hn
      cases h
      obtain ⟨lexeme, hlexeme, rfl⟩ := SymbolTree.exists_of_longestMatch? hn
      obtain ⟨rest, rfl⟩ := hlexeme.front
      rw [takeBytes_append]
      exact ⟨rfl, hlexeme.nonempty, ⟨rest, rfl⟩, .inr ⟨ha, rfl, hn⟩⟩
    · cases h
  · rw [ha] at h
    cases h
    obtain ⟨r, hr⟩ := exists_of_ask ha
    obtain ⟨hpos, hle, -⟩ := Reader.found hr
    have hlength : (text.take n).length = n := List.length_take_of_le hle
    refine ⟨rfl, List.length_pos_iff.mp (by rw [hlength]; exact hpos),
      ⟨text.drop n, (List.take_append_drop n text).symm⟩, .inl ?_⟩
    dsimp only
    rw [hlength, ha]

/-- The token at the front of a text is a symbol or has been found by a reader. -/
theorem IsFront.reader (h : IsFront readers symbols offset text t) :
    t.kind = .symbol ∨ ∃ r : Reader, r.read offset text = .ok (some (t.lexeme.length, t.kind)) := by
  rcases h.found with hask | ⟨-, hsymbol, -⟩
  · exact .inr (exists_of_ask hask)
  · exact .inl hsymbol

theorem IsFront.isEof (h : IsFront readers symbols offset text t) : t.isEof = false := by
  rw [Token.isEof]
  rcases h.reader with hsymbol | ⟨r, hr⟩
  · rw [hsymbol]
    rfl
  · exact Reader.isEof_of_finds (Reader.found hr).2.2

end Cursor

end Scriptlet

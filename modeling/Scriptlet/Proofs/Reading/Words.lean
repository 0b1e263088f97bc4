import Scriptlet.Proofs.Reading.Bodies
import Scriptlet.Proofs.Template.Places

/-!
# Words that a program lacks

A token is met from a cursor on if reading on and on comes to it, or if that is so in a hole of
a template that is met (`Cursor.Meets`). A program lacks a word if no token that is met from its
start is that word (`Cursor.Lacks`).

Reading a program goes along the tokens that are met, but for fronts of symbols that are taken
by themselves. Of these the rest is read as other symbols, up to where all characters `>` and
`=` have been passed; and symbols are no words. So wherever a reading comes to, the word is
still lacking (`Reading.Runs.spares`). A text that has the characters of the word nowhere lacks
it (`Cursor.lacks_ofSource`).
-/

namespace Scriptlet

open Text

namespace Cursor

/-! ## Tokens -/

/-- The tokens that are met from a cursor on, also in the holes of templates. -/
inductive Meets : Cursor → Token → Prop
  | next {c d : Cursor} {t : Token} : c.read true = (.ok t, d) → Meets c t
  | later {c d : Cursor} {t u : Token} : c.read true = (.ok t, d) → Meets d u → Meets c u
  | hole {c d : Cursor} {t u : Token} {segments : List Segment} {text : List Char} {offset : Nat}
      {alignment : Option Int} {format : Option (List Char)} : c.read true = (.ok t, d) →
      t.kind = .template → Template.split t.lexeme t.start = .ok segments →
      .hole text offset alignment format ∈ segments → Meets (ofSource text offset) u → Meets c u

/-- No token that is met is this symbol or reserved word. -/
def Lacks (c : Cursor) (w : String) : Prop := ∀ t, c.Meets t → t.is w = false

variable {c d : Cursor} {t : Token} {text : List Char} {w : String}

theorem Meets.congr (h : c.Meets t) (hread : c.read true = d.read true) : d.Meets t := by
  cases h with
  | next h => exact .next (hread ▸ h)
  | later h hmeets => exact .later (hread ▸ h) hmeets
  | hole h htemplate hsplit hhole hmeets => exact .hole (hread ▸ h) htemplate hsplit hhole hmeets

theorem Meets.isInfix (h : c.Meets t) (hc : c.StandsAt text) : t.lexeme <:+: text := by
  induction h generalizing text with
  | next hread =>
    obtain ⟨skipped, rest, rfl, -, -⟩ := hc.read_spelled hread
    exact ⟨skipped, rest, rfl⟩
  | later hread _ ih =>
    obtain ⟨skipped, rest, rfl, hd, -⟩ := hc.read_spelled hread
    exact (ih hd).trans (List.suffix_append _ _).isInfix
  | hole hread _ hsplit hmem _ ih =>
    obtain ⟨skipped, rest, rfl, -, -⟩ := hc.read_spelled hread
    obtain ⟨-, -, -, before, after, hlexeme, -⟩ := Template.standsIn_of_split hsplit _ hmem
    refine (ih (standsAt_ofSource _ _)).trans (List.IsInfix.trans ?_ ⟨skipped, rest, rfl⟩)
    exact ⟨before, after, hlexeme.symm⟩

/-- A text that has the characters of a word nowhere lacks it. -/
theorem lacks_ofSource {base : Nat} (h : ¬ w.toList <:+: text) :
    (ofSource text base).Lacks w := by
  intro t hmeets
  rw [Bool.eq_false_iff]
  intro his
  have hlexeme : t.lexeme = w.toList := beq_iff_eq.mp (Bool.and_eq_true_iff.mp his).2
  exact h (hlexeme ▸ hmeets.isInfix (standsAt_ofSource text base))

/-! ## Past marks -/

/-- A symbol of marks is no word. -/
theorem symbol_is {m : Char} (hm : isMark m = true) (hw : w.toList.head?.any isMark = false)
    (front : List Char) (start : Nat) : (Token.mk .symbol (m :: front) start).is w = false := by
  rw [Bool.eq_false_iff]
  intro his
  have hlexeme : m :: front = w.toList := beq_iff_eq.mp (Bool.and_eq_true_iff.mp his).2
  rw [← hlexeme, List.head?_cons, Option.any_some, hm] at hw
  cases hw

/-- A word is met behind the marks at the front. -/
theorem Meets.pastMarks (h : c.Meets t) (hc : c.StandsAt text)
    (hw : w.toList.head?.any isMark = false) (ht : t.is w = true) :
    ∃ c' : Cursor, c'.Meets t ∧ c'.StandsAt (text.dropWhile isMark) ∧ c'.unplaced = c.unplaced := by
  induction h generalizing text with
  | @next c d t hread =>
    rcases mark_or_dropWhile text with ⟨m, cs, rfl, hm⟩ | hsame
    · obtain ⟨start, front, _, _, hsymbol, -⟩ := hc.read_symbol hm
      rw [hread] at hsymbol
      cases hsymbol
      rw [symbol_is hm hw] at ht
      cases ht
    · exact ⟨c, .next hread, hsame.symm ▸ hc, rfl⟩
  | @later c d t u hread hmeets ih =>
    rcases mark_or_dropWhile text with ⟨m, cs, rfl, hm⟩ | hsame
    · obtain ⟨_, _, rest, _, hsymbol, hd, -, hdrop⟩ := hc.read_symbol hm
      rw [hread] at hsymbol
      cases hsymbol
      obtain ⟨c', hmeets', hc', hunplaced⟩ := ih hd ht
      exact ⟨c', hmeets', hdrop ▸ hc', hunplaced.trans (unplaced_of_read hread)⟩
    · exact ⟨c, .later hread hmeets, hsame.symm ▸ hc, rfl⟩
  | @hole c d t u segments inner offset alignment format hread htemplate hsplit hhole hmeets _ =>
    rcases mark_or_dropWhile text with ⟨m, cs, rfl, hm⟩ | hsame
    · obtain ⟨_, _, _, _, hsymbol, -⟩ := hc.read_symbol hm
      rw [hread] at hsymbol
      cases hsymbol
      cases htemplate
    · exact ⟨c, .hole hread htemplate hsplit hhole hmeets, hsame.symm ▸ hc, rfl⟩

/-- What is met behind the marks at the front is met. -/
theorem Meets.behindMarks (h : d.Meets t) (hd : d.StandsAt (text.dropWhile isMark))
    (hc : c.StandsAt text) (hunplaced : d.unplaced = c.unplaced) : c.Meets t := by
  induction hn : text.length using Nat.strong_induction_on generalizing c text with
  | _ n ih =>
    rcases mark_or_dropWhile text with ⟨m, cs, rfl, hm⟩ | hsame
    · obtain ⟨_, _, rest, e, hread, he, hlength, hdrop⟩ := hc.read_symbol hm
      rw [List.length_cons] at hn
      exact .later hread (ih rest.length (by omega) (hdrop.symm ▸ hd) he
        (hunplaced.trans (unplaced_of_read hread).symm) rfl)
    · exact h.congr ((hsame ▸ hd).read_congr hc hunplaced)

/-! ## Along tokens -/

theorem Lacks.read (h : c.Lacks w) (hread : c.read true = (.ok t, d)) : d.Lacks w :=
  fun u hu => h u (.later hread hu)

/-- Behind the front of a symbol the word is lacking too. -/
theorem Lacks.readSymbolFront (h : c.Lacks w) (hw : w.toList.head?.any isMark = false)
    (hc : c.StandsAt text) (hread : c.readSymbolFront ">" = (.ok true, d)) : d.Lacks w := by
  obtain ⟨t, e, back, rest, htoken, -, he, hd, hback, -⟩ := hc.readSymbolFront hread
  have hdrop : (back ++ rest).dropWhile isMark = rest.dropWhile isMark :=
    List.dropWhile_append_of_pos (List.all_eq_true.mp hback)
  have hunplaced := c.unplaced_readSymbolFront ">"
  rw [hread] at hunplaced
  intro u hu
  rw [Bool.eq_false_iff]
  intro his
  obtain ⟨c', hmeets, hc', hunplaced'⟩ := hu.pastMarks hd hw his
  have hbehind : e.Meets u := hmeets.behindMarks (hdrop ▸ hc') he
    (hunplaced'.trans (hunplaced.trans (unplaced_of_read htoken).symm))
  rw [h u (.later htoken hbehind)] at his
  cases his

/-- A cursor of the language from which on a word is lacking. -/
structure Spares (c : Cursor) (w : String) : Prop where
  stands : ∃ text, c.StandsAt text
  lacks : c.Lacks w

theorem Lacks.spares (text : List Char) (base : Nat) (h : (ofSource text base).Lacks w) :
    (ofSource text base).Spares w :=
  ⟨⟨text, standsAt_ofSource text base⟩, h⟩

theorem Spares.read (h : c.Spares w) (hread : c.read true = (.ok t, d)) : d.Spares w := by
  obtain ⟨⟨text, hc⟩, hlacks⟩ := h
  obtain ⟨rest, hd, -⟩ := hc.read hread
  exact ⟨⟨rest, hd⟩, hlacks.read hread⟩

theorem Spares.walk (h : c.Spares w) (hw : w.toList.head?.any isMark = false) {n m : Nat}
    (hwalk : Walk n c m d) : d.Spares w := by
  induction hwalk with
  | stay => exact h
  | token hread _ _ ih => exact ih (h.read hread)
  | front hread _ ih =>
    obtain ⟨⟨text, hc⟩, hlacks⟩ := h
    obtain ⟨-, -, back, rest, -, -, -, hd, -, -⟩ := hc.readSymbolFront hread
    exact ih ⟨⟨_, hd⟩, hlacks.readSymbolFront hw hc hread⟩
  | ended _ _ _ ih => exact ih h

end Cursor

/-- A reading that goes along tokens comes to where the word is still lacking. -/
theorem Reading.Runs.spares {α : Type} {n : Nat} {y : α → Option Nat} {r : Reading α} {w : String}
    (h : Runs (some n) y r) (hy : ∀ a, (y a).isSome) (hw : w.toList.head?.any isMark = false)
    {p q : Position} {a : α} (hr : r p = .ok a q) (hp : p.cursor.Spares w) : q.cursor.Spares w := by
  obtain ⟨m, hm⟩ := Option.isSome_iff_exists.mp (hy a)
  obtain ⟨_, ⟨⟩, hwalk⟩ := (h.moves 0 p).gives a q hr (0 + m) (by simp [hm])
  exact hp.walk hw hwalk

end Scriptlet

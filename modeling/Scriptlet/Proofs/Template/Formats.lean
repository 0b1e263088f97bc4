import Scriptlet.Evaluation.Operation
import Scriptlet.Proofs.Template.Splitting
import Scriptlet.Reading.TemplateText

/-!
# The format of a hole is read back

For a hole with an alignment or a format, a format text for one value is written (`holeFormat`).
Composite formats are cut at their braces, a hole at its first colon and what stands in front of it
at its first comma. The number in a format text has neither mark, so the cuts give back what it was
written from (`fill_hole`), whatever the format holds besides a closing brace.
-/

namespace Scriptlet

open Text Template

variable {mark : Char} {cs rest : List Char} {alignment : Option Int} {format : Option (List Char)}

namespace Text

theorem splitOnce?_eq_none (h : mark ∉ cs) : splitOnce? mark cs = none := by
  induction cs with
  | nil => rfl
  | cons c cs ih =>
    rw [List.mem_cons, not_or] at h
    rw [splitOnce?, if_neg (Ne.symm h.1), ih h.2]
    rfl

theorem splitOnce?_append (h : mark ∉ cs) : splitOnce? mark (cs ++ mark :: rest) = some (cs, rest) := by
  induction cs with
  | nil => exact if_pos rfl
  | cons c cs ih =>
    rw [List.mem_cons, not_or] at h
    rw [List.cons_append, splitOnce?, if_neg (Ne.symm h.1), ih h.2]
    rfl

/-- A part behind a mark is cut off at the mark, if it is there. -/
theorem splitOnce?_marked (h : mark ∉ cs) (part : Option (List Char)) :
    splitOnce? mark (cs ++ marked mark part) = part.map fun part => (cs, part) := by
  cases part with
  | none => rw [marked, List.append_nil, splitOnce?_eq_none h, Option.map_none]
  | some part => exact splitOnce?_append h

end Text

namespace Store

variable (s : Store) (v : Value)

/-- The text of a value, in a format if there is one, with blanks up to the width of an alignment:
    in front of it, or behind it if the alignment is negative. -/
def placed (alignment : Option Int) (format : Option (List Char)) : List Char :=
  let text := (format.map (s.format v)).getD (s.display v).toList
  match alignment with
  | none => text
  | some a =>
    let blanks := List.replicate (a.natAbs - text.length) ' '
    if 0 ≤ a then blanks ++ text else text ++ blanks

theorem align_eq (a : Int) (text : List Char) : align a text =
    if 0 ≤ a then List.replicate (a.natAbs - text.length) ' ' ++ text
    else text ++ List.replicate (a.natAbs - text.length) ' ' := by
  rw [align, padBack, padFront, ← ite_not]
  simp only [Int.not_lt]

/-- The place of the only value, with its alignment, as it is written in a hole. -/
def place (alignment : Option Int) : List Char := '0' :: marked ',' (alignment.map intDigits)

theorem place_plain (c : Char) (hc : c ∈ place alignment) : c ∉ holeSigns ∧ c ≠ ':' := by
  obtain rfl | hc := List.mem_cons.1 hc
  · decide
  · cases alignment with
    | none => cases hc
    | some n =>
      obtain rfl | hc := List.mem_cons.1 hc
      · decide
      · exact (intDigits_plain n c hc).2

theorem getD_marked (t : List Char) (format : Option (List Char)) :
    ((format.map fun f => (t, f)).map fun (p, f) => (p, some f)).getD (t ++ marked ':' format, none) =
      (t, format) := by
  cases format with
  | none => simp [marked]
  | some f => rfl

theorem fill_hole (halignment : ∀ n ∈ alignment, IntKind.int.holds n = true) :
    s.fill [v] (place alignment ++ marked ':' format) = some (s.placed v alignment format) := by
  have hcolon : ':' ∉ place alignment := fun h => (place_plain _ h).2 rfl
  have hwidth : splitOnce? ',' (place alignment) = _ :=
    splitOnce?_marked (by decide : ',' ∉ ['0']) (alignment.map intDigits)
  have hindex : precision? (trim ['0']) = some 0 := by decide
  rw [fill, splitOnce?_marked hcolon, getD_marked]
  cases alignment with
  | none =>
    simp only [hwidth]
    simp [hindex, placed, place, marked]
  | some a =>
    have hread : readIntWithin? widthRange.1 widthRange.2 (trim (intDigits a)) = some a := by
      rw [trim_intDigits, readIntWithin?, readInt?_intDigits]
      exact if_pos (halignment a rfl)
    simp [hwidth, hread, hindex, placed, align_eq]

/-- A composite format that is one hole, to the first closing brace, is what the hole stands for. -/
theorem compositeWithin_hole {values : List Value} {steps : Nat} {hole : List Char}
    (hmark : '\x7d' ∉ hole) (hfirst : ∃ cs, hole = '0' :: cs) :
    s.compositeWithin values (steps + 1) ('\x7b' :: (hole ++ ['\x7d'])) = s.fill values hole := by
  obtain ⟨cs, rfl⟩ := hfirst
  rw [compositeWithin, splitOnce?_append hmark]
  · simp [compositeWithin]
  · simp

theorem composite_holeFormat (halignment : ∀ n ∈ alignment, IntKind.int.holds n = true)
    (hformat : ∀ f ∈ format, '\x7d' ∉ f) :
    s.composite (holeFormat alignment format).toList [v] = .ok (s.placed v alignment format) := by
  have hmark : '\x7d' ∉ place alignment ++ marked ':' format := by
    rw [List.mem_append, not_or]
    refine ⟨fun h => (place_plain _ h).1 (by decide), ?_⟩
    cases format with
    | none => exact List.not_mem_nil
    | some f => exact List.not_mem_cons_of_ne_of_not_mem (by decide) (hformat f rfl)
  have htext : (holeFormat alignment format).toList =
      '\x7b' :: (place alignment ++ marked ':' format ++ ['\x7d']) := by
    rw [holeFormat, String.toList_ofList]
    cases alignment <;> cases format <;> rfl
  rw [composite, htext, List.length_cons, s.compositeWithin_hole hmark ⟨_, rfl⟩,
    s.fill_hole v halignment]
  rfl

end Store

theorem Run.look_of_ok {α : Type} {f : Store → Except Fault α} {s : Store} {a : α}
    (h : f s = .ok a) : Run.look f s = .ok a s := by
  change Run.ofFault (f s) s = _
  rw [h]
  rfl

/-- Formatting a value with the format text for a hole gives its text in the format, with blanks on
    the side that the sign of the alignment tells. -/
theorem Operation.run_format_holeFormat (apply : Sequences.Apply) (s : Store) (v vs : Value)
    (hvs : s.items vs = .ok [v]) (alignment : Option Int) (format : Option (List Char))
    (halignment : ∀ n ∈ alignment, IntKind.int.holds n = true)
    (hformat : ∀ f ∈ format, '\x7d' ∉ f) :
    Operation.format.run apply [.string (holeFormat alignment format), vs] s =
      .ok (.string (String.ofList (s.placed v alignment format))) s := by
  have hitems : Run.look (fun s => s.items vs) s = .ok [v] s := Run.look_of_ok hvs
  have htext := Run.look_of_ok (f := fun s => s.composite _ [v])
    (s.composite_holeFormat v halignment hformat)
  change EStateM.bind (Run.look fun s => s.items vs) (fun vs =>
    EStateM.bind (Run.look fun s => s.composite (holeFormat alignment format).toList vs)
      Textual.text) s = _
  rw [EStateM.bind, hitems]
  change EStateM.bind _ _ s = _
  rw [EStateM.bind, htext]
  rfl

theorem Operation.run_format_comma_colon_brace :
    let s : Store := { lists := #[[.number (.integral .int 255)]] }
    Operation.format.run (fun _ _ => pure .null)
        [.string (holeFormat (some (-5)) (some ['X', ':', ',', '\x7b'])), .list 0] s =
      .ok (.string "FF   ") s :=
  (Operation.run_format_holeFormat _ _ (.number (.integral .int 255)) (.list 0) rfl (some (-5))
    (some ['X', ':', ',', '\x7b']) (by decide) (by decide)).trans (by rfl)

end Scriptlet

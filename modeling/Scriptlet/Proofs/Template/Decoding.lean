import Scriptlet.Proofs.Expr.Parts
import Scriptlet.Proofs.Template.Splitting

/-!
# Literals in templates

The literals of a template and of its holes are not quite treated like those outside of it. A
literal in a hole is passed over to the quote that ends it, if it is on one line
(`closeLiteral?_of_seeks`). Literal text of a raw template is decoded like a whole raw string
(`literal_raw`), so each of the texts around its holes loses a line break at its start and a blank
last line. A wrong escape is reported where its backslash stands once doubled braces are single ones
(`literal_unknownEscape`).
-/

namespace Scriptlet.Template

open Text

variable {c mark : Char} {cs run rest text : List Char} {offset n o : Nat} {e : Error}

/-- The end of a quoted literal is found in a hole where it is found outside. -/
theorem closeLiteral?_of_seeks {close? : List Char → Option Nat} (hclose : Seeks mark close?)
    (h : close? cs = some n) : closeLiteral? mark cs = some n := by
  fun_induction closeLiteral? mark cs generalizing n with
  | case1 => rwa [hclose.nil] at h
  | case2 => rwa [hclose.slash] at h
  | case3 e ds ih =>
    rw [hclose.escape] at h
    obtain ⟨m, hm, rfl⟩ := Option.map_eq_some_iff.1 h
    rw [ih hm]
    rfl
  | case4 cs => rwa [hclose.here] at h
  | case5 c cs hslash hmark ih =>
    by_cases hline : c = '\n'
    · subst hline
      rw [hclose.line] at h
      cases h
    · rw [hclose.past hslash hmark hline] at h
      obtain ⟨m, hm, rfl⟩ := Option.map_eq_some_iff.1 h
      rw [ih hm]
      rfl

/-- A literal text of a raw template is decoded like a whole raw string. -/
theorem literal_raw (hrun : ∀ c ∈ run, c ≠ '\x7b' ∧ c ≠ '\x7d') (hrest : EndsLiteral rest) :
    literal .raw offset (run ++ rest) = .ok (.literal (StringStyle.raw.decode run), run.length) := by
  have hread (offset : Nat) : literalRun .raw offset (run ++ rest) = .ok (run, run.length) := by
    induction run generalizing offset with
    | nil => exact literalRun_ends hrest
    | cons c run ih =>
      obtain ⟨hc, hrun⟩ := List.forall_mem_cons.1 hrun
      have hstep := literalRun_plain (fun _ => by decide) (ih hrun) offset (c := c)
      have hbraces : doubleBraces [c] = [c] := by simp [doubleBraces, hc]
      rwa [hbraces, Nat.add_comm] at hstep
  rw [literal, hread]
  rfl

/-! ## Wrong escapes -/

/-- If an error is about an escape in a text at `offset`, it is where a backslash stands. -/
def EscapeIn (offset : Nat) (cs : List Char) (e : Error) : Prop :=
  ∀ o s, e = .unknownEscape o s → ∃ before rest, cs = before ++ '\\' :: rest ∧
    o = offset + byteSize before

theorem EscapeIn.cons (h : EscapeIn (offset + c.utf8Size) cs e) : EscapeIn offset (c :: cs) e := by
  intro o s he
  obtain ⟨before, rest, rfl, rfl⟩ := h o s he
  exact ⟨c :: before, rest, rfl, by rw [byteSize_cons, Nat.add_assoc]⟩

theorem EscapeIn.here {s : String} : EscapeIn offset ('\\' :: cs) (.unknownEscape offset s) := by
  rintro _ _ ⟨⟩
  exact ⟨[], cs, rfl, rfl⟩

theorem ends_unescapeFrom {skip : Nat} :
    Ends (fun _ => True) (EscapeIn offset cs) (unescapeFrom offset skip cs) := by
  fun_induction unescapeFrom with
  | case1 => trivial
  | case2 offset skip c cs ih => exact ih.imp_error fun _ => .cons
  | case3 offset c cs _ ih => exact (ih.imp_error fun _ => .cons).map fun _ => id
  | case6 offset c hc e rest _ _ _ _ _ ih | case8 offset c hc e rest _ _ _ ih =>
    obtain rfl := not_ne_iff.1 hc
    exact (ih.imp_error fun _ h => h.cons).map fun _ => id
  | case4 offset c hc | case5 offset c hc | case7 offset c hc | case9 offset c hc =>
    obtain rfl := not_ne_iff.1 hc
    exact .here

/-- The place of a wrong escape is counted in the text in which doubled braces are single ones. -/
theorem literal_unknownEscape {s : String} (hrun : literalRun .quoted offset cs = .ok (text, n))
    (h : literal .quoted offset cs = .error (.unknownEscape o s)) :
    ∃ before rest, text = before ++ '\\' :: rest ∧ o = offset + byteSize before := by
  have hends : Ends (fun _ => True) (EscapeIn offset text) (literal .quoted offset cs) := by
    rw [literal, hrun]
    exact ends_unescapeFrom.map fun _ => id
  rw [h] at hends
  exact hends o s rfl

end Scriptlet.Template

import Mathlib.Data.List.TakeDrop
import Scriptlet.Value.Format

/-!
# Digits in groups

Commas cut the whole part of a number into a first group of one to three digits and groups of three
digits behind it (`exists_of_groupDigits`). The sign and the fraction are left as they are, and
without the commas the text is what it was (`groupThousands_groups`).
-/

namespace Scriptlet

variable {c : Char} {sign whole fraction cs : List Char}

/-- What is put into groups is there once the commas are taken out. -/
theorem filter_groupDigits (h : ∀ c ∈ cs, c ≠ ',') :
    (groupDigits cs).filter (· ≠ ',') = cs := by
  induction cs with
  | nil => rfl
  | cons c cs ih =>
    obtain ⟨hc, hcs⟩ := List.forall_mem_cons.1 h
    rw [groupDigits]
    split <;> simpa [hc] using ih hcs

/-- The first group takes what the groups of three behind it leave over. -/
theorem exists_of_groupDigits (h : cs ≠ []) :
    ∃ first groups, groupDigits cs = [','].intercalate (first :: groups) ∧
      first ++ groups.flatten = cs ∧ first.length = (cs.length - 1) % 3 + 1 ∧
      ∀ g ∈ groups, g.length = 3 := by
  induction cs with
  | nil => exact absurd rfl h
  | cons c cs ih =>
    rw [groupDigits]
    by_cases hcs : cs = []
    · subst hcs
      exact ⟨[c], [], by simp [groupDigits], rfl, rfl, List.forall_mem_nil _⟩
    obtain ⟨first, groups, hgroups, hflat, hfirst, hlength⟩ := ih hcs
    have hpos : 0 < cs.length := List.length_pos_iff.2 hcs
    rw [hgroups, List.length_cons]
    split
    case isTrue hthird =>
      -- What follows is made of groups of three, so the first of them is complete.
      refine ⟨[c], first :: groups, ?_, ?_, ?_, List.forall_mem_cons.2 ⟨?_, hlength⟩⟩
      · rw [List.intercalate_cons_cons]
        rfl
      · rw [List.flatten_cons, hflat, List.singleton_append]
      · simp only [List.length_singleton]
        omega
      · omega
    case isFalse hthird =>
      have hrest : cs.length % 3 ≠ 0 := fun h => hthird ⟨h, hcs⟩
      refine ⟨c :: first, groups, ?_, ?_, ?_, hlength⟩
      · cases groups <;> simp
      · rw [List.cons_append, hflat]
      · simp only [List.length_cons]
        omega

/-- The whole part is what stands between the sign and the point. -/
theorem groupThousands_append (hsign : sign = [] ∨ sign = ['-']) (hne : whole ≠ [])
    (hwhole : ∀ c ∈ whole, c.isDigit = true) (hfraction : ∀ c ∈ fraction.head?, c = '.') :
    groupThousands (sign ++ whole ++ fraction) = sign ++ groupDigits whole ++ fraction := by
  have hspan : (whole ++ fraction).span (· != '.') = (whole, fraction) := by
    have hpoint : ∀ c ∈ whole, (c != '.') = true := by
      intro c hc
      have hdigit := hwhole c hc
      rw [bne_iff_ne]
      rintro rfl
      cases hdigit
    rw [List.span_eq_takeWhile_dropWhile, List.takeWhile_append_of_pos hpoint,
      List.dropWhile_append_of_pos hpoint]
    cases fraction with
    | nil => simp
    | cons c cs =>
      obtain rfl := hfraction c rfl
      simp
  rcases hsign with rfl | rfl
  · have hminus (rest : List Char) : whole ++ fraction ≠ '-' :: rest := by
      obtain ⟨c, cs, rfl⟩ := List.exists_cons_of_ne_nil hne
      intro h
      cases (List.cons.inj h).1
      cases hwhole '-' List.mem_cons_self
    rw [List.nil_append, groupThousands.eq_2 _ hminus, hspan]
  · rw [List.append_assoc, List.singleton_append, groupThousands, hspan]

/-- Grouping puts commas into the whole part, behind a first group of one to three digits and between
    groups of three, and does nothing else. -/
theorem groupThousands_groups (hsign : sign = [] ∨ sign = ['-']) (hne : whole ≠ [])
    (hwhole : ∀ c ∈ whole, c.isDigit = true)
    (hfraction : fraction = [] ∨ ∃ ds, fraction = '.' :: ds ∧ ∀ c ∈ ds, c.isDigit = true) :
    (groupThousands (sign ++ whole ++ fraction)).filter (· ≠ ',') = sign ++ whole ++ fraction ∧
      ∃ first groups,
        groupThousands (sign ++ whole ++ fraction) =
          sign ++ [','].intercalate (first :: groups) ++ fraction ∧
        first ++ groups.flatten = whole ∧ 1 ≤ first.length ∧ first.length ≤ 3 ∧
        ∀ g ∈ groups, g.length = 3 := by
  have hcomma (c : Char) (hc : c.isDigit = true) : c ≠ ',' := by
    rintro rfl
    cases hc
  have hhead : ∀ c ∈ fraction.head?, c = '.' := by
    rcases hfraction with rfl | ⟨ds, rfl, -⟩ <;> simp
  have hplain : ∀ c ∈ fraction, c ≠ ',' := by
    rcases hfraction with rfl | ⟨ds, rfl, hds⟩
    · exact List.forall_mem_nil _
    · exact List.forall_mem_cons.2 ⟨by decide, fun c hc => hcomma c (hds c hc)⟩
  have hbefore : sign.filter (· ≠ ',') = sign := by
    rcases hsign with rfl | rfl <;> rfl
  obtain ⟨first, groups, hgroups, hflat, hfirst, hlength⟩ := exists_of_groupDigits hne
  rw [groupThousands_append hsign hne hwhole hhead]
  refine ⟨?_, first, groups, by rw [hgroups], hflat, by omega, by omega, hlength⟩
  rw [List.filter_append, List.filter_append, hbefore,
    filter_groupDigits fun c hc => hcomma c (hwhole c hc),
    List.filter_eq_self.2 fun c hc => decide_eq_true (hplain c hc)]

/-- A negative number with four digits and a fraction. -/
theorem groupThousands_groups_four_digits :
    groupThousands ['-', '1', '2', '3', '4', '.', '5'] = ['-', '1', ',', '2', '3', '4', '.', '5'] ∧
      (groupThousands (['-'] ++ ['1', '2', '3', '4'] ++ ['.', '5'])).filter (· ≠ ',') =
        ['-'] ++ ['1', '2', '3', '4'] ++ ['.', '5'] :=
  ⟨by decide, (groupThousands_groups (.inr rfl) (List.cons_ne_nil _ _) (by simp)
    (.inr ⟨['5'], rfl, by simp⟩)).1⟩

end Scriptlet

import Scriptlet.Catalog.Library
import Scriptlet.Catalog.Directory

/-!
# The texts of types

A type that can be named with the library (`Ty.Nameable`) is written as a word with types in
angle brackets behind it, or none (`Ty.Applies`), and with marks for arrays and missing values
behind that. So statements about such types have three cases (`Ty.nameable_induct`).

In the text of a type, brackets match, and commas stand within brackets (`Nested`). Hence
looking for the bracket that the last one closes passes over whole types
(`Nested.matchingOpen?`), and so does splitting a list of types at its commas
(`splitArguments_joined`). The text of a type names the type (`Directory.resolveWithin_text`).
-/

namespace Scriptlet

open Text

variable {t : Ty} {ts : List Ty} {w : String}

/-! ## Types with names -/

/-- The types that can be named with the library. -/
inductive Ty.Nameable : Ty → Prop
  | void : Nameable void
  | object : Nameable object
  | bool : Nameable bool
  | char : Nameable char
  | string : Nameable string
  | numeric (k : NumericKind) : Nameable (numeric k)
  /-- One layer of a missing value, around a type that is no reference. -/
  | nullable {t : Ty} (h : Nameable t) (hvalue : t.isReference = false)
      (hone : ∀ u, t ≠ nullable u) : Nameable (nullable t)
  | array {t : Ty} {rank : Nat} (h : Nameable t) (hrank : 1 ≤ rank) : Nameable (array t rank)
  | collection {name : String} {t : Ty} (hname : name ∈ ["List", "IEnumerable", "IEnumerator"])
      (h : Nameable t) : Nameable (named name [t])
  | ofClass {name : String} (h : named name [] ∈ Library.definitions.map (·.type)) :
      Nameable (named name [])
  | function {params : List Ty} {ret : Ty} (hparams : ∀ t ∈ params, Nameable t)
      (hret : Nameable ret) : Nameable (function params ret)

/-- The classes of the library without type parameters. -/
def classWords : List String :=
  ["Array", "Math", "Enumerable", "Convert", "Exception", "ArgumentException",
    "InvalidOperationException", "DivideByZeroException"]

/-- The words that types start with. -/
def typeWords : List String :=
  ["void", "object", "bool", "char", "string"] ++ NumericKind.all.map (·.name) ++ classWords ++
    ["List", "IEnumerable", "IEnumerator", "Action", "Func"]

/-- Types in angle brackets, if there are any. -/
def Ty.angled (args : List Ty) : List Char :=
  if args.isEmpty then [] else '<' :: ((joined args).toList ++ ['>'])

/-- A type is written as a word that is applied to types. -/
structure Ty.Applies (w : String) (args : List Ty) (t : Ty) : Prop where
  text : t.text.toList = w.toList ++ angled args
  word : w ∈ typeWords
  named : Directory.instantiate? { catalog := .standard } w args = some t

namespace Ty

theorem mem_classWords {name : String} (h : named name [] ∈ Library.definitions.map (·.type)) :
    name ∈ classWords := by
  have htypes : Library.definitions.map (·.type) =
      [object, void, bool, char] ++ NumericKind.all.map numeric ++
        [string, named "IEnumerable" [generic "T"], named "IEnumerator" [generic "T"],
          named "Array" [], named "List" [generic "T"], named "Nullable" [generic "T"]] ++
        classWords.tail.map fun w => named w [] := by
    decide
  rw [htypes] at h
  simpa [classWords] using h

theorem joined_cons_cons (t u : Ty) (ts : List Ty) : (joined (t :: u :: ts)).toList =
    t.text.toList ++ ',' :: ' ' :: (joined (u :: ts)).toList := by
  simp [joined]

theorem length_text_le (h : t ∈ ts) : t.text.toList.length ≤ (joined ts).toList.length := by
  induction ts with
  | nil => contradiction
  | cons u us ih =>
    cases us with
    | nil =>
      obtain rfl := List.mem_singleton.mp h
      exact Nat.le_refl _
    | cons v vs =>
      rw [joined_cons_cons, List.length_append, List.length_cons, List.length_cons]
      rcases List.mem_cons.mp h with rfl | hmem
      · omega
      · exact Nat.le_trans (ih hmem) (by omega)

theorem length_le_joined (ts : List Ty) : ts.length ≤ (joined ts).toList.length + 1 := by
  induction ts with
  | nil => exact Nat.zero_le _
  | cons t ts ih =>
    cases ts with
    | nil => exact Nat.succ_le_succ (Nat.zero_le _)
    | cons u us =>
      simp only [joined_cons_cons, List.length_append, List.length_cons] at ih ⊢
      omega

theorem text_array (t : Ty) (rank : Nat) : (array t rank).text.toList =
    t.text.toList ++ '[' :: (List.replicate (rank - 1) ',' ++ [']']) := by
  simp [text]

theorem Applies.text_nullable (h : Applies w [] t) :
    (Ty.nullable t).text.toList = w.toList ++ ['?'] := by
  simp [Ty.text, h.text, angled]

theorem joined_append (hts : ts ≠ []) (t : Ty) :
    joined (ts ++ [t]) = joined ts ++ ", " ++ t.text := by
  induction ts with
  | nil => exact absurd rfl hts
  | cons u us ih =>
    cases us with
    | nil => rfl
    | cons v vs =>
      change u.text ++ ", " ++ joined (v :: vs ++ [t]) =
        u.text ++ ", " ++ joined (v :: vs) ++ ", " ++ t.text
      rw [ih (List.cons_ne_nil _ _)]
      simp only [String.append_assoc]

/-- A delegate is written with its result behind its parameters, unless it has none. -/
theorem applies_function (params : List Ty) (ret : Ty) :
    ∃ w args, Applies w args (function params ret) ∧ ∀ t ∈ args, t ∈ params ∨ t = ret := by
  by_cases hvoid : ret = void
  · subst hvoid
    refine ⟨"Action", params, ⟨?_, by decide, by cases params <;> rfl⟩, fun _ => .inl⟩
    cases params with
    | nil => rfl
    | cons t ts => simp [text, angled]
  · refine ⟨"Func", params ++ [ret], ⟨?_, by decide, ?_⟩, by simp⟩
    · have htext : text (function params ret) = "Func<" ++ joined (params ++ [ret]) ++ ">" := by
        cases params with
        | nil => cases ret <;> first | contradiction | rfl
        | cons t ts =>
          rw [joined_append (List.cons_ne_nil _ _)]
          cases ret <;> first | contradiction | simp [text, String.append_assoc]
      rw [htext]
      simp [angled]
    · have hfunc (ts : List Ty) (hts : ts ≠ []) : Directory.instantiate? { catalog := .standard }
          "Func" ts = some (function ts.dropLast (ts.getLastD void)) := by
        cases ts with
        | nil => exact absurd rfl hts
        | cons => rfl
      rw [hfunc _ (by simp), List.dropLast_concat, List.getLastD_concat]

/-- To show something of all types that can be named, it is shown of words that are applied to
    types, and of types with marks. -/
@[elab_as_elim]
theorem nameable_induct {P : Ty → Prop} (h : t.Nameable)
    (applied : ∀ w args t, Applies w args t → (∀ a ∈ args, a.Nameable) → (∀ a ∈ args, P a) → P t)
    (nullable : ∀ w t, Applies w [] t → t.isReference = false → P (.nullable t))
    (array : ∀ t rank, t.Nameable → 1 ≤ rank → P t → P (.array t rank)) : P t := by
  -- a word by itself
  have halone {w : String} {t : Ty} (h : Applies w [] t) : P t :=
    applied w [] t h (by simp) (by simp)
  have hkind (k : NumericKind) : Applies k.name [] (numeric k) := by
    rcases k with k | k <;> cases k <;> exact ⟨rfl, by decide, rfl⟩
  have hvoid : Applies "void" [] void := ⟨rfl, by decide, rfl⟩
  have hbool : Applies "bool" [] bool := ⟨rfl, by decide, rfl⟩
  have hchar : Applies "char" [] char := ⟨rfl, by decide, rfl⟩
  induction h with
  | void => exact halone hvoid
  | object => exact halone (w := "object") ⟨rfl, by decide, rfl⟩
  | bool => exact halone hbool
  | char => exact halone hchar
  | string => exact halone (w := "string") ⟨rfl, by decide, rfl⟩
  | numeric k => exact halone (hkind k)
  | @nullable t h hvalue hone _ =>
    cases h with
    | void => exact nullable _ _ hvoid rfl
    | bool => exact nullable _ _ hbool rfl
    | char => exact nullable _ _ hchar rfl
    | numeric k => exact nullable _ _ (hkind k) rfl
    | nullable => exact absurd rfl (hone _)
    | _ => cases hvalue
  | array h hrank ih => exact array _ _ h hrank ih
  | @collection name t hname h ih =>
    refine applied name [t] _ ?_ (by simpa using h) (by simpa using ih)
    simp only [List.mem_cons, List.not_mem_nil, or_false] at hname
    rcases hname with rfl | rfl | rfl <;>
      exact ⟨by simp [text, angled], by decide, rfl⟩
  | @ofClass name h =>
    have hname := mem_classWords h
    simp only [classWords, List.mem_cons, List.not_mem_nil, or_false] at hname
    have happlies : Applies name [] (named name []) := by
      rcases hname with rfl | rfl | rfl | rfl | rfl | rfl | rfl | rfl <;>
        exact ⟨rfl, by decide, rfl⟩
    exact halone happlies
  | @function params ret hparams hret ihparams ihret =>
    obtain ⟨w, args, happlies, hargs⟩ := applies_function params ret
    refine applied w args _ happlies (fun t ht => ?_) fun t ht => ?_
    · rcases hargs t ht with hmem | rfl
      · exact hparams t hmem
      · exact hret
    · rcases hargs t ht with hmem | rfl
      · exact ihparams t hmem
      · exact ihret

end Ty

/-! ## Brackets -/

/-- The brackets in the texts of types. -/
def typeBrackets : List (Char × Char) := [('<', '>'), ('[', ']')]

/-- The characters that are brackets, or part types from each other. -/
def typePoints : List Char := ['<', '>', '[', ']', '(', ')', ',']

/-- A text in which brackets match, with commas only within them unless they are allowed. -/
inductive Nested : (commas : Bool) → List Char → Prop
  | nil {b : Bool} : Nested b []
  | plain {b : Bool} {c : Char} {s : List Char} (hc : c ∉ typePoints) (h : Nested b s) :
      Nested b (c :: s)
  | comma {s : List Char} (h : Nested true s) : Nested true (',' :: s)
  | enclosed {b : Bool} {o e : Char} {s r : List Char} (hoe : (o, e) ∈ typeBrackets)
      (h : Nested true s) (hr : Nested b r) : Nested b (o :: (s ++ e :: r))

namespace Nested

variable {b : Bool} {o e : Char} {s r : List Char}

theorem mem_typeBrackets : (o, e) ∈ typeBrackets ↔ o = '<' ∧ e = '>' ∨ o = '[' ∧ e = ']' := by
  simp [typeBrackets]

theorem append (h : Nested b s) (hr : Nested b r) : Nested b (s ++ r) := by
  induction h with
  | nil => exact hr
  | plain hc _ ih => exact .plain hc (ih hr)
  | comma _ ih => exact .comma (ih hr)
  | enclosed hoe h _ _ ih =>
    rw [List.cons_append, List.append_assoc, List.cons_append]
    exact .enclosed hoe h (ih hr)

theorem getLast?_enclosed (front s : List Char) (o e : Char) :
    (front ++ o :: (s ++ [e])).getLast? = some e := by
  rw [← List.cons_append, ← List.append_assoc, List.getLast?_concat]

theorem allow (h : Nested b s) : Nested true s := by
  induction h with
  | nil => exact .nil
  | plain hc _ ih => exact .plain hc ih
  | comma h _ => exact .comma h
  | enclosed hoe h _ _ ih => exact .enclosed hoe h ih

theorem of_plain (h : ∀ c ∈ s, c ∉ typePoints) : Nested b s := by
  induction s with
  | nil => exact .nil
  | cons c s ih =>
    obtain ⟨hc, hs⟩ := List.forall_mem_cons.mp h
    exact .plain hc (ih hs)

theorem commas (n : Nat) : Nested true (List.replicate n ',') := by
  induction n with
  | zero => exact .nil
  | succ n ih => exact .comma ih

open Directory in
/-- On the way back to an opening bracket, a text in which brackets match is passed over. -/
theorem go_matchingOpen? (h : Nested b s) (hoe : (o, e) ∈ typeBrackets) (n depth : Nat)
    (rest : List Char) :
    matchingOpen?.go o e (n + s.length) (depth + 1) (s.reverse ++ rest) =
      matchingOpen?.go o e n (depth + 1) rest := by
  have hother {c : Char} (ho : c ≠ o) (he : c ≠ e) (n depth : Nat) (rest : List Char) :
      matchingOpen?.go o e (n + 1) depth (c :: rest) = matchingOpen?.go o e n depth rest := by
    rw [matchingOpen?.go, if_neg he, if_neg ho]
  have hne : o ≠ e ∧ o ∈ typePoints ∧ e ∈ typePoints ∧ o ≠ ',' ∧ e ≠ ',' := by
    rcases mem_typeBrackets.mp hoe with ⟨rfl, rfl⟩ | ⟨rfl, rfl⟩ <;> decide
  induction h generalizing n depth rest with
  | nil => rfl
  | @plain _ c s hc _ ih =>
    have hstep := ih (n + 1) depth (c :: rest)
    rw [Nat.add_right_comm, Nat.add_assoc, hother (by grind) (by grind)] at hstep
    simpa using hstep
  | @comma s _ ih =>
    have hstep := ih (n + 1) depth (',' :: rest)
    rw [Nat.add_right_comm, Nat.add_assoc, hother (by grind) (by grind)] at hstep
    simpa using hstep
  | @enclosed _ o' e' s r hoe' _ _ ih ihr =>
    have hlength : n + (o' :: (s ++ e' :: r)).length = n + 1 + s.length + 1 + r.length := by
      simp; omega
    have hreverse : (o' :: (s ++ e' :: r)).reverse ++ rest =
        r.reverse ++ e' :: (s.reverse ++ o' :: rest) := by simp
    rw [hlength, hreverse, ihr]
    by_cases hsame : e' = e
    · have hopen : o' = o := by grind [mem_typeBrackets]
      subst hsame hopen
      rw [matchingOpen?.go, if_pos rfl, ih, matchingOpen?.go, if_neg hne.1, if_pos rfl,
        if_neg (by omega), Nat.add_sub_cancel]
    · have hopen : e' ≠ o ∧ o' ≠ o ∧ o' ≠ e := by grind [mem_typeBrackets]
      rw [hother hopen.1 hsame, ih, hother hopen.2.1 hopen.2.2]

/-- The bracket that the last one closes is found in front of a text in which brackets match. -/
theorem matchingOpen? (h : Nested b s) (hoe : (o, e) ∈ typeBrackets) (front : List Char) :
    Directory.matchingOpen? o e (front ++ o :: (s ++ [e])) = some front.length := by
  have hlength : (front ++ o :: (s ++ [e])).length = front.length + 1 + s.length + 1 := by
    simp; omega
  have hreverse : (front ++ o :: (s ++ [e])).reverse = e :: (s.reverse ++ o :: front.reverse) := by
    simp
  have hne : o ≠ e := by grind [mem_typeBrackets]
  rw [Directory.matchingOpen?, hlength, hreverse, Directory.matchingOpen?.go, if_pos rfl,
    h.go_matchingOpen? hoe, Directory.matchingOpen?.go, if_neg hne, if_pos rfl,
    if_pos (Nat.le_refl _)]

open Directory in
/-- A text in which brackets match is not split, as long as its commas are within brackets. -/
theorem go_splitArguments (h : Nested b s) {depth : Int} (hdepth : 0 ≤ depth)
    (hcommas : b = true → 0 < depth) (part rest : List Char) :
    splitArguments.go depth part (s ++ rest) =
      splitArguments.go depth (s.reverse ++ part) rest := by
  induction h generalizing depth part rest with
  | nil => rfl
  | plain hc _ ih =>
    simp only [typePoints, List.mem_cons, List.not_mem_nil, or_false, not_or] at hc
    rw [List.cons_append, splitArguments.go, if_neg (by grind), if_neg (by grind),
      if_neg (by grind), ih hdepth hcommas, List.reverse_cons, List.append_assoc]
    rfl
  | comma _ ih =>
    have hpos := hcommas rfl
    rw [List.cons_append, splitArguments.go, if_neg (by decide), if_neg (by decide),
      if_neg (by omega), ih hdepth hcommas, List.reverse_cons, List.append_assoc]
    rfl
  | @enclosed _ o e s r hoe _ _ ih ihr =>
    have hopen : (o = '<' ∨ o = '(' ∨ o = '[') ∧ ¬(e = '<' ∨ e = '(' ∨ e = '[') ∧
        (e = '>' ∨ e = ')' ∨ e = ']') := by
      rcases mem_typeBrackets.mp hoe with ⟨rfl, rfl⟩ | ⟨rfl, rfl⟩ <;> decide
    rw [List.cons_append, splitArguments.go, if_pos hopen.1, List.append_assoc,
      ih (by omega) (fun _ => by omega), List.cons_append, splitArguments.go, if_neg hopen.2.1,
      if_pos hopen.2.2, Int.add_sub_cancel, ihr hdepth hcommas]
    simp

end Nested

/-! ## Texts -/

theorem trim_blank_cons {c : Char} (hc : isBlank c = true) (s : List Char) :
    trim (c :: s) = trim s := by
  rw [trim, trim, trimStart, List.dropWhile_cons_of_pos hc, trimStart]

/-- There is nothing to trim around characters that are not blank. -/
theorem trim_eq_self {s : List Char} (hfirst : ∀ c ∈ s.head?, isBlank c = false)
    (hlast : ∀ c ∈ s.getLast?, isBlank c = false) : trim s = s := by
  have hdrop (s : List Char) (h : ∀ c ∈ s.head?, isBlank c = false) : s.dropWhile isBlank = s := by
    cases s with
    | nil => rfl
    | cons c s => exact List.dropWhile_cons_of_neg (by simp [h c rfl])
  rw [trim, trimStart, hdrop s hfirst, trimEnd, hdrop s.reverse (by simpa using hlast),
    List.reverse_reverse]

/-- Words are not empty, and have neither blanks nor symbols in them. -/
theorem typeWords_plain (hw : w ∈ typeWords) : w.toList ≠ [] ∧ ∀ c ∈ w.toList,
    isBlank c = false ∧ c ∉ typePoints ∧ c ∉ ['?', '.', '='] := by
  have hall : typeWords.all (fun w => !w.toList.isEmpty && w.toList.all fun c =>
      !isBlank c && !typePoints.contains c && !List.contains ['?', '.', '='] c) = true := by
    decide
  have hplain := List.all_eq_true.mp hall w hw
  simpa only [Bool.and_eq_true, Bool.not_eq_eq_eq_not, Bool.not_true, List.isEmpty_eq_false_iff,
    List.all_eq_true, List.contains_eq_mem, decide_eq_false_iff_not, and_assoc] using hplain

theorem trim_word (hw : w ∈ typeWords) : trim w.toList = w.toList :=
  trim_eq_self (fun c hc => ((typeWords_plain hw).2 c (List.mem_of_mem_head? hc)).1)
    fun c hc => ((typeWords_plain hw).2 c (List.mem_of_getLast? hc)).1

namespace Ty

variable {t : Ty}

theorem nested_joined (h : ∀ t ∈ ts, Nested false t.text.toList) :
    Nested true (joined ts).toList := by
  induction ts with
  | nil => exact .nil
  | cons t ts ih =>
    obtain ⟨ht, hts⟩ := List.forall_mem_cons.mp h
    cases ts with
    | nil => exact ht.allow
    | cons u us =>
      rw [joined_cons_cons]
      exact ht.allow.append (.comma (.plain (by decide) (ih hts)))

/-- In the text of a type, brackets match. -/
theorem nested_text (h : t.Nameable) : Nested false t.text.toList := by
  have hword {w : String} (hw : w ∈ typeWords) : Nested false w.toList :=
    .of_plain fun c hc => ((typeWords_plain hw).2 c hc).2.1
  refine nameable_induct h ?applied ?nullable ?array
  case applied =>
    intro w args t happlies _ ih
    rw [happlies.text, angled]
    refine (hword happlies.word).append ?_
    split
    · exact .nil
    · exact .enclosed (by decide) (nested_joined ih) .nil
  case nullable =>
    intro w t happlies _
    rw [happlies.text_nullable]
    exact (hword happlies.word).append (.plain (by decide) .nil)
  case array =>
    intro t rank _ _ ih
    rw [text_array]
    exact ih.append (.enclosed (by decide) (.commas _) .nil)

theorem head?_joined_append {c : Char} (h : t.text.toList.head? = some c) (ts : List Ty)
    (rest : List Char) : ((joined (t :: ts)).toList ++ rest).head? = some c := by
  cases ts <;> simp [joined, h]

/-- The text of a type starts with a word. -/
theorem head?_text (h : t.Nameable) :
    ∃ w ∈ typeWords, ∃ c ∈ w.toList, t.text.toList.head? = some c := by
  have hword {w : String} (hw : w ∈ typeWords) (rest : List Char) :
      ∃ w' ∈ typeWords, ∃ c ∈ w'.toList, (w.toList ++ rest).head? = some c := by
    obtain ⟨c, cs, hchars⟩ := List.exists_cons_of_ne_nil (typeWords_plain hw).1
    exact ⟨w, hw, c, by simp [hchars], by simp [hchars]⟩
  refine nameable_induct h ?applied ?nullable ?array
  case applied =>
    intro w args t happlies _ _
    rw [happlies.text]
    exact hword happlies.word _
  case nullable =>
    intro w t happlies _
    rw [happlies.text_nullable]
    exact hword happlies.word _
  case array =>
    rintro t rank _ _ ⟨w, hw, c, hc, hhead⟩
    exact ⟨w, hw, c, hc, by simp [text_array, hhead]⟩

/-- The text of a type has no blanks around it. -/
theorem trim_text (h : t.Nameable) : trim t.text.toList = t.text.toList := by
  refine trim_eq_self ?_ (nameable_induct h ?applied ?nullable ?array)
  · obtain ⟨w, hw, c, hc, hhead⟩ := head?_text h
    rw [hhead]
    exact fun _ hmem => Option.mem_some.mp hmem ▸ ((typeWords_plain hw).2 c hc).1
  case applied =>
    intro w args t happlies _ _
    rw [happlies.text, angled]
    split
    · rw [List.append_nil]
      exact fun c hc => ((typeWords_plain happlies.word).2 c (List.mem_of_getLast? hc)).1
    · rw [Nested.getLast?_enclosed]
      exact fun _ hc => Option.mem_some.mp hc ▸ by decide
  case nullable =>
    intro w t happlies _
    rw [happlies.text_nullable, List.getLast?_concat]
    exact fun _ hc => Option.mem_some.mp hc ▸ by decide
  case array =>
    intro t rank _ _ _
    rw [text_array, Nested.getLast?_enclosed]
    exact fun _ hc => Option.mem_some.mp hc ▸ by decide

/-- Splitting a list of types at its commas gives the types back. -/
theorem splitArguments_joined (hne : ts ≠ []) (hts : ∀ t ∈ ts, t.Nameable) :
    Directory.splitArguments (joined ts).toList = ts.map fun t => t.text.toList := by
  suffices hpart : ∀ part, part = [] ∨ part = [' '] →
      (Directory.splitArguments.go 0 part (joined ts).toList).map trim =
        ts.map fun t => t.text.toList from hpart [] (.inl rfl)
  induction ts with
  | nil => exact absurd rfl hne
  | cons t ts ih =>
    intro part hpart
    obtain ⟨ht, hts⟩ := List.forall_mem_cons.mp hts
    have hfirst : trim (part.reverse ++ t.text.toList) = t.text.toList := by
      rcases hpart with rfl | rfl
      · exact trim_text ht
      · exact (trim_blank_cons (by decide) _).trans (trim_text ht)
    have hgo (rest : List Char) : Directory.splitArguments.go 0 part (t.text.toList ++ rest) =
        Directory.splitArguments.go 0 (t.text.toList.reverse ++ part) rest :=
      (nested_text ht).go_splitArguments (Int.le_refl 0) (by simp) part rest
    cases ts with
    | nil =>
      have hsplit := hgo []
      rw [List.append_nil] at hsplit
      rw [joined, hsplit]
      simpa [Directory.splitArguments.go] using hfirst
    | cons u us =>
      rw [joined_cons_cons, hgo, Directory.splitArguments.go, if_neg (by decide),
        if_neg (by decide), if_pos (by decide), List.map_cons, Directory.splitArguments.go,
        if_neg (by decide), if_neg (by decide), if_neg (by decide),
        ih (List.cons_ne_nil _ _) hts _ (.inr rfl)]
      simpa using hfirst

end Ty

/-! ## The types that texts name -/

namespace Directory

variable {w : String}

/-- A name without points is in no namespace. -/
theorem withinNamespace?_eq_none {name : String} (h : '.' ∉ name.toList) (space : String) :
    Catalog.withinNamespace? space name = none := by
  unfold Catalog.withinNamespace?
  split
  · next hstrip => exact absurd (by simp [strip?_eq_some hstrip]) h
  · rfl

/-- The namespaces of a directory do not matter to words. -/
theorem instantiate?_word (d : Directory) (hw : w ∈ typeWords) (args : List Ty) :
    d.instantiate? w args = instantiate? { catalog := d.catalog } w args := by
  have hpoint : '.' ∉ w.toList := fun hc => ((typeWords_plain hw).2 '.' hc).2.2 (by decide)
  have hname (d : Directory) : d.withoutNamespace w = w := by
    have hnone : (d.namespaces.findSome? fun space => Catalog.withinNamespace? space w) = none :=
      List.findSome?_eq_none_iff.mpr fun space _ => withinNamespace?_eq_none hpoint space
    rw [withoutNamespace, hnone, Option.getD_none]
  unfold instantiate?
  simp only [hname]

variable {d : Directory} {steps : Nat} {s : List Char}

theorem resolveWithin_missing (htrim : trim (s ++ ['?']) = s ++ ['?']) :
    d.resolveWithin (steps + 1) (s ++ ['?']) = (d.resolveWithin steps s).map Ty.orNull := by
  simp only [resolveWithin, htrim, List.getLast?_concat, List.dropLast_concat]

/-- The commas between square brackets give the rank of an array. -/
theorem resolveWithin_array {rank : Nat} (hrank : 1 ≤ rank)
    (htrim : trim (s ++ '[' :: (List.replicate (rank - 1) ',' ++ [']'])) =
      s ++ '[' :: (List.replicate (rank - 1) ',' ++ [']'])) :
    d.resolveWithin (steps + 1) (s ++ '[' :: (List.replicate (rank - 1) ',' ++ [']'])) =
      (d.resolveWithin steps s).map (.array · rank) := by
  have hopen := (Nested.commas (rank - 1)).matchingOpen? (o := '[') (e := ']') (by decide) s
  have hdims : ((s ++ '[' :: (List.replicate (rank - 1) ',' ++ [']'])).drop
      (s.length + 1)).dropLast = List.replicate (rank - 1) ',' := by
    simp
  simp only [resolveWithin, htrim, Nested.getLast?_enclosed, hopen, Option.bind_some, hdims]
  rw [if_pos (by simp [List.all_replicate]), List.take_left]
  simp [Nat.sub_add_cancel hrank]

/-- The types between angle brackets are those that a word is applied to. -/
theorem resolveWithin_angled {args : List Ty} (hw : w ∈ typeWords) (hne : args ≠ [])
    (hargs : ∀ a ∈ args, a.Nameable)
    (hinner : ∀ a ∈ args, d.resolveWithin steps a.text.toList = some a)
    (htrim : trim (w.toList ++ Ty.angled args) = w.toList ++ Ty.angled args) :
    d.resolveWithin (steps + 1) (w.toList ++ Ty.angled args) = d.instantiate? w args := by
  have hangled : Ty.angled args = '<' :: ((Ty.joined args).toList ++ ['>']) := by
    simp [Ty.angled, hne]
  have hnested := Ty.nested_joined fun a ha => Ty.nested_text (hargs a ha)
  have hopen := hnested.matchingOpen? (o := '<') (e := '>') (by decide) w.toList
  have hbetween : ((w.toList ++ '<' :: ((Ty.joined args).toList ++ ['>'])).drop
      (w.toList.length + 1)).dropLast = (Ty.joined args).toList := by
    simp
  have hmap (ts : List Ty) (hts : ∀ a ∈ ts, d.resolveWithin steps a.text.toList = some a) :
      (ts.map fun t => t.text.toList).mapM (d.resolveWithin steps) = some ts := by
    induction ts with
    | nil => rfl
    | cons t ts ih =>
      obtain ⟨ht, hts⟩ := List.forall_mem_cons.mp hts
      simp [ht, ih hts]
  rw [hangled] at htrim ⊢
  simp only [resolveWithin, htrim, Nested.getLast?_enclosed, hopen, Option.bind_some, hbetween,
    Ty.splitArguments_joined hne hargs, hmap args hinner, List.take_left, trim_word hw,
    String.ofList_toList]

/-- A word with nothing behind it is looked up. -/
theorem resolveWithin_word (hw : w ∈ typeWords) :
    d.resolveWithin (steps + 1) w.toList = d.instantiate? w [] := by
  obtain ⟨hne, hplain⟩ := typeWords_plain hw
  have hlast := List.getLast?_eq_some_getLast hne
  obtain ⟨_, hpoints, hmarks⟩ := hplain _ (List.getLast_mem hne)
  simp only [typePoints, List.mem_cons, not_or] at hpoints hmarks
  rw [resolveWithin, trim_word hw, hlast]
  split
  · contradiction
  · next h => exact absurd (Option.some.inj h) hmarks.1
  · next h => exact absurd (Option.some.inj h) hpoints.2.2.2.1
  · next h => exact absurd (Option.some.inj h) hpoints.2.1
  · rw [String.ofList_toList]

/-- The text of a type names the type. -/
theorem resolveWithin_text (hd : d.catalog = .standard) (h : t.Nameable)
    (hsteps : t.text.toList.length < steps) : d.resolveWithin steps t.text.toList = some t := by
  have hnamed {w : String} {args : List Ty} {t : Ty} (h : Ty.Applies w args t) :
      d.instantiate? w args = some t := by
    rw [instantiate?_word d h.word, hd, h.named]
  suffices hall : ∀ steps, t.text.toList.length < steps → t.Nameable →
      d.resolveWithin steps t.text.toList = some t from hall steps hsteps h
  refine Ty.nameable_induct h ?applied ?nullable ?array
  case applied =>
    intro w args t happlies hargs ih steps hsteps ht
    have htrim := Ty.trim_text ht
    rw [happlies.text] at htrim hsteps ⊢
    obtain ⟨steps, rfl⟩ : ∃ n, steps = n + 1 := ⟨steps - 1, by omega⟩
    by_cases hne : args = []
    · subst hne
      rw [show Ty.angled [] = [] from rfl, List.append_nil, resolveWithin_word happlies.word,
        hnamed happlies]
    · rw [resolveWithin_angled happlies.word hne hargs (fun a ha => ?_) htrim, hnamed happlies]
      have hlength := Ty.length_text_le ha
      refine ih a ha steps ?_ (hargs a ha)
      simp only [Ty.angled, List.isEmpty_iff, hne, if_false, List.length_append,
        List.length_cons] at hsteps
      omega
  case nullable =>
    intro w t happlies hvalue steps hsteps ht
    have htrim := Ty.trim_text ht
    rw [happlies.text_nullable] at htrim hsteps ⊢
    rw [List.length_append, List.length_singleton] at hsteps
    obtain ⟨steps, rfl⟩ : ∃ n, steps = n + 1 + 1 := ⟨steps - 2, by omega⟩
    rw [resolveWithin_missing htrim, resolveWithin_word happlies.word, hnamed happlies]
    simp [Ty.orNull, hvalue]
  case array =>
    intro t rank hinner hrank ih steps hsteps ht
    have htrim := Ty.trim_text ht
    rw [Ty.text_array] at htrim hsteps ⊢
    rw [List.length_append, List.length_cons] at hsteps
    obtain ⟨steps, rfl⟩ : ∃ n, steps = n + 1 := ⟨steps - 1, by omega⟩
    rw [resolveWithin_array hrank htrim, ih steps (by omega) hinner, Option.map_some]

end Directory

end Scriptlet

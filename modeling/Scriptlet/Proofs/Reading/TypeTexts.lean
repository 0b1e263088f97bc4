import Scriptlet.Proofs.Catalog.NamedTypes
import Scriptlet.Proofs.Reading.Bodies
import Scriptlet.Proofs.Reading.Heads

/-!
# Types are read as they are written

The text of a type that can be named is read token by token: a word, the types in angle
brackets behind it, and the marks behind those. Two closing brackets may make one token, of
which the front is taken (`Cursor.StandsAt.readSymbolFront_angle`).

What stands behind a type is nothing, a comma or a closing bracket, and behind a part of its
text also a square bracket. So the word of a type ends where its text has it end, and a mark
is known to belong to the type (`Reading.missingMark_text`, `Reading.arrayBrackets_text`).
Marks are read in rounds, each of which goes from one type to the next (`Reading.MarksTo`).
-/

namespace Scriptlet

open Text

variable {rest : List Char}

/-! ## Tokens -/

/-- What can stand behind a type. -/
def TypeEnds (rest : List Char) : Prop := rest.head? ∈ [none, some ',', some '>']

/-- What can stand behind a type and the marks that it has so far. -/
def MarksEnd (rest : List Char) : Prop := rest.head? ∈ [none, some ',', some '>', some '[']

theorem TypeEnds.marksEnd (h : TypeEnds rest) : MarksEnd rest := by
  simp only [TypeEnds, MarksEnd, List.mem_cons, List.not_mem_nil, or_false] at h ⊢
  tauto

theorem MarksEnd.forall {p : Char → Prop} (h : MarksEnd rest)
    (hp : [',', '>', '['].Forall p) : ∀ b ∈ rest.head?, p b := by
  intro b hb
  rw [MarksEnd, Option.mem_def.mp hb] at h
  exact List.forall_iff_forall_mem.mp hp b (by simpa using h)

theorem MarksEnd.ne {b : Char} (h : MarksEnd rest)
    (hb : [',', '>', '['].Forall (b ≠ ·)) : some b ≠ rest.head? :=
  fun heq => h.forall hb b heq.symm rfl

/-- The symbols in the texts of types, but for closing angle brackets. -/
def typeSymbols : List String := ["<", ",", "[", "]", "?"]

namespace Cursor

variable {c : Cursor} {ws rest : List Char} {w : String}

theorem StandsAt.read_typeSymbol (h : c.StandsAt (w.toList ++ rest)) (hw : w ∈ typeSymbols)
    (hrest : w ∈ ["<", "?"] → ∀ b ∈ rest.head?, b ∉ ['=', '<', '?']) :
    ∃ start d, c.read true = (.ok ((Lexeme.symbol w).token start), d) ∧ d.StandsAt rest := by
  have hall : ∀ w ∈ typeSymbols, w ∈ Scriptlet.symbols ∧
      w.toList.head?.any (· ∈ Lexeme.symbolStarts) = true ∧
      w.toList.head? ≠ some '/' ∧ (SymbolTree.standard.continuations w.toList).Forall
        fun b => w ∈ ["<", "?"] ∧ b ∈ ['=', '<', '?'] := by
    decide
  obtain ⟨hmem, hstart, hslash, hcontinue⟩ := hall w hw
  rw [List.forall_iff_forall_mem] at hcontinue
  have hfronts : (Lexeme.symbol w).Fronts rest :=
    Lexeme.fronts_symbol hmem hstart
      (fun b hb hmem => hrest (hcontinue b hmem).1 b hb (hcontinue b hmem).2)
      fun h => absurd h hslash
  have htext : c.StandsAt ([] ++ ((Lexeme.symbol w).text ++ rest)) := h
  obtain ⟨d, hread, hd⟩ := htext.read_lexeme (List.forall_mem_nil _) hfronts
  exact ⟨_, d, hread, hd⟩

/-- The word of a type is read, if what stands behind it is no part of a word. -/
theorem StandsAt.read_typeWord (h : c.StandsAt (ws ++ (w.toList ++ rest)))
    (hws : ∀ b ∈ ws, isBlank b = true) (hw : w ∈ typeWords)
    (hrest : ∀ b ∈ rest.head?, continuesName b = false) :
    ∃ start d, c.read true = (.ok ((Lexeme.word w).token start), d) ∧ d.StandsAt rest := by
  have hall : ∀ w ∈ typeWords, isPlainName w = true := by decide
  obtain ⟨d, hread, hd⟩ :=
    StandsAt.read_lexeme h hws (Lexeme.fronts_word (.of_isPlainName (hall w hw)) hrest)
  exact ⟨_, d, hread, hd⟩

/-- A closing angle bracket is read, also from the front of a longer symbol. -/
theorem StandsAt.readSymbolFront_angle (h : c.StandsAt ('>' :: rest)) :
    ∃ d, c.readSymbolFront ">" = (.ok true, d) ∧ d.StandsAt rest := by
  obtain ⟨front, behind, rfl, -, hfronts⟩ := fronts_mark (c := '>') rfl rest
  have htext : c.StandsAt ([] ++ ('>' :: front ++ behind)) := h
  obtain ⟨d, hread, hd⟩ := htext.read_lexeme (List.forall_mem_nil _) hfronts
  have hp := congrArg Prod.fst hread
  cases front with
  | nil =>
    refine ⟨d, ?_, hd⟩
    rw [Reading.readSymbolFront_short hp rfl, readSymbol, hread]
    rfl
  | cons b front =>
    obtain ⟨done, hsource, hplace⟩ := h.split
    refine ⟨_, Reading.readSymbolFront_long hp ?_, ⟨done ++ ['>'], ?_, ?_⟩, h.readers, h.symbols⟩
    · have hlonger : ">".length < ('>' :: b :: front).length :=
        Nat.succ_lt_succ (Nat.zero_lt_succ _)
      simp only [Reading.startsWithAngle, Bool.and_eq_true]
      exact ⟨⟨rfl, decide_eq_true hlonger⟩, rfl⟩
    · simp [hsource]
    · rw [Lexeme.token_start, Nat.add_sub_cancel_left, byteSize_append, ← hplace]
      rfl

/-- Behind a type, the next token closes it, and is no symbol that starts otherwise. -/
theorem StandsAt.peek_marksEnd (h : c.StandsAt rest) (hrest : MarksEnd rest) :
    ∃ t, c.peek = .ok t ∧ Reading.closesType t = true ∧
      ∀ w, w.toList.head? ≠ rest.head? → t.is w = false := by
  have hother {l : Lexeme} {start : Nat} (hl : l.text.head? = rest.head?) (w : String)
      (hw : w.toList.head? ≠ rest.head?) : (l.token start).is w = false := by
    rw [Bool.eq_false_iff]
    intro his
    have hlexeme : l.text = w.toList := beq_iff_eq.mp (Bool.and_eq_true_iff.mp his).2
    exact hw (hlexeme ▸ hl)
  cases rest with
  | nil =>
    obtain ⟨t, d, hread, ht, -⟩ := h.read_end (List.forall_mem_nil _)
    exact ⟨t, congrArg Prod.fst hread, by rw [Reading.closesType, ht]; rfl,
      fun w _ => Token.is_of_isEof ht w⟩
  | cons b rest =>
    simp only [MarksEnd, List.head?_cons, List.mem_cons, reduceCtorEq, Option.some.injEq,
      List.not_mem_nil, or_false, false_or] at hrest
    rcases hrest with rfl | rfl | rfl
    · obtain ⟨_, _, hread, -⟩ := StandsAt.read_typeSymbol (w := ",") h (by decide) (by simp)
      exact ⟨_, congrArg Prod.fst hread, rfl, hother rfl⟩
    · obtain ⟨front, behind, rfl, -, hfronts⟩ := fronts_mark (c := '>') rfl rest
      have htext : c.StandsAt ([] ++ ('>' :: front ++ behind)) := h
      obtain ⟨d, hread, -⟩ := htext.read_lexeme (List.forall_mem_nil _) hfronts
      refine ⟨_, congrArg Prod.fst hread, ?_, hother rfl⟩
      simp [Reading.closesType, Lexeme.token, TokenKind.isSymbol]
    · obtain ⟨_, _, hread, -⟩ := StandsAt.read_typeSymbol (w := "[") h (by decide) (by simp)
      exact ⟨_, congrArg Prod.fst hread, rfl, hother rfl⟩

end Cursor

namespace Reading

open Cursor

variable {d : Directory} {s : Scopes} {c : Cursor} {rest : List Char} {args : List Ty}

/-! ## Marks -/

/-- One round in reading what stands behind a type. -/
def markRound (t : Ty) : Reading (Round Ty Ty) := do
  if ← missingMark then pure (.again t.orNull)
  else
    match ← arrayBrackets with
    | some rank => pure (.again (.array t rank))
    | none => pure (.done t)

theorem typeMarks_eq (t : Ty) : typeMarks t = iterate markRound t := rfl

/-- One round in reading the brackets of an array. -/
def rankRound (rank : Nat) : Reading (Round Nat (Option Nat)) := do
  let t ← token
  if t.is "," then pure (.again (rank + 1))
  else if t.is "]" then pure (.done (some rank))
  else pure (.done none)

/-- The commas up to a closing bracket are counted. -/
theorem iterateWithin_rankRound {n : Nat} (h : c.StandsAt (List.replicate n ',' ++ ']' :: rest))
    (rank m : Nat) :
    ∃ e, iterateWithin rankRound (m + n + 1) rank ⟨c, s⟩ = .ok (some (rank + n)) ⟨e, s⟩ ∧
      e.StandsAt rest := by
  induction n generalizing c rank with
  | zero =>
    obtain ⟨_, e, hread, he⟩ := StandsAt.read_typeSymbol (w := "]") h (by decide) (by simp)
    refine ⟨e, iterateWithin_done _ ?_, he⟩
    rw [rankRound, bind_ok (token_ok hread)]
    rfl
  | succ n ih =>
    obtain ⟨_, c₁, hread, h₁⟩ := StandsAt.read_typeSymbol (w := ",") h (by decide) (by simp)
    obtain ⟨e, hrounds, he⟩ := ih h₁ (rank + 1)
    refine ⟨e, ?_, he⟩
    have hround : rankRound rank ⟨c, s⟩ = .ok (.again (rank + 1)) ⟨c₁, s⟩ := by
      rw [rankRound, bind_ok (token_ok hread)]
      rfl
    rw [← Nat.add_assoc, iterateWithin_again _ hround, hrounds]
    congr 2
    omega

/-- The brackets of an array are read as its rank. -/
theorem arrayBrackets_text {n : Nat}
    (h : c.StandsAt ('[' :: (List.replicate n ',' ++ ']' :: rest))) :
    ∃ e, arrayBrackets ⟨c, s⟩ = .ok (some (1 + n)) ⟨e, s⟩ ∧ e.StandsAt rest := by
  obtain ⟨_, c₁, hread, h₁⟩ := StandsAt.read_typeSymbol (w := "[") h (by decide) (by simp)
  obtain ⟨e, hrounds, he⟩ := iterateWithin_rankRound (s := s) h₁ 1 (rest.length + 1)
  refine ⟨e, ?_, he⟩
  have hlength : c₁.remaining.length + 1 = rest.length + 1 + n + 1 := by
    rw [h₁.remaining]
    simp
    omega
  rw [arrayBrackets, bind_ok (peekIs_ok "[" (congrArg Prod.fst hread)), if_pos (by rfl)]
  refine attempt_some ?_
  rw [bind_ok (token_ok hread)]
  refine (iterate_eq rankRound 1 ⟨c₁, s⟩).trans ?_
  rw [hlength, hrounds]

/-- The mark of a missing value is read as that, in front of what can stand behind a type. -/
theorem missingMark_text (h : c.StandsAt ('?' :: rest)) (hrest : MarksEnd rest) :
    ∃ e, missingMark ⟨c, s⟩ = .ok true ⟨e, s⟩ ∧ e.StandsAt rest := by
  obtain ⟨_, e, hread, he⟩ := StandsAt.read_typeSymbol (w := "?") h (by decide) fun _ =>
    hrest.forall (by decide)
  obtain ⟨t, hp, hcloses, -⟩ := he.peek_marksEnd hrest
  have hname : t.kind.isIdentifier = false := by
    obtain ⟨kind, lexeme, start⟩ := t
    cases kind with
    | identifier => cases hcloses
    | _ => rfl
  have hdeclares : declaresNext ⟨e, s⟩ = .ok false ⟨e, s⟩ := by
    rw [declaresNext, bind_ok (peek_ok hp), hname]
    rfl
  have hmark : attempt markTrial ⟨c, s⟩ = .ok (some ()) ⟨e, s⟩ := by
    refine attempt_some ?_
    rw [markTrial, bind_ok (token_ok hread), bind_ok (peek_ok hp), bind_ok hdeclares, hcloses]
    rfl
  refine ⟨e, ?_, he⟩
  rw [missingMark, bind_ok (peekIs_ok "?" (congrArg Prod.fst hread)), if_pos (by rfl),
    bind_ok hmark]
  rfl

theorem markRound_missing (h : c.StandsAt ('?' :: rest)) (hrest : MarksEnd rest) (t : Ty) :
    ∃ e, markRound t ⟨c, s⟩ = .ok (.again t.orNull) ⟨e, s⟩ ∧ e.StandsAt rest := by
  obtain ⟨e, hmark, he⟩ := missingMark_text (s := s) h hrest
  refine ⟨e, ?_, he⟩
  rw [markRound, bind_ok hmark]
  rfl

theorem markRound_array {n : Nat} (h : c.StandsAt ('[' :: (List.replicate n ',' ++ ']' :: rest)))
    (t : Ty) : ∃ e, markRound t ⟨c, s⟩ = .ok (.again (.array t (1 + n))) ⟨e, s⟩ ∧
      e.StandsAt rest := by
  obtain ⟨e, hrank, he⟩ := arrayBrackets_text (s := s) h
  obtain ⟨next, hp, -, hother⟩ := h.peek_marksEnd (by simp [MarksEnd])
  refine ⟨e, ?_, he⟩
  rw [markRound, bind_ok (missingMark_absent hp (hother "?" (by simp))), if_neg (by simp),
    bind_ok hrank]
  rfl

/-- Rounds of marks go from a type at a cursor to another type at another cursor. -/
def MarksTo (s : Scopes) (t : Ty) (c : Cursor) (u : Ty) (e : Cursor) : Prop :=
  ∃ m, m + e.remaining.length ≤ c.remaining.length ∧
    ∀ n, iterateWithin markRound (m + n) t ⟨c, s⟩ = iterateWithin markRound n u ⟨e, s⟩

namespace MarksTo

variable {t u v : Ty} {e e' : Cursor}

theorem refl : MarksTo s t c t c := ⟨0, by omega, fun n => by rw [Nat.zero_add]⟩

/-- One more round is made. -/
theorem round (h : MarksTo s t c u e) (hround : markRound u ⟨e, s⟩ = .ok (.again v) ⟨e', s⟩)
    (hlength : e'.remaining.length < e.remaining.length) : MarksTo s t c v e' := by
  obtain ⟨m, hm, hrounds⟩ := h
  refine ⟨m + 1, by omega, fun n => ?_⟩
  rw [Nat.add_assoc, hrounds, Nat.add_comm 1 n, iterateWithin_again n hround]

/-- Where a type ends, its marks have been read. -/
theorem typeMarks (h : MarksTo s t c u e) (he : e.StandsAt rest) (hrest : TypeEnds rest) :
    typeMarks t ⟨c, s⟩ = .ok u ⟨e, s⟩ := by
  obtain ⟨m, hm, hrounds⟩ := h
  obtain ⟨next, hp, -, hother⟩ := he.peek_marksEnd hrest.marksEnd
  have hbracket : some '[' ≠ rest.head? := by
    intro heq
    rw [TypeEnds, ← heq] at hrest
    simp at hrest
  have hdone : markRound u ⟨e, s⟩ = .ok (.done u) ⟨e, s⟩ := by
    rw [markRound, bind_ok (missingMark_absent hp (hother "?" (hrest.marksEnd.ne (by decide)))),
      if_neg (by simp), bind_ok (arrayBrackets_absent hp (hother "[" hbracket))]
    rfl
  obtain ⟨n, hn⟩ : ∃ n, c.remaining.length + 1 = m + (n + 1) :=
    ⟨c.remaining.length - m, by omega⟩
  rw [typeMarks_eq, iterate_eq, hn, hrounds, iterateWithin_done n hdone]

end MarksTo

/-! ## Words and the types that they are applied to -/

/-- A reading reads the text of a type. -/
def ReadsText (inner : Reading (Option Ty)) (s : Scopes) (t : Ty) : Prop :=
  ∀ c ws rest, c.StandsAt (ws ++ (t.text.toList ++ rest)) → (∀ b ∈ ws, isBlank b = true) →
    TypeEnds rest → ∃ e, inner ⟨c, s⟩ = .ok (some t) ⟨e, s⟩ ∧ e.StandsAt rest

/-- One round in reading type arguments. -/
def argumentRound (inner : Reading (Option Ty)) (args : List Ty) :
    Reading (Round (List Ty) (Option (List Ty))) := do
  match ← inner with
  | none => pure (.done none)
  | some t =>
    if ← accept "," then pure (.again (args ++ [t]))
    else if ← acceptFront ">" then pure (.done (some (args ++ [t])))
    else pure (.done none)

variable {inner : Reading (Option Ty)}

/-- Types with commas between them are read one after another. -/
theorem iterateWithin_argumentRound {ts : List Ty} {ws : List Char} (hne : ts ≠ [])
    (hinner : ∀ t ∈ ts, ReadsText inner s t)
    (h : c.StandsAt (ws ++ ((Ty.joined ts).toList ++ '>' :: rest)))
    (hws : ∀ b ∈ ws, isBlank b = true) (args : List Ty) (m : Nat) :
    ∃ e, iterateWithin (argumentRound inner) (m + ts.length) args ⟨c, s⟩ =
        .ok (some (args ++ ts)) ⟨e, s⟩ ∧ e.StandsAt rest := by
  induction ts generalizing c ws args with
  | nil => exact absurd rfl hne
  | cons t ts ih =>
    obtain ⟨ht, hts⟩ := List.forall_mem_cons.mp hinner
    cases ts with
    | nil =>
      obtain ⟨c₁, hread, h₁⟩ := ht c ws _ h hws (by simp [TypeEnds])
      obtain ⟨e, hclose, he⟩ := h₁.readSymbolFront_angle
      have haccept : acceptFront ">" ⟨c₁, s⟩ = .ok true ⟨e, s⟩ := onCursor_ok hclose
      obtain ⟨next, hp, -, hother⟩ := h₁.peek_marksEnd (by simp [MarksEnd])
      refine ⟨e, iterateWithin_done _ ?_, he⟩
      rw [argumentRound, bind_ok hread]
      dsimp only
      rw [bind_ok (accept_false hp (hother "," (by simp))), if_neg (by simp),
        bind_ok haccept]
      rfl
    | cons u us =>
      rw [Ty.joined_cons_cons, List.append_assoc] at h
      obtain ⟨c₁, hread, h₁⟩ := ht c ws _ h hws (by simp [TypeEnds])
      obtain ⟨_, c₂, hcomma, h₂⟩ := StandsAt.read_typeSymbol (w := ",") h₁ (by decide) (by simp)
      have htext : c₂.StandsAt ([' '] ++ ((Ty.joined (u :: us)).toList ++ '>' :: rest)) := h₂
      obtain ⟨e, hrounds, he⟩ :=
        ih (List.cons_ne_nil _ _) hts htext (List.forall_mem_singleton.mpr (by decide)) (args ++ [t])
      refine ⟨e, ?_, he⟩
      have hround : argumentRound inner args ⟨c, s⟩ = .ok (.again (args ++ [t])) ⟨c₂, s⟩ := by
        rw [argumentRound, bind_ok hread]
        dsimp only
        rw [bind_ok (accept_true hcomma (by simp))]
        rfl
      rw [List.length_cons, ← Nat.add_assoc, iterateWithin_again _ hround, hrounds,
        List.append_assoc]
      rfl

/-- The types in angle brackets are read as type arguments. -/
theorem typeArguments_text (hne : args ≠ []) [Plain inner]
    (hargs : ∀ t ∈ args, t.Nameable) (hinner : ∀ t ∈ args, ReadsText inner s t)
    (h : c.StandsAt (Ty.angled args ++ rest)) :
    ∃ e, typeArguments inner ⟨c, s⟩ = .ok (some args) ⟨e, s⟩ ∧ e.StandsAt rest := by
  have htext : Ty.angled args ++ rest =
      "<".toList ++ ([] ++ ((Ty.joined args).toList ++ '>' :: rest)) := by
    simp [Ty.angled, hne]
  have hstart : ∀ b ∈ ((Ty.joined args).toList ++ '>' :: rest).head?, b ∉ ['=', '<', '?'] := by
    obtain ⟨a, as, rfl⟩ := List.exists_cons_of_ne_nil hne
    obtain ⟨w, hw, b, hb, hhead⟩ := Ty.head?_text (hargs a List.mem_cons_self)
    rw [Ty.head?_joined_append hhead]
    obtain ⟨-, hpoints, hmarks⟩ := (typeWords_plain hw).2 b hb
    simp only [typePoints, List.mem_cons, not_or] at hpoints hmarks
    rintro _ ⟨⟩
    simp [hpoints.1, hmarks.1, hmarks.2.2.1]
  rw [htext] at h
  obtain ⟨_, c₁, hread, h₁⟩ := h.read_typeSymbol (by decide) fun _ => hstart
  obtain ⟨m, hm⟩ : ∃ m, c₁.remaining.length + 1 = m + args.length := by
    refine ⟨c₁.remaining.length + 1 - args.length, ?_⟩
    have hlength := Ty.length_le_joined args
    rw [h₁.remaining, List.nil_append, List.length_append]
    omega
  obtain ⟨e, hrounds, he⟩ :=
    iterateWithin_argumentRound hne hinner h₁ (List.forall_mem_nil _) [] m
  refine ⟨e, ?_, he⟩
  rw [typeArguments, bind_ok (peekIs_ok "<" (congrArg Prod.fst hread)), if_pos (by rfl)]
  refine attempt_some ?_
  rw [bind_ok (token_ok hread)]
  refine (iterate_eq (argumentRound inner) [] ⟨c₁, s⟩).trans ?_
  rw [hm, hrounds, List.nil_append]

/-- A name with type arguments behind it ends there. -/
theorem nameRound_arguments {part : NamePart} {t : Ty} {e : Cursor}
    (ha : typeArguments inner ⟨c, s⟩ = .ok (some args) ⟨e, s⟩)
    (ht : d.instantiate? part.name args = some t) :
    nameRound d inner part ⟨c, s⟩ = .ok (.done (some (t, e.place))) ⟨e, s⟩ := by
  rw [nameRound, bind_ok ha]
  dsimp only
  rw [ht]
  rfl

/-! ## Types -/

/-- A type is read up to a cursor, where more marks may stand. -/
def ReadsType (d : Directory) (s : Scopes) (k : Nat) (t : Ty) (c e : Cursor) : Prop :=
  ∃ w ∈ typeWords, ∃ start c₁ u c₂, c.read true = (.ok ((Lexeme.word w).token start), c₁) ∧
    typeNameAfter d (typeWithin d k) ((Lexeme.word w).token start) ⟨c₁, s⟩ =
      .ok (some (u, c₂.place)) ⟨c₂, s⟩ ∧
    MarksTo s u c₂ t e

variable {k : Nat} {t : Ty} {e : Cursor}

/-- The type is read as a whole where it ends. -/
theorem ReadsType.typeNameWith (h : ReadsType d s k t c e) (he : e.StandsAt rest)
    (hrest : TypeEnds rest) : typeNameWith d (typeWithin d k) ⟨c, s⟩ = .ok (some t) ⟨e, s⟩ := by
  obtain ⟨w, -, start, c₁, u, c₂, hread, hname, hmarks⟩ := h
  have hafter : typeAfterWith d (typeWithin d k) ((Lexeme.word w).token start) ⟨c₁, s⟩ =
      .ok (some t) ⟨e, s⟩ := by
    rw [typeAfterWith, bind_ok (rfl : here ⟨c₁, s⟩ = .ok c₁.place ⟨c₁, s⟩), bind_ok hname]
    dsimp only
    rw [bind_ok (moveTo_ok rfl), map_eq_pure_bind, bind_ok (hmarks.typeMarks he hrest)]
    rfl
  rw [Reading.typeNameWith, bind_ok (peek_ok (congrArg Prod.fst hread)), Lexeme.isWord_word,
    if_pos rfl]
  refine attempt_some ?_
  rw [bind_ok (token_ok hread), hafter]

theorem ReadsType.typeWithin (h : ReadsType d s k t c e) (he : e.StandsAt rest)
    (hrest : TypeEnds rest) (hvalues : ∀ w ∈ typeWords, valueNames d s w = false) :
    typeWithin d (k + 1) ⟨c, s⟩ = .ok (some t) ⟨e, s⟩ := by
  have hwhole := h.typeNameWith he hrest
  obtain ⟨w, hw, start, c₁, u, c₂, hread, -, -⟩ := h
  rw [Reading.typeWithin, bind_ok (peek_ok (congrArg Prod.fst hread)), Lexeme.isWord_word,
    if_neg (by simp), Lexeme.token_word_word, bind_ok (namesValue_ok w), hvalues w hw]
  exact hwhole

/-- A type is read with one more mark behind it. -/
theorem ReadsType.round {u : Ty} {e' : Cursor} {behind : List Char} (h : ReadsType d s k u c e)
    (hround : markRound u ⟨e, s⟩ = .ok (.again t) ⟨e', s⟩) (he : e.StandsAt behind)
    (he' : e'.StandsAt rest) (hlength : rest.length < behind.length) : ReadsType d s k t c e' := by
  obtain ⟨w, hw, start, c₁, v, c₂, hread, hname, hmarks⟩ := h
  exact ⟨w, hw, start, c₁, v, c₂, hread, hname,
    hmarks.round hround (by rwa [he.remaining, he'.remaining])⟩

section

variable (hd : d.catalog = .standard) (hvalues : ∀ w ∈ typeWords, valueNames d s w = false)
  {ws : List Char}
include hd

/-- A word in front of something other than type arguments is read as the type that it names. -/
theorem readsType_word {w : String} (happlies : Ty.Applies w [] t)
    (h : c.StandsAt (ws ++ (w.toList ++ rest))) (hws : ∀ b ∈ ws, isBlank b = true)
    (hrest : ∀ b ∈ rest.head?, continuesName b = false) (hnext : ∀ e : Cursor, e.StandsAt rest →
      ∃ next, e.peek = .ok next ∧ next.is "<" = false ∧ next.is "." = false) :
    ∃ e, ReadsType d s k t c e ∧ e.StandsAt rest := by
  obtain ⟨start, e, hread, he⟩ := h.read_typeWord hws happlies.word hrest
  obtain ⟨next, hp, hangle, hpoint⟩ := hnext e he
  have hround : nameRound d (typeWithin d k) ⟨w, none⟩ ⟨e, s⟩ =
      .ok (.done ((NamePart.mk w none).longest d e)) ⟨e, s⟩ :=
    nameRound_done (typeArguments_absent _ hp hangle) hp hpoint
  refine ⟨e, ⟨w, happlies.word, start, e, t, e, hread, ?_, .refl⟩, he⟩
  rw [typeNameAfter_eq, Lexeme.token_word_word, iterate_done hround, NamePart.longest,
    d.instantiate?_word happlies.word, hd, happlies.named]
  rfl

/-- A word that is applied to types is read as the type that it names. -/
theorem readsType_angled {w : String} (hne : args ≠ [])
    (happlies : Ty.Applies w args t) (hargs : ∀ a ∈ args, a.Nameable)
    (hinner : ∀ a ∈ args, ReadsText (typeWithin d k) s a)
    (h : c.StandsAt (ws ++ (w.toList ++ (Ty.angled args ++ rest))))
    (hws : ∀ b ∈ ws, isBlank b = true) : ∃ e, ReadsType d s k t c e ∧ e.StandsAt rest := by
  have hangled : ∀ b ∈ (Ty.angled args ++ rest).head?, continuesName b = false := by
    have hhead : (Ty.angled args ++ rest).head? = some '<' := by simp [Ty.angled, hne]
    rw [hhead]
    exact fun _ hb => Option.mem_some.mp hb ▸ by decide
  obtain ⟨start, c₁, hread, h₁⟩ := h.read_typeWord hws happlies.word hangled
  obtain ⟨e, harguments, he⟩ :=
    typeArguments_text hne hargs hinner h₁
  have hround : nameRound d (typeWithin d k) ⟨w, none⟩ ⟨c₁, s⟩ =
      .ok (.done (some (t, e.place))) ⟨e, s⟩ :=
    nameRound_arguments harguments (by rw [d.instantiate?_word happlies.word, hd, happlies.named])
  refine ⟨e, ⟨w, happlies.word, start, c₁, t, e, hread, ?_, .refl⟩, he⟩
  rw [typeNameAfter_eq, Lexeme.token_word_word, iterate_done hround]

include hvalues

/-- The text of a type is read as the type, up to where more marks may stand. -/
theorem readsType_text (ht : t.Nameable) (hk : t.text.toList.length ≤ k + 1)
    (h : c.StandsAt (ws ++ (t.text.toList ++ rest))) (hws : ∀ b ∈ ws, isBlank b = true)
    (hrest : MarksEnd rest) : ∃ e, ReadsType d s k t c e ∧ e.StandsAt rest := by
  suffices hall : ∀ k c ws rest, t.text.toList.length ≤ k + 1 →
      c.StandsAt (ws ++ (t.text.toList ++ rest)) → (∀ b ∈ ws, isBlank b = true) → MarksEnd rest →
      ∃ e, ReadsType d s k t c e ∧ e.StandsAt rest from hall k c ws rest hk h hws hrest
  refine Ty.nameable_induct ht ?applied ?nullable ?array
  case applied =>
    intro w args t happlies hargs ih k c ws rest hk h hws hrest
    rw [happlies.text, List.append_assoc] at h
    by_cases hne : args = []
    · subst hne
      refine readsType_word hd happlies h hws (hrest.forall (by decide)) fun e he => ?_
      obtain ⟨next, hp, -, hother⟩ := he.peek_marksEnd hrest
      exact ⟨next, hp, hother "<" (hrest.ne (by decide)), hother "." (hrest.ne (by decide))⟩
    · refine readsType_angled hd hne happlies hargs (fun a ha => ?_) h hws
      have hlength := Ty.length_text_le ha
      simp only [happlies.text, Ty.angled, List.isEmpty_iff, hne, if_false, List.length_append,
        List.length_cons, List.length_nil] at hk
      -- the types between the brackets are read one level below
      obtain ⟨k, rfl⟩ : ∃ m, k = m + 1 := ⟨k - 1, by omega⟩
      intro c ws rest h hws hrest
      obtain ⟨e, hreads, he⟩ := ih a ha k c ws rest (by omega) h hws hrest.marksEnd
      exact ⟨e, hreads.typeWithin he hrest hvalues, he⟩
  case nullable =>
    intro w t happlies hvalue k c ws rest hk h hws hrest
    rw [happlies.text_nullable, List.append_assoc] at h
    have hmark : ∀ e : Cursor, e.StandsAt (['?'] ++ rest) →
        ∃ next, e.peek = .ok next ∧ next.is "<" = false ∧ next.is "." = false := by
      intro e he
      obtain ⟨_, _, hread, -⟩ := StandsAt.read_typeSymbol (w := "?") he (by decide) fun _ =>
        hrest.forall (by decide)
      exact ⟨_, congrArg Prod.fst hread, by simp, by simp⟩
    obtain ⟨c₁, hreads, h₁⟩ :=
      readsType_word hd happlies h hws (by simp; decide) hmark
    obtain ⟨e, hround, he⟩ := markRound_missing (s := s) h₁ hrest t
    have hnull : t.orNull = .nullable t := by simp [Ty.orNull, hvalue]
    rw [hnull] at hround
    exact ⟨e, hreads.round hround h₁ he (by simp), he⟩
  case array =>
    intro t rank _ hrank ih k c ws rest hk h hws hrest
    rw [Ty.text_array, List.length_append] at hk
    have htext : (Ty.array t rank).text.toList ++ rest =
        t.text.toList ++ '[' :: (List.replicate (rank - 1) ',' ++ ']' :: rest) := by
      simp [Ty.text_array]
    rw [htext] at h
    obtain ⟨c₁, hreads, h₁⟩ := ih k c ws _ (by omega) h hws (by simp [MarksEnd])
    obtain ⟨e, hround, he⟩ := markRound_array (s := s) h₁ t
    rw [Nat.add_sub_cancel' hrank] at hround
    exact ⟨e, hreads.round hround h₁ he (by simp; omega), he⟩

end

/-- A type is found by its text, in the catalog as well as token by token, where no variable is
    named like a type. Nothing of the text is left. -/
theorem type_of_text (hd : d.catalog = .standard) (ht : t.Nameable)
    (hnames : ∀ w ∈ typeWords, s.lookup? w = none) (base : Nat) :
    d.resolve? t.text = some t ∧
      ∃ e, requiredType d ⟨.ofSource t.text.toList base, s⟩ = .ok t ⟨e, s⟩ ∧ e.remaining = [] := by
  constructor
  · rw [Directory.resolve?]
    exact Directory.resolveWithin_text hd ht (by rw [String.length_toList]; omega)
  have hconstants : ∀ w ∈ typeWords, Catalog.standard.constant? w = none := by decide
  have hvalues : ∀ w ∈ typeWords, valueNames d s w = false := by
    intro w hw
    rw [valueNames, hnames w hw, hd, hconstants w hw]
    rfl
  have hsource : (Cursor.ofSource t.text.toList base).StandsAt ([] ++ (t.text.toList ++ [])) := by
    rw [List.nil_append, List.append_nil]
    exact standsAt_ofSource _ _
  obtain ⟨e, hreads, he⟩ := readsType_text (k := t.text.toList.length + 1) hd hvalues ht (by omega)
    hsource (List.forall_mem_nil _) (by simp [MarksEnd])
  have hname := hreads.typeNameWith he (by simp [TypeEnds])
  refine ⟨e, ?_, he.remaining⟩
  obtain ⟨w, -, start, c₁, -, -, hread, -, -⟩ := hreads
  have hdepth : typeDepth ⟨.ofSource t.text.toList base, s⟩ =
      .ok ((Cursor.ofSource t.text.toList base).remaining.length + 1)
        ⟨.ofSource t.text.toList base, s⟩ := rfl
  rw [(standsAt_ofSource t.text.toList base).remaining] at hdepth
  rw [requiredType, bind_ok (peek_ok (congrArg Prod.fst hread)), bind_ok hdepth, bind_ok hname]
  rfl

/-- A delegate, written with closing brackets that make one token. -/
theorem type_of_text_nested :
    ∃ e, requiredType { catalog := .standard }
        ⟨.ofSource "Func<List<List<int?>>[,], Action>".toList 0, {}⟩ =
      .ok (.function [.array (.named "List" [.named "List" [.nullable (.numeric .int)]]) 2]
        (.function [] .void)) ⟨e, {}⟩ ∧ e.remaining = [] := by
  have hlist : (Ty.named "List" [.named "List" [.nullable (.numeric .int)]]).Nameable :=
    .collection (by decide) (.collection (by decide) (.nullable (.numeric _) rfl (by simp)))
  have hdelegate := Ty.Nameable.function
    (List.forall_mem_singleton.mpr (hlist.array (by decide : 1 ≤ 2)))
    (.function (List.forall_mem_nil _) .void)
  have hread := (type_of_text (d := { catalog := .standard }) (s := {}) rfl hdelegate
    (by decide) 0).2
  rw [show Ty.text _ = "Func<List<List<int?>>[,], Action>" by decide] at hread
  exact hread

end Reading

end Scriptlet

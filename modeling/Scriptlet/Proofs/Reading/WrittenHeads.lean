import Scriptlet.Proofs.Reading.OperatorPrograms
import Scriptlet.Proofs.Token.Spelling

/-!
# Written parameters

The parameters of a program are written in front of it (`ProgramHead`): a list in brackets, each
with a type or without one, or a single name, or nothing at all. They are read as variables that
are numbered in their order (`ProgramHead.programParameters_written`).
-/

namespace Scriptlet

open Reading

/-- A parameter as it is written: the name of its type, which is a word and further words behind
    points, if there is one, and its own name. -/
structure WrittenParameter where
  typeName : Option (String × List String)
  name : Identifier
  /-- The type that it has. -/
  type : Ty

namespace WrittenParameter

/-- The lexemes of a parameter. -/
def lexemes (p : WrittenParameter) : List Lexeme :=
  match p.typeName with
  | none => [.word p.name.word]
  | some (first, rest) => .word first :: (dottedLexemes rest ++ [Lexeme.word p.name.word])

/-- The type of a parameter is the one that is written, or the one of parameters without a
    type. -/
def IsTyped (d : Directory) (p : WrittenParameter) : Prop :=
  match p.typeName with
  | none => d.resolve? "double" = some p.type
  | some (first, rest) => d.instantiate? (dotted first rest) [] = some p.type

/-- What is read of a parameter: its type, if there is one, and its name. -/
def given (p : WrittenParameter) : Option Ty × String :=
  (p.typeName.map fun _ => p.type, p.name.word)

/-- The lexemes of parameters with commas between them. -/
def listLexemes : List WrittenParameter → List Lexeme
  | [] => []
  | [p] => p.lexemes
  | p :: q :: ps => p.lexemes ++ .symbol "," :: listLexemes (q :: ps)

/-- The variables for parameters, numbered from a number on. -/
def numbered : Nat → List WrittenParameter → List Variable
  | _, [] => []
  | first, p :: ps => ⟨first, p.name.word, p.type⟩ :: numbered (first + 1) ps

/-- A parameter starts with a word. -/
theorem lexemes_eq_cons (p : WrittenParameter) : ∃ w ls, p.lexemes = .word w :: ls := by
  unfold lexemes
  split
  · exact ⟨_, _, rfl⟩
  · exact ⟨_, _, rfl⟩

theorem listLexemes_eq_cons {ps : List WrittenParameter} (h : ps ≠ []) :
    ∃ w ls, listLexemes ps = .word w :: ls := by
  match ps with
  | [] => exact absurd rfl h
  | [p] => exact p.lexemes_eq_cons
  | p :: q :: ps =>
    obtain ⟨w, ls, hp⟩ := p.lexemes_eq_cons
    exact ⟨w, _, by rw [listLexemes, hp, List.cons_append]⟩

theorem isEof_lexemes (p : WrittenParameter) : ∀ l ∈ p.lexemes, l.kind.isEof = false := by
  unfold lexemes
  split
  · simpa using Lexeme.isEof_word p.name.word
  · simpa [or_imp, forall_and, Lexeme.isEof_word] using isEof_dottedLexemes _

theorem isEof_listLexemes (ps : List WrittenParameter) :
    ∀ l ∈ listLexemes ps, l.kind.isEof = false := by
  induction ps using listLexemes.induct with
  | case1 => simp [listLexemes]
  | case2 p => exact p.isEof_lexemes
  | case3 p q ps ih =>
    have hcomma : (Lexeme.symbol ",").kind.isEof = false := rfl
    simpa [listLexemes, or_imp, forall_and, hcomma] using ⟨p.isEof_lexemes, ih⟩

theorem length_le_listLexemes (ps : List WrittenParameter) : ps.length ≤ (listLexemes ps).length := by
  induction ps using listLexemes.induct with
  | case1 => simp
  | case2 p =>
    unfold listLexemes lexemes
    split <;> simp
  | case3 p q ps ih =>
    simp only [listLexemes, List.length_append, List.length_cons] at ih ⊢
    omega

variable {d : Directory} {p : WrittenParameter} {ps : List WrittenParameter} {c e : Cursor}
  {s : Scopes} {t : Token} {text : List Char}

/-- A parameter is read as it is written. -/
theorem parameter_written (hp : p.IsTyped d) (hc : c.StandsAt text) (hr : c.Reads p.lexemes e)
    (hpeek : e.peek = .ok t) (ht : (t.is "," || t.is ")") = true) :
    parameter d ⟨c, s⟩ = .ok (some p.given) ⟨e, s⟩ := by
  obtain ⟨typeName, name, type⟩ := p
  cases typeName with
  | none =>
    obtain ⟨start, _, hread, rfl⟩ := hr
    rw [parameter_closed hread hpeek ht, name.notReserved]
    rfl
  | some typeName =>
    obtain ⟨first, rest⟩ := typeName
    obtain ⟨start, c₁, hread, hr₁⟩ := hr
    obtain ⟨text₁, hc₁, -, -⟩ := hc.read hread
    obtain ⟨c₂, hr₂, hr₃⟩ := Cursor.reads_append.mp hr₁
    obtain ⟨start₂, hp₂⟩ := hr₃.peek
    have hmarks : ∀ w ∈ ["<", ".", "?", "["], ((Lexeme.word name.word).token start₂).is w = false :=
      fun w hw => Lexeme.is_word_of_not_keyword _ _ (by revert w; decide)
    have htype : typeAfter? d ((Lexeme.word first).token start) ⟨c₁, s⟩ =
        .ok (some type) ⟨c₂, s⟩ := typeAfter?_named hc₁ hr₂ hp₂ hmarks hp
    obtain ⟨start₁, hp₁, hcomma, hclose⟩ : ∃ u, c₁.peek = .ok u ∧ u.is "," = false ∧
        u.is ")" = false := by
      cases rest with
      | nil =>
        cases hr₂
        exact ⟨_, hp₂, Lexeme.is_word_of_not_keyword _ _ (by decide),
          Lexeme.is_word_of_not_keyword _ _ (by decide)⟩
      | cons w rest =>
        obtain ⟨start₁, hp₁⟩ := hr₂.peek
        exact ⟨_, hp₁, by simp, by simp⟩
    obtain ⟨start₃, _, hname, rfl⟩ := hr₃
    rw [parameter_typed hread (Lexeme.isWord_word first _) hp₁ hcomma hclose htype hname,
      Lexeme.isIdentifier_word _ _ name.notReserved, Lexeme.token_word_word]
    rfl

/-- One parameter after another is read, up to the bracket that closes them. -/
theorem iterateWithin_written {n : Nat} (hps : ∀ p ∈ ps, p.IsTyped d) (hne : ps ≠ [])
    (hc : c.StandsAt text) (hr : c.Reads (listLexemes ps ++ [Lexeme.symbol ")"]) e)
    (hn : ps.length ≤ n) (params : Params) :
    iterateWithin (parametersRound d) n params ⟨c, s⟩ =
      .ok (some (params ++ ps.map given)) ⟨e, s⟩ := by
  induction ps using listLexemes.induct generalizing n c text params with
  | case1 => exact absurd rfl hne
  | case2 p =>
    obtain ⟨n, rfl⟩ : ∃ m, n = m + 1 := ⟨n - 1, by simp only [List.length_singleton] at hn; omega⟩
    obtain ⟨c₁, hr₁, hr₂⟩ := Cursor.reads_append.mp hr
    obtain ⟨start, hpeek⟩ := hr₂.peek
    have hparam := parameter_written (s := s) (hps p (by simp)) hc hr₁ hpeek (by simp)
    exact iterateWithin_done n (parametersRound_close hparam hr₂)
  | case3 p q ps ih =>
    obtain ⟨n, rfl⟩ : ∃ m, n = m + 1 := ⟨n - 1, by simp only [List.length_cons] at hn; omega⟩
    rw [listLexemes, List.append_assoc, List.cons_append] at hr
    obtain ⟨c₁, hr₁, hr₂⟩ := Cursor.reads_append.mp hr
    obtain ⟨start, hpeek⟩ := hr₂.peek
    obtain ⟨c₂, hcomma, hr₃⟩ := Cursor.reads_cons.mp hr₂
    obtain ⟨text₁, hc₁, -⟩ := hc.reads hr₁ p.isEof_lexemes
    obtain ⟨text₂, hc₂, -⟩ := hc₁.reads hcomma (by simp; rfl)
    have hparam := parameter_written (s := s) (hps p (by simp)) hc hr₁ hpeek (by simp)
    rw [iterateWithin_again n (parametersRound_comma hparam hcomma),
      ih (fun x hx => hps x (.tail _ hx)) (List.cons_ne_nil _ _) hc₂ hr₃
        (by simp only [List.length_cons] at hn ⊢; omega)]
    simp

/-- A list of parameters with an arrow behind is a head. -/
theorem headRest_written (hps : ∀ p ∈ ps, p.IsTyped d) (hc : c.StandsAt text)
    (hr : c.Reads (listLexemes ps ++ [Lexeme.symbol ")", .symbol "=>"]) e) :
    headRest d ⟨c, s⟩ = .ok (some (ps.map given)) ⟨e, s⟩ := by
  obtain ⟨c₁, hr₁, hr₂⟩ := Cursor.reads_append.mp
    (List.append_assoc (listLexemes ps) [.symbol ")"] [.symbol "=>"] ▸ hr :
      c.Reads ((listLexemes ps ++ [Lexeme.symbol ")"]) ++ [Lexeme.symbol "=>"]) e)
  have hparams : parameters d ⟨c, s⟩ = .ok (some (ps.map given)) ⟨c₁, s⟩ := by
    by_cases hne : ps = []
    · subst hne
      obtain ⟨start, _, hread, rfl⟩ := hr₁
      rw [parameters, bind_ok (accept_true hread (by simp))]
      rfl
    · obtain ⟨w, ls, hps₁⟩ := listLexemes_eq_cons hne
      obtain ⟨start, hpeek⟩ : ∃ start, c.peek = .ok ((Lexeme.word w).token start) := by
        rw [hps₁] at hr₁
        exact hr₁.peek
      have hclose : ((Lexeme.word w).token start).is ")" = false :=
        Lexeme.is_word_of_not_keyword _ _ (by decide)
      -- every parameter takes a character at least, so there are rounds enough
      obtain ⟨rest, -, hlength⟩ := hc.reads hr₁ (by
        simpa [or_imp, forall_and] using ⟨isEof_listLexemes ps, rfl⟩)
      have hrounds : ps.length ≤ c.remaining.length + 1 := by
        have := length_le_listLexemes ps
        rw [List.length_append] at hlength
        rw [hc.remaining]
        omega
      rw [parameters_eq hpeek hclose, iterate_eq]
      exact iterateWithin_written hps hne hc hr₁ hrounds []
  refine attempt_some ?_
  obtain ⟨start, _, hread, rfl⟩ := hr₂
  rw [bind_ok hparams]
  refine (bind_ok (accept_true hread (by simp))).trans ?_
  rfl

end WrittenParameter

/-! ## Heads -/

/-- What is written in front of a program: nothing, a single name, or parameters in brackets. -/
inductive ProgramHead
  | absent
  | single (name : Identifier)
  | listed (params : List WrittenParameter)

namespace ProgramHead

/-- The parameters of a head. -/
def params : ProgramHead → List WrittenParameter
  | absent => []
  | single name => [⟨none, name, .double⟩]
  | listed params => params

/-- The lexemes of a head. -/
def lexemes : ProgramHead → List Lexeme
  | absent => []
  | single name => [.word name.word, .symbol "=>"]
  | listed params =>
    .symbol "(" :: (WrittenParameter.listLexemes params ++ [Lexeme.symbol ")", .symbol "=>"])

theorem isEof_lexemes (h : ProgramHead) : ∀ l ∈ h.lexemes, l.kind.isEof = false := by
  have hsymbol (w : String) : (Lexeme.symbol w).kind.isEof = false := rfl
  cases h with
  | absent => simp [lexemes]
  | single name => simp [lexemes, Lexeme.isEof_word, hsymbol]
  | listed params =>
    simpa [lexemes, hsymbol, or_imp, forall_and] using WrittenParameter.isEof_listLexemes params

variable {d : Directory} {h : ProgramHead} {c e : Cursor} {s : Scopes} {text : List Char}
  {first : Nat}

/-- Behind a bracket, the rest of a head is tried. -/
theorem head_bracket (hr : c.Reads [.symbol "("] e) :
    head d ⟨c, s⟩ = attempt (do let _ ← token; headRest d) ⟨c, s⟩ := by
  obtain ⟨start, hpeek⟩ := hr.peek
  rw [head, bind_ok (peek_ok hpeek), Lexeme.isIdentifier_symbol, if_neg (by simp),
    Lexeme.token_is_symbol, if_pos (by decide)]

/-- A head is read where it is written. -/
theorem head_written (hpresent : h ≠ absent) (hh : ∀ p ∈ h.params, p.IsTyped d)
    (hc : c.StandsAt text) (hr : c.Reads h.lexemes e) :
    head d ⟨c, s⟩ = .ok (some (h.params.map WrittenParameter.given)) ⟨e, s⟩ := by
  cases h with
  | absent => exact absurd rfl hpresent
  | single name =>
    obtain ⟨start, hpeek⟩ := hr.peek
    obtain ⟨_, c₁, hread, start₁, _, hread₁, rfl⟩ := hr
    rw [head, bind_ok (peek_ok hpeek), Lexeme.isIdentifier_word _ _ name.notReserved, if_pos rfl]
    refine attempt_some ?_
    rw [bind_ok (token_ok hread)]
    refine (bind_ok (accept_true hread₁ (by simp))).trans ?_
    rw [Lexeme.token_word_word]
    rfl
  | listed params =>
    obtain ⟨_, c₁, hread, hr₁⟩ := hr
    obtain ⟨text₁, hc₁, -, -⟩ := hc.read hread
    rw [head_bracket ⟨_, c₁, hread, rfl⟩]
    refine attempt_some ?_
    rw [bind_ok (token_ok hread)]
    exact WrittenParameter.headRest_written hh hc₁ hr₁

/-- Parameters that are read become variables. -/
theorem mapM_writtenParameter {ps : List WrittenParameter} (hps : ∀ p ∈ ps, p.IsTyped d) :
    (ps.map WrittenParameter.given).mapM (Options.writtenParameter {} d) ⟨c, { next := first }⟩ =
      .ok (WrittenParameter.numbered first ps) ⟨c, { next := first + ps.length }⟩ := by
  induction ps generalizing first with
  | nil => rfl
  | cons p ps ih =>
    obtain ⟨hp, hps⟩ := List.forall_mem_cons.mp hps
    have hparam : Options.writtenParameter {} d p.given ⟨c, { next := first }⟩ =
        .ok ⟨first, p.name.word, p.type⟩ ⟨c, { next := first + 1 }⟩ := by
      obtain ⟨typeName, name, type⟩ := p
      cases typeName with
      | some _ => rfl
      | none =>
        have hnamed : namedType d "double" ⟨c, { next := first }⟩ =
            .ok type ⟨c, { next := first }⟩ := by
          rw [namedType, (hp : d.resolve? "double" = some type)]
          rfl
        exact (bind_ok hnamed)
    rw [List.map_cons, List.mapM_cons, bind_ok hparam, bind_ok (ih hps), List.length_cons,
      Nat.add_right_comm, Nat.add_assoc]
    rfl

/-- The parameters of a program are those that are written. -/
theorem programParameters_written (hpresent : h ≠ absent) (hh : ∀ p ∈ h.params, p.IsTyped d)
    (hc : c.StandsAt text) (hr : c.Reads h.lexemes e) :
    Options.programParameters {} d ⟨c, { next := first }⟩ =
      .ok (WrittenParameter.numbered first h.params)
        ⟨e, { next := first + h.params.length }⟩ := by
  rw [Options.programParameters, bind_ok (head_written hpresent hh hc hr)]
  exact mapM_writtenParameter hh

end ProgramHead

/-- In front of a phrase with no arrow behind it, there is no head. -/
theorem Phrase.head_declines {d : Directory} {p : Phrase} {c e : Cursor} {s : Scopes} {t : Token}
    {text : List Char}
    (h : p.Bound (valueNames d s) fun name => d.instantiate? name []) (hc : c.StandsAt text)
    (hr : c.Reads p.lexemes e) (hpeek : e.peek = .ok t) (ht : t.is "=>" = false) :
    head d ⟨c, s⟩ = .ok none ⟨c, s⟩ := by
  induction p generalizing e t with
  | word w =>
    obtain ⟨start, hp⟩ := hr.peek
    obtain ⟨_, c₁, hread, rfl⟩ := hr
    rw [head, bind_ok (peek_ok hp)]
    split
    · refine attempt_none (d := c₁)
        ((bind_ok (token_ok hread)).trans ?_)
      exact bind_ok (accept_false hpeek ht)
    · rw [Lexeme.is_word_of_not_keyword _ _ (by decide)]
      rfl
  | number n digits =>
    obtain ⟨start, hp⟩ := hr.peek
    rw [head, bind_ok (peek_ok hp)]
    rfl
  | group p _ =>
    obtain ⟨_, c₁, hread, hr₁⟩ := hr
    rw [ProgramHead.head_bracket ⟨_, c₁, hread, rfl⟩]
    refine attempt_none (d := c₁)
      ((bind_ok (token_ok hread)).trans ?_)
    exact headRest_declines hr₁ (Phrase.opening h) hpeek ht
  | cast first rest p _ =>
    obtain ⟨_, c₁, hread, hr₁⟩ := hr
    obtain ⟨text₁, hc₁, -, -⟩ := hc.read hread
    obtain ⟨c₂, hr₂, hr₃⟩ := Cursor.reads_append.mp hr₁
    obtain ⟨-, htype, hp, -⟩ := h
    obtain ⟨type, htype⟩ := Option.isSome_iff_exists.mp htype
    obtain ⟨l, ms, hl, hstart⟩ := (Phrase.opening hp).startsOperand
    obtain ⟨start₁, hp₃⟩ := (hl ▸ hr₃ : c₂.Reads (l :: ms) e).peek
    rw [ProgramHead.head_bracket ⟨_, c₁, hread, rfl⟩]
    refine attempt_none (d := c₁)
      ((bind_ok (token_ok hread)).trans ?_)
    exact Grammar.headRest_named (g := Surroundings.grammar { directory := d } 0) hc₁ hr₂ hp₃
      ((hstart start₁).2 "=>" (by simp)) htype
  | unary op p _ =>
    obtain ⟨start, hp⟩ := hr.peek
    rw [head, bind_ok (peek_ok hp), Lexeme.isIdentifier_symbol, if_neg (by simp),
      Lexeme.token_is_symbol, if_neg (by cases op <;> decide)]
    rfl
  | binary op l r ih _ =>
    obtain ⟨c₁, hr₁, hr₂⟩ := Cursor.reads_append.mp hr
    obtain ⟨start, hp⟩ := hr₂.peek
    refine ih h.1 hr₁ hp ?_
    rw [Lexeme.token_is_symbol]
    cases op <;> decide
  | conditional q a b ih _ _ =>
    obtain ⟨c₁, hr₁, hr₂⟩ := Cursor.reads_append.mp hr
    obtain ⟨start, hp⟩ := hr₂.peek
    exact ih h.1 hr₁ hp (by simp)

/-! ## Programs -/

namespace ProgramHead

/-- The words that name values behind a head. -/
def values (d : Directory) (h : ProgramHead) (w : String) : Bool :=
  h.params.any (·.name.word == w) || (d.catalog.constant? w).isSome

theorem isSome_find?_numbered (first : Nat) (ps : List WrittenParameter) (w : String) :
    ((WrittenParameter.numbered first ps).reverse.find? (·.name == w)).isSome =
      ps.any (·.name.word == w) := by
  rw [List.isSome_find?, List.any_reverse]
  induction ps generalizing first with
  | nil => rfl
  | cons p ps ih => rw [WrittenParameter.numbered, List.any_cons, List.any_cons, ih]

theorem valueNames_bodyScopes (d : Directory) (h : ProgramHead) (first k : Nat) :
    valueNames d (Options.bodyScopes (WrittenParameter.numbered first h.params) k) =
      h.values d := by
  funext w
  rw [valueNames, Options.lookup?_bodyScopes, isSome_find?_numbered]
  rfl

/-- The parameters of a program, whether they are written or not. -/
theorem programParameters_read {d : Directory} {h : ProgramHead} {p : Phrase} {c e : Cursor}
    {t : Token} {text : List Char} (first : Nat) (hh : ∀ q ∈ h.params, q.IsTyped d)
    (hbound : p.Bound (h.values d) fun name => d.instantiate? name []) (hc : c.StandsAt text)
    (hr : c.Reads (h.lexemes ++ p.lexemes) e) (hpeek : e.peek = .ok t) (ht : t.isEof = true) :
    ∃ c₁ text₁, Options.programParameters {} d ⟨c, { next := first }⟩ =
        .ok (WrittenParameter.numbered first h.params)
          ⟨c₁, { next := first + h.params.length }⟩ ∧
      c₁.Reads p.lexemes e ∧ c₁.StandsAt text₁ ∧ text₁.length ≤ text.length := by
  by_cases hpresent : h = absent
  · subst hpresent
    refine ⟨c, text, ?_, hr, hc, Nat.le_refl _⟩
    have hvalues : valueNames d { next := first } = absent.values d := rfl
    rw [← hvalues] at hbound
    rw [Options.programParameters, bind_ok (Phrase.head_declines hbound hc hr hpeek
      (Token.is_of_isEof ht "=>"))]
    rfl
  · obtain ⟨c₁, hr₁, hr₂⟩ := Cursor.reads_append.mp hr
    obtain ⟨text₁, hc₁, hlength⟩ := hc.reads hr₁ h.isEof_lexemes
    exact ⟨c₁, text₁, programParameters_written hpresent hh hc hr₁, hr₂, hc₁, by omega⟩

/-- A program with a head, or without one, and a phrase for its body is read as what the phrase
    means. -/
theorem parse_written {d : Directory} {h : ProgramHead} {p : Phrase} {source : String}
    (first : Nat) (hh : ∀ q ∈ h.params, q.IsTyped d)
    (hbound : p.Bound (h.values d) fun name => d.instantiate? name [])
    (hsource : Lexes source (h.lexemes ++ p.lexemes)) :
    (parse d {} first source).toOption =
      (p.value { directory := d } (Options.bodyScopes (WrittenParameter.numbered first h.params)
        (first + h.params.length))).map fun e =>
          (⟨WrittenParameter.numbered first h.params, e, e.type⟩, first + h.params.length + 1) := by
  obtain ⟨e, t, hr, hpeek, ht⟩ := hsource
  have hc := Cursor.standsAt_ofSource source.toList 0
  obtain ⟨c₁, text₁, hparams, hr₁, hc₁, htext₁⟩ :=
    programParameters_read first hh hbound hc hr hpeek ht
  rw [← valueNames_bodyScopes d h first (first + h.params.length)] at hbound
  exact Options.parse_phrase rfl rfl rfl hparams hbound hc₁ htext₁ hr₁ hpeek ht

end ProgramHead

end Scriptlet

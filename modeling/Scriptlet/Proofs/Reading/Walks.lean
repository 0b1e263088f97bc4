import Mathlib.Data.List.Forall2
import Scriptlet.Proofs.Reading.Balance
import Scriptlet.Proofs.Token.Skipping

/-!
# Along tokens with balanced brackets

A reading that gives something has gone along tokens. Brackets are balanced in them, but
for those that were open already or are left open: `Cursor.Walk n c m d` leads from the
cursor `c`, where `n` brackets are open, to the cursor `d`, where `m` are. A walk can also
end behind the front of a symbol, since two closing angle brackets may be written like a
shift.

However a reading ends, it keeps the scopes around it (`Scopes.Keeps`): those that were
entered are left again, and only the scopes up to the innermost lambda can have changed in
what they hold. If it gives something, the cursor is still in its source, with its stack of
places (`Position.Follows`); a failure can leave places behind that were kept to go back to.
-/

namespace Scriptlet

variable {t : Token} {c : Cursor}

/-! ## Brackets -/

/-- The number of open brackets behind a symbol or reserved word, where so many are open in
    front of it. There is none if nothing is open that the symbol could close. -/
def bracketsAfter (word : String) (n : Nat) : Option Nat :=
  if ["(", "[", "\x7b"].contains word then some (n + 1)
  else if [")", "]", "\x7d"].contains word then
    match n with
    | 0 => none
    | n + 1 => some n
  else some n

/-- The number of open brackets behind a token. Nothing is behind the end of the source. -/
def Token.brackets (t : Token) (n : Nat) : Option Nat :=
  if t.isEof then none
  else if t.kind.isSymbol || t.kind.isKeyword then bracketsAfter t.word n
  else some n

theorem bracketsAfter_add {word : String} {n m : Nat} (h : bracketsAfter word n = some m) (k : Nat) :
    bracketsAfter word (k + n) = some (k + m) := by
  unfold bracketsAfter at h ⊢
  split
  · rw [if_pos ‹_›] at h
    cases h
    rfl
  · rw [if_neg ‹_›] at h
    split
    · rw [if_pos ‹_›] at h
      match n with
      | 0 => cases h
      | n + 1 =>
        cases h
        rfl
    · rw [if_neg ‹_›] at h
      cases h
      rfl

theorem Token.brackets_add {n m : Nat} (h : t.brackets n = some m) (k : Nat) :
    t.brackets (k + n) = some (k + m) := by
  unfold Token.brackets at h ⊢
  split
  · rw [if_pos ‹_›] at h
    cases h
  · rw [if_neg ‹_›] at h
    split
    · rw [if_pos ‹_›] at h
      exact bracketsAfter_add h k
    · rw [if_neg ‹_›] at h
      cases h
      rfl

theorem Token.word_of_is {w : String} (h : t.is w = true) : t.word = w := by
  rw [Token.is, Bool.and_eq_true, beq_iff_eq] at h
  rw [Token.word, h.2, String.ofList_toList]

theorem Token.brackets_of_kind (h : (t.kind.isSymbol || t.kind.isKeyword) = true)
    (n : Nat) : t.brackets n = bracketsAfter t.word n := by
  have heof : ¬ t.isEof = true := by
    obtain ⟨kind, lexeme, start⟩ := t
    cases kind <;> first | exact Bool.false_ne_true | cases h
  rw [Token.brackets, if_neg heof, if_pos h]

theorem Token.brackets_of_is {w : String} (h : t.is w = true) (n : Nat) :
    t.brackets n = bracketsAfter w n := by
  rw [Token.brackets_of_kind (Bool.and_eq_true_iff.mp h).1, Token.word_of_is h]

theorem Token.any_is (t : Token) (ws : List String) :
    ws.any (t.is ·) = ((t.kind.isSymbol || t.kind.isKeyword) && ws.contains t.word) := by
  induction ws with
  | nil => simp
  | cons w ws ih =>
    have hw : (t.lexeme == w.toList) = (t.word == w) := by
      rw [Bool.eq_iff_iff, beq_iff_eq, beq_iff_eq, Token.word]
      exact ⟨fun h => by rw [h, String.ofList_toList], fun h => by rw [← h, String.toList_ofList]⟩
    rw [List.any_cons, ih, Token.is, hw, List.contains_cons, Bool.and_or_distrib_left]

/-- Brackets are told by what tokens are. -/
theorem Token.brackets_eq (h : t.isEof = false) (n : Nat) :
    t.brackets n =
      if ["(", "[", "\x7b"].any (t.is ·) then some (n + 1)
      else if [")", "]", "\x7d"].any (t.is ·) then
        if n = 0 then none else some (n - 1)
      else some n := by
  rw [Token.any_is, Token.any_is, Token.brackets, h]
  cases t.kind.isSymbol || t.kind.isKeyword with
  | false => rfl
  | true =>
    rw [Bool.true_and, Bool.true_and]
    unfold bracketsAfter
    cases n <;> rfl

theorem Token.brackets_of_isIdentifier (h : t.kind.isIdentifier = true) (n : Nat) :
    t.brackets n = some n := by
  obtain ⟨kind, lexeme, start⟩ := t
  cases kind <;> first | rfl | cases h

/-- A token that is a reserved word is spelled like one. -/
def Token.Genuine (t : Token) : Prop := t.kind.isKeyword = true → Scriptlet.isKeyword t.word = true

/-- Words are no brackets. -/
theorem Token.Genuine.brackets (h : t.Genuine) (hw : t.isWord = true) (n : Nat) :
    t.brackets n = some n := by
  obtain ⟨kind, lexeme, start⟩ := t
  cases kind with
  | identifier => rfl
  | keyword =>
    have hall : ∀ w ∈ keywords, ["(", "[", "\x7b"].contains w = false ∧
        [")", "]", "\x7d"].contains w = false := by decide
    obtain ⟨hopen, hclose⟩ := hall _ (List.contains_iff_mem.mp (h rfl))
    change bracketsAfter _ n = _
    unfold bracketsAfter
    rw [hopen, hclose]
    rfl
  | _ => cases hw

/-- A name that is given as a reserved word is one. -/
theorem isKeyword_of_readName {cs : List Char} {n : Nat} {k : TokenKind}
    (h : readName cs = some (n, k)) (hk : k.isKeyword = true) :
    isKeyword (String.ofList (cs.take n)) = true := by
  cases cs with
  | nil => cases h
  | cons c cs =>
    unfold readName at h
    dsimp only at h
    split at h
    · injection h with h
      injection h with hn hkind
      have htake : (c :: cs).take n =
          c :: cs.takeWhile fun d => Text.isLetterOrNumeral d || d == '_' := by
        rw [← hn, List.take_succ_cons, ← List.prefix_iff_eq_take.mp (List.takeWhile_prefix _)]
      rw [htake]
      split at hkind
      · assumption
      · rw [← hkind] at hk
        cases hk
    · cases h

namespace Cursor

theorem IsFront.genuine {readers : List Reader} {symbols : SymbolTree} {offset : Nat}
    {text : List Char} (h : IsFront readers symbols offset text t) : t.Genuine := by
  intro hk
  rcases h.reader with hsymbol | ⟨r, hr⟩
  · rw [hsymbol] at hk
    cases hk
  · have hfinds := (Reader.found hr).2.2
    cases r with
    | name =>
      have hname : readName text = some (t.lexeme.length, t.kind) := by injection hr
      have hkeyword := isKeyword_of_readName hname hk
      obtain ⟨rest, rfl⟩ := h.split
      rwa [List.take_left] at hkeyword
    | _ =>
      cases hkind : t.kind with
      | keyword =>
        rw [hkind] at hfinds
        cases hfinds
      | _ =>
        rw [hkind] at hk
        cases hk

/-- Reserved words are read as such. -/
theorem genuine_of_read {d : Cursor} (h : c.read true = (.ok t, d)) : t.Genuine := by
  obtain ⟨skipped, rest, x, place, -, hread, hfinds⟩ := c.exists_finds_read
  obtain ⟨rfl, -⟩ := Prod.mk.inj (h.symm.trans hread)
  cases hfinds with
  | eof => nofun
  | token hfront => exact (isFront_of_front hfront).genuine

end Cursor

/-! ## Along tokens -/

namespace Cursor

/-- From a cursor, with brackets open, a reading gets to another one along whole tokens, or
    along the fronts of closing angle brackets. Where the source ends, brackets that are
    still open do not count. -/
inductive Walk : Nat → Cursor → Nat → Cursor → Prop
  | stay {n : Nat} {c : Cursor} : Walk n c n c
  | token {n k m : Nat} {c d e : Cursor} {t : Token} (hread : c.read true = (.ok t, d))
      (ht : t.brackets n = some k) (h : Walk k d m e) : Walk n c m e
  | front {n m : Nat} {c d e : Cursor} (hread : c.readSymbolFront ">" = (.ok true, d))
      (h : Walk n d m e) : Walk n c m e
  | ended {n k m : Nat} {c e : Cursor} {t : Token} (hpeek : c.peek = .ok t) (ht : t.isEof = true)
      (h : Walk k c m e) : Walk n c m e

theorem Walk.trans {n k m : Nat} {d e : Cursor} (h : Walk n c k d) (h' : Walk k d m e) :
    Walk n c m e := by
  induction h with
  | stay => exact h'
  | token hread ht _ ih => exact .token hread ht (ih h')
  | front hread _ ih => exact .front hread (ih h')
  | ended hpeek ht _ ih => exact .ended hpeek ht (ih h')

/-- If so many brackets are open behind a walk, then so many were open in front of it. -/
def Walks (x : Option Nat) (c : Cursor) (y : Option Nat) (d : Cursor) : Prop :=
  ∀ m, y = some m → ∃ n, x = some n ∧ Walk n c m d

theorem Walks.stay {x : Option Nat} : Walks x c x c := fun m hm => ⟨m, hm, .stay⟩

theorem Walks.anywhere {x : Option Nat} {d : Cursor} : Walks x c none d := nofun

theorem Walks.trans {x y z : Option Nat} {d e : Cursor} (h : Walks x c y d) (h' : Walks y d z e) :
    Walks x c z e := by
  intro m hm
  obtain ⟨k, hk, hwalk'⟩ := h' m hm
  obtain ⟨n, hn, hwalk⟩ := h k hk
  exact ⟨n, hn, hwalk.trans hwalk'⟩

/-- Along tokens with balanced brackets, a cursor gets to another one in its source. -/
structure Reaches (c d : Cursor) : Prop where
  unplaced : d.unplaced = c.unplaced
  walk : ∀ n, Walk n c n d

theorem Reaches.refl (c : Cursor) : Reaches c c := ⟨rfl, fun _ => .stay⟩

theorem Reaches.trans {d e : Cursor} (h : Reaches c d) (h' : Reaches d e) : Reaches c e :=
  ⟨h'.unplaced.trans h.unplaced, fun n => (h.walk n).trans (h'.walk n)⟩

/-- Going along tokens does not depend on the places that are kept. -/
theorem Walk.onStack {n m : Nat} {d : Cursor} (h : Walk n c m d) (saved : List Place) :
    Walk n (c.onStack saved) m (d.onStack saved) := by
  induction h with
  | stay => exact .stay
  | @token _ _ _ c _ _ _ hread ht _ ih => exact .token (by rw [c.read_onStack, hread]) ht ih
  | @front _ _ c _ _ hread _ ih => exact .front (by rw [c.readSymbolFront_onStack, hread]) ih
  | @ended _ _ _ c _ _ hpeek ht _ ih => exact .ended (by rw [c.peek_onStack, hpeek]) ht ih

theorem Walks.onStack {x y : Option Nat} {d : Cursor} (h : Walks x c y d) (saved : List Place) :
    Walks x (c.onStack saved) y (d.onStack saved) := by
  intro m hm
  obtain ⟨n, hn, hwalk⟩ := h m hm
  exact ⟨n, hn, hwalk.onStack saved⟩

end Cursor

/-! ## What is kept -/

namespace Scopes

variable {f : Scope → Scope} {name : String} {new : String → Prop}

/-- The scopes beyond the innermost lambda. -/
def outside : List Scope → List Scope
  | [] => []
  | scope :: outer => if scope.kind = .lambda then outer else outside outer

/-- The kinds of scopes. -/
def kinds (scopes : List Scope) : List ScopeKind := scopes.map (·.kind)

/-- A scope can be changed for another one of its kind. -/
theorem outside_cons {s s' : Scope} (h : s'.kind = s.kind) (outer : List Scope) :
    outside (s' :: outer) = outside (s :: outer) := by
  rw [outside, outside, h]

theorem kinds_modifyLambda (hf : ∀ s, (f s).kind = s.kind) (s : Scopes) :
    kinds (s.modifyLambda f).entered = kinds s.entered := by
  change kinds (modifyLambda.go f s.entered) = kinds s.entered
  induction s.entered with
  | nil => rfl
  | cons scope outer ih =>
    rw [modifyLambda.go]
    split
    · exact congrArg (· :: kinds outer) (hf scope)
    · exact congrArg (scope.kind :: ·) ih

theorem outside_modifyLambda (hf : ∀ s, (f s).kind = s.kind) (s : Scopes) :
    outside (s.modifyLambda f).entered = outside s.entered := by
  change outside (modifyLambda.go f s.entered) = outside s.entered
  induction s.entered with
  | nil => rfl
  | cons scope outer ih =>
    rw [modifyLambda.go]
    split
    · exact outside_cons (hf scope) outer
    · rename_i hscope
      rw [outside, outside, if_neg hscope, if_neg hscope, ih]

/-- The label that a name means, if it has been seen. -/
def label? (s : Scopes) (name : String) : Option Label := s.entered.findSome? (·.label? name)

/-- A scope with further labels, all of them for names with a property. -/
def Labelled (new : String → Prop) (s t : Scope) : Prop :=
  ∃ labels, t.labels = s.labels ++ labels ∧ ∀ l ∈ labels, new l.name

/-- Labels that are added for other names do not matter. -/
theorem label?_of_labelled {s t : Scope} (h : Labelled (· ≠ name) s t) :
    t.label? name = s.label? name := by
  obtain ⟨labels, hlabels, hnames⟩ := h
  have hnone : labels.find? (fun l => l.name == name) = none :=
    List.find?_eq_none.mpr fun l hl heq => hnames l hl (beq_iff_eq.mp heq)
  rw [Scope.label?, hlabels, List.find?_append, hnone, Option.or_none]
  rfl

theorem findSome?_of_labelled {scopes scopes' : List Scope}
    (h : List.Forall₂ (Labelled (· ≠ name)) scopes scopes') :
    scopes'.findSome? (·.label? name) = scopes.findSome? (·.label? name) := by
  induction h with
  | nil => rfl
  | cons h _ ih => rw [List.findSome?_cons, List.findSome?_cons, label?_of_labelled h, ih]

theorem labelled_of_eq {s t : Scope} (h : t.labels = s.labels) : Labelled new s t :=
  ⟨[], by rw [h, List.append_nil], List.forall_mem_nil _⟩

theorem labelled_same (scopes : List Scope) : List.Forall₂ (Labelled new) scopes scopes :=
  List.forall₂_same.2 fun _ _ => labelled_of_eq rfl

theorem labelled_modifyLambda (hf : ∀ s, (f s).labels = s.labels) (s : Scopes) :
    List.Forall₂ (Labelled new) s.entered (s.modifyLambda f).entered := by
  change List.Forall₂ _ s.entered (modifyLambda.go f s.entered)
  induction s.entered with
  | nil => exact .nil
  | cons scope outer ih =>
    rw [modifyLambda.go]
    split
    · exact .cons (labelled_of_eq (hf scope)) (labelled_same outer)
    · exact .cons (labelled_of_eq rfl) ih

/-- What a reading keeps of the scopes: the parameters of the program, the kinds of the scopes
    around, and all of the scopes beyond the innermost lambda. Labels are added only for names
    that had none. -/
structure Keeps (s t : Scopes) : Prop where
  parameters : t.parameters = s.parameters
  kinds : kinds t.entered = kinds s.entered
  outside : outside t.entered = outside s.entered
  labels : List.Forall₂ (Labelled fun name => s.label? name = none) s.entered t.entered

namespace Keeps

variable {s t u : Scopes} {scope : Scope}

theorem of_entered (hparameters : t.parameters = s.parameters) (hentered : t.entered = s.entered) :
    s.Keeps t :=
  ⟨hparameters, by rw [hentered], by rw [hentered], by rw [hentered]; exact labelled_same _⟩

theorem refl (s : Scopes) : s.Keeps s := of_entered rfl rfl

/-- A name that has been seen keeps its label. -/
theorem label? (h : s.Keeps t) {l : Label} (hl : s.label? name = some l) :
    t.label? name = some l := by
  rw [← hl]
  refine findSome?_of_labelled (h.labels.imp ?_)
  rintro _ _ ⟨labels, hlabels, hnames⟩
  refine ⟨labels, hlabels, fun l' hl' hname => ?_⟩
  rw [← hname, hnames l' hl'] at hl
  cases hl

theorem trans (h : s.Keeps t) (h' : t.Keeps u) : s.Keeps u := by
  refine ⟨h'.parameters.trans h.parameters, h'.kinds.trans h.kinds, h'.outside.trans h.outside, ?_⟩
  have hnew : ∀ name, t.label? name = none → s.label? name = none := by
    intro name ht
    cases hs : s.label? name with
    | none => rfl
    | some l =>
      rw [h.label? hs] at ht
      cases ht
  -- the labels added last follow those that were added first
  have hall : ∀ {ss ts us : List Scope},
      List.Forall₂ (Labelled fun name => s.label? name = none) ss ts →
      List.Forall₂ (Labelled fun name => t.label? name = none) ts us →
      List.Forall₂ (Labelled fun name => s.label? name = none) ss us := by
    intro ss ts us hst
    induction hst generalizing us with
    | nil => rintro (_ | _); exact .nil
    | cons hscope _ ih =>
      rintro (_ | ⟨⟨labels', hlabels', hnames'⟩, houter⟩)
      obtain ⟨labels, hlabels, hnames⟩ := hscope
      refine .cons ⟨labels ++ labels', by rw [hlabels', hlabels, List.append_assoc], ?_⟩ (ih houter)
      intro l hl
      rcases List.mem_append.1 hl with hl | hl
      · exact hnames l hl
      · exact hnew l.name (hnames' l hl)
  exact hall h.labels h'.labels

/-- Within a scope that was entered, the scopes around it are in their place. -/
theorem entered (h : (s.enter scope).Keeps t) :
    ∃ scope' outer, t.entered = scope' :: outer ∧ scope'.kind = scope.kind ∧
      Scopes.kinds outer = Scopes.kinds s.entered ∧
      Scopes.outside (scope' :: outer) = Scopes.outside (scope :: s.entered) := by
  obtain ⟨scope', outer, hentered, hkind, hkinds⟩ := List.map_eq_cons_iff.mp h.kinds
  exact ⟨scope', outer, hentered, hkind, hkinds, by rw [← hentered]; exact h.outside⟩

/-- A scope that was entered is left again. -/
theorem leave (hscope : scope.kind ≠ .lambda) (h : (s.enter scope).Keeps t) :
    s.Keeps t.leave.2 := by
  obtain ⟨scope', outer, hentered, hkind, hkinds, houtside⟩ := h.entered
  have hleave : t.leave.2.entered = outer := by rw [Scopes.leave, hentered]; rfl
  refine ⟨h.parameters, by rw [hleave, hkinds], ?_, ?_⟩
  · rw [Scopes.outside, Scopes.outside, hkind, if_neg hscope, if_neg hscope] at houtside
    rw [hleave, houtside]
  · have hlabels := h.labels
    rw [hentered] at hlabels
    rw [hleave]
    obtain _ | ⟨-, houter⟩ := hlabels
    refine houter.imp ?_
    rintro _ _ ⟨labels, hlabels, hnames⟩
    refine ⟨labels, hlabels, fun l hl => ?_⟩
    exact List.findSome?_eq_none_iff.2 fun outer houter =>
      List.findSome?_eq_none_iff.1 (hnames l hl) outer (List.mem_cons_of_mem _ houter)

/-- Within a lambda, nothing beyond it changes. -/
theorem lambda (hscope : scope.kind = .lambda) (h : (s.enter scope).Keeps t) :
    ∃ scope', t.entered = scope' :: s.entered := by
  obtain ⟨scope', outer, hentered, hkind, -, houtside⟩ := h.entered
  rw [Scopes.outside, Scopes.outside, hkind, if_pos hscope, if_pos hscope] at houtside
  exact ⟨scope', by rw [hentered, houtside]⟩

end Keeps

end Scopes

/-- What a reading keeps when it gives something: also the cursor is in its source, with the
    places that were kept. -/
structure Position.Follows (p q : Position) : Prop where
  scopes : p.scopes.Keeps q.scopes
  cursor : q.cursor.unplaced = p.cursor.unplaced

namespace Position.Follows

variable {p q r : Position}

theorem refl (p : Position) : p.Follows p := ⟨.refl _, rfl⟩

theorem trans (h : p.Follows q) (h' : q.Follows r) : p.Follows r :=
  ⟨h.scopes.trans h'.scopes, h'.cursor.trans h.cursor⟩

theorem of_cursor (h : c.unplaced = p.cursor.unplaced) : p.Follows { p with cursor := c } :=
  ⟨.refl _, h⟩

end Position.Follows

end Scriptlet

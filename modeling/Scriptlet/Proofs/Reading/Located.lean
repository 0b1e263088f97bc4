import Mathlib
import Scriptlet.Proofs.Token.Offsets
import Scriptlet.Reading.Program

/-!
# Readings that stay within the source

A reading is located (`Located n m`) if it keeps the cursor in a source of at most `m` bytes that
ends no further on than `n`, and reports errors no further on than that. Moves of the cursor are
so because the places that it goes back to are among those it keeps (`Cursor.Within`), and
repetition, scopes and trials keep it up. A reading may go on elsewhere for a while, in a source
of another length with the same end (`located_elsewhere`): that is how the bodies of lambdas are
read, which wait for the types of their parameters (`Deferred.UpTo`), as often as there are
methods to try (`Overload.located_select`).
-/

namespace Scriptlet

open Std.Do Reading Text

set_option mvcgen.warning false

attribute [grind =] Error.offset? Scriptlet.Ends Segment.UpTo

@[grind =]
theorem Error.upTo_iff {n : Nat} {e : Error} : e.UpTo n ↔ ∀ k, e.offset? = some k → k ≤ n := .rfl

@[grind →]
theorem Token.UpTo.start_le {n : Nat} {t : Token} (h : t.UpTo n) : t.start ≤ n :=
  Nat.le_of_add_right_le h

namespace Cursor

variable {n m : Nat} {c : Cursor}

theorem Holds.upTo {t : Token} (h : c.Holds m t) (hc : c.Within n m) : t.UpTo n :=
  Nat.le_trans h.2 hc.base

theorem Within.readSymbol (h : c.Within n m) (w : String) :
    ErrorsUpTo n (c.readSymbol w).1 ∧ (c.readSymbol w).2.Within n m := by
  obtain ⟨hends, hwithin⟩ := h.read
  unfold Cursor.readSymbol
  rcases hr : c.read true with ⟨e | t, c'⟩
  all_goals rw [hr] at hends hwithin
  · exact ⟨hends, h⟩
  · dsimp only
    split
    · exact ⟨True.intro, hwithin⟩
    · exact ⟨True.intro, h⟩

theorem Within.expectSymbol (h : c.Within n m) (w : String) :
    ErrorsUpTo n (c.expectSymbol w).1 ∧ (c.expectSymbol w).2.Within n m := by
  obtain ⟨hends, hwithin⟩ := h.read
  unfold Cursor.expectSymbol
  rcases hr : c.read true with ⟨e | t, c'⟩
  all_goals rw [hr] at hends hwithin
  · exact ⟨hends, h⟩
  · dsimp only
    split
    · exact ⟨True.intro, hwithin⟩
    · exact ⟨.of rfl (Nat.le_of_add_right_le (hends.upTo h)), h⟩

theorem Within.readSymbolFront (h : c.Within n m) (w : String) :
    ErrorsUpTo n (c.readSymbolFront w).1 ∧ (c.readSymbolFront w).2.Within n m := by
  have hread := h.read.1
  unfold Cursor.readSymbolFront
  rcases hp : c.peek with e | t
  all_goals rw [← Cursor.peek, hp] at hread
  · exact ⟨hread, h⟩
  · dsimp only
    split
    · rename_i hfront
      obtain ⟨hstart, hto⟩ := hread
      refine ⟨True.intro, h.base, h.source, ?_, h.saved⟩
      have hsize : byteSize w.toList ≤ byteSize t.lexeme := by
        rw [Bool.and_eq_true] at hfront
        obtain ⟨rest, hrest⟩ := Option.isSome_iff_exists.1 hfront.2
        rw [strip?_eq_some hrest, byteSize_append]
        exact Nat.le_add_right _ _
      rw [Token.UpTo] at hto
      rw [Place.UpTo]
      dsimp only
      omega
    · exact h.readSymbol w

end Cursor

@[grind ←]
theorem Scopes.errorsUpTo_declare {n k : Nat} (h : k ≤ n) (s : Scopes) (name : String) (t : Ty) :
    ErrorsUpTo n (s.declare name t k) := by
  unfold declare
  split
  · exact .of rfl h
  split
  · exact .of rfl h
  · trivial

namespace Reading

variable {α β γ : Type} {n m : Nat} {P : α → Prop}

/-- A reading that stays in a source of at most `m` bytes and reports no error further on than
    `n`, where the source ends. -/
abbrev Located (n m : Nat) (r : Reading α) (P : α → Prop := fun _ => True) : Prop :=
  ⦃fun p => ⌜p.cursor.Within n m⌝⦄ r
  ⦃post⟨fun a p => ⌜p.cursor.Within n m ∧ P a⌝, fun e p => ⌜p.cursor.Within n m ∧ e.UpTo n⌝⟩⦄

theorem located_iff {r : Reading α} :
    Located n m r P ↔ ∀ p : Position, p.cursor.Within n m →
      (∀ a q, r p = .ok a q → q.cursor.Within n m ∧ P a) ∧
        ∀ e q, r p = .error e q → q.cursor.Within n m ∧ e.UpTo n := by
  refine forall_congr' fun p => ?_
  simp only [wp, PredTrans.apply, EStateM.run]
  cases r p <;> simp

theorem located_onCursor {f : Cursor → Except Error α × Cursor}
    (h : ∀ c : Cursor, c.Within n m → Scriptlet.Ends P (Error.UpTo n) (f c).1 ∧ (f c).2.Within n m) :
    Located n m (onCursor f) P := by
  rw [located_iff]
  intro p hp
  obtain ⟨hends, hwithin⟩ := h p.cursor hp
  rcases hf : f p.cursor with ⟨e | a, c⟩
  all_goals
    rw [hf] at hends hwithin
    simp only [onCursor, hf]
  · exact ⟨nofun, by rintro _ _ ⟨⟩; exact ⟨hwithin, hends⟩⟩
  · exact ⟨by rintro _ _ ⟨⟩; exact ⟨hwithin, hends⟩, nofun⟩

theorem located_ofExcept {x : Except Error α} (h : Scriptlet.Ends P (Error.UpTo n) x) :
    Located n m (ofExcept x : Reading α) P := by
  rw [located_iff]
  intro p hp
  cases x with
  | ok a => exact ⟨by rintro _ _ ⟨⟩; exact ⟨hp, h⟩, nofun⟩
  | error e => exact ⟨nofun, by rintro _ _ ⟨⟩; exact ⟨hp, h⟩⟩

/-! ## The cursor -/

@[spec]
theorem located_token : Located n m token (Token.UpTo n) :=
  located_onCursor fun _ hc => ⟨hc.read.1.imp fun _ ht => ht.upTo hc, hc.read.2⟩

@[spec]
theorem located_accept (w : String) : Located n m (accept w) :=
  located_onCursor fun _ hc => hc.readSymbol w

@[spec]
theorem located_acceptFront (w : String) : Located n m (acceptFront w) :=
  located_onCursor fun _ hc => hc.readSymbolFront w

@[spec]
theorem located_expect (w : String) : Located n m (expect w) :=
  located_onCursor fun _ hc => hc.expectSymbol w

@[spec]
theorem located_peek : Located n m peek (Token.UpTo n) := by
  rw [located_iff]
  intro p hp
  exact located_iff.1 (located_ofExcept (hp.read.1.imp fun _ ht => ht.upTo hp)) p hp

@[spec]
theorem located_atEnd : Located n m atEnd := by
  rw [located_iff]
  intro p hp
  exact located_iff.1 (located_ofExcept (hp.read.1.map fun _ ht => True.intro)) p hp

@[spec]
theorem located_offset : Located n m offset (· ≤ n) := by
  rw [located_iff]
  intro p hp
  have hbase := hp.base
  have hplace : _ ≤ m := hp.place
  refine ⟨?_, nofun⟩
  rintro _ _ ⟨⟩
  exact ⟨hp, by rw [Cursor.offset]; omega⟩

@[spec]
theorem located_here : Located n m here (Place.UpTo m) := by
  mvcgen [here]
  grind [Cursor.Within]

theorem located_onPlace {f : Cursor → Cursor} (h : ∀ c : Cursor, c.Within n m → (f c).Within n m) :
    Located n m (onPlace f) := by
  mvcgen [onPlace]
  grind

@[spec]
theorem located_moveTo {place : Place} (h : place.UpTo m) :
    Located n m (moveTo place) :=
  located_onPlace fun _ hc => ⟨hc.base, hc.source, h, hc.saved⟩

@[spec]
theorem located_push : Located n m (onPlace Cursor.push) :=
  located_onPlace fun _ hc =>
    ⟨hc.base, hc.source, hc.place, List.forall_mem_cons.2 ⟨hc.place, hc.saved⟩⟩

@[spec]
theorem located_discard : Located n m (onPlace Cursor.discard) :=
  located_onPlace fun _ hc =>
    ⟨hc.base, hc.source, hc.place, fun p hp => hc.saved p (List.mem_of_mem_tail hp)⟩

@[spec]
theorem located_pop : Located n m (onPlace Cursor.pop) := by
  refine located_onPlace fun c hc => ?_
  unfold Cursor.pop
  split
  · exact hc
  · rename_i p ps hsaved
    obtain ⟨hp, hps⟩ := List.forall_mem_cons.1 (hsaved ▸ hc.saved)
    exact ⟨hc.base, hc.source, hp, hps⟩

theorem located_elsewhere {r : Reading α} {c : Cursor} {k : Nat} (hc : c.Within n k)
    (h : Located n k r P) : Located n m (elsewhere c r) P := by
  rw [located_iff] at h ⊢
  intro p hp
  obtain ⟨hok, herror⟩ := h { p with cursor := c } hc
  unfold elsewhere
  cases hr : r { p with cursor := c } with
  | ok a q => exact ⟨by rintro _ _ ⟨⟩; exact ⟨hp, (hok a q hr).2⟩, nofun⟩
  | error e q => exact ⟨nofun, by rintro _ _ ⟨⟩; exact ⟨hp, (herror e q hr).2⟩⟩

theorem located_outcome {r : Reading α} (h : Located n m r P) :
    Located n m (outcome r) (Scriptlet.Ends P (Error.UpTo n)) := by
  rw [located_iff] at h ⊢
  intro p hp
  obtain ⟨hok, herror⟩ := h p hp
  unfold outcome
  cases hr : r p with
  | ok a q => exact ⟨by rintro _ _ ⟨⟩; exact hok a q hr, nofun⟩
  | error e q => exact ⟨by rintro _ _ ⟨⟩; exact herror e q hr, nofun⟩

/-! ## Scopes -/

theorem located_onScopes (f : Scopes → α × Scopes) : Located n m (onScopes f) := by
  rw [located_iff]
  intro p hp
  exact ⟨by rintro _ _ ⟨⟩; exact ⟨hp, True.intro⟩, nofun⟩

/-! ## Repetition -/

namespace Located

variable {r : Reading α} {Q : β → Prop}

theorem pure {a : α} (h : P a) : Located n m (Pure.pure a : Reading α) P := by
  mvcgen

theorem bind {k : α → Reading β} (h : Located n m r P) (hk : ∀ a, P a → Located n m (k a) Q) :
    Located n m (r >>= k) Q := by
  mvcgen [h, hk]
  all_goals grind

theorem map {f : α → β} (h : Located n m r P) (hf : ∀ a, P a → Q (f a)) :
    Located n m (f <$> r) Q := by
  mvcgen [h]
  grind

theorem skip {k : α → Reading β} (h : Located n m r) (hk : ∀ a, Located n m (k a) Q) :
    Located n m (r >>= k) Q := h.bind fun a _ => hk a

end Located

/-- What a round of a repetition keeps and what it ends with. -/
@[grind =]
def Round.Meets (I : α → Prop) (Q : β → Prop) : Round α β → Prop
  | .again a => I a
  | .done b => Q b

theorem located_iterate {I : α → Prop} {Q : β → Prop} {round : α → Reading (Round α β)}
    (h : ∀ a, I a → Located n m (round a) (Round.Meets I Q)) {a : α} (ha : I a) :
    Located n m (iterate round a) Q := by
  have hwithin (rounds : Nat) : ∀ a, I a → Located n m (iterateWithin round rounds a) Q := by
    induction rounds with
    | zero =>
      intro a _
      mvcgen [iterateWithin]
      grind
    | succ rounds ih =>
      intro a ha
      refine (h a ha).bind fun next hnext => ?_
      cases next with
      | again a => exact ih a hnext
      | done b => exact .pure hnext
  rw [located_iff]
  intro p hp
  exact located_iff.1 (hwithin (p.cursor.remaining.length + 1) a ha) p hp

@[spec]
theorem located_repeat {round : α → Reading (Round α β)} {a : α} (h : ∀ a, Located n m (round a)) :
    Located n m (iterate round a) := by
  refine located_iterate (I := fun _ => True) (fun a _ => ?_) True.intro
  rw [← bind_pure (round a)]
  refine (h a).skip fun next => .pure ?_
  cases next <;> exact True.intro

@[spec]
theorem located_gather {item : Reading (Option α)} (h : Located n m item) :
    Located n m (gather item) := by
  refine Located.map (located_repeat fun as => h.skip fun o => ?_) fun _ => id
  cases o <;> exact .pure True.intro

theorem located_separated {item : Reading α} (h : Located n m item P) :
    Located n m (separated item) fun as => ∀ a ∈ as, P a := by
  refine Located.map (P := fun as => ∀ a ∈ as, P a)
    (located_iterate (I := fun as => ∀ a ∈ as, P a) (fun as has => ?_) (List.forall_mem_nil _))
    fun as has a ha => has a (List.mem_reverse.1 ha)
  refine h.bind fun a ha => (located_accept _).skip fun more => ?_
  have hall := List.forall_mem_cons.2 ⟨ha, has⟩
  cases more with
  | true => exact .pure hall
  | false => exact .pure hall

theorem located_separatedAny {item : Reading α} (h : Located n m item) :
    Located n m (separated item) := by
  rw [← id_map (separated item)]
  exact (located_separated h).map fun _ _ => True.intro

@[spec]
theorem located_within {scope : Scope} {r : Reading α} (h : Located n m r) :
    Located n m (within scope r) := by
  have henter : Located n m
      (modify fun p => { p with scopes := p.scopes.enter scope } : Reading Unit) := by
    mvcgen
  exact henter.skip fun _ => (located_outcome h).bind fun _ hx => (located_onScopes _).skip fun _ =>
    (located_ofExcept hx).skip fun _ => .pure True.intro

@[spec]
theorem located_mapM {f : γ → Reading α} {as : List γ} (h : ∀ a ∈ as, Located n m (f a)) :
    Located n m (as.mapM f) := by
  induction as with
  | nil => exact .pure True.intro
  | cons a as ih =>
    obtain ⟨ha, has⟩ := List.forall_mem_cons.1 h
    rw [List.mapM_cons]
    exact ha.skip fun _ => (ih has).skip fun _ => .pure True.intro

@[spec]
theorem located_optionMapM {f : γ → Reading α} {o : Option γ} (h : ∀ a ∈ o, Located n m (f a)) :
    Located n m (o.mapM f) := by
  cases o with
  | none => exact .pure True.intro
  | some a => exact (h a rfl).map fun _ => id

@[spec]
theorem located_filterMapM {f : γ → Reading (Option α)} {as : List γ}
    (h : ∀ a ∈ as, Located n m (f a)) : Located n m (as.filterMapM f) := by
  induction as with
  | nil => exact .pure True.intro
  | cons a as ih =>
    obtain ⟨ha, has⟩ := List.forall_mem_cons.1 h
    rw [List.filterMapM_cons]
    refine ha.skip fun o => ?_
    cases o with
    | none => exact ih has
    | some b => exact (ih has).skip fun _ => .pure True.intro

@[spec]
theorem located_attempt {r : Reading (Option α)} (h : Located n m r) : Located n m (attempt r) := by
  refine located_push.skip fun _ => h.skip fun o => ?_
  cases o with
  | none => exact located_pop.skip fun _ => .pure True.intro
  | some a => exact located_discard.skip fun _ => .pure True.intro

@[spec]
theorem located_missing (w : String) : Located n m (missing w : Reading α) fun _ => False := by
  mvcgen [missing] with grind

@[spec]
theorem located_ofExceptAny {x : Except Error α} (h : ErrorsUpTo n x) :
    Located n m (ofExcept x : Reading α) := located_ofExcept h

@[spec]
theorem located_declare {name : Token} (h : name.start ≤ n) (t : Ty) :
    Located n m (declare name t) := by
  mvcgen [declare] with grind

@[spec]
theorem located_freshVariable (name : String) (t : Ty) : Located n m (freshVariable name t) :=
  located_onScopes _

@[spec]
theorem located_freshLabel (name : String) : Located n m (freshLabel name) := located_onScopes _

@[spec]
theorem located_leave : Located n m leave := located_onScopes _

@[spec]
theorem located_lookup? (name : String) : Located n m (lookup? name) := by
  mvcgen [lookup?]

@[spec]
theorem located_peekIs (w : String) : Located n m (peekIs w) := by
  mvcgen [peekIs] with grind

@[spec]
theorem located_atStatementEnd : Located n m atStatementEnd := by
  mvcgen [atStatementEnd] with grind

@[spec]
theorem located_identifier : Located n m identifier (Token.UpTo n) := by
  mvcgen [identifier] with grind

@[spec]
theorem located_memberName : Located n m memberName (Token.UpTo n) := by
  mvcgen [memberName] with grind

/-! ## Types -/

@[spec]
theorem located_declaresNext : Located n m declaresNext := by
  mvcgen [declaresNext, ahead] with grind

@[spec]
theorem located_missingMark : Located n m missingMark := by
  mvcgen [missingMark] with grind

@[spec]
theorem located_arrayBrackets : Located n m arrayBrackets := by
  mvcgen [arrayBrackets] with grind

@[spec]
theorem located_typeMarks (t : Ty) : Located n m (typeMarks t) := by
  mvcgen [typeMarks] with grind

@[spec]
theorem located_typeArguments {inner : Reading (Option Ty)} (h : Located n m inner) :
    Located n m (typeArguments inner) := by
  mvcgen [typeArguments, h] with grind

theorem located_typeNameAfter {d : Directory} {inner : Reading (Option Ty)} (h : Located n m inner)
    (first : Token) :
    Located n m (typeNameAfter d inner first) fun o => ∀ t p, o = some (t, p) → p.UpTo m := by
  refine located_iterate (I := fun part => ∀ t p, part.best = some (t, p) → p.UpTo m)
    (fun part hpart => ?_) (by simp)
  mvcgen [h] with grind [Option.or_eq_some_iff, Option.map_eq_some_iff]

@[spec]
theorem located_typeAfterWith {d : Directory} {inner : Reading (Option Ty)} (h : Located n m inner)
    (first : Token) : Located n m (typeAfterWith d inner first) := by
  have hname := located_typeNameAfter (d := d) h first
  mvcgen [typeAfterWith, hname] with grind

@[spec]
theorem located_typeNameWith {d : Directory} {inner : Reading (Option Ty)} (h : Located n m inner) :
    Located n m (typeNameWith d inner) := by
  mvcgen [typeNameWith, h] with grind

@[spec]
theorem located_typeWithin {d : Directory} (depth : Nat) : Located n m (typeWithin d depth) := by
  induction depth with
  | zero => exact .pure True.intro
  | succ depth ih =>
    mvcgen [typeWithin, namesValue]
    all_goals grind

@[spec]
theorem located_typeArguments? {d : Directory} : Located n m (typeArguments? d) := by
  mvcgen [typeArguments?, typeDepth]

@[spec]
theorem located_type? {d : Directory} : Located n m (type? d) := by
  mvcgen [type?, typeDepth]

@[spec]
theorem located_typeAfter? {d : Directory} (first : Token) : Located n m (typeAfter? d first) := by
  mvcgen [typeAfter?, typeDepth]

@[spec]
theorem located_requiredType {d : Directory} : Located n m (requiredType d) := by
  mvcgen [requiredType, typeDepth] with grind

@[spec]
theorem located_namedType {d : Directory} (name : String) : Located n m (namedType d name) := by
  mvcgen [namedType] with grind

/-! ## Lambdas that are read later -/

@[spec]
theorem located_parameter {d : Directory} : Located n m (parameter d) := by
  mvcgen [parameter] with grind

@[spec]
theorem located_parameters {d : Directory} : Located n m (parameters d) := by
  mvcgen [parameters] with grind

@[spec]
theorem located_headRest {d : Directory} : Located n m (headRest d) := by
  mvcgen [headRest] with grind

@[spec]
theorem located_head {d : Directory} : Located n m (head d) := by
  mvcgen [head] with grind

@[spec]
theorem located_skipBody : Located n m skipBody := by
  mvcgen [skipBody] with grind

end Reading

/-- A body that is read later ends no further on than a place, like all of the source it is in. -/
@[grind]
structure Deferred.UpTo (n : Nat) (l : Deferred) : Prop where
  offset : l.offset ≤ n
  cursor : ∃ k, l.cursor.Within n k

/-- If an argument is read later, it does so up to a place. -/
@[grind =]
def Argument.UpTo (n : Nat) : Argument Deferred → Prop
  | .typed _ => True
  | .lambda l => l.body.UpTo n

@[spec]
theorem Reading.located_pendingLambda {n m : Nat} {d : Directory} :
    Located n m (pendingLambda d) fun o => ∀ l, o = some l → l.body.UpTo n := by
  mvcgen [pendingLambda] with grind

/-! ## Choosing a method -/

namespace Overload

variable {α : Type} {n m : Nat} {d : Directory} {bind : Binder Reading Deferred} {a : Attempt}

/-- A trial ends no further on than a place, also where a failure only counts against the method
    that is tried. -/
abbrev Tried (n m : Nat) (r : Trial Reading α) (P : α → Prop := fun _ => True) : Prop :=
  ⦃fun p => ⌜p.cursor.Within n m⌝⦄ r
  ⦃post⟨fun a p => ⌜p.cursor.Within n m ∧ P a⌝,
    fun o p => ⌜p.cursor.Within n m ∧ ∀ e, o = some e → e.UpTo n⌝,
    fun e p => ⌜p.cursor.Within n m ∧ e.UpTo n⌝⟩⦄

/-- A lambda that is read for given types of its parameters. -/
def BindsUpTo (n : Nat) (bind : Binder Reading Deferred) : Prop :=
  ∀ m (l : PendingLambda Deferred), l.body.UpTo n → ∀ params ret,
    Located n m (bind l params ret) (ErrorsUpTo n)

@[grind =]
def Slot.UpTo (n : Nat) : Slot Deferred → Prop
  | .pending l => l.body.UpTo n
  | _ => True

@[spec]
theorem tried_bindLambda (hbind : BindsUpTo n bind) (target : Ty) {l : PendingLambda Deferred}
    (hl : l.body.UpTo n) : Tried n m (bindLambda d bind a target l) := by
  have h := hbind m l hl
  mvcgen [bindLambda, h] with grind

@[spec]
theorem tried_bindPass (hbind : BindsUpTo n bind) {slots : List (Slot Deferred)}
    (h : ∀ s ∈ slots, s.UpTo n) (i : Nat) (b : Ty.Bindings) :
    Tried n m (bindPass d bind a i b slots) fun p => ∀ s ∈ p.slots, s.UpTo n := by
  induction slots generalizing i b with
  | nil => mvcgen [bindPass]
  | cons s slots ih =>
    obtain ⟨hs, hslots⟩ := List.forall_mem_cons.1 h
    have ih := ih hslots
    cases s with
    | pending l =>
      mvcgen [bindPass, ih]
      all_goals grind
    | typed e | bound e =>
      mvcgen [bindPass, ih]
      all_goals grind

@[spec]
theorem tried_bindLambdas (hbind : BindsUpTo n bind) {slots : List (Slot Deferred)}
    (h : ∀ s ∈ slots, s.UpTo n) (steps : Nat) (b : Ty.Bindings) :
    Tried n m (bindLambdas d bind a steps b slots) := by
  induction steps generalizing b slots with
  | zero => mvcgen [bindLambdas]
  | succ steps ih =>
    mvcgen [bindLambdas, ih]
    all_goals grind

theorem tried_tryCandidate (hbind : BindsUpTo n bind) {args : List (Argument Deferred)}
    (h : ∀ x ∈ args, x.UpTo n) {offset : Nat} (hoffset : offset ≤ n) (c : Candidate)
    (explicit : List Ty) : Tried n m (tryCandidate d bind c explicit args offset) := by
  have hslots : ∀ s ∈ args.map Slot.ofArgument, s.UpTo n := by
    refine List.forall_mem_map.2 fun x hx => ?_
    cases x with
    | typed e => trivial
    | lambda l => exact h _ hx
  mvcgen [tryCandidate] with grind

/-- What a trial comes to. -/
theorem Tried.run {r : Trial Reading α} (h : Tried n m r) :
    Located n m r.run (Scriptlet.Ends (fun _ => True) fun o => ∀ e, o = some e → e.UpTo n) := by
  rw [located_iff]
  intro p hp
  have hr := h p hp
  simp only [wp, PredTrans.apply, EStateM.run, PredTrans.pushExcept] at hr
  rcases ho : r.run p with ⟨_ | _, _⟩ | _
  all_goals grind

@[grind =]
def Best.UpTo (n : Nat) (b : Best) : Prop := ∀ e, b.failure = some e → e.UpTo n

theorem Best.UpTo.add {b : Best} (h : b.UpTo n) {x : Except (Option Error) Selection}
    (hx : Scriptlet.Ends (fun _ => True) (fun o => ∀ e, o = some e → e.UpTo n) x) :
    (b.add x).UpTo n := by
  unfold Best.add
  grind [Option.or_eq_some_iff]

@[spec]
theorem located_tryAll (hbind : BindsUpTo n bind) {args : List (Argument Deferred)}
    (h : ∀ x ∈ args, x.UpTo n) {offset : Nat} (hoffset : offset ≤ n) (explicit : List Ty)
    (cs : List Candidate) {best : Best} (hbest : best.UpTo n) :
    Located n m (tryAll d bind explicit args offset cs best) (Best.UpTo n) := by
  induction cs generalizing best with
  | nil => exact .pure hbest
  | cons c cs ih =>
    refine (tried_tryCandidate hbind h hoffset c explicit).run.bind fun x hx => ih (hbest.add hx)

@[spec]
theorem located_select (hbind : BindsUpTo n bind) {args : List (Argument Deferred)}
    (h : ∀ x ∈ args, x.UpTo n) {offset : Nat} (hoffset : offset ≤ n) (name : String)
    (cs : List Candidate) (explicit : List Ty) :
    Located n m (select d bind name cs explicit args offset) (ErrorsUpTo n) := by
  mvcgen [select] with grind

end Overload

end Scriptlet

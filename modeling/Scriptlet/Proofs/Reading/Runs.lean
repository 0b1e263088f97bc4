import Scriptlet.Proofs.Reading.Walks

/-!
# What readings leave as it is

`Reading.Runs x y r` says two things of the reading `r`. However it ends, it keeps what is
around it. And if it starts with `x` brackets open and gives `a`, it has gone along tokens
to where `y a` brackets are open; where `y a` is none, nothing is said of how it came there,
since one goes back then.

There is one rule for each way in which readings are put together. Most readings open no
bracket that they do not close (`Reading.Level`).
-/

namespace Scriptlet.Reading

variable {α β : Type} {r : Reading α} {p : Position} {a : α} {e : Error} {k : α → Reading β}
  {round : α → Reading (Round α β)} {x' : Option Nat} {t : Token}

/-! ## From a position -/

/-- Where a reading ends, be it with a failure. -/
def stop (r : Reading α) (p : Position) : Position :=
  match r p with
  | .ok _ q => q
  | .error _ q => q

theorem stop_ok {q : Position} (h : r p = .ok a q) : r.stop p = q := by
  rw [stop, h]

theorem stop_error {q : Position} (h : r p = .error e q) : r.stop p = q := by
  rw [stop, h]

/-- From a position, a reading keeps what is around, and `E` holds of what it gives and of
    where it ends then. -/
structure Ends (r : Reading α) (p : Position) (E : α → Position → Prop) : Prop where
  keeps : p.scopes.Keeps (r.stop p).scopes
  follows : ∀ a q, r p = .ok a q → p.Follows q
  gives : ∀ a q, r p = .ok a q → E a q

namespace Ends

variable {p q : Position} {E : α → Position → Prop} {F : β → Position → Prop} {r : Reading α}

theorem of_ok (h : r p = .ok a q) (hfollows : p.Follows q) (hE : E a q) : Ends r p E := by
  have heq : ∀ b q', r p = .ok b q' → a = b ∧ q = q' := by
    intro b q' hb
    rw [h] at hb
    cases hb
    exact ⟨rfl, rfl⟩
  refine ⟨by rw [stop_ok h]; exact hfollows.scopes, fun b q' hb => ?_, fun b q' hb => ?_⟩
  · obtain ⟨rfl, rfl⟩ := heq b q' hb
    exact hfollows
  · obtain ⟨rfl, rfl⟩ := heq b q' hb
    exact hE

theorem of_error (h : r p = .error e q) (hkeeps : p.scopes.Keeps q.scopes) : Ends r p E := by
  have hnot : ∀ a q', r p ≠ .ok a q' := fun a q' ha => by rw [h] at ha; cases ha
  exact ⟨by rwa [stop_error h], fun a q' ha => absurd ha (hnot a q'),
    fun a q' ha => absurd ha (hnot a q')⟩

theorem imp {E' : α → Position → Prop} (h : Ends r p E) (hE : ∀ a q, E a q → E' a q) :
    Ends r p E' :=
  ⟨h.keeps, h.follows, fun a q ha => hE a q (h.gives a q ha)⟩

/-- A reading that goes on like another one from further on. -/
theorem goOn {r' : Reading α} (hr : r p = r' q) (hfollows : p.Follows q) (h : Ends r' q E) :
    Ends r p E := by
  refine ⟨?_, fun b q' hb => hfollows.trans (h.follows b q' (hr.symm.trans hb)),
    fun b q' hb => h.gives b q' (hr.symm.trans hb)⟩
  have hstop : r.stop p = r'.stop q := by rw [stop, hr]; rfl
  rw [hstop]
  exact hfollows.scopes.trans h.keeps

theorem bind (h : Ends r p E)
    (hk : ∀ a q, r p = .ok a q → E a q → Ends (k a) q F) : Ends (r >>= k) p F := by
  rcases hr : r p with ⟨a, q⟩ | ⟨e, q⟩
  · exact goOn (bind_ok hr) (h.follows a q hr) (hk a q hr (h.gives a q hr))
  · exact of_error (bind_error hr) (stop_error hr ▸ h.keeps)

/-- A reading that moves nothing. -/
theorem still (h : r.stop p = p) : Ends r p fun _ q => q = p := by
  have hstop : ∀ a q, r p = .ok a q → q = p := fun a q hr => by rw [← stop_ok hr, h]
  exact ⟨by rw [h]; exact .refl _, fun a q hr => by rw [hstop a q hr]; exact .refl p, hstop⟩

/-- What holds in front of every round of a repetition, and of how a round ends, holds of how
    the repetition ends. -/
theorem iterateWithin {J : α → Position → Prop} (hround : ∀ a p, J a p → Ends (round a) p fun o q =>
      match o with
      | .again a' => J a' q
      | .done b => F b q)
    (rounds : Nat) (ha : J a p) : Ends (Reading.iterateWithin round rounds a) p F := by
  induction rounds generalizing a p with
  | zero => exact of_error rfl (.refl _)
  | succ rounds ih =>
    rw [Reading.iterateWithin]
    refine (hround a p ha).bind fun o q _ ho => ?_
    cases o with
    | again a' => exact ih ho
    | done b => exact of_ok rfl (.refl q) ho

theorem iterate {J : α → Position → Prop} (ha : J a p)
    (hround : ∀ a p, J a p → Ends (round a) p fun o q =>
      match o with
      | .again a' => J a' q
      | .done b => F b q) :
    Ends (Reading.iterate round a) p F :=
  goOn (iterate_eq round a p) (.refl p) (iterateWithin hround _ ha)

end Ends

/-- From a position, with `x` brackets open, a reading keeps what is around, and it has
    gone along tokens to where `y a` brackets are open when it gives `a`. -/
def Moves (p : Position) (x : Option Nat) (y : α → Option Nat) (r : Reading α) : Prop :=
  Ends r p fun a q => Cursor.Walks x p.cursor (y a) q.cursor

namespace Moves

variable {p q : Position} {x : Option Nat} {y : α → Option Nat} {z : β → Option Nat} {r : Reading α}

theorem still (h : r.stop p = p) : Moves p x (fun _ => x) r :=
  (Ends.still h).imp fun _ _ hq => hq ▸ .stay

theorem pure (h : y a = x) : Moves p x y (Pure.pure a : Reading α) :=
  .of_ok rfl (.refl p) (by rw [h]; exact .stay)

theorem bind (h : Moves p x y r)
    (hk : ∀ a q, r p = .ok a q → Moves q (y a) z (k a)) : Moves p x z (r >>= k) :=
  Ends.bind h fun a q hr hwalks => (hk a q hr).imp fun _ _ => hwalks.trans

/-- What is read elsewhere does not move the cursor. -/
theorem elsewhere {c : Cursor} (h : Moves { p with cursor := c } x' y r) :
    Moves p x (fun _ => x) (Reading.elsewhere c r) := by
  rcases hr : r { p with cursor := c } with ⟨a, q⟩ | ⟨e, q⟩
  · have he : Reading.elsewhere c r p = .ok a { q with cursor := p.cursor } := by
      rw [Reading.elsewhere, hr]
    exact .of_ok he ⟨stop_ok hr ▸ h.keeps, rfl⟩ .stay
  · have he : Reading.elsewhere c r p = .error e { q with cursor := p.cursor } := by
      rw [Reading.elsewhere, hr]
    exact .of_error he (stop_error hr ▸ h.keeps)

/-- A reading that declines goes back. -/
theorem attempt {r : Reading (Option α)} {y : Option α → Option Nat} (h : Moves p.push x y r) :
    Moves p x (fun o => if o.isSome then y o else x) (Reading.attempt r) := by
  have hattempt := attempt_eq r p
  rcases hr : r p.push with ⟨_ | a, q⟩ | ⟨e, q⟩ <;> rw [hr] at hattempt <;>
    dsimp only at hattempt
  · obtain ⟨hscopes, hcursor⟩ := h.follows _ _ hr
    rw [Cursor.pop_of_push hcursor] at hattempt
    exact .of_ok hattempt ⟨hscopes, rfl⟩ .stay
  · obtain ⟨hscopes, hcursor⟩ := h.follows _ _ hr
    rw [Cursor.discard_of_push hcursor] at hattempt
    exact .of_ok hattempt
      ⟨hscopes, Cursor.unplaced_onStack (c := p.cursor.push) p.cursor.saved hcursor⟩
      ((h.gives _ _ hr).onStack p.cursor.saved)
  · exact .of_error hattempt (stop_error hr ▸ h.keeps)

/-- What is read ahead does not move the cursor. -/
theorem ahead (h : Moves p.push x' y r) : Moves p x (fun _ => x) (Reading.ahead r) := by
  have hahead := ahead_eq r p
  rcases hr : r p.push with ⟨a, q⟩ | ⟨e, q⟩ <;> rw [hr] at hahead <;>
    dsimp only at hahead
  · obtain ⟨hscopes, hcursor⟩ := h.follows _ _ hr
    rw [Cursor.pop_of_push hcursor] at hahead
    exact .of_ok hahead ⟨hscopes, rfl⟩ .stay
  · exact .of_error hahead (stop_error hr ▸ h.keeps)

/-- What is read within a scope leaves it again. -/
theorem within {scope : Scope} (hscope : scope.kind ≠ .lambda)
    (h : Moves { p with scopes := p.scopes.enter scope } x y r) :
    Moves p x (fun a => y a.1) (Reading.within scope r) := by
  have henter : (modify fun p => { p with scopes := p.scopes.enter scope } : Reading Unit) p =
      .ok () { p with scopes := p.scopes.enter scope } := rfl
  rcases hr : r { p with scopes := p.scopes.enter scope } with ⟨a, q⟩ | ⟨e, q⟩
  · have ho : Reading.outcome r { p with scopes := p.scopes.enter scope } = .ok (.ok a) q := by
      rw [Reading.outcome, hr]
    obtain ⟨hkeeps, hcursor⟩ := h.follows a q hr
    exact .of_ok ((bind_ok henter).trans ((bind_ok ho).trans rfl)) ⟨hkeeps.leave hscope, hcursor⟩
      (h.gives a q hr)
  · have ho : Reading.outcome r { p with scopes := p.scopes.enter scope } = .ok (.error e) q := by
      rw [Reading.outcome, hr]
    exact .of_error ((bind_ok henter).trans ((bind_ok ho).trans rfl))
      ((stop_error hr ▸ h.keeps).leave hscope)

end Moves

/-! ## Putting readings together -/

/-- A reading keeps what is around; with `x` brackets open in front of it and any number of
    further ones, `y a` and those further ones are open behind it when it gives `a`. -/
class Runs (x : Option Nat) (y : α → Option Nat) (r : Reading α) : Prop where
  moves : ∀ n p, Moves p (x.map (n + ·)) (fun a => (y a).map (n + ·)) r

/-- A reading that keeps what is around and in which brackets are balanced. -/
abbrev Level (r : Reading α) : Prop := Runs (some 0) (fun _ => some 0) r

/-- A reading that closes a bracket. -/
abbrev Closes (r : Reading α) : Prop := Runs (some 1) (fun _ => some 0) r

/-- So many brackets are open behind something that is given. -/
def given (m : Nat) : Option α → Option Nat
  | some _ => some m
  | none => none

/-- So many brackets are open behind something that is given, and so many where it is not. -/
def givenOr (m n : Nat) : Option α → Option Nat
  | some _ => some m
  | none => some n

/-- So many brackets are open in front of the next round, or where there is none. -/
def inRounds (I : α → Option Nat) (z : β → Option Nat) : Round α β → Option Nat
  | .again a => I a
  | .done b => z b

namespace Runs

variable {x : Option Nat} {y : α → Option Nat} {z : β → Option Nat} {r : Reading α} {n m : Nat}
  {a : α}

theorem pure (h : y a = x) : Runs x y (Pure.pure a : Reading α) :=
  ⟨fun _ _ => .pure (by rw [h])⟩

/-- Nothing has to be said about how one came to a result after which one goes back. -/
theorem giveUp (h : y a = none) : Runs x y (Pure.pure a : Reading α) :=
  ⟨fun _ p => .of_ok rfl (.refl p) (by dsimp only; rw [h]; exact .anywhere)⟩

instance : Runs x (fun _ => x) (Pure.pure a : Reading α) := .pure rfl

instance : Runs x (inRounds (fun _ => x) z) (Pure.pure (.again a) : Reading (Round α β)) := .pure rfl

instance {I : β → Option Nat} :
    Runs x (inRounds I fun _ => x) (Pure.pure (.done a) : Reading (Round β α)) := .pure rfl

instance : Runs x (given m) (Pure.pure none : Reading (Option α)) := .giveUp rfl

/-- What is given if a condition holds. -/
theorem giveIf {c : Bool} (h : c = true → x = some m) :
    Runs x (given m) (Pure.pure (if c then some a else none) : Reading (Option α)) := by
  cases c with
  | false => exact giveUp rfl
  | true => exact pure (h rfl).symm

instance {c : Bool} :
    Runs (some m) (given m) (Pure.pure (if c then some a else none) : Reading (Option α)) :=
  giveIf fun _ => rfl

instance throw : Runs x y (throw e : Reading α) := ⟨fun _ _ => .of_error rfl (.refl _)⟩

theorem bind (h : Runs x y r) (hk : ∀ a, Runs (y a) z (k a)) : Runs x z (r >>= k) :=
  ⟨fun n p => (h.moves n p).bind fun a q _ => (hk a).moves n q⟩

theorem map {f : α → β} (h : Runs x (fun a => z (f a)) r) : Runs x z (f <$> r) := by
  rw [map_eq_pure_bind]
  exact h.bind fun a => pure rfl

instance {f : α → β} {x' : Option Nat} [h : Runs x (fun _ => x') r] : Runs x (fun _ => x') (f <$> r) :=
  map h

theorem of_eq {y' : α → Option Nat} (h : Runs x y r) (hy : ∀ a, y a = y' a) : Runs x y' r := by
  rwa [← funext hy]

/-- Brackets that are open around a reading stay open. -/
theorem further (h : Runs (some n) y r) (k : Nat) :
    Runs (some (k + n)) (fun a => (y a).map (k + ·)) r := by
  refine ⟨fun j p => ?_⟩
  simpa only [Option.map_map, Function.comp_def, Option.map_some, Nat.add_assoc]
    using h.moves (j + k) p

/-- Nothing need be said of how one came to a place that one goes back from. -/
theorem anywhere (h : Runs x y r) : Runs x' (fun _ => none) r :=
  ⟨fun n p => (h.moves n p).imp fun _ _ _ => .anywhere⟩

/-- Nothing need be said of where nothing is given. -/
theorem whenGiven {r : Reading (Option α)} (h : Runs x (givenOr m n) r) : Runs x (given m) r := by
  refine ⟨fun k p => (h.moves k p).imp fun o q hwalks => ?_⟩
  cases o with
  | none => exact .anywhere
  | some a => exact hwalks

/-- A reading that declines leaves the brackets as they were. -/
theorem attempt {r : Reading (Option α)} (h : Runs (some n) (given m) r) :
    Runs (some n) (givenOr m n) (Reading.attempt r) := by
  refine ⟨fun k p => (h.moves k p.push).attempt.imp fun o q hwalks => ?_⟩
  cases o <;> exact hwalks

theorem within {scope : Scope} (hscope : scope.kind ≠ .lambda)
    (h : Runs (some n) (fun _ => some m) r) :
    Runs (some n) (fun _ => some m) (Reading.within scope r) :=
  ⟨fun k _ => (h.moves k _).within hscope⟩

theorem iterate {I : α → Option Nat}
    (h : ∀ a, Runs (I a) (inRounds I z) (round a)) : Runs (I a) z (Reading.iterate round a) := by
  refine ⟨fun n p => ?_⟩
  refine Ends.iterate
    (J := fun a' q => Cursor.Walks ((I a).map (n + ·)) p.cursor ((I a').map (n + ·)) q.cursor)
    .stay fun a' q ha' => ((h a').moves n q).imp fun o q' hwalks => ?_
  cases o <;> exact ha'.trans hwalks

/-- A repetition in which the same number of brackets is open in front of every round. -/
theorem rounds (h : ∀ a, Runs (some n) (inRounds (fun _ => some n) z) (round a)) :
    Runs (some n) z (Reading.iterate round a) :=
  iterate (I := fun _ => some n) h

instance [h : ∀ a, Runs (some n) (inRounds (fun _ => some n) z) (round a)] :
    Runs (some n) z (Reading.iterate round a) :=
  rounds h

/-- Items are gathered up to something that is no item. -/
theorem gather {item : Reading (Option α)} (h : Runs (some n) (givenOr n m) item) :
    Runs (some n) (fun _ => some m) (Reading.gather item) := by
  refine map (rounds fun items => h.bind fun a => ?_)
  cases a <;> exact pure rfl

instance {c : Prop} [Decidable c] {r r' : Reading α} [Runs x y r] [Runs x y r'] :
    Runs x y (if c then r else r') := by
  split <;> assumption

instance (priority := high) {r r' : Reading α} [h : Runs x y r] :
    Runs x y (if true = true then r else r') :=
  h

instance (priority := high) {r r' : Reading α} [h : Runs x y r'] :
    Runs x y (if false = true then r else r') :=
  h

/-- A reading that closes a bracket goes in front of one that finds it closed. -/
theorem close [h : Closes r] (hk : ∀ a, Runs (some 0) z (k a)) : Runs (some 1) z (r >>= k) :=
  h.bind hk

instance [Closes r] [hk : ∀ a, Runs (some 0) z (k a)] : Runs (some 1) z (r >>= k) := close hk

end Runs

namespace Level

variable {x : Option Nat} {z : β → Option Nat} {r : Reading α} {n : Nat}

/-- Brackets that are open around a reading stay open. -/
theorem runs (h : Level r) (x : Option Nat) : Runs x (fun _ => x) r := by
  refine ⟨fun n p => ?_⟩
  match x with
  | none => exact (h.moves 0 p).imp fun _ _ _ => .anywhere
  | some k => exact h.moves (n + k) p

theorem reaches {q : Position} (h : Level r) (hr : r p = .ok a q) : p.cursor.Reaches q.cursor := by
  refine ⟨((h.moves 0 p).follows a q hr).cursor, fun n => ?_⟩
  obtain ⟨_, ⟨⟩, hwalk⟩ := (h.moves n p).gives a q hr n rfl
  exact hwalk

theorem ends (h : Level r) (p : Position) :
    Ends r p fun _ q => p.cursor.Reaches q.cursor :=
  ⟨(h.moves 0 p).keeps, (h.moves 0 p).follows, fun _ _ hr => h.reaches hr⟩

theorem bind (h : Level r) (hk : ∀ a, Runs x z (k a)) : Runs x z (r >>= k) :=
  (h.runs x).bind hk

/-- A reading that moves nothing. -/
theorem still (h : ∀ p, r.stop p = p) : Level r := ⟨fun _ p => .still (h p)⟩

theorem attempt {r : Reading (Option α)} (h : Runs (some 0) (given 0) r) :
    Level (Reading.attempt r) :=
  (Runs.attempt h).of_eq fun o => by cases o <;> rfl

theorem ahead (h : Runs none (fun _ => none) r) : Level (Reading.ahead r) :=
  ⟨fun n p => (h.moves n p.push).ahead⟩

theorem whenGiven {r : Reading (Option α)} (h : Level r) : Runs (some 0) (given 0) r :=
  Runs.whenGiven (n := 0) (h.of_eq fun o => by cases o <;> rfl)

end Level

/-- A level reading can stand in front of any other. -/
theorem Runs.skip {x : Option Nat} {z : β → Option Nat} [h : Level r] (hk : ∀ a, Runs x z (k a)) :
    Runs x z (r >>= k) :=
  h.bind hk

section

variable {r : Reading α}

instance {x : Option Nat} {z : β → Option Nat} [Level r] [hk : ∀ a, Runs x z (k a)] :
    Runs x z (r >>= k) :=
  .skip hk

instance {x : Except Error α} : Level (ofExcept x : Reading α) := by
  cases x with
  | error e => exact .throw
  | ok a => exact .pure rfl

instance {c : Cursor} [h : Level r] : Level (Reading.elsewhere c r) :=
  ⟨fun n _ => (h.moves n _).elsewhere⟩

instance {item : Reading (Option α)} [h : Level item] : Level (gather item) :=
  .gather (h.of_eq fun o => by cases o <;> rfl)

instance {f : α → Reading β} {as : List α} [∀ a, Level (f a)] : Level (as.mapM f) := by
  induction as with
  | nil => exact .pure rfl
  | cons a as ih =>
    rw [List.mapM_cons]
    infer_instance

instance {f : α → Reading (Option β)} {as : List α} [∀ a, Level (f a)] :
    Level (as.filterMapM f) := by
  induction as with
  | nil => exact .pure rfl
  | cons a as ih =>
    rw [List.filterMapM_cons]
    exact .skip fun b => by cases b <;> infer_instance

instance {f : α → Reading β} {o : Option α} [∀ a, Level (f a)] : Level (o.mapM f) := by
  cases o with
  | none => exact .pure rfl
  | some a => exact inferInstanceAs (Level (some <$> f a))

end

/-! ## Single tokens -/

/-- In front of the token `t`, a reading runs like this. -/
def RunsBefore (t : Token) (x : Option Nat) (y : α → Option Nat) (r : Reading α) : Prop :=
  ∀ n p, p.cursor.peek = .ok t → Moves p (x.map (n + ·)) (fun a => (y a).map (n + ·)) r

/-- Looking at one thing and then at another moves nothing. -/
theorem stop_bind (hr : r.stop p = p) (hk : ∀ a, (k a).stop p = p) : (r >>= k).stop p = p := by
  rcases h : r p with ⟨a, q⟩ | ⟨e, q⟩
  · obtain rfl : q = p := stop_ok h ▸ hr
    rw [stop, bind_ok h]
    exact hk a
  · rw [stop_error (bind_error h), ← stop_error h, hr]

theorem stop_peek (p : Position) : peek.stop p = p := by
  unfold stop peek
  rw [bind_ok (rfl : (get : Reading Position) p = .ok p p)]
  cases p.cursor.peek <;> rfl

/-- What is given in front of a token is the token. -/
theorem peek_eq_ok {q : Position} (h : peek p = .ok t q) : p.cursor.peek = .ok t ∧ q = p := by
  obtain rfl : q = p := stop_ok h ▸ stop_peek p
  unfold peek at h
  rw [bind_ok (rfl : (get : Reading Position) q = .ok q q)] at h
  rcases ht : q.cursor.peek with e | t'
  · rw [ht] at h
    cases h
  · rw [ht] at h
    cases h
    exact ⟨rfl, rfl⟩

theorem onCursor_eq_ok {f : Cursor → Except Error α × Cursor} {q : Position}
    (h : onCursor f p = .ok a q) :
    f p.cursor = (.ok a, q.cursor) ∧ q = { p with cursor := q.cursor } := by
  unfold onCursor at h
  rcases hf : f p.cursor with ⟨e | a', d⟩
  · rw [hf] at h
    cases h
  · rw [hf] at h
    cases h
    exact ⟨rfl, rfl⟩

theorem read_of_token {q : Position} (h : token p = .ok t q) :
    p.cursor.read true = (.ok t, q.cursor) :=
  (onCursor_eq_ok h).1

instance : Level peek := .still stop_peek

/-- Reading from the cursor keeps what is around if the cursor stays in its source. -/
theorem ends_onCursor {f : Cursor → Except Error α × Cursor}
    {E : α → Position → Prop} (h : (f p.cursor).2.unplaced = p.cursor.unplaced)
    (hE : ∀ a q, onCursor f p = .ok a q → E a q) : Ends (onCursor f) p E := by
  rcases hf : f p.cursor with ⟨e | a, d⟩
  · have he : onCursor f p = .error e { p with cursor := d } := by rw [onCursor, hf]
    exact .of_error he (.refl _)
  · have ha : onCursor f p = .ok a { p with cursor := d } := by rw [onCursor, hf]
    rw [hf] at h
    exact .of_ok ha (.of_cursor h) (hE _ _ ha)

theorem moves_token (p : Position) (n k : Nat) :
    Moves p (some (n + k)) (fun t => (t.brackets k).map (n + ·)) token := by
  refine ends_onCursor (p.cursor.unplaced_read true) fun t q hq m hm => ?_
  obtain ⟨j, hj, rfl⟩ := Option.map_eq_some_iff.mp hm
  exact ⟨n + k, rfl, .token (read_of_token hq) (Token.brackets_add hj n) .stay⟩

theorem runs_token (n : Nat) : Runs (some n) (·.brackets n) token := ⟨fun j p => moves_token p j n⟩

namespace RunsBefore

variable {t : Token} {x : Option Nat} {y : α → Option Nat} {z : β → Option Nat} {r : Reading α}
  {n m : Nat}

theorem bind (h : RunsBefore t x y r) (hk : ∀ a, Runs (y a) z (k a)) : RunsBefore t x z (r >>= k) :=
  fun n p hp => (h n p hp).bind fun a q _ => (hk a).moves n q

theorem attempt {r : Reading (Option α)} (h : RunsBefore t (some n) (given m) r) :
    RunsBefore t (some n) (givenOr m n) (Reading.attempt r) := by
  intro k p hp
  have hpush : p.push.cursor.peek = .ok t := (p.cursor.peek_onStack _).trans hp
  refine (h k p.push hpush).attempt.imp fun o q hwalks => ?_
  cases o <;> exact hwalks

theorem levelAttempt {r : Reading (Option α)} (h : RunsBefore t (some 0) (given 0) r) :
    RunsBefore t (some 0) (fun _ => some 0) (Reading.attempt r) := by
  have hy : givenOr 0 0 = fun _ : Option α => some 0 := by
    funext o
    cases o <;> rfl
  rw [← hy]
  exact h.attempt

/-- The next token is the one that is read. -/
theorem token_bind {k : Token → Reading β} (h : Runs (t.brackets n) z (k t)) :
    RunsBefore t (some n) z (token >>= k) := by
  refine fun j p hp => (moves_token p j n).bind fun t' q hq => ?_
  obtain rfl : t' = t := by
    have hpeek : p.cursor.peek = .ok t' := by rw [Cursor.peek, read_of_token hq]
    rw [hp] at hpeek
    injection hpeek with hpeek
    exact hpeek.symm
  exact h.moves j q

end RunsBefore

namespace Runs

variable {x : Option Nat} {y : α → Option Nat} {z : β → Option Nat} {r : Reading α} {n m : Nat}
  {w : String}

theorem before (h : Runs x y r) (t : Token) : RunsBefore t x y r := fun n p _ => h.moves n p

theorem token_bind {k : Token → Reading β}
    (h : ∀ t, t.Genuine → Runs (t.brackets n) z (k t)) : Runs (some n) z (token >>= k) :=
  ⟨fun j p => (moves_token p j n).bind fun t q hq =>
    (h t (Cursor.genuine_of_read (read_of_token hq))).moves j q⟩

/-- Behind a symbol or reserved word. -/
theorem of_is (ht : t.is w = true) (hw : bracketsAfter w n = some m)
    (h : Runs (some m) y r) : Runs (t.brackets n) y r := by
  rwa [Token.brackets_of_is ht, hw]

theorem peek_bind {k : Token → Reading β}
    (h : ∀ t, t.Genuine → RunsBefore t x z (k t)) : Runs x z (peek >>= k) := by
  refine ⟨fun n p => ((Level.still stop_peek).runs x |>.moves n p).bind fun t q hq => ?_⟩
  obtain ⟨hpeek, rfl⟩ := peek_eq_ok hq
  rcases hread : q.cursor.read true with ⟨x, d⟩
  obtain rfl : x = .ok t := by rw [← hpeek, Cursor.peek, hread]
  exact h t (Cursor.genuine_of_read hread) n q hpeek

theorem peekIs_bind {k : Bool → Reading β}
    (ht : ∀ t, t.is w = true → RunsBefore t x z (k true)) (hf : Runs x z (k false)) :
    Runs x z (peekIs w >>= k) := by
  unfold peekIs
  rw [bind_assoc]
  refine peek_bind fun t _ => ?_
  rw [pure_bind]
  cases his : t.is w with
  | true => exact ht t his
  | false => exact hf.before t

theorem accept_bind {k : Bool → Reading β} (hw : bracketsAfter w n = some m)
    (ht : Runs (some m) z (k true)) (hf : Runs (some n) z (k false)) :
    Runs (some n) z (accept w >>= k) := by
  refine ⟨fun j p => Moves.bind (y := fun b => if b then some (j + m) else some (j + n))
    (ends_onCursor (p.cursor.unplaced_readSymbol w) fun b q hq => ?_) fun b q _ => ?_⟩
  · rcases Cursor.readSymbol_cases (onCursor_eq_ok hq).1 with ⟨hb, hstill⟩ | ⟨t, ⟨⟩, hread, his⟩
    · obtain rfl : b = false := Bool.eq_false_iff.mpr fun h => hb (congrArg _ h)
      rw [hstill]
      exact .stay
    · rintro _ ⟨⟩
      refine ⟨j + n, rfl, .token hread ?_ .stay⟩
      rw [Token.brackets_of_is his, bracketsAfter_add hw j]
  · cases b with
    | true => exact ht.moves j q
    | false => exact hf.moves j q

theorem expect_bind {k : Unit → Reading β} (hw : bracketsAfter w n = some m)
    (h : Runs (some m) z (k ())) : Runs (some n) z (expect w >>= k) := by
  refine ⟨fun j p => Moves.bind (y := fun _ => some (j + m))
    (ends_onCursor (p.cursor.unplaced_expectSymbol w) fun b q hq => ?_) fun b q _ => h.moves j q⟩
  rcases Cursor.expectSymbol_cases (onCursor_eq_ok hq).1 with ⟨hb, -⟩ | ⟨t, -, hread, his⟩
  · exact absurd rfl hb
  · rintro _ ⟨⟩
    refine ⟨j + n, rfl, .token hread ?_ .stay⟩
    rw [Token.brackets_of_is his, bracketsAfter_add hw j]

end Runs

/-! ### Words -/

/-- Behind a word in front of which `n` brackets are open, `m` are. -/
class Turns (w : String) (n : Nat) (m : outParam Nat) : Prop where
  after : bracketsAfter w n = some m

instance : Turns "(" 0 1 := ⟨rfl⟩
instance : Turns "\x7b" 0 1 := ⟨rfl⟩
instance : Turns ")" 1 0 := ⟨rfl⟩
instance : Turns "]" 1 0 := ⟨rfl⟩
instance : Turns "\x7d" 1 0 := ⟨rfl⟩

section

variable {n : Nat}

instance : Turns "," n n := ⟨rfl⟩
instance : Turns ";" n n := ⟨rfl⟩
instance : Turns ":" n n := ⟨rfl⟩
instance : Turns "." n n := ⟨rfl⟩
instance : Turns "=" n n := ⟨rfl⟩
instance : Turns "=>" n n := ⟨rfl⟩
instance : Turns "var" n n := ⟨rfl⟩
instance : Turns "case" n n := ⟨rfl⟩
instance : Turns "else" n n := ⟨rfl⟩
instance : Turns "while" n n := ⟨rfl⟩
instance : Turns "catch" n n := ⟨rfl⟩
instance : Turns "finally" n n := ⟨rfl⟩

end

section

variable {w : String} {n m : Nat} {z : β → Option Nat}

instance [hw : Turns w n m] {k : Bool → Reading β} [ht : Runs (some m) z (k true)]
    [hf : Runs (some n) z (k false)] : Runs (some n) z (accept w >>= k) :=
  .accept_bind hw.after ht hf

instance [hw : Turns w n m] {k : Unit → Reading β} [h : Runs (some m) z (k ())] :
    Runs (some n) z (expect w >>= k) :=
  .expect_bind hw.after h

/-- A word that is not a bracket can be read or not. -/
instance [Turns w 0 0] : Level (accept w) := by
  rw [← bind_pure (accept w)]
  infer_instance

end

/-- A closing angle bracket is no bracket of the kind that is counted. -/
instance : Level (acceptFront ">") := by
  refine ⟨fun n p => ends_onCursor (p.cursor.unplaced_readSymbolFront ">") fun b q hq => ?_⟩
  have hfront := (onCursor_eq_ok hq).1
  cases b with
  | true =>
    rintro m hm
    exact ⟨m, hm, .front hfront .stay⟩
  | false =>
    rcases Cursor.readSymbolFront_cases hfront with ⟨-, hstill⟩ | ⟨t, e, ⟨⟩, -⟩
    rw [hstill]
    exact .stay

instance (w : String) : Level (peekIs w) := .skip inferInstance

instance : Level atStatementEnd := .skip inferInstance

instance : Level (get : Reading Position) := .still fun _ => rfl

instance : Level atEnd := .skip inferInstance

instance : Level offset := .skip inferInstance

instance {x : Option Nat} {y : α → Option Nat} (w : String) : Runs x y (missing w : Reading α) :=
  .skip inferInstance

instance (w : String) : Level (lookup? w) := .skip inferInstance

instance : Level identifier := by
  refine Runs.token_bind fun t _ => ?_
  split
  · exact .pure (Token.brackets_of_isIdentifier ‹_› 0).symm
  · exact .throw

instance : Level memberName := by
  refine Runs.token_bind fun t ht => ?_
  split
  · exact .pure (ht.brackets ‹_› 0).symm
  · exact .throw

instance {item : Reading α} [Level item] : Level (separated item) := by
  unfold separated
  infer_instance

/-! ## Scopes -/

theorem level_onScopes {f : Scopes → α × Scopes} (h : ∀ s, Scopes.Keeps s (f s).2) :
    Level (onScopes f) :=
  ⟨fun _ p => .of_ok rfl ⟨h p.scopes, rfl⟩ .stay⟩

instance (name : String) (type : Ty) : Level (freshVariable name type) :=
  level_onScopes fun _ => .of_entered rfl rfl

instance (name : String) : Level (freshLabel name) :=
  level_onScopes fun _ => .of_entered rfl rfl

instance (name : String) : Level (onScopes (·.label name)) := by
  refine level_onScopes fun s => ?_
  -- A label that has not been seen is added to the innermost scope, which stays of its kind.
  unfold Scopes.label
  split
  · exact .refl s
  · rename_i hnew
    dsimp only [Scopes.freshLabel]
    cases hentered : s.entered with
    | nil => exact .of_entered rfl hentered.symm
    | cons scope outer =>
      refine ⟨rfl, by rw [hentered]; rfl, by rw [hentered]; rfl, ?_⟩
      rw [hentered]
      exact .cons ⟨_, rfl, List.forall_mem_singleton.2 hnew⟩ (Scopes.labelled_same outer)

instance (name : Token) (type : Ty) : Level (declare name type) := by
  have hget : Level (get : Reading Position) := inferInstance
  refine ⟨fun n p => (hget.moves n p).bind fun p' q hq => ?_⟩
  cases hq
  rcases hdeclare : p.scopes.declare name.word type name.start with e | ⟨v, scopes⟩
  · exact .of_error rfl (.refl _)
  · refine .of_ok rfl ?_ .stay
    unfold Scopes.declare at hdeclare
    split at hdeclare
    · cases hdeclare
    · rename_i scope outer hentered
      split at hdeclare
      · cases hdeclare
      · cases hdeclare
        refine ⟨⟨rfl, by rw [hentered]; rfl, by rw [hentered]; rfl, ?_⟩, rfl⟩
        rw [hentered]
        exact .cons (Scopes.labelled_of_eq rfl) (Scopes.labelled_same outer)

theorem level_modifyLambda {f : Scope → Scope} (hf : ∀ s, (f s).kind = s.kind)
    (hlabels : ∀ s, (f s).labels = s.labels) :
    Level (modify fun p => { p with scopes := p.scopes.modifyLambda f } : Reading Unit) :=
  ⟨fun _ p => .of_ok rfl ⟨⟨rfl, Scopes.kinds_modifyLambda hf p.scopes,
    Scopes.outside_modifyLambda hf p.scopes, Scopes.labelled_modifyLambda hlabels p.scopes⟩, rfl⟩ .stay⟩

end Scriptlet.Reading

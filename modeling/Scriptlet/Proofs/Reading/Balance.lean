import Scriptlet.Proofs.Reading.Steps
import Scriptlet.Reading.Statement

/-!
# Places that are kept

Where a reading is tried, the place of the cursor is kept on a stack, and others may be kept
there below it. `Reading.Balanced r` says that the reading `r`, when it gives something, has
only moved the cursor within its source, with the stack as it was, and that it would do the
same with any other places on the stack.

All readings that are tried are put together from readings of tokens (`Reading.Plain`), types and
heads of lambdas among them, in which further readings are tried. Such readings are balanced
(`Reading.Plain.balanced`). So trying comes to what the reading comes to by itself
(`Reading.attempt_some`), or it leaves the cursor where it was (`Reading.attempt_none`).
-/

namespace Scriptlet

open Text

/-! ## Stacks of places -/

namespace Cursor

variable {w : String}

/-- The cursor without its place. -/
def unplaced (c : Cursor) : Cursor := { c with place := ⟨0, 0⟩ }

/-- The cursor with other places on its stack. -/
def onStack (c : Cursor) (saved : List Place) : Cursor := { c with saved }

variable {c d : Cursor} (saved : List Place)

theorem saved_of_unplaced (h : d.unplaced = c.unplaced) : d.saved = c.saved :=
  (Cursor.mk.inj h).2.2.2.1

/-- Cursors that differ in their places only. -/
theorem moved_of_unplaced (h : d.unplaced = c.unplaced) : { d with place := c.place } = c :=
  congrArg (fun e : Cursor => { e with place := c.place }) h

theorem unplaced_onStack (h : d.unplaced = c.unplaced) :
    (d.onStack saved).unplaced = (c.onStack saved).unplaced :=
  congrArg (fun e : Cursor => { e with saved }) h

/-- The place that was kept last is gone back to. -/
theorem pop_of_push (h : d.unplaced = c.push.unplaced) : d.pop = c := by
  have hsaved : d.saved = c.place :: c.saved := saved_of_unplaced h
  rw [pop, hsaved]
  exact congrArg (fun e : Cursor => { e with place := c.place, saved := c.saved }) h

/-- The place that was kept last is forgotten. -/
theorem discard_of_push (h : d.unplaced = c.push.unplaced) : d.discard = d.onStack c.saved := by
  have hsaved : d.saved = c.place :: c.saved := saved_of_unplaced h
  rw [discard, hsaved]
  rfl

theorem unplaced_read (c : Cursor) (skip : Bool) : (c.read skip).2.unplaced = c.unplaced := rfl

theorem unplaced_of_read {skip : Bool} {x : Except Error Token} (h : c.read skip = (x, d)) :
    d.unplaced = c.unplaced := by
  rw [← unplaced_read c skip, h]

/-- A symbol or reserved word has been read, or the cursor has not moved. -/
theorem readSymbol_cases {x : Except Error Bool} (h : c.readSymbol w = (x, d)) :
    (x ≠ .ok true ∧ d = c) ∨
      ∃ t, x = .ok true ∧ c.read true = (.ok t, d) ∧ t.is w = true := by
  unfold readSymbol at h
  split at h
  · cases h
    exact .inl ⟨nofun, rfl⟩
  · rename_i t _ hread
    split at h
    · cases h
      exact .inr ⟨t, rfl, hread, ‹_›⟩
    · cases h
      exact .inl ⟨nofun, rfl⟩

theorem expectSymbol_cases {x : Except Error Unit} (h : c.expectSymbol w = (x, d)) :
    (x ≠ .ok () ∧ d = c) ∨ ∃ t, x = .ok () ∧ c.read true = (.ok t, d) ∧ t.is w = true := by
  unfold expectSymbol at h
  split at h
  · cases h
    exact .inl ⟨nofun, rfl⟩
  · rename_i t _ hread
    split at h
    · cases h
      exact .inr ⟨t, rfl, hread, ‹_›⟩
    · cases h
      exact .inl ⟨nofun, rfl⟩

/-- The front of a symbol has been read, or all of it, or the cursor has not moved. -/
theorem readSymbolFront_cases {x : Except Error Bool} (h : c.readSymbolFront w = (x, d)) :
    (x ≠ .ok true ∧ d = c) ∨
      ∃ t e, x = .ok true ∧ c.read true = (.ok t, e) ∧
        ((t.is w = true ∧ d = e) ∨
          (t.kind.isSymbol = true ∧ startsWith w.toList t.lexeme = true ∧
            d = { c with place := ⟨t.start - c.base, byteSize w.toList⟩ })) := by
  unfold readSymbolFront at h
  split at h
  · cases h
    exact .inl ⟨nofun, rfl⟩
  · rename_i t hpeek
    split at h
    · rename_i hlonger
      cases h
      rw [Bool.and_eq_true, Bool.and_eq_true] at hlonger
      rcases hread : c.read true with ⟨x, e⟩
      obtain rfl : x = .ok t := by rw [← hpeek, peek, hread]
      exact .inr ⟨t, e, rfl, rfl, .inr ⟨hlonger.1.1, hlonger.2, rfl⟩⟩
    · rcases readSymbol_cases h with hstill | ⟨t', rfl, hread, his⟩
      · exact .inl hstill
      · exact .inr ⟨t', d, rfl, hread, .inl ⟨his, rfl⟩⟩

theorem unplaced_readSymbol (c : Cursor) (w : String) : (c.readSymbol w).2.unplaced = c.unplaced := by
  rcases h : c.readSymbol w with ⟨x, d⟩
  rcases readSymbol_cases h with ⟨-, rfl⟩ | ⟨t, -, hread, -⟩
  · rfl
  · exact unplaced_of_read hread

theorem unplaced_expectSymbol (c : Cursor) (w : String) :
    (c.expectSymbol w).2.unplaced = c.unplaced := by
  rcases h : c.expectSymbol w with ⟨x, d⟩
  rcases expectSymbol_cases h with ⟨-, rfl⟩ | ⟨t, -, hread, -⟩
  · rfl
  · exact unplaced_of_read hread

theorem unplaced_readSymbolFront (c : Cursor) (w : String) :
    (c.readSymbolFront w).2.unplaced = c.unplaced := by
  rcases h : c.readSymbolFront w with ⟨x, d⟩
  rcases readSymbolFront_cases h with ⟨-, rfl⟩ | ⟨t, e, -, hread, ⟨-, rfl⟩ | ⟨-, -, rfl⟩⟩
  · rfl
  · exact unplaced_of_read hread
  · rfl

theorem scan_onStack (c : Cursor) {skip : Bool} {steps index : Nat} {rest : List Char} :
    (c.onStack saved).scan skip steps index rest = c.scan skip steps index rest := by
  induction steps generalizing index rest with
  | zero => cases rest <;> rfl
  | succ steps ih =>
    cases rest with
    | nil => rfl
    | cons d rest =>
      rw [scan, scan]
      simp only [ih]
      rfl

theorem read_onStack (c : Cursor) (skip : Bool) :
    (c.onStack saved).read skip = ((c.read skip).1, (c.read skip).2.onStack saved) := by
  unfold read
  dsimp only
  rw [scan_onStack]
  rfl

theorem peek_onStack (c : Cursor) : (c.onStack saved).peek = c.peek := by
  rw [peek, read_onStack]
  rfl

theorem readSymbol_onStack (c : Cursor) (w : String) :
    (c.onStack saved).readSymbol w = ((c.readSymbol w).1, (c.readSymbol w).2.onStack saved) := by
  unfold readSymbol
  rw [read_onStack]
  rcases c.read true with ⟨e | t, d⟩
  · rfl
  · dsimp only
    split <;> rfl

theorem readSymbolFront_onStack (c : Cursor) (w : String) :
    (c.onStack saved).readSymbolFront w =
      ((c.readSymbolFront w).1, (c.readSymbolFront w).2.onStack saved) := by
  unfold readSymbolFront
  rw [peek_onStack]
  rcases c.peek with e | t
  · rfl
  · dsimp only
    split
    · rfl
    · exact c.readSymbol_onStack saved w

end Cursor

/-- The position with other places on the stack of its cursor. -/
def Position.onStack (p : Position) (saved : List Place) : Position :=
  { p with cursor := p.cursor.onStack saved }

/-- The position with the place of its cursor kept. -/
def Position.push (p : Position) : Position := { p with cursor := p.cursor.push }

namespace Reading

variable {α β : Type} {a : α}

theorem attempt_eq (r : Reading (Option α)) (p : Position) :
    attempt r p =
      match r p.push with
      | .ok (some a) q => .ok (some a) { q with cursor := q.cursor.discard }
      | .ok none q => .ok none { q with cursor := q.cursor.pop }
      | .error e q => .error e q := by
  have hpush : onPlace Cursor.push p = .ok () p.push := rfl
  unfold attempt
  rw [bind_ok hpush]
  rcases hr : r p.push with ⟨_ | a, q⟩ | ⟨e, q⟩
  · rw [bind_ok hr]
    rfl
  · rw [bind_ok hr]
    rfl
  · rw [bind_error hr]

theorem ahead_eq (r : Reading α) (p : Position) :
    ahead r p =
      match r p.push with
      | .ok a q => .ok a { q with cursor := q.cursor.pop }
      | .error e q => .error e q := by
  have hpush : onPlace Cursor.push p = .ok () p.push := rfl
  unfold ahead
  rw [bind_ok hpush]
  rcases hr : r p.push with ⟨a, q⟩ | ⟨e, q⟩
  · rw [bind_ok hr]
    rfl
  · rw [bind_error hr]

/-! ## Balanced readings -/

/-- A reading that only moves the cursor, and that does not depend on the places on the
    stack of the cursor. -/
def Balanced (r : Reading α) : Prop :=
  ∀ p a q, r p = .ok a q →
    q.cursor.unplaced = p.cursor.unplaced ∧ ∀ saved, r (p.onStack saved) = .ok a (q.onStack saved)

namespace Balanced

variable {r : Reading α} {k : α → Reading β}

theorem pure : Balanced (Pure.pure a : Reading α) := by
  rintro p _ q ⟨⟩
  exact ⟨rfl, fun _ => rfl⟩

theorem throw {e : Error} : Balanced (throw e : Reading α) := fun _ _ _ h => nomatch h

theorem bind (hr : Balanced r) (hk : ∀ a, Balanced (k a)) : Balanced (r >>= k) := by
  intro p b q h
  rcases hp : r p with ⟨a, p'⟩ | ⟨e, p'⟩
  · rw [bind_ok hp] at h
    obtain ⟨hunplaced, hstack⟩ := hr p a p' hp
    obtain ⟨hunplaced', hstack'⟩ := hk a p' b q h
    exact ⟨hunplaced'.trans hunplaced, fun saved => (bind_ok (hstack saved)).trans (hstack' saved)⟩
  · rw [bind_error hp] at h
    cases h

/-- What is seen of the position does not depend on the stack. -/
theorem look {f : Position → α} (hf : ∀ p saved, f (p.onStack saved) = f p)
    (hk : ∀ a, Balanced (k a)) : Balanced (get >>= fun p => k (f p)) := by
  intro p b q h
  rw [bind_ok (rfl : (get : Reading Position) p = .ok p p)] at h
  obtain ⟨hunplaced, hstack⟩ := hk (f p) p b q h
  refine ⟨hunplaced, fun saved => ?_⟩
  rw [bind_ok (rfl : (get : Reading Position) (p.onStack saved) = .ok _ (p.onStack saved)), hf]
  exact hstack saved

theorem onCursor {f : Cursor → Except Error α × Cursor}
    (hunplaced : ∀ c, (f c).2.unplaced = c.unplaced)
    (hstack : ∀ saved c, f (c.onStack saved) = ((f c).1, (f c).2.onStack saved)) :
    Balanced (Reading.onCursor f) := by
  intro p a q h
  have hp := hunplaced p.cursor
  rcases hf : f p.cursor with ⟨e | b, d⟩
  · simp only [Reading.onCursor, hf] at h
    cases h
  · simp only [Reading.onCursor, hf] at h
    cases h
    rw [hf] at hp
    refine ⟨hp, fun saved => onCursor_ok ?_⟩
    rw [hstack, hf]

theorem moveTo {place : Place} : Balanced (Reading.moveTo place) := by
  rintro p _ q ⟨⟩
  exact ⟨rfl, fun _ => rfl⟩

theorem of_push {p q : Position} (hr : Balanced r) (h : r p.push = .ok a q) :
    r p = .ok a (q.onStack p.cursor.saved) :=
  (hr _ a q h).2 p.cursor.saved

end Balanced

/-! ## Going back -/

section GoingBack

variable {c d : Cursor} {s s' : Scopes} {p q : Position} {r : Reading α} {a : α}

/-- With its place on the stack, a reading does what it does by itself. -/
theorem Balanced.push (hr : Balanced r) (h : r p = .ok a q) :
    r p.push = .ok a (q.onStack (p.cursor.place :: p.cursor.saved)) :=
  (hr p a q h).2 _

theorem Balanced.attempt_some {r : Reading (Option α)} (hr : Balanced r)
    (h : r p = .ok (some a) q) : attempt r p = .ok (some a) q := by
  have hpush := hr.push h
  rw [attempt_eq, hpush]
  dsimp only
  rw [Cursor.discard_of_push (hr _ _ _ hpush).1, ← Cursor.saved_of_unplaced (hr p _ q h).1]
  rfl

/-- A reading that declines leaves the cursor where it was. -/
theorem Balanced.attempt_none {r : Reading (Option α)} (hr : Balanced r)
    (h : r ⟨c, s⟩ = .ok none ⟨d, s'⟩) : attempt r ⟨c, s⟩ = .ok none ⟨c, s'⟩ := by
  have hpush := hr.push h
  rw [attempt_eq, hpush]
  dsimp only
  rw [Cursor.pop_of_push (c := c) (hr _ _ _ hpush).1]
  rfl

theorem Balanced.ahead_ok (hr : Balanced r) (h : r ⟨c, s⟩ = .ok a ⟨d, s'⟩) :
    ahead r ⟨c, s⟩ = .ok a ⟨c, s'⟩ := by
  have hpush := hr.push h
  rw [ahead_eq, hpush]
  dsimp only
  rw [Cursor.pop_of_push (c := c) (hr _ _ _ hpush).1]
  rfl

namespace Balanced

theorem attempt {r : Reading (Option α)} (hr : Balanced r) : Balanced (attempt r) := by
  intro p o q h
  rcases hpush : r p.push with ⟨o', q'⟩ | ⟨e, q'⟩
  · -- What is known of the reading with the place on the stack holds of it without the place.
    have hp := hr.of_push hpush
    obtain ⟨hunplaced, hstack⟩ := hr p o' _ hp
    cases o' with
    | none =>
      rw [hr.attempt_none hp] at h
      cases h
      exact ⟨rfl, fun saved => hr.attempt_none (hstack saved)⟩
    | some a =>
      rw [hr.attempt_some hp] at h
      cases h
      exact ⟨hunplaced, fun saved => hr.attempt_some (hstack saved)⟩
  · rw [attempt_eq, hpush] at h
    cases h

theorem ahead (hr : Balanced r) : Balanced (ahead r) := by
  intro p a q h
  rcases hpush : r p.push with ⟨a', q'⟩ | ⟨e, q'⟩
  · have hp := hr.of_push hpush
    rw [hr.ahead_ok hp] at h
    cases h
    exact ⟨rfl, fun saved => hr.ahead_ok ((hr p a _ hp).2 saved)⟩
  · rw [ahead_eq, hpush] at h
    cases h

theorem iterateWithin {round : α → Reading (Round α β)} (hround : ∀ a, Balanced (round a))
    (rounds : Nat) : ∀ a, Balanced (Reading.iterateWithin round rounds a) := by
  induction rounds with
  | zero =>
    have hoffset : Balanced offset := look (f := (·.cursor.offset)) (fun _ _ => rfl) fun _ => pure
    exact fun a => hoffset.bind fun _ => throw
  | succ rounds ih =>
    intro a
    refine (hround a).bind fun next => ?_
    cases next with
    | again a' => exact ih a'
    | done b => exact pure

theorem iterate {round : α → Reading (Round α β)} (hround : ∀ a, Balanced (round a)) :
    Balanced (Reading.iterate round a) :=
  look (f := fun p => p.cursor.remaining.length + 1) (fun _ _ => rfl) fun n =>
    iterateWithin hround n a

end Balanced

end GoingBack

/-! ## Plain readings -/

/-- A reading that is put together from readings of tokens. It may look at the position, but for
    the places on the stack, and go to another place. -/
inductive Plain : {α : Type} → Reading α → Prop
  | pure {α : Type} {a : α} : Plain (Pure.pure a : Reading α)
  | throw {α : Type} {e : Error} : Plain (throw e : Reading α)
  | bind {α β : Type} {r : Reading α} {k : α → Reading β} (hr : Plain r) (hk : ∀ a, Plain (k a)) :
      Plain (r >>= k)
  | look {α β : Type} {f : Position → α} {k : α → Reading β}
      (hf : ∀ p saved, f (p.onStack saved) = f p) (hk : ∀ a, Plain (k a)) :
      Plain (get >>= fun p => k (f p))
  | onCursor {α : Type} {f : Cursor → Except Error α × Cursor}
      (hunplaced : ∀ c, (f c).2.unplaced = c.unplaced)
      (hstack : ∀ saved c, f (c.onStack saved) = ((f c).1, (f c).2.onStack saved)) :
      Plain (onCursor f)
  | moveTo {place : Place} : Plain (moveTo place)
  | attempt {α : Type} {r : Reading (Option α)} (hr : Plain r) : Plain (attempt r)
  | ahead {α : Type} {r : Reading α} (hr : Plain r) : Plain (ahead r)
  | iterate {α β : Type} {round : α → Reading (Round α β)} {a : α} (h : ∀ a, Plain (round a)) :
      Plain (iterate round a)

attribute [class] Plain

namespace Plain

theorem balanced {r : Reading α} [h : Plain r] : Balanced r := by
  induction h with
  | pure => exact .pure
  | throw => exact .throw
  | bind _ _ ihr ihk => exact ihr.bind ihk
  | look hf _ ihk => exact .look hf ihk
  | onCursor hunplaced hstack => exact .onCursor hunplaced hstack
  | moveTo => exact .moveTo
  | attempt _ ih => exact ih.attempt
  | ahead _ ih => exact ih.ahead
  | iterate _ ih => exact .iterate ih

attribute [instance] pure throw moveTo

section

variable {r : Reading α} {k : α → Reading β}

theorem followed [hr : Plain r] (hk : ∀ a, Plain (k a)) : Plain (r >>= k) := .bind hr hk

instance [Plain r] [hk : ∀ a, Plain (k a)] : Plain (r >>= k) := .followed hk

instance [hr : Plain r] : Plain (Reading.ahead r) := .ahead hr

instance {r : Reading (Option α)} [hr : Plain r] : Plain (Reading.attempt r) := .attempt hr

instance {round : α → Reading (Round α β)} [h : ∀ a, Plain (round a)] :
    Plain (Reading.iterate round a) := .iterate h

instance {f : α → β} [hr : Plain r] : Plain (f <$> r) := by
  rw [map_eq_pure_bind]
  infer_instance

instance {x : Except Error α} : Plain (ofExcept x : Reading α) := by
  cases x with
  | error e => exact .throw
  | ok a => exact .pure

instance {c : Prop} [Decidable c] {r r' : Reading α} [Plain r] [Plain r'] :
    Plain (if c then r else r') := by
  split <;> assumption

end

end Plain

section

variable {r : Reading (Option α)} {c d : Cursor} {s s' : Scopes} {p q : Position}

theorem attempt_some [Plain r] (h : r p = .ok (some a) q) : attempt r p = .ok (some a) q :=
  Plain.balanced.attempt_some h

theorem attempt_none [Plain r] (h : r ⟨c, s⟩ = .ok none ⟨d, s'⟩) :
    attempt r ⟨c, s⟩ = .ok none ⟨c, s'⟩ :=
  Plain.balanced.attempt_none h

theorem ahead_ok {r : Reading α} [Plain r] (h : r ⟨c, s⟩ = .ok a ⟨d, s'⟩) :
    ahead r ⟨c, s⟩ = .ok a ⟨c, s'⟩ :=
  Plain.balanced.ahead_ok h

theorem cursor_of_attempt [Plain r] (h : attempt r p = .ok none q) : q.cursor = p.cursor := by
  rw [attempt_eq] at h
  rcases hpush : r p.push with ⟨_ | a, q'⟩ | ⟨e, q'⟩ <;> rw [hpush] at h <;> cases h
  exact Cursor.pop_of_push (Plain.balanced _ _ _ hpush).1

/-- Within a source, the cursor is where its place is. -/
theorem moveTo_ok (h : d.unplaced = c.unplaced) : moveTo c.place ⟨d, s⟩ = .ok () ⟨c, s⟩ := by
  have hmoved : moveTo c.place ⟨d, s⟩ = .ok () ⟨{ d with place := c.place }, s⟩ := rfl
  rw [hmoved, Cursor.moved_of_unplaced h]

end

/-! ## Tokens -/

instance : Plain token :=
  .onCursor (fun c => c.unplaced_read true) fun saved c => c.read_onStack saved true

instance (w : String) : Plain (accept w) :=
  .onCursor (fun c => c.unplaced_readSymbol w) fun saved c => c.readSymbol_onStack saved w

instance (w : String) : Plain (acceptFront w) :=
  .onCursor (fun c => c.unplaced_readSymbolFront w) fun saved c => c.readSymbolFront_onStack saved w

instance : Plain peek :=
  .look (f := (·.cursor.peek)) (fun p saved => p.cursor.peek_onStack saved) inferInstance

instance : Plain here := .look (f := (·.cursor.place)) (fun _ _ => rfl) inferInstance

instance : Plain offset := .look (f := (·.cursor.offset)) (fun _ _ => rfl) inferInstance

instance (w : String) : Plain (peekIs w) := by
  unfold peekIs
  infer_instance

/-! ## Types -/

instance : Plain declaresNext := by
  unfold declaresNext
  infer_instance

/-- The reading of a question mark that is tried as that of a type. -/
abbrev markTrial : Reading (Option Unit) := do
  let _ ← token
  let closes := closesType (← peek)
  let declares ← declaresNext
  pure (if closes || declares then some () else none)

/-- The reading of a point and a name behind it. -/
abbrev nextPart : Reading (Option Token) :=
  attempt do
    if ← accept "." then
      let t ← token
      pure (if t.kind.isIdentifier then some t else none)
    else pure none

instance : Plain markTrial := .followed fun _ => .followed fun _ => .followed inferInstance

instance : Plain missingMark := by
  unfold missingMark
  infer_instance

instance : Plain arrayBrackets := by
  unfold arrayBrackets
  infer_instance

instance (t : Ty) : Plain (typeMarks t) := by
  refine .iterate fun t => .followed fun b => ?_
  split
  · infer_instance
  · exact .followed fun rank => by cases rank <;> infer_instance

section

variable {inner : Reading (Option Ty)} [Plain inner] (d : Directory)

instance plain_typeList : Plain (do
    let _ ← token
    iterate (fun args => do
      match ← inner with
      | none => pure (.done none)
      | some t =>
        if ← accept "," then pure (.again (args ++ [t]))
        else if ← acceptFront ">" then pure (.done (some (args ++ [t])))
        else pure (.done none)) ([] : List Ty)) := by
  refine .followed fun _ => .iterate fun args => .followed fun o => ?_
  cases o <;> infer_instance

instance : Plain (typeArguments inner) := by
  unfold typeArguments
  infer_instance

instance (first : Token) : Plain (typeNameAfter d inner first) := by
  refine .iterate fun part => .followed fun o => ?_
  cases o with
  | some args => infer_instance
  | none => exact .followed fun best => .followed fun next => by cases next <;> infer_instance

instance (first : Token) : Plain (typeAfterWith d inner first) := by
  refine .followed fun entry => .followed fun o => ?_
  cases o <;> infer_instance

instance : Plain (typeNameWith d inner) := by
  unfold typeNameWith
  infer_instance

end

instance (d : Directory) (depth : Nat) : Plain (typeWithin d depth) := by
  -- The arguments of a type are read one level below it.
  induction depth with
  | zero => exact .pure
  | succ depth ih =>
    have hvalue : ∀ w, Plain (namesValue d w) := fun w =>
      .bind (.look (f := fun p => p.scopes.lookup? w) (fun _ _ => rfl) inferInstance) inferInstance
    unfold typeWithin
    infer_instance

section

variable (d : Directory)

instance : Plain typeDepth :=
  .look (f := fun p => p.cursor.remaining.length + 1) (fun _ _ => rfl) inferInstance

instance : Plain (type? d) := by
  unfold type?
  infer_instance

instance : Plain (typeArguments? d) := by
  unfold typeArguments?
  infer_instance

instance (first : Token) : Plain (typeAfter? d first) := by
  unfold typeAfter?
  infer_instance

instance : Plain (requiredType d) :=
  .followed fun _ => .followed fun _ => .followed fun t => by cases t <;> infer_instance

instance (name : String) : Plain (namedType d name) := by
  unfold namedType
  split <;> infer_instance

/-! ## Heads -/

instance : Plain (parameter d) := by
  refine .followed fun first => ?_
  split
  · infer_instance
  · refine .followed fun next => ?_
    split
    · infer_instance
    · exact .followed fun t => by cases t <;> infer_instance

instance : Plain (parameters d) := by
  refine .followed fun b => ?_
  split
  · infer_instance
  · exact .iterate fun params => .followed fun p => by cases p <;> infer_instance

instance plain_headTrial : Plain (do
    match ← parameters d with
    | none => pure none
    | some params => do pure (if ← accept "=>" then some params else none)) :=
  .followed fun o => by cases o <;> infer_instance

instance : Plain (headRest d) := by
  unfold headRest
  infer_instance

instance : Plain (head d) := by
  unfold head
  infer_instance

instance : Plain skipBody := by
  unfold skipBody
  infer_instance

end

end Reading

namespace Grammar

open Reading

variable (g : Grammar)

instance plain_castTrial : Plain (do
    match ← type? g.directory with
    | some t =>
      if ← accept ")" then pure (if startsOperand (← peek) then some t else none)
      else pure none
    | none => pure none) :=
  .followed fun o => by cases o <;> infer_instance

instance : Plain g.castTarget := by
  unfold castTarget
  infer_instance

instance plain_explicitTrial : Plain (do
    match ← typeArguments? g.directory with
    | some args => do pure (if ← peekIs "(" then some args else none)
    | none => pure none) :=
  .followed fun o => by cases o <;> infer_instance

instance : Plain g.explicitTypes := by
  unfold explicitTypes
  infer_instance

instance : Plain labelName := by
  unfold labelName
  infer_instance

end Grammar

end Scriptlet

import Scriptlet.Proofs.Token.Sequence
import Scriptlet.Reading.Basic

/-!
# What a reading comes to

`Reading.Gives r p x q` says what the reading `r` comes to from the position `p`: if `x` is
a value, the reading gives it and ends at `q`; if there is none, the reading fails. So a
reading and a function that says what it should give, or that there is nothing to give,
are compared step by step (`Reading.Gives.bind`).

The readings of single tokens are determined by what the cursor reads.
-/

namespace Scriptlet.Reading

variable {α β : Type} {k : α → Reading β}

/-! ## Readings put together -/

theorem bind_ok {r : Reading α} {p q : Position} {a : α}
    (h : r p = .ok a q) : (r >>= k) p = k a q := by
  change EStateM.bind r k p = _
  rw [EStateM.bind, h]

theorem bind_error {r : Reading α} {p q : Position} {e : Error}
    (h : r p = .error e q) : (r >>= k) p = .error e q := by
  change EStateM.bind r k p = _
  rw [EStateM.bind, h]

/-- What a reading comes to: a value and the position behind it, or a failure. -/
def Gives (r : Reading α) (p : Position) (x : Option α) (q : Position) : Prop :=
  match x with
  | some a => r p = .ok a q
  | none => ∃ e q', r p = .error e q'

namespace Gives

variable {p q q' : Position} {r : Reading α} {x : Option α}

theorem of_eq {r' : Reading α} {p' : Position} (h : r p = r' p') (hr : Gives r' p' x q) :
    Gives r p x q := by
  cases x with
  | none =>
    obtain ⟨e, q', he⟩ := hr
    exact ⟨e, q', h.trans he⟩
  | some a => exact h.trans hr

/-- The rest of a reading whose values come from others. -/
theorem bind_map {γ : Type} {y : Option γ} {m : γ → α} {f : γ → Option β}
    (h : Gives r p (y.map m) q) (hk : ∀ a, y = some a → Gives (k (m a)) q (f a) q') :
    Gives (r >>= k) p (y.bind f) q' := by
  cases y with
  | none =>
    obtain ⟨e, q₁, he⟩ := h
    exact ⟨e, q₁, bind_error he⟩
  | some a => exact (hk a rfl).of_eq (bind_ok h)

/-- The rest of a reading is that of the values it goes on with. -/
theorem bind {f : α → Option β} (h : Gives r p x q)
    (hk : ∀ a, x = some a → Gives (k a) q (f a) q') : Gives (r >>= k) p (x.bind f) q' :=
  bind_map (m := id) (by rwa [Option.map_id]) hk

theorem map {f : α → β} (h : Gives r p x q) : Gives (f <$> r) p (x.map f) q := by
  change Gives (EStateM.map f r) p _ _
  cases x with
  | none =>
    obtain ⟨e, q₁, he⟩ := h
    exact ⟨e, q₁, by rw [EStateM.map, he]⟩
  | some a =>
    have ha : r p = .ok a q := h
    change EStateM.map f r p = .ok (f a) q
    rw [EStateM.map, ha]

theorem ofExcept {y : Except Error α} : Gives (ofExcept y : Reading α) p y.toOption p := by
  cases y with
  | error e => exact ⟨e, p, rfl⟩
  | ok a => rfl

end Gives

/-! ## Single tokens -/

section Tokens

variable {c d : Cursor} {s : Scopes} {t : Token} {w : String}

theorem onCursor_ok {f : Cursor → Except Error α × Cursor} {a : α} (h : f c = (.ok a, d)) :
    onCursor f ⟨c, s⟩ = .ok a ⟨d, s⟩ := by
  unfold onCursor
  dsimp only
  rw [h]

theorem token_ok (h : c.read true = (.ok t, d)) : token ⟨c, s⟩ = .ok t ⟨d, s⟩ := onCursor_ok h

theorem peek_ok (h : c.peek = .ok t) : peek ⟨c, s⟩ = .ok t ⟨c, s⟩ := by
  unfold peek
  rw [bind_ok (rfl : (get : Reading Position) ⟨c, s⟩ = .ok ⟨c, s⟩ ⟨c, s⟩), h]
  rfl

theorem peekIs_ok (w : String) (h : c.peek = .ok t) : peekIs w ⟨c, s⟩ = .ok (t.is w) ⟨c, s⟩ := by
  unfold peekIs
  rw [bind_ok (peek_ok h)]
  rfl

theorem atEnd_ok (h : c.peek = .ok t) : atEnd ⟨c, s⟩ = .ok t.isEof ⟨c, s⟩ := by
  unfold atEnd
  rw [bind_ok (rfl : (get : Reading Position) ⟨c, s⟩ = .ok ⟨c, s⟩ ⟨c, s⟩), Cursor.atEnd, h]
  rfl

theorem accept_true (h : c.read true = (.ok t, d)) (hw : t.is w = true) :
    accept w ⟨c, s⟩ = .ok true ⟨d, s⟩ := by
  refine onCursor_ok ?_
  unfold Cursor.readSymbol
  rw [h]
  exact if_pos hw

theorem accept_false (h : c.peek = .ok t) (hw : t.is w = false) :
    accept w ⟨c, s⟩ = .ok false ⟨c, s⟩ := by
  refine onCursor_ok ?_
  unfold Cursor.readSymbol
  unfold Cursor.peek at h
  rcases hr : c.read true with ⟨x, d⟩
  rw [hr] at h
  obtain rfl : x = .ok t := h
  exact if_neg (Bool.eq_false_iff.mp hw)

theorem expect_ok (h : c.read true = (.ok t, d)) (hw : t.is w = true) :
    expect w ⟨c, s⟩ = .ok () ⟨d, s⟩ := by
  refine onCursor_ok ?_
  unfold Cursor.expectSymbol
  rw [h]
  exact if_pos hw

end Tokens

/-! ## Rounds -/

section Rounds

variable {round : α → Reading (Round α β)} {p q : Position} {a a' : α} {b : β}

theorem iterate_eq (round : α → Reading (Round α β)) (a : α) (p : Position) :
    iterate round a p = iterateWithin round (p.cursor.remaining.length + 1) a p := by
  unfold iterate
  rw [bind_ok (rfl : (get : Reading Position) p = .ok p p)]

theorem iterateWithin_again (n : Nat) (h : round a p = .ok (.again a') q) :
    iterateWithin round (n + 1) a p = iterateWithin round n a' q := by
  rw [iterateWithin, bind_ok h]

theorem iterateWithin_done (n : Nat) (h : round a p = .ok (.done b) q) :
    iterateWithin round (n + 1) a p = .ok b q := by
  rw [iterateWithin, bind_ok h]
  rfl

theorem iterateWithin_error (n : Nat) {e : Error} (h : round a p = .error e q) :
    iterateWithin round (n + 1) a p = .error e q := by
  rw [iterateWithin, bind_error h]

/-- A repetition that is done in its first round. -/
theorem iterate_done (h : round a p = .ok (.done b) q) : iterate round a p = .ok b q := by
  rw [iterate_eq, iterateWithin_done _ h]

/-- Where there is one item and then no more, it is the only one that is gathered. -/
theorem Gives.gather_one {item : Reading (Option α)} {x : Option α}
    (h : Gives item p (x.map some) q) (hend : item q = .ok none q)
    (hleft : 0 < p.cursor.remaining.length) :
    Gives (gather item) p (x.map fun a => [a]) q := by
  obtain ⟨k, hk⟩ : ∃ k, p.cursor.remaining.length = k + 1 := ⟨p.cursor.remaining.length - 1, by omega⟩
  have hreverse : (x.map fun a => [a]) = (x.bind fun a => some [a]).map List.reverse := by
    cases x <;> rfl
  rw [hreverse]
  refine Gives.map (Gives.of_eq (iterate_eq _ _ p) ?_)
  rw [hk, iterateWithin]
  refine Gives.bind_map (m := fun a => Round.again [a]) (q := q) ?_ fun a _ => ?_
  · rw [Option.map_eq_bind]
    exact h.bind_map fun a _ => rfl
  · refine iterateWithin_done k ?_
    exact bind_ok hend

end Rounds

end Scriptlet.Reading

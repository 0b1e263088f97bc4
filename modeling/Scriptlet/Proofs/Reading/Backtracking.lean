import Scriptlet.Proofs.Reading.Balance

/-!
# Going back is exact

A cursor is asked for tokens and symbols one after another, whatever the answers are, and some of
the requests are made on trial: behind them the cursor goes back, or forgets that it could
(`Cursor.Requests`). Whatever has been asked since a place was kept, failures among it, going back
leads to the very cursor that kept the place, with its stack. What is asked then has the answers
that it would have had (`Cursor.run_tried`).
-/

namespace Scriptlet.Cursor

/-- One thing that a cursor is asked for. -/
inductive Request
  | token (skip : Bool)
  | peek
  | symbol (expected : String)
  | expected (expected : String)
  | symbolFront (expected : String)
  | atEnd

/-- What there is in answer to a request. -/
inductive Reply
  | token (t : Token)
  | truth (b : Bool)
  | done

/-- The answer to a request, and the cursor behind it. -/
def answer (c : Cursor) : Request → Except Error Reply × Cursor
  | .token skip => (.token <$> (c.read skip).1, (c.read skip).2)
  | .peek => (.token <$> c.peek, c)
  | .symbol w => (.truth <$> (c.readSymbol w).1, (c.readSymbol w).2)
  | .expected w => ((fun _ => .done) <$> (c.expectSymbol w).1, (c.expectSymbol w).2)
  | .symbolFront w => (.truth <$> (c.readSymbolFront w).1, (c.readSymbolFront w).2)
  | .atEnd => (.truth <$> c.atEnd, c)

/-- Requests in their order. A group of them may be tried: the place in front of it is kept, and
    behind it the cursor goes back there or forgets the place. -/
inductive Requests
  | none
  | ask (r : Request) (rest : Requests)
  | group (tried : Requests) (back : Bool) (rest : Requests)

/-- The answers to requests, and the cursor behind them. -/
def run (c : Cursor) : Requests → List (Except Error Reply) × Cursor
  | .none => ([], c)
  | .ask r rest => ((c.answer r).1 :: ((c.answer r).2.run rest).1, ((c.answer r).2.run rest).2)
  | .group tried back rest =>
    let behind := (c.push.run tried).2
    let next := if back then behind.pop else behind.discard
    ((c.push.run tried).1 ++ (next.run rest).1, (next.run rest).2)

theorem unplaced_answer (c : Cursor) (r : Request) : (c.answer r).2.unplaced = c.unplaced := by
  cases r with
  | token skip => exact c.unplaced_read skip
  | peek => rfl
  | symbol w => exact c.unplaced_readSymbol w
  | expected w => exact c.unplaced_expectSymbol w
  | symbolFront w => exact c.unplaced_readSymbolFront w
  | atEnd => rfl

/-- Requests move the cursor, and nothing else. -/
theorem unplaced_run (c : Cursor) (rs : Requests) : (c.run rs).2.unplaced = c.unplaced := by
  induction rs generalizing c with
  | none => rfl
  | ask r rest ih => exact (ih _).trans (c.unplaced_answer r)
  | group tried back rest ihtried ihrest =>
    refine (ihrest _).trans ?_
    have htried := ihtried c.push
    cases back with
    | true => exact congrArg unplaced (pop_of_push htried)
    | false =>
      rw [if_neg Bool.false_ne_true, discard_of_push htried]
      exact (unplaced_onStack c.saved htried).trans rfl

/-- Going back behind requests leads to the cursor that kept the place, so that what is asked next
    is answered as if they had not been made. -/
theorem run_tried (c : Cursor) (tried rest : Requests) :
    (c.push.run tried).2.pop = c ∧
      c.run (.group tried true rest) = ((c.push.run tried).1 ++ (c.run rest).1, (c.run rest).2) := by
  have hback : (c.push.run tried).2.pop = c := pop_of_push (c.push.unplaced_run tried)
  refine ⟨hback, ?_⟩
  rw [run, if_pos rfl, hback]

end Scriptlet.Cursor

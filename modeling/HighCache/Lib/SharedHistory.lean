import Mathlib.Data.List.Basic
import Mathlib.Tactic.Common

/-!
# Histories of a shared object

Several clients call one object, and each call is atomic, so that there is a history: the calls of
all in one order. A client that is looked at alone takes `Turn`s: before each of its calls come some
calls of others, and something is decided around it. `turns` reads the turns of a client off a
history, and `since` the calls that come after the last of them.

A history is made longer by a client that takes some turns (`items`). Its own turns are then longer
by these, the first of them later than it would have been (`delay`); to every other client they are
calls of others.

## Two readings of one history

A client that is looked at alone needs to know of the others only which calls they have made, and in
which order with respect to its own. That is a list of turns. Looked at together, the clients need
one history. The functions here go back and forth between the two, and the theorems say that nothing
is lost on the way: appending to the history appends to the turns, with the calls of the others that
had come since carried over in `lag`.
-/

/-! ## Turns and histories -/

namespace SharedHistory

variable {ι ε κ : Type}

/-- A call of a client, after calls of others. -/
structure Turn (ι ε : Type) where
  others : List ι
  env : ε
  call : ι

/-- An entry of a history. -/
inductive Occurrence (κ ι ε : Type) where
  | other (call : ι)
  | own (client : κ) (env : ε) (call : ι)

/-- The call of an entry. -/
def Occurrence.call : Occurrence κ ι ε → ι
  | .other call => call
  | .own _ _ call => call

/-- What was decided around a call of the clients that `p` picks. -/
def Occurrence.envOf (p : κ → Bool) : Occurrence κ ι ε → Option ε
  | .other _ => none
  | .own client env _ => if p client then some env else none

/-- All calls in some turns. -/
def calls (ts : List (Turn ι ε)) : List ι := ts.flatMap fun t ↦ t.others ++ [t.call]

/-- Turns that come after more calls of others. -/
def delay (lag : List ι) : List (Turn ι ε) → List (Turn ι ε)
  | [] => []
  | t :: ts => { t with others := lag ++ t.others } :: ts

/-- The entries for some turns of a client. -/
def items (client : κ) (ts : List (Turn ι ε)) : List (Occurrence κ ι ε) :=
  ts.flatMap fun t ↦ t.others.map .other ++ [.own client t.env t.call]

/-- The turns of some clients, `lag` before the first. -/
def turns (p : κ → Bool) (lag : List ι) : List (Occurrence κ ι ε) → List (Turn ι ε)
  | [] => []
  | item :: history =>
    match item.envOf p with
    | some env => ⟨lag, env, item.call⟩ :: turns p [] history
    | none => turns p (lag ++ [item.call]) history

/-- The calls after the last turn. -/
def since (p : κ → Bool) (lag : List ι) : List (Occurrence κ ι ε) → List ι
  | [] => lag
  | item :: history =>
    match item.envOf p with
    | some _ => since p [] history
    | none => since p (lag ++ [item.call]) history

variable {p : κ → Bool} {lag : List ι} {client : κ}

/-! ## Calls and entries -/

theorem calls_cons (t : Turn ι ε) (ts : List (Turn ι ε)) :
    calls (t :: ts) = t.others ++ [t.call] ++ calls ts :=
  List.flatMap_cons

theorem items_cons (t : Turn ι ε) (ts : List (Turn ι ε)) : items client (t :: ts)
    = t.others.map .other ++ .own client t.env t.call :: items client ts := by
  rw [items, List.flatMap_cons, List.append_assoc]
  rfl

theorem calls_append (ts us : List (Turn ι ε)) : calls (ts ++ us) = calls ts ++ calls us :=
  List.flatMap_append

theorem map_call_items (ts : List (Turn ι ε)) :
    (items client ts).map Occurrence.call = calls ts := by
  induction ts with
  | nil => rfl
  | cons t ts ih =>
    rw [items_cons, List.map_append, List.map_cons, ih, List.map_map, calls_cons, List.append_assoc]
    exact congrArg (· ++ _) (List.map_id _)

theorem delay_nil (ts : List (Turn ι ε)) : delay [] ts = ts := by
  cases ts <;> rfl

theorem delay_append_of_ne {ts : List (Turn ι ε)} (h : ts ≠ []) (us : List (Turn ι ε)) :
    delay lag (ts ++ us) = delay lag ts ++ us := by
  cases ts with
  | nil => exact absurd rfl h
  | cons t ts => rfl

/-! ## Reading a longer history -/

theorem turns_append (history more : List (Occurrence κ ι ε)) : ∀ lag : List ι,
    turns p lag (history ++ more) = turns p lag history ++ turns p (since p lag history) more := by
  induction history with
  | nil => exact fun _ ↦ rfl
  | cons item history ih =>
    intro lag
    rw [List.cons_append, turns, turns, since]
    cases item.envOf p with
    | none => exact ih _
    | some env => exact congrArg (_ :: ·) (ih _)

theorem since_append (history more : List (Occurrence κ ι ε)) : ∀ lag : List ι,
    since p lag (history ++ more) = since p (since p lag history) more := by
  induction history with
  | nil => exact fun _ ↦ rfl
  | cons item history ih =>
    intro lag
    rw [List.cons_append, since, since]
    cases item.envOf p with
    | none => exact ih _
    | some env => exact ih _

/-! ## Whose calls they are

The same entries are read differently by the client that made the calls and by the others. -/

/-- Calls of others are no turns. -/
theorem turns_other (others : List ι) (history : List (Occurrence κ ι ε)) : ∀ lag : List ι,
    turns p lag (others.map .other ++ history) = turns p (lag ++ others) history := by
  induction others with
  | nil =>
    intro lag
    rw [List.append_nil]
    rfl
  | cons call others ih =>
    intro lag
    rw [List.map_cons, List.cons_append, turns]
    show turns p (lag ++ [call]) _ = _
    rw [ih, List.append_assoc]
    rfl

theorem since_other (others : List ι) (history : List (Occurrence κ ι ε)) : ∀ lag : List ι,
    since p lag (others.map .other ++ history) = since p (lag ++ others) history := by
  induction others with
  | nil =>
    intro lag
    rw [List.append_nil]
    rfl
  | cons call others ih =>
    intro lag
    rw [List.map_cons, List.cons_append, since]
    show since p (lag ++ [call]) _ = _
    rw [ih, List.append_assoc]
    rfl

/-- What a client does are turns of its own. -/
theorem turns_items (h : p client = true) (ts : List (Turn ι ε)) : ∀ lag : List ι,
    turns p lag (items client ts) = delay lag ts := by
  induction ts with
  | nil => exact fun _ ↦ rfl
  | cons t ts ih =>
    intro lag
    rw [items_cons, turns_other, turns, Occurrence.envOf, if_pos h]
    show _ :: turns p [] (items client ts) = _
    rw [ih, delay_nil]
    rfl

theorem since_items (h : p client = true) {ts : List (Turn ι ε)} (hne : ts ≠ []) :
    ∀ lag : List ι, since p lag (items client ts) = [] := by
  induction ts with
  | nil => exact absurd rfl hne
  | cons t ts ih =>
    intro lag
    rw [items_cons, since_other, since, Occurrence.envOf, if_pos h]
    show since p [] (items client ts) = _
    cases ts with
    | nil => rfl
    | cons t' ts => exact ih (List.cons_ne_nil _ _) _

theorem turns_items_of_not (h : p client = false) (ts : List (Turn ι ε)) : ∀ lag : List ι,
    turns p lag (items client ts) = [] ∧ since p lag (items client ts) = lag ++ calls ts := by
  induction ts with
  | nil => exact fun lag ↦ ⟨rfl, (List.append_nil lag).symm⟩
  | cons t ts ih =>
    intro lag
    have hrest := ih (lag ++ t.others ++ [t.call])
    rw [items_cons, turns_other, since_other, turns, since, Occurrence.envOf, h]
    refine ⟨hrest.1, hrest.2.trans ?_⟩
    rw [calls_cons, ← List.append_assoc, ← List.append_assoc]

end SharedHistory

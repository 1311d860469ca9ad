import Mathlib.Data.List.Basic
import Mathlib.Tactic.Common

/-!
# Decoding a stream that comes in pieces

A decoder takes the first message off a buffer, or says that the message is not complete. Decoding
until it is stuck gives the messages of a buffer and what is left of it; cutting the stream into
pieces changes neither.
-/

namespace Incremental

/-- A message takes something from the buffer, and what follows it does not matter. -/
structure Decoder (β γ : Type*) where
  decode : List β → Option (γ × Nat)
  pos : ∀ {xs p}, decode xs = some p → 0 < p.2
  bound : ∀ {xs p}, decode xs = some p → p.2 ≤ xs.length
  stable : ∀ {xs p} ys, decode xs = some p → decode (xs ++ ys) = some p

namespace Decoder

variable {β γ : Type*} (D : Decoder β γ)

/-- At most `fuel` messages, and what is left. -/
def decodeUpTo : Nat → List β → List (γ × Nat) × List β
  | 0, xs => ([], xs)
  | fuel + 1, xs =>
    match D.decode xs with
    | none => ([], xs)
    | some p => (p :: (decodeUpTo fuel (xs.drop p.2)).1, (decodeUpTo fuel (xs.drop p.2)).2)

/-- The complete messages at the front of a buffer, each with its length. -/
def messages (xs : List β) : List (γ × Nat) := (D.decodeUpTo xs.length xs).1

/-- What is left when no message is complete any more. -/
def rest (xs : List β) : List β := (D.decodeUpTo xs.length xs).2

variable {xs : List β} {p : γ × Nat}

theorem drop_lt (h : D.decode xs = some p) : (xs.drop p.2).length < xs.length := by
  have hpos := D.pos h
  have hbound := D.bound h
  simp only [List.length_drop]
  omega

/-- Induction on the messages of a buffer. -/
theorem induction {P : List β → Prop} (stuck : ∀ xs, D.decode xs = none → P xs)
    (more : ∀ xs p, D.decode xs = some p → P (xs.drop p.2) → P xs) (xs : List β) : P xs := by
  induction hn : xs.length using Nat.strongRecOn generalizing xs with
  | ind n ih =>
    cases hd : D.decode xs with
    | none => exact stuck xs hd
    | some p =>
      apply more xs p hd
      exact ih _ (hn ▸ D.drop_lt hd) (xs.drop p.2) rfl

/-- A buffer has fewer messages than elements. -/
theorem decodeUpTo_eq (xs : List β) {n : Nat} (hn : xs.length ≤ n) :
    D.decodeUpTo n xs = D.decodeUpTo xs.length xs := by
  induction hm : xs.length using Nat.strongRecOn generalizing xs n with
  | ind m ih =>
    cases n with
    | zero =>
      have h0 : m = 0 := by omega
      simp [h0]
    | succ n =>
      cases hd : D.decode xs with
      | none => cases m <;> simp [decodeUpTo, hd]
      | some p =>
        have hlt := D.drop_lt hd
        cases m with
        | zero => omega
        | succ m =>
          have hleft := ih _ (hm ▸ hlt) (xs.drop p.2) (n := n) (by omega) rfl
          have hright := ih _ (hm ▸ hlt) (xs.drop p.2) (n := m) (by omega) rfl
          simp only [decodeUpTo, hd, hleft, hright]

theorem messages_stuck (h : D.decode xs = none) : D.messages xs = [] := by
  cases xs with
  | nil => rfl
  | cons x xs => simp [messages, decodeUpTo, h]

theorem rest_stuck (h : D.decode xs = none) : D.rest xs = xs := by
  cases xs with
  | nil => rfl
  | cons x xs => simp [rest, decodeUpTo, h]

theorem decodeUpTo_more (h : D.decode xs = some p) :
    D.decodeUpTo xs.length xs = (p :: D.messages (xs.drop p.2), D.rest (xs.drop p.2)) := by
  have hlt := D.drop_lt h
  cases hn : xs.length with
  | zero => omega
  | succ n =>
    have heq := D.decodeUpTo_eq (xs.drop p.2) (n := n) (by omega)
    simp only [decodeUpTo, h, heq, messages, rest]

theorem messages_more (h : D.decode xs = some p) :
    D.messages xs = p :: D.messages (xs.drop p.2) := by
  rw [messages, D.decodeUpTo_more h]

theorem rest_more (h : D.decode xs = some p) : D.rest xs = D.rest (xs.drop p.2) := by
  rw [rest, D.decodeUpTo_more h]

/-- What is left holds no complete message. -/
theorem decode_rest (xs : List β) : D.decode (D.rest xs) = none := by
  induction xs using D.induction with
  | stuck xs h => rwa [D.rest_stuck h]
  | more xs p h ih => rwa [D.rest_more h]

theorem messages_append (xs ys : List β) :
    D.messages (xs ++ ys) = D.messages xs ++ D.messages (D.rest xs ++ ys) := by
  induction xs using D.induction with
  | stuck xs h => rw [D.messages_stuck h, D.rest_stuck h, List.nil_append]
  | more xs p h ih =>
    rw [D.messages_more h, D.rest_more h, D.messages_more (D.stable ys h),
      List.drop_append_of_le_length (D.bound h), ih, List.cons_append]

theorem rest_append (xs ys : List β) : D.rest (xs ++ ys) = D.rest (D.rest xs ++ ys) := by
  induction xs using D.induction with
  | stuck xs h => rw [D.rest_stuck h]
  | more xs p h ih =>
    rw [D.rest_more h, D.rest_more (D.stable ys h), List.drop_append_of_le_length (D.bound h), ih]

/-- Whatever follows, the messages of `xs` are `ms` and then those of `ys`. -/
def Splits (xs : List β) (ms : List (γ × Nat)) (ys : List β) : Prop :=
  ∀ more, D.messages (xs ++ more) = ms ++ D.messages (ys ++ more)

namespace Splits

variable {D} {ys : List β} {ms : List (γ × Nat)}

theorem refl (xs : List β) : D.Splits xs [] xs := fun _ => rfl

theorem messages_eq (h : D.Splits xs ms ys) : D.messages xs = ms ++ D.messages ys := by
  simpa only [List.append_nil] using h []

/-- More has come. -/
theorem append (h : D.Splits xs ms ys) (more : List β) : D.Splits (xs ++ more) ms (ys ++ more) := by
  intro later
  simpa only [List.append_assoc] using h (more ++ later)

/-- The first message has been taken. -/
theorem drop (h : D.Splits xs ms ys) (hd : D.decode ys = some p) :
    D.Splits xs (ms ++ [p]) (ys.drop p.2) := by
  intro more
  rw [h more, D.messages_more (D.stable more hd), List.drop_append_of_le_length (D.bound hd),
    List.append_assoc, List.singleton_append]

/-- All complete messages have been taken. -/
theorem rest (h : D.Splits xs ms ys) : D.Splits xs (ms ++ D.messages ys) (D.rest ys) := by
  intro more
  rw [h more, D.messages_append, List.append_assoc]

end Splits

/-- Append each piece to what is left and decode until stuck. -/
def feed (left : List β) : List (List β) → List (γ × Nat) × List β
  | [] => ([], left)
  | piece :: pieces =>
    let (ms, left') := feed (D.rest (left ++ piece)) pieces
    (D.messages (left ++ piece) ++ ms, left')

/-- Only the concatenation of the pieces matters. -/
theorem feed_eq {left : List β} (h : D.decode left = none) (pieces : List (List β)) :
    D.feed left pieces =
      (D.messages (left ++ pieces.flatten), D.rest (left ++ pieces.flatten)) := by
  induction pieces generalizing left with
  | nil => simp [feed, D.messages_stuck h, D.rest_stuck h]
  | cons piece pieces ih =>
    have hih := ih (D.decode_rest (left ++ piece))
    simp only [feed, hih, List.flatten_cons, ← List.append_assoc]
    rw [D.messages_append (left ++ piece), D.rest_append (left ++ piece)]

end Decoder

end Incremental

/-! Readers of text. A reader takes off the beginning of a text, or fails with what was left
where it stopped. -/

namespace RigidSketch

def Reader (α : Type) := List Char → Except (List Char) (α × List Char)

namespace Reader

variable {α : Type}

instance : Monad Reader where
  pure a cs := .ok (a, cs)
  bind r f cs :=
    match r cs with
    | .ok (a, rest) => f a rest
    | .error stop => .error stop

/-- The text after a given beginning, compared character by character. -/
def strip? (same : Char → Char → Bool) : List Char → List Char → Option (List Char)
  | [], cs => some cs
  | _ :: _, [] => none
  | w :: ws, c :: cs => if same w c then strip? same ws cs else none

def word (w : String) : Reader Unit := fun cs =>
  match strip? (· == ·) w.toList cs with
  | some rest => .ok ((), rest)
  | none => .error cs

/-- The given text in lower case, in letters of either case. -/
def anyCase (w : String) : Reader Unit := fun cs =>
  match strip? (fun w c => w == c.toLower) w.toList cs with
  | some rest => .ok ((), rest)
  | none => .error cs

def while0 (p : Char → Bool) : Reader (List Char) := fun cs =>
  .ok (cs.takeWhile p, cs.dropWhile p)

def while1 (p : Char → Bool) : Reader (List Char) := fun cs =>
  if (cs.takeWhile p).isEmpty then .error cs else .ok (cs.takeWhile p, cs.dropWhile p)

/-- The reader's result, or nothing, with no text taken, if it fails. -/
def optional (r : Reader α) : Reader (Option α) := fun cs =>
  match r cs with
  | .ok (a, rest) => .ok (some a, rest)
  | .error _ => .ok (none, cs)

/-- The second reader from the same place if the first one fails. -/
def orElse (r s : Reader α) : Reader α := fun cs =>
  match r cs with
  | .ok found => .ok found
  | .error _ => s cs

def peek : Reader (Option Char) := fun cs => .ok (cs.head?, cs)

end Reader

end RigidSketch

import ShellWords.Error

/-!
# What comes out of a lexer

A `Yield` lists what comes out of something that runs and may fail, and the error that it fails with. The
results of a lexer are such a list: tokens, and errors that it goes on after. So are its signals, which tell
a result that is handed out from a token that is put back: what has been put back is handed out behind the
next result (`flush`), so it may change places with what comes from another source.
-/

namespace ShellWords

/-- What comes out, and the error that ends it, if one does. -/
structure Yield (α : Type) where
  items : List α
  failure : Option LexError
  deriving DecidableEq

namespace Yield

variable {α : Type}

/-- Nothing. -/
def empty : Yield α := ⟨[], none⟩

/-- The same, behind other items. -/
def behind (xs : List α) (a : Yield α) : Yield α := ⟨xs ++ a.items, a.failure⟩

/-- The one and then the other, unless the one fails. -/
def andThen (a b : Yield α) : Yield α :=
  match a.failure with
  | some _ => a
  | none => b.behind a.items

/-- Behind nothing comes the same. -/
@[simp] theorem behind_nil (a : Yield α) : a.behind [] = a := rfl

/-- The other items come first. -/
@[simp] theorem behind_items (xs : List α) (a : Yield α) : (a.behind xs).items = xs ++ a.items := rfl

/-- They do not change how it ends. -/
@[simp] theorem behind_failure (xs : List α) (a : Yield α) : (a.behind xs).failure = a.failure := rfl

/-- What comes behind one list and then another comes behind both. -/
theorem behind_behind (xs ys : List α) (a : Yield α) :
    (a.behind ys).behind xs = a.behind (xs ++ ys) := by
  simp [behind]

/-- What comes out behind the same items tells two apart. -/
theorem behind_inj {xs : List α} {a b : Yield α} : a.behind xs = b.behind xs ↔ a = b := by
  constructor
  · intro h
    obtain ⟨items, failure⟩ := a
    obtain ⟨items', failure'⟩ := b
    simpa [behind] using h
  · exact congrArg (behind xs)

/-- Nothing comes before the second. -/
@[simp] theorem empty_andThen (a : Yield α) : empty.andThen a = a := rfl

/-- Nothing comes after the first. -/
@[simp] theorem andThen_empty (a : Yield α) : a.andThen empty = a := by
  obtain ⟨items, failure⟩ := a
  cases failure with
  | none => simp [andThen, behind, empty]
  | some e => rfl

/-- If the first fails, the second does not come. -/
theorem andThen_of_failure {a b : Yield α} {e : LexError} (h : a.failure = some e) :
    a.andThen b = a := by
  rw [andThen, h]

/-- If the first does not fail, the second comes behind its items. -/
theorem andThen_of_not_failure {a b : Yield α} (h : a.failure = none) :
    a.andThen b = b.behind a.items := by
  rw [andThen, h]

/-- What comes before the one comes before both. -/
theorem behind_andThen (xs : List α) (a b : Yield α) :
    (a.behind xs).andThen b = (a.andThen b).behind xs := by
  cases h : a.failure with
  | some e => rw [andThen_of_failure h, andThen_of_failure (e := e) (by simpa using h)]
  | none =>
    rw [andThen_of_not_failure h, andThen_of_not_failure (by simpa using h), behind_behind,
      behind_items]

end Yield

/-- A result is handed out, or put back until the next one has been handed out. -/
inductive Signal (α : Type) where
  | out (x : α)
  | held (x : α)

/-- The tokens among some results. -/
def tokensOf (xs : List (Except LexError String)) : List String := xs.filterMap Except.toOption

/-- The results in the order in which they are handed out, when some wait already. What waits is handed
out behind the next result, and what was put back last comes first. -/
def flush {α : Type} (waiting : List α) : List (Signal α) → List α
  | [] => []
  | .out x :: signals => x :: (waiting ++ flush [] signals)
  | .held x :: signals => flush (x :: waiting) signals

/-- What still waits behind the signals. -/
def leftOver {α : Type} (waiting : List α) : List (Signal α) → List α
  | [] => waiting
  | .out _ :: signals => leftOver [] signals
  | .held x :: signals => leftOver (x :: waiting) signals

/-- Results are handed out in the same order whether the signals are taken at once or in two parts. -/
theorem flush_append {α : Type} (waiting : List α) (s t : List (Signal α)) :
    flush waiting (s ++ t) = flush waiting s ++ flush (leftOver waiting s) t := by
  induction s generalizing waiting with
  | nil => rfl
  | cons signal s ih =>
    cases signal with
    | out x => simp [flush, leftOver, ih]
    | held x => exact ih (x :: waiting)

/-- The last result put back is the next to be handed out. -/
theorem flush_held {α : Type} (waiting xs : List α) (s : List (Signal α)) :
    flush waiting (xs.reverse.map .held ++ s) = flush (xs ++ waiting) s := by
  induction xs generalizing s with
  | nil => rfl
  | cons x xs ih =>
    rw [List.reverse_cons, List.map_append, List.append_assoc, ih]
    rfl

/-- Where nothing is put back, the results are handed out as they come. -/
theorem flush_out {α : Type} (xs : List α) : flush [] (xs.map .out) = xs := by
  induction xs with
  | nil => rfl
  | cons x xs ih =>
    show x :: ([] ++ flush [] (xs.map .out)) = x :: xs
    rw [List.nil_append, ih]

namespace Yield

variable {α : Type}

/-- The same with every item handed out at once. -/
def outs (y : Yield α) : Yield (Signal α) := ⟨y.items.map .out, y.failure⟩

/-- Items that come first are handed out first. -/
theorem outs_behind (xs : List α) (y : Yield α) : (y.behind xs).outs = y.outs.behind (xs.map .out) := by
  simp [outs, behind]

/-- If every item is handed out at once, so is every item of both. -/
theorem outs_andThen (a b : Yield α) : (a.andThen b).outs = a.outs.andThen b.outs := by
  cases h : a.failure with
  | some e => rw [andThen_of_failure h, andThen_of_failure (e := e) (by simpa [outs] using h)]
  | none =>
    rw [andThen_of_not_failure h, andThen_of_not_failure (by simpa [outs] using h), outs_behind]
    rfl

end Yield
end ShellWords

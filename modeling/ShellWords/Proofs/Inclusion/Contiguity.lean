import ShellWords.Proofs.Inclusion.Runs
import ShellWords.Proofs.Inclusion.Within

/-!
# When the tokens of an included source come out contiguously

Where there are no operators and words end early, the character that ends a word is a token, which is put
back and handed out behind the next result. So a token that stood in front of an included source may come
out behind its first result, and a token that the included source has put back may come out behind the first
result of the rest.

`interleaved` is what comes out from an inclusion on, each result with a mark that says whether the included
source gave it. `Unbroken` says which of the two sources gives tokens where, and it holds exactly if the
tokens of the included source come out contiguously (`included_contiguous_iff`).
-/

namespace ShellWords

/-! ## The parts of what is handed out -/

namespace Signal

/-- The same signal with another item. -/
def map {α β : Type} (f : α → β) : Signal α → Signal β
  | out x => out (f x)
  | held x => held (f x)

end Signal

section
variable {α β : Type}

/-- Whether a result is handed out. -/
def handsOut : List (Signal α) → Bool
  | [] => false
  | .out _ :: _ => true
  | .held _ :: signals => handsOut signals

/-- The signals up to the first result. -/
def opening : List (Signal α) → List (Signal α)
  | [] => []
  | .out x :: _ => [.out x]
  | .held x :: signals => .held x :: opening signals

/-- The signals behind the first result. -/
def closing : List (Signal α) → List (Signal α)
  | [] => []
  | .out _ :: signals => signals
  | .held _ :: signals => closing signals

variable {waiting : List α} {s : List (Signal α)}

/-- Whatever is done to every result, they are handed out in the same order. -/
theorem flush_map (f : α → β) (waiting : List α) (s : List (Signal α)) :
    flush (waiting.map f) (s.map (.map f)) = (flush waiting s).map f := by
  induction s generalizing waiting with
  | nil => rfl
  | cons signal s ih =>
    cases signal with
    | out x =>
      have hrest := ih []
      simpa [flush, Signal.map] using hrest
    | held x => exact ih (x :: waiting)

/-- What is left over is the same too. -/
theorem leftOver_map (f : α → β) (waiting : List α) (s : List (Signal α)) :
    leftOver (waiting.map f) (s.map (.map f)) = (leftOver waiting s).map f := by
  induction s generalizing waiting with
  | nil => rfl
  | cons signal s ih =>
    cases signal with
    | out x => exact ih []
    | held x => exact ih (x :: waiting)

/-- As many results are handed out, or none. -/
theorem handsOut_map (f : α → β) (s : List (Signal α)) : handsOut (s.map (.map f)) = handsOut s := by
  induction s with
  | nil => rfl
  | cons signal s ih =>
    cases signal with
    | out x => rfl
    | held x => exact ih

/-- The signals up to the first result are the same. -/
theorem opening_map (f : α → β) (s : List (Signal α)) :
    opening (s.map (.map f)) = (opening s).map (.map f) := by
  induction s with
  | nil => rfl
  | cons signal s ih =>
    cases signal with
    | out x => rfl
    | held x => exact congrArg (Signal.held (f x) :: ·) ih

/-- So are those behind it. -/
theorem closing_map (f : α → β) (s : List (Signal α)) :
    closing (s.map (.map f)) = (closing s).map (.map f) := by
  induction s with
  | nil => rfl
  | cons signal s ih =>
    cases signal with
    | out x => rfl
    | held x => exact ih

/-- Without a result all signals come before it. -/
theorem opening_of_not_handsOut (h : handsOut s = false) : opening s = s ∧ closing s = [] := by
  induction s with
  | nil => exact ⟨rfl, rfl⟩
  | cons signal s ih =>
    cases signal with
    | out x => cases h
    | held x =>
      obtain ⟨hopening, hclosing⟩ := ih h
      exact ⟨congrArg (Signal.held x :: ·) hopening, hclosing⟩

/-- Up to the first result, what waits is handed out last. -/
theorem flush_opening (waiting : List α) (h : handsOut s = true) :
    flush waiting (opening s) = flush [] (opening s) ++ waiting := by
  induction s generalizing waiting with
  | nil => cases h
  | cons signal s ih =>
    cases signal with
    | out x => simp [opening, flush]
    | held x =>
      have hone := ih [x] h
      have hall := ih (x :: waiting) h
      calc flush (x :: waiting) (opening s) = flush [] (opening s) ++ x :: waiting := hall
        _ = (flush [] (opening s) ++ [x]) ++ waiting := by simp
        _ = flush [x] (opening s) ++ waiting := by rw [hone]

/-- What waits is handed out behind the first result, and what is put back before that in between. -/
theorem flush_of_handsOut (waiting : List α) (h : handsOut s = true) :
    flush waiting s = flush [] (opening s) ++ (waiting ++ flush [] (closing s)) := by
  induction s generalizing waiting with
  | nil => cases h
  | cons signal s ih =>
    cases signal with
    | out x => simp [opening, closing, flush]
    | held x =>
      have hone := flush_opening (s := s) [x] h
      have hall := ih (x :: waiting) h
      calc flush (x :: waiting) s = flush [] (opening s) ++ (x :: waiting ++ flush [] (closing s)) := hall
        _ = (flush [] (opening s) ++ [x]) ++ (waiting ++ flush [] (closing s)) := by simp
        _ = flush [x] (opening s) ++ (waiting ++ flush [] (closing s)) := by rw [hone]

/-- Without a result nothing is handed out. -/
theorem flush_of_not_handsOut (waiting : List α) (h : handsOut s = false) : flush waiting s = [] := by
  induction s generalizing waiting with
  | nil => rfl
  | cons signal s ih =>
    cases signal with
    | out x => cases h
    | held x => exact ih (x :: waiting) h

/-- Behind a result nothing waits any more that was put back before it. -/
theorem leftOver_of_handsOut (waiting : List α) (h : handsOut s = true) :
    leftOver waiting s = leftOver [] s := by
  induction s generalizing waiting with
  | nil => cases h
  | cons signal s ih =>
    cases signal with
    | out x => rfl
    | held x => exact (ih (x :: waiting) h).trans (ih [x] h).symm

/-- Without a result everything waits, and what was put back last comes first. -/
theorem leftOver_of_not_handsOut (waiting : List α) (h : handsOut s = false) :
    leftOver waiting s = leftOver [] s ++ waiting := by
  induction s generalizing waiting with
  | nil => rfl
  | cons signal s ih =>
    cases signal with
    | out x => cases h
    | held x =>
      have hone := ih [x] h
      have hall := ih (x :: waiting) h
      calc leftOver (x :: waiting) s = leftOver [] s ++ x :: waiting := hall
        _ = (leftOver [] s ++ [x]) ++ waiting := by simp
        _ = leftOver [x] s ++ waiting := by rw [hone]

end

/-! ## Marked results -/

/-- The marks of the tokens among some results. -/
def marks (xs : List (Except LexError String × Bool)) : List Bool :=
  xs.filterMap fun x => x.1.toOption.map fun _ => x.2

/-- The marked tokens come out contiguously: no other token comes out between two of them. -/
def Contiguous (xs : List (Except LexError String × Bool)) : Prop :=
  ¬ [true, false, true].Sublist (marks xs)

/-- The marks of two lists are those of the one and those of the other. -/
theorem marks_append (xs ys : List (Except LexError String × Bool)) :
    marks (xs ++ ys) = marks xs ++ marks ys :=
  List.filterMap_append

/-- If all results have the same mark, there is one for each token. -/
theorem marks_map (xs : List (Except LexError String)) (mark : Bool) :
    marks (xs.map (·, mark)) = List.replicate (tokensOf xs).length mark := by
  induction xs with
  | nil => rfl
  | cons x xs ih =>
    cases x with
    | error e => exact ih
    | ok token =>
      show mark :: marks (xs.map (·, mark)) = _
      rw [ih]
      rfl

section
variable {mark other : Bool} {p rest : List Bool}

/-- A block of one mark is passed over in search of the other. -/
theorem sublist_replicate_of_ne (h : other ≠ mark) (n : Nat) :
    (other :: p).Sublist (List.replicate n mark ++ rest) ↔ (other :: p).Sublist rest := by
  induction n with
  | zero => rfl
  | succ n ih =>
    rw [List.replicate_succ, List.cons_append, List.sublist_cons_iff, ih]
    simp [h]

/-- A block of the mark that is searched for has it, unless it is empty. -/
theorem sublist_replicate_of_eq (h : other ≠ mark) (n : Nat) :
    (mark :: other :: p).Sublist (List.replicate n mark ++ rest) ↔
      n ≠ 0 ∧ (other :: p).Sublist rest ∨ (mark :: other :: p).Sublist rest := by
  induction n with
  | zero => simp
  | succ n ih =>
    rw [List.replicate_succ, List.cons_append, List.sublist_cons_iff, ih]
    have hnext : (other :: p).Sublist (List.replicate n mark ++ rest) ↔ (other :: p).Sublist rest :=
      sublist_replicate_of_ne h n
    simp only [List.cons.injEq, true_and, exists_eq_left', hnext]
    constructor
    · rintro ((⟨-, hrest⟩ | hrest) | hrest)
      · exact .inl ⟨Nat.succ_ne_zero n, hrest⟩
      · exact .inr hrest
      · exact .inl ⟨Nat.succ_ne_zero n, hrest⟩
    · rintro (⟨-, hrest⟩ | hrest)
      · exact .inr hrest
      · exact .inl (.inr hrest)

end

/-- Where blocks of the two marks take turns, there is an unmarked item between two marked ones if there is
one in a block of its own, or in two. -/
theorem sublist_blocks_iff (a b c d e f : Nat) :
    [true, false, true].Sublist (List.replicate a true ++ (List.replicate b false ++
      (List.replicate c true ++ (List.replicate d false ++ (List.replicate e true ++
        List.replicate f false))))) ↔
      a ≠ 0 ∧ b ≠ 0 ∧ (c ≠ 0 ∨ e ≠ 0) ∨ (a ≠ 0 ∨ c ≠ 0) ∧ d ≠ 0 ∧ e ≠ 0 := by
  have htrue : true ≠ false := by decide
  have hfalse : false ≠ true := by decide
  rw [← List.append_nil (List.replicate f false)]
  simp only [sublist_replicate_of_ne htrue, sublist_replicate_of_ne hfalse,
    sublist_replicate_of_eq htrue, sublist_replicate_of_eq hfalse, List.singleton_sublist,
    List.mem_append, List.mem_replicate, List.sublist_nil]
  grind

/-! ## Two sources -/

namespace Yield

/-- The same with a mark on every item. -/
def marked {α : Type} (mark : Bool) (y : Yield (Signal α)) : Yield (Signal (α × Bool)) :=
  ⟨y.items.map (.map (·, mark)), y.failure⟩

/-- The same without the marks. -/
def unmarked {α : Type} (y : Yield (α × Bool)) : Yield α := ⟨y.items.map Prod.fst, y.failure⟩

/-- What the second adds to the first, which is nothing if the first fails. -/
def following {α : Type} (y z : Yield α) : List α :=
  match y.failure with
  | none => z.items
  | some _ => []

/-- The items of two are those of the first and what the second adds. -/
theorem andThen_items {α : Type} (y z : Yield α) : (y.andThen z).items = y.items ++ y.following z := by
  unfold andThen following
  cases y.failure with
  | none => rfl
  | some e => exact (List.append_nil _).symm

/-- The failure is that of the first, or else that of the second. -/
theorem andThen_failure {α : Type} (y z : Yield α) :
    (y.andThen z).failure = y.failure.or z.failure := by
  unfold andThen
  cases h : y.failure with
  | none => rfl
  | some e => exact h

end Yield

/-- What comes out when these results wait, the included source takes the one course and the rest takes
the other. The results of the included source are marked. -/
def interleaved {α : Type} (waiting : List α) (own rest : Yield (Signal α)) : Yield (α × Bool) :=
  ((own.marked true).andThen (rest.marked false)).flushed (waiting.map (·, false))

/-- The items come out as they are handed out, those of the included source marked. -/
theorem interleaved_items {α : Type} (waiting : List α) (own rest : Yield (Signal α)) :
    (interleaved waiting own rest).items = flush (waiting.map (·, false))
      (own.items.map (.map (·, true)) ++ (own.following rest).map (.map (·, false))) := by
  unfold interleaved Yield.flushed
  rw [Yield.andThen_items]
  unfold Yield.following Yield.marked
  cases own.failure with
  | none => rfl
  | some e => rfl

/-- The tokens that are handed out up to the second result. -/
def early (s : List (Signal (Except LexError String))) : List String := tokensOf (flush [] (opening s))

/-- The tokens that are handed out from the second result on. -/
def late (s : List (Signal (Except LexError String))) : List String := tokensOf (flush [] (closing s))

/-- The tokens that wait behind the first signals and are handed out behind a result of the second. -/
def handedOn (s t : List (Signal (Except LexError String))) : List String :=
  if handsOut t then tokensOf (leftOver [] s) else []

/-- How the tokens of an included source come out contiguously, when these tokens wait, `s` is what the
included source gives and `t` what the rest gives. -/
structure Unbroken (waiting : List String) (s t : List (Signal (Except LexError String))) : Prop where
  /-- What waits does not come out between two tokens of the included source. -/
  waiting : early s ≠ [] → waiting ≠ [] → late s = [] ∧ handedOn s t = []
  /-- Neither do the first tokens of the rest. -/
  rest : early s ≠ [] ∨ late s ≠ [] → early t ≠ [] → handedOn s t = []

section
variable {s t : List (Signal (Except LexError String))}

/-- Where nothing is handed out, there are no tokens before the second result and none from it on. -/
theorem early_of_not_handsOut (h : handsOut s = false) : early s = [] ∧ late s = [] := by
  obtain ⟨hopening, hclosing⟩ := opening_of_not_handsOut h
  unfold early late
  rw [hopening, hclosing, flush_of_not_handsOut [] h]
  exact ⟨rfl, rfl⟩

/-- The marks of what one source hands out, around those of what waits. -/
theorem marks_flush (waiting : List (Except LexError String × Bool)) (mark : Bool)
    (h : handsOut s = true) :
    marks (flush waiting (s.map (.map (·, mark)))) = List.replicate (early s).length mark ++
      (marks waiting ++ List.replicate (late s).length mark) := by
  have hopening := flush_map (·, mark) [] (opening s)
  have hclosing := flush_map (·, mark) [] (closing s)
  rw [List.map_nil] at hopening hclosing
  rw [flush_of_handsOut waiting (by rw [handsOut_map]; exact h), opening_map, closing_map, hopening,
    hclosing, marks_append, marks_append, marks_map, marks_map]
  rfl

/-- The tokens that wait have a mark each. -/
theorem marks_waiting (waiting : List String) (mark : Bool) :
    marks ((waiting.map .ok).map (·, mark)) = List.replicate waiting.length mark := by
  rw [marks_map]
  congr 1
  simp [tokensOf, Except.toOption, List.filterMap_map, Function.comp_def]

/-- If the included source hands out something, the blocks of the two sources take turns. -/
theorem marks_interleaved (waiting : List String) {own rest : Yield (Signal (Except LexError String))}
    (hs : own.items = s) (ht : own.following rest = t) (h : handsOut s = true) :
    marks (interleaved (waiting.map .ok) own rest).items =
      List.replicate (early s).length true ++ (List.replicate waiting.length false ++
        (List.replicate (late s).length true ++ (List.replicate (early t).length false ++
          (List.replicate (handedOn s t).length true ++ List.replicate (late t).length false)))) := by
  have hleft := leftOver_map (·, true) [] s
  rw [List.map_nil] at hleft
  rw [interleaved_items, hs, ht, flush_append, marks_append, marks_flush _ true h, marks_waiting,
    leftOver_of_handsOut _ (by rw [handsOut_map]; exact h), hleft]
  cases hout : handsOut t with
  | true =>
    rw [marks_flush _ false hout, marks_map, handedOn, if_pos hout]
    simp only [List.append_assoc]
  | false =>
    obtain ⟨hearly, hlate⟩ := early_of_not_handsOut hout
    rw [flush_of_not_handsOut _ (by rw [handsOut_map]; exact hout), hearly, hlate, handedOn,
      if_neg (by simp [hout])]
    simp [marks]

/-- If the included source hands out nothing, its tokens come out together. -/
theorem contiguous_of_not_handsOut (waiting : List String)
    {own rest : Yield (Signal (Except LexError String))} (hs : own.items = s)
    (ht : own.following rest = t) (h : handsOut s = false) :
    Contiguous (interleaved (waiting.map .ok) own rest).items := by
  have hnone : handsOut (s.map (.map (·, true))) = false := by rw [handsOut_map]; exact h
  have hleft := leftOver_map (·, true) [] s
  rw [List.map_nil] at hleft
  unfold Contiguous
  rw [interleaved_items, hs, ht, flush_append, flush_of_not_handsOut _ hnone,
    leftOver_of_not_handsOut _ hnone, hleft, List.nil_append]
  cases hout : handsOut t with
  | true =>
    rw [marks_flush _ false hout, marks_append, marks_map, marks_waiting]
    -- All tokens of the included source wait, so they are one block.
    have hblocks := sublist_blocks_iff 0 (early t).length (tokensOf (leftOver [] s)).length
      waiting.length 0 (late t).length
    simp only [List.replicate_zero, List.nil_append, List.append_assoc] at hblocks ⊢
    rw [hblocks]
    simp
  | false =>
    rw [flush_of_not_handsOut _ (by rw [handsOut_map]; exact hout)]
    simp [marks]

/-- The marked tokens come out contiguously exactly if nothing breaks them. -/
theorem contiguous_iff_unbroken (waiting : List String)
    (own rest : Yield (Signal (Except LexError String))) :
    Contiguous (interleaved (waiting.map .ok) own rest).items ↔
      Unbroken waiting own.items (own.following rest) := by
  cases hout : handsOut own.items with
  | true =>
    have hempty {xs : List String} : xs.length ≠ 0 ↔ xs ≠ [] := not_congr List.length_eq_zero_iff
    unfold Contiguous
    rw [marks_interleaved waiting rfl rfl hout, sublist_blocks_iff]
    simp only [hempty]
    -- The two ways to break the marks are the two conditions.
    constructor
    · intro h
      constructor
      · intro hearly hwaiting
        by_contra hbroken
        exact h (.inl ⟨hearly, hwaiting, not_and_or.1 hbroken⟩)
      · intro htokens hearly
        by_contra hbroken
        exact h (.inr ⟨htokens, hearly, hbroken⟩)
    · rintro ⟨hwaiting, hrest⟩ (⟨hearly, hne, hlate⟩ | ⟨htokens, hearly, hne⟩)
      · obtain ⟨hnone, hnone'⟩ := hwaiting hearly hne
        exact hlate.elim (· hnone) (· hnone')
      · exact hne (hrest htokens hearly)
  | false =>
    obtain ⟨hearly, hlate⟩ := early_of_not_handsOut hout
    refine iff_of_true (contiguous_of_not_handsOut waiting rfl rfl hout) ⟨?_, ?_⟩
    · intro hne
      exact (hne hearly).elim
    · rintro (hne | hne)
      · exact (hne hearly).elim
      · exact (hne hlate).elim

end

/-- Without their marks the signals are what they were. -/
theorem map_unmark {α : Type} (mark : Bool) (s : List (Signal α)) :
    (s.map (Signal.map (·, mark))).map (Signal.map Prod.fst) = s := by
  induction s with
  | nil => rfl
  | cons signal s ih =>
    rw [List.map_cons, List.map_cons, ih]
    cases signal <;> rfl

/-- The marks change nothing. -/
theorem interleaved_unmarked {α : Type} (waiting : List α) (own rest : Yield (Signal α)) :
    (interleaved waiting own rest).unmarked = (own.andThen rest).flushed waiting := by
  have hwaiting : (waiting.map (·, false)).map Prod.fst = waiting := by simp [Function.comp_def]
  have hflush := flush_map Prod.fst (waiting.map (·, false))
    (own.items.map (.map (·, true)) ++ (own.following rest).map (.map (·, false)))
  rw [List.map_append, map_unmark, map_unmark, hwaiting] at hflush
  unfold Yield.unmarked Yield.flushed
  rw [interleaved_items, ← hflush, Yield.andThen_items]
  congr 1
  rw [Yield.andThen_failure]
  unfold interleaved Yield.flushed
  rw [Yield.andThen_failure]
  rfl

namespace Lexer

/-- Without operators, an inclusion adds the included source to what waits and to the rest, each at its turn.
The tokens of the included source come out contiguously exactly if no token that waits, and none of the
rest, comes out between two of them. -/
theorem included_contiguous_iff {l read named : Lexer} {keyword name : String} {inclusion : Inclusion}
    {own rest : Yield (Signal (Except LexError String))}
    (hinactive : l.config.punctuation.isActive = false) (hkey : l.config.sourceKeyword = some keyword)
    (h : l.Resting) (hforgets : l.resolver.Memoryless) (hread : l.readToken = (.ok (some keyword), read))
    (hname : read.readToken = (.ok (some name), named))
    (hresolve : l.resolver.answer name named.origin = .ok inclusion)
    (hown : (ofSource l.config l.resolver ⟨inclusion.stream, inclusion.origin, 1⟩).Runs own)
    (hrest : named.Runs rest) :
    l.DeliversOnward (interleaved (named.waiting.map .ok) own rest).unmarked ∧
      (Contiguous (interleaved (named.waiting.map .ok) own rest).items ↔
        Unbroken named.waiting own.items (own.following rest)) := by
  refine ⟨?_, contiguous_iff_unbroken named.waiting own rest⟩
  have hresting := (settled_readToken h hread).resting
  have hsettled := settled_readToken hresting hname
  have hnamed := hsettled.resting
  have hsame := SameStack.of_readToken hread
  have hsame' := SameStack.of_readToken hname
  have hnone : named.pending = [] := hsettled.pending_of_inactive (by
    rw [rules, hsame.config]
    exact hinactive)
  have hconfig : named.config = l.config := hsame'.config.trans hsame.config
  have hresolver : named.resolver = l.resolver := hsame'.resolver.trans hsame.resolver
  -- The courses follow each other, and flushing them is what mixes the results.
  have hpushed := runs_pushSource hnamed (hresolver ▸ hforgets) inclusion.stream inclusion.origin
    (by rw [alone_eq hnone, hconfig, hresolver]; exact hown) (by rw [dropPending_eq hnone]; exact hrest)
  have honward := hpushed.deliversOnward (hnamed.pushSource inclusion.stream inclusion.origin)
  have hwaiting : (named.pushSource inclusion.stream inclusion.origin).waiting = named.waiting := by
    simp [pushSource]
  rw [hwaiting, ← interleaved_unmarked] at honward
  refine Runs.deliversOnward_of_opened h hread hkey hname (by rw [hresolver]; exact hresolve) ?_
  rw [asking_eq (hresolver ▸ hforgets)]
  exact honward

set_option maxRecDepth 4000 in
/-- A character that stands directly behind the name of two words breaks them. -/
theorem included_broken_by_colon :
    (ofText earlyInclusion oneFile "source inc:x").DeliversOnward
        ⟨[.ok "two", .ok ":", .ok "three", .ok "x"], none⟩ ∧
      ¬ Contiguous (interleaved [.ok ":"] ⟨[.out (.ok "two"), .out (.ok "three")], none⟩
        ⟨[.out (.ok "x")], none⟩).items := by
  have hread : (ofText earlyInclusion oneFile "source inc:x").readToken =
      (.ok (some "source"), ofText earlyInclusion oneFile "inc:x") := run_of_runWithin 10 rfl
  have hname : (ofText earlyInclusion oneFile "inc:x").readToken =
      (.ok (some "inc"), { ofText earlyInclusion oneFile "x" with waiting := [":"] }) :=
    run_of_runWithin 10 rfl
  -- The included source gives two words.
  have htwo : (ofSource earlyInclusion oneFile ⟨.ofText "two three", some ⟨"inc"⟩, 1⟩).bare.readToken =
      (.ok (some "two"), ofSource earlyInclusion oneFile ⟨.ofText "three", some ⟨"inc"⟩, 1⟩) :=
    run_of_runWithin 10 rfl
  have hthree : (ofSource earlyInclusion oneFile ⟨.ofText "three", some ⟨"inc"⟩, 1⟩).bare.readToken =
      (.ok (some "three"), { ofSource earlyInclusion oneFile ⟨.empty, some ⟨"inc"⟩, 1⟩ with
        state := .done }) := run_of_runWithin 10 rfl
  have hlast : Runs { ofSource earlyInclusion oneFile ⟨.empty, some ⟨"inc"⟩, 1⟩ with state := .done }
      .empty := Runs.of_ended (run_of_runWithin 10 rfl) rfl
  have hown := Runs.of_token ⟨rfl, Nat.zero_le _, .inl rfl⟩ htwo (by decide)
    (Runs.of_token ⟨rfl, Nat.zero_le _, .inl rfl⟩ hthree (by decide) hlast)
  -- The rest gives one.
  have hx : (bare { ofText earlyInclusion oneFile "x" with waiting := [":"] }).readToken =
      (.ok (some "x"), { ofText earlyInclusion oneFile "" with state := .done }) :=
    run_of_runWithin 10 rfl
  have hend : Runs { ofText earlyInclusion oneFile "" with state := .done } .empty :=
    Runs.of_ended (run_of_runWithin 10 rfl) rfl
  have hrest := Runs.of_token (l := { ofText earlyInclusion oneFile "x" with waiting := [":"] })
    ⟨rfl, Nat.zero_le _, .inl rfl⟩ hx (by decide) hend
  obtain ⟨honward, hiff⟩ := included_contiguous_iff rfl rfl ⟨rfl, Nat.zero_le _, .inl rfl⟩
    (Resolver.memoryless_fixed _) hread hname rfl hown hrest
  refine ⟨honward, ?_⟩
  intro hcontiguous
  obtain ⟨hlate, -⟩ := (hiff.1 hcontiguous).waiting (by decide) (by decide)
  exact absurd hlate (by decide)

/-- The words of an included file are not neighbours in the results when a character stands directly behind
its name. -/
theorem included_words_apart :
    (ofText earlyInclusion oneFile "source inc:x").results =
        ⟨[.ok "two", .ok ":", .ok "three", .ok "x"], none⟩ ∧
      ¬ (ofSource earlyInclusion oneFile ⟨.ofText "two three", some ⟨"inc"⟩, 1⟩).results.items <:+:
        (ofText earlyInclusion oneFile "source inc:x").results.items := by
  have hall : (ofText earlyInclusion oneFile "source inc:x").results =
      ⟨[.ok "two", .ok ":", .ok "three", .ok "x"], none⟩ :=
    results_of_resultsWithin 30 (by decide +kernel)
  have hown : (ofSource earlyInclusion oneFile ⟨.ofText "two three", some ⟨"inc"⟩, 1⟩).results =
      ⟨[.ok "two", .ok "three"], none⟩ := results_of_resultsWithin 30 (by decide +kernel)
  refine ⟨hall, ?_⟩
  rw [hall, hown]
  decide

end Lexer
end ShellWords

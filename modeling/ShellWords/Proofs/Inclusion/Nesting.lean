import ShellWords.Proofs.Inclusion.Course

/-!
# The course over an included source

A lexer that suspends its source for another reads what that source holds and then what is left of its own
(`runs_pushSource`), as long as its resolver gives the same answers to both. The only thing that gets from
the one to the other is a character that was put back: it belongs to the lexer, and so it is read in front of
the included source and is missing in the rest.

`Lexer.Runs` is the course that a lexer takes with any allowance that is large enough.
-/

namespace ShellWords

namespace Lexer

/-- A lexer takes this course with any allowance that is large enough. -/
def Runs (l : Lexer) (c : Yield (Signal (Except LexError String))) : Prop :=
  ∃ bound, ∀ allowance, bound ≤ allowance → (l.allowing allowance).course = c

/-- There is one course that a lexer takes. -/
theorem Runs.unique {l : Lexer} {c d : Yield (Signal (Except LexError String))} (hc : l.Runs c)
    (hd : l.Runs d) : c = d := by
  obtain ⟨m, hm⟩ := hc
  obtain ⟨n, hn⟩ := hd
  rw [← hm (m + n) (by omega), ← hn (m + n) (by omega)]

/-- The ground of a lexer that stands on nothing more than another. -/
def Ground.level (config : Config) (resolver : Resolver) : Ground := ⟨config, resolver, [], 0⟩

/-- Two lexers on the same ground take the same course. -/
theorem Mirrors.course_eq {config : Config} {resolver : Resolver} {w v : List String} {l m : Lexer}
    (h : Mirrors (.level config resolver) w v l m) : m.course = l.course := by
  have hcourse := course_mirrors (k := .empty) l h (.inr rfl) (fun _ => rfl)
  rw [hcourse, Yield.andThen_empty]

/-! ## Lexers at the same place -/

/-- Two lexers rest at the same place, with the same still to come. The one may have noticed the end of its
source where the other has not. -/
structure SamePlace (l m : Lexer) : Prop where
  config : m.config = l.config
  resolver : m.resolver = l.resolver
  source : m.source = l.source
  suspended : m.suspended = l.suspended
  pending : m.pending = l.pending
  allowance : m.allowance = l.allowance
  resting : l.Resting
  resting' : m.Resting

namespace SamePlace

variable {l m : Lexer}

/-- Two lexers that have noticed the same of their source mirror each other. -/
theorem mirrors (h : SamePlace l m) (hstate : m.state = l.state) :
    Mirrors (.level l.config l.resolver) l.waiting m.waiting l m where
  alike := {
    rules := congrArg Rules.ofConfig h.config
    source := h.source
    state := hstate
    token := h.resting'.token.trans h.resting.token.symm
    pending := h.pending
    waiting := ⟨[], rfl, rfl⟩ }
  config := ⟨rfl, h.config⟩
  resolver := h.resolver
  kept := .inl rfl
  suspended := by rw [h.suspended]; exact (List.append_nil _).symm
  allowance := h.allowance
  resting := h.resting

/-- At the end of its source a lexer leaves it, and takes the course of whoever leaves it too. -/
theorem course_eq_of_exhausted (h : SamePlace l m) (hend : l.Exhausted) : m.course = l.course := by
  have hl := h.resting.bare
  have hm := h.resting'.bare
  have hend' : m.bare.Exhausted := ⟨h.pending.trans hend.1, by
    show m.source.readChar = (.ok none, m.source)
    rw [h.source]
    exact hend.2⟩
  -- Both notice the end by reading once more, and are in the same state after that.
  obtain ⟨a, ha, hasource⟩ := readToken_of_exhausted hl hend
  obtain ⟨b, hb, hbsource⟩ := readToken_of_exhausted hm hend'
  have hla := SameStack.of_readToken ha
  have hmb := SameStack.of_readToken hb
  obtain ⟨hresta, hdonea, -, -⟩ := settled_readToken hl ha
  obtain ⟨hrestb, hdoneb, -, -⟩ := settled_readToken hm hb
  obtain ⟨hdonea, hwaita⟩ := hdonea rfl
  obtain ⟨hdoneb, hwaitb⟩ := hdoneb rfl
  have hplace : SamePlace a b := {
    config := hmb.config.trans (h.config.trans hla.config.symm)
    resolver := hmb.resolver.trans (h.resolver.trans hla.resolver.symm)
    source := hbsource.trans (h.source.trans hasource.symm)
    suspended := hmb.suspended.trans (h.suspended.trans hla.suspended.symm)
    pending := (hrestb.exhausted hdoneb).1.trans (hresta.exhausted hdonea).1.symm
    allowance := hmb.allowance.trans (h.allowance.trans hla.allowance.symm)
    resting := hresta
    resting' := hrestb }
  have hmirrors := hplace.mirrors (hdoneb.trans hdonea.symm)
  -- What they go on with is the same too, unless there is nothing.
  rw [Lexer.course_eq l, Lexer.course_eq m, turn_of_none ha, turn_of_none hb]
  unfold leave
  rw [hplace.suspended]
  cases a.suspended with
  | nil => rfl
  | cons parent rest =>
    have hresume := (hmirrors.resume parent rest).course_eq
    have hrest : rest ++ (Ground.level a.config a.resolver).below = rest := List.append_nil rest
    rw [hrest] at hresume
    have hnone : (a.resume parent rest).waiting = [] := by
      rw [resume, setState_waiting]
      exact hwaita
    have hnone' : (b.resume parent rest).waiting = [] := by
      rw [resume, setState_waiting]
      exact hwaitb
    show (b.resume parent rest).course.behind (putBack (b.resume parent rest).waiting) =
      (a.resume parent rest).course.behind (putBack (a.resume parent rest).waiting)
    rw [hnone, hnone', hresume]

/-- Two lexers at the same place take the same course. -/
theorem course_eq (h : SamePlace l m) : m.course = l.course := by
  have hexhausted (hend : m.Exhausted) : l.Exhausted := by
    refine ⟨h.pending.symm.trans hend.1, ?_⟩
    rw [← h.source]
    exact hend.2
  rcases h.resting.state with hl | ⟨-, hend⟩
  · rcases h.resting'.state with hm | ⟨-, hend⟩
    · exact (h.mirrors (hm.trans hl.symm)).course_eq
    · exact h.course_eq_of_exhausted (hexhausted hend)
  · exact h.course_eq_of_exhausted hend

end SamePlace

/-! ## An included source -/

variable {l : Lexer} {c d : Yield (Signal (Except LexError String))}

/-- The lexer that reads a source on its own, with what was put back in front of it. -/
def alone (l : Lexer) (stream : Stream) (origin : Option Path) : Lexer :=
  { ofSource l.config l.resolver ⟨stream, origin, 1⟩ with pending := l.pending }

/-- The lexer without the characters that were put back. -/
def dropPending (l : Lexer) : Lexer := { l with pending := [] }

/-- Where no character was put back, the included source on its own is a source from its beginning. -/
theorem alone_eq (h : l.pending = []) (stream : Stream) (origin : Option Path) :
    l.alone stream origin = ofSource l.config l.resolver ⟨stream, origin, 1⟩ := by
  rw [alone, h]
  rfl

/-- And then there is no character to drop. -/
theorem dropPending_eq (h : l.pending = []) : l.dropPending = l := by
  rw [dropPending, ← h]

/-- A lexer that rests does so without the character that was put back. -/
theorem Resting.dropPending (h : l.Resting) : l.dropPending.Resting := by
  refine ⟨h.token, Nat.zero_le _, ?_⟩
  rcases h.state with hstart | ⟨hdone, hend⟩
  · exact .inl hstart
  · exact .inr ⟨hdone, rfl, hend.2⟩

/-- A lexer that goes on with another source does what is done with that source alone. -/
theorem mirrors_pushSource (h : l.Resting) (hforgets : l.resolver.Memoryless) (stream : Stream) (origin : Option Path)
    (extra allowance : Nat) :
    Mirrors ⟨l.config, l.resolver, l.source :: l.suspended, extra⟩ [] l.waiting
      ((l.alone stream origin).allowing allowance)
      ((l.pushSource stream origin).allowing (allowance + extra)) where
  alike := {
    rules := by simp [rules, Lexer.pushSource, alone, ofSource, allowing]
    source := by simp [Lexer.pushSource, alone, ofSource, allowing]
    state := rfl
    token := by simpa [Lexer.pushSource, alone, ofSource, allowing] using h.token
    pending := by simp [Lexer.pushSource, alone, allowing]
    waiting := ⟨[], rfl, by simp [Lexer.pushSource, allowing]⟩ }
  config := ⟨rfl, by simp [Lexer.pushSource, allowing]⟩
  resolver := by simp [Lexer.pushSource, alone, ofSource, allowing]
  kept := .inr ⟨rfl, hforgets⟩
  suspended := by simp [Lexer.pushSource, alone, ofSource, allowing]
  allowance := rfl
  resting := ⟨rfl, h.held, .inl rfl⟩

/-- Back in the source that was suspended, a lexer goes on where it was. -/
theorem samePlace_resumed {g : Ground} {b : Lexer} (h : l.Resting) (hconfig : g.config = l.config)
    (hresolver : g.resolver = l.resolver) (hb : b.Resumed g l.source l.suspended) :
    SamePlace (l.dropPending.allowing b.allowance) b where
  config := hb.config.trans hconfig
  resolver := hb.resolver.trans hresolver
  source := hb.source
  suspended := hb.suspended
  pending := hb.pending
  allowance := rfl
  resting := h.dropPending.allowing b.allowance
  resting' := ⟨hb.token, by simp [hb.pending], .inl hb.state⟩

/-- A lexer that goes on with another source reads that source as it is read alone, with the character
that was put back in front of it. Then it reads what is left of its own, without that character. -/
theorem runs_pushSource (h : l.Resting) (hforgets : l.resolver.Memoryless) (stream : Stream) (origin : Option Path)
    (hc : (l.alone stream origin).Runs c) (hd : l.dropPending.Runs d) :
    (l.pushSource stream origin).Runs (c.andThen d) := by
  obtain ⟨m, hm⟩ := hc
  obtain ⟨n, hn⟩ := hd
  refine ⟨m + n, ?_⟩
  intro allowance hallowance
  cases hfailure : c.failure with
  | some e =>
    -- The included source ends with an error, and nothing comes after it.
    have hown := hm allowance (by omega)
    have hcourse := course_mirrors (k := d) _ (mirrors_pushSource h hforgets stream origin 0 allowance)
      (.inr rfl) (by rw [hown, hfailure]; simp)
    rw [hown] at hcourse
    exact hcourse
  | none =>
    -- The allowance that the rest needs is left when the included source has ended.
    obtain ⟨own, rfl⟩ := Nat.exists_eq_add_of_le (show n ≤ allowance by omega)
    have hown := hm own (by omega)
    have hcourse := course_mirrors (k := d) _ (mirrors_pushSource h hforgets stream origin n own)
      (.inl (by rw [hown, hfailure])) (by
        intro _ b hb
        rw [(samePlace_resumed h rfl rfl hb).course_eq]
        exact hn b.allowance hb.allowance)
    rw [hown, Nat.add_comm] at hcourse
    exact hcourse

end Lexer
end ShellWords

import ShellWords.Proofs.Decoding
import ShellWords.Proofs.Inclusion.Within
import ShellWords.Proofs.Lexing.Operations

/-!
# Line numbers

A lexer keeps a line number for each of its sources, and nothing but reading a character changes one. To say that
the numbers are right, each source is followed from where it was opened: an `Opened` source remembers its stream
and all characters that have been decoded from it. While tokens are looked for, only four things happen to the
stack of opened sources and to the resolver that opens them (`Supply.Step`): the source on top is read from, a name
that stands in it is asked for, what the name includes is put on top, and a source that has ended is taken off. The
other operations do to the stack what their names say (`Op.Changes`).

Each read keeps a source exact, that is, its line is one more than the newlines decoded from it
(`Opened.Exact.read`), so every step does, and every operation. A raw token only reads (`Lexer.advances_run`), so
the lexer has the sources of the stack at every moment (`Tracked.nextToken`). When it reports an open quotation,
the source on top has ended, and the report gives its line (`ends_nextToken`). The two together are `lines_exact`.

The lexer does not report every open quotation itself. What a resolver answers is passed on, whatever error it is
(`Op.Relays`), and so a resolver that reads a file before it answers may report a line of that file
(`openQuotation_of_resolver`).
-/

namespace ShellWords

namespace Source

/-- Reading on leads from the one source to the other. -/
def Advances : Source → Source → Prop := Relation.ReflTransGen fun s t => t = s.readChar.2

/-- A read leads on. -/
theorem advances_readChar (s : Source) : s.Advances s.readChar.2 := .single rfl

/-- So does skipping a line, which is one read after another. -/
theorem advances_skipLine (s : Source) : s.Advances s.skipLine.2 := by
  fun_induction skipLine s with
  | case1 s e t h => exact .single (by rw [h])
  | case2 s t h => exact .single (by rw [h])
  | case3 s t h => exact .single (by rw [h])
  | case4 s c t h hc ih => exact .head (by rw [h]) ih

/-- The characters that a read has given: one, or none at the end and when it fails. -/
def given : Except ReadError (Option Char) → List Char
  | .ok (some c) => [c]
  | _ => []

/-- A read counts a newline that it gives. -/
theorem line_readChar (s : Source) :
    s.readChar.2.line = s.line + (given s.readChar.1).count '\n' := by
  unfold readChar
  split
  · rename_i c rest hnext
    by_cases hc : c = '\n'
    · simp [given, hc]
    · simp [given, hc]
  · rename_i x rest hnot hnext
    rcases x with e | _ | c
    · rfl
    · rfl
    · exact (hnot c rfl).elim

/-- A read of a text takes what it gives off the text. -/
theorem readChar_of_encode {s : Source} {cs : List Char} {failure : Option ReadError}
    (h : s.stream = ⟨Text.Utf8.encode cs, failure⟩) :
    ∃ rest, cs = given s.readChar.1 ++ rest ∧
      s.readChar.2.stream = ⟨Text.Utf8.encode rest, failure⟩ := by
  unfold readChar
  rw [h]
  cases cs with
  | nil =>
    refine ⟨[], ?_⟩
    cases failure with
    | none => exact ⟨rfl, rfl⟩
    | some e => exact ⟨rfl, rfl⟩
  | cons c cs =>
    rw [Stream.next_encode_cons]
    exact ⟨cs, rfl, rfl⟩

end Source

/-! ## The stack of opened sources -/

/-- A source, with what it was opened on and what has been decoded from it. -/
structure Opened where
  /-- The stream that it was opened on. -/
  stream : Stream
  /-- The characters that have been decoded. -/
  decoded : List Char
  /-- What it is now. -/
  source : Source

namespace Opened

/-- A source at its beginning. -/
def fresh (stream : Stream) (origin : Option Path) : Opened := ⟨stream, [], ⟨stream, origin, 1⟩⟩

/-- A source from which once more is read. -/
def read (o : Opened) : Opened :=
  { o with decoded := o.decoded ++ Source.given o.source.readChar.1, source := o.source.readChar.2 }

/-- Reads, one after another. -/
def Reads : Opened → Opened → Prop := Relation.ReflTransGen fun o p => p = o.read

/-- The stack without the source on top. The last source stays. -/
def popped : List Opened → List Opened
  | _ :: next :: rest => next :: rest
  | stack => stack

/-- The line is one more than the newlines that have been decoded, and what has been decoded of a text is what
is no longer to be read of it. -/
structure Exact (o : Opened) : Prop where
  line : o.source.line = 1 + o.decoded.count '\n'
  unread : ∀ cs, o.stream.bytes = Text.Utf8.encode cs →
    ∃ rest, cs = o.decoded ++ rest ∧ o.source.stream = ⟨Text.Utf8.encode rest, o.stream.failure⟩

/-- A source that has just been opened is exact. -/
theorem exact_fresh (stream : Stream) (origin : Option Path) : (fresh stream origin).Exact where
  line := rfl
  unread := by
    intro cs hcs
    exact ⟨cs, rfl, by rw [← hcs]; rfl⟩

/-- Each read keeps it exact. -/
theorem Exact.read {o : Opened} (h : o.Exact) : o.read.Exact where
  line := by
    calc o.read.source.line
      _ = o.source.line + (Source.given o.source.readChar.1).count '\n' := o.source.line_readChar
      _ = 1 + o.read.decoded.count '\n' := by
        rw [h.line, Opened.read, List.count_append, Nat.add_assoc]
  unread := by
    intro cs hcs
    obtain ⟨rest, rfl, hstream⟩ := h.unread cs hcs
    obtain ⟨rest', rfl, hstream'⟩ := Source.readChar_of_encode hstream
    exact ⟨rest', (List.append_assoc ..).symm, hstream'⟩

/-- Where reading leads to is reached by reads. -/
theorem exists_reads {o : Opened} {s : Source} (h : o.source.Advances s) :
    ∃ p, o.Reads p ∧ p.source = s := by
  induction h with
  | refl => exact ⟨o, .refl, rfl⟩
  | tail _ hread ih =>
    obtain ⟨p, hreads, rfl⟩ := ih
    exact ⟨p.read, hreads.tail rfl, hread.symm⟩

/-- Taking the source on top off leaves the others exact. -/
theorem exact_popped {stack : List Opened} (h : ∀ o ∈ stack, o.Exact) : ∀ o ∈ popped stack, o.Exact := by
  unfold popped
  split
  · exact (List.forall_mem_cons.1 h).2
  · exact h

end Opened

/-! ## The sources and the resolver -/

/-- Where a lexer has its characters from: the sources that have been opened, the current one on top, and the
resolver that opens more of them. -/
structure Supply where
  resolver : Resolver
  stack : List Opened

namespace Supply

/-- What happens while tokens are looked for. -/
inductive Step : Supply → Supply → Prop where
  /-- The source on top is read from. -/
  | reads (resolver : Resolver) (top : Opened) (rest : List Opened) :
    Step ⟨resolver, top :: rest⟩ ⟨resolver, top.read :: rest⟩
  /-- A name that stands in the source on top is asked for, and nothing comes of it. -/
  | asks (resolver : Resolver) (top : Opened) (rest : List Opened) (name : String) :
    Step ⟨resolver, top :: rest⟩ ⟨resolver.after name top.source.origin, top :: rest⟩
  /-- A name that stands in the source on top includes another. -/
  | includes {resolver : Resolver} {top : Opened} {rest : List Opened} {name : String} {inclusion : Inclusion}
    (h : resolver.answer name top.source.origin = .ok inclusion) :
    Step ⟨resolver, top :: rest⟩
      ⟨resolver.after name top.source.origin, .fresh inclusion.stream inclusion.origin :: top :: rest⟩
  /-- The source on top has ended, and the one below goes on as it was. -/
  | leaves {resolver : Resolver} {top next : Opened} {rest : List Opened} (h : top.source.readChar.1 = .ok none) :
    Step ⟨resolver, top :: next :: rest⟩ ⟨resolver, next :: rest⟩

/-- Steps, one after another. -/
def Steps : Supply → Supply → Prop := Relation.ReflTransGen Step

/-- The line of every source is right. -/
def Exact (s : Supply) : Prop := ∀ o ∈ s.stack, o.Exact

variable {before after : Supply}

/-- A step keeps every source exact. -/
theorem Step.exact (h : Step before after) (hexact : before.Exact) : after.Exact := by
  unfold Exact at *
  cases h with
  | reads resolver top rest =>
    rw [List.forall_mem_cons] at hexact ⊢
    exact ⟨hexact.1.read, hexact.2⟩
  | asks resolver top rest name => exact hexact
  | includes hresolve => exact List.forall_mem_cons.2 ⟨Opened.exact_fresh _ _, hexact⟩
  | leaves hended => exact (List.forall_mem_cons.1 hexact).2

/-- So do steps, however many. -/
theorem Steps.exact (h : Steps before after) (hexact : before.Exact) : after.Exact := by
  induction h with
  | refl => exact hexact
  | tail _ hstep ih => exact hstep.exact ih

/-- Reading from the source on top is steps. -/
theorem steps_of_reads {o p : Opened} (h : o.Reads p) (resolver : Resolver) (rest : List Opened) :
    Steps ⟨resolver, o :: rest⟩ ⟨resolver, p :: rest⟩ := by
  induction h with
  | refl => exact .refl
  | tail _ hread ih =>
    subst hread
    exact ih.tail (.reads resolver _ rest)

end Supply

/-- What an operation does to the opened sources, and to the resolver. -/
def Op.Changes (before after : Supply) : Op → Prop
  | nextToken | hasNext | iterate => before.Steps after
  | readToken => ∃ top rest top', before.stack = top :: rest ∧ top.Reads top' ∧
      after = { before with stack := top' :: rest }
  | pushToken _ => after = before
  | pushSource stream origin => after = { before with stack := .fresh stream origin :: before.stack }
  | popSource => after = { before with stack := Opened.popped before.stack }
  | close => after = { before with stack := [.fresh .empty none] }

/-- No operation makes a line wrong. -/
theorem Op.Changes.exact {before after : Supply} {op : Op} (h : op.Changes before after)
    (hexact : before.Exact) : after.Exact := by
  cases op with
  | nextToken => exact Supply.Steps.exact h hexact
  | readToken =>
    obtain ⟨resolver, stack⟩ := before
    obtain ⟨top, rest, top', rfl, hreads, rfl⟩ := h
    exact (Supply.steps_of_reads hreads resolver rest).exact hexact
  | hasNext => exact Supply.Steps.exact h hexact
  | iterate => exact Supply.Steps.exact h hexact
  | pushToken token =>
    obtain rfl : after = before := h
    exact hexact
  | pushSource stream origin =>
    obtain rfl : after = { before with stack := .fresh stream origin :: before.stack } := h
    exact List.forall_mem_cons.2 ⟨Opened.exact_fresh _ _, hexact⟩
  | popSource =>
    obtain rfl : after = { before with stack := Opened.popped before.stack } := h
    exact Opened.exact_popped hexact
  | close =>
    obtain rfl : after = { before with stack := [.fresh .empty none] } := h
    exact List.forall_mem_singleton.2 (Opened.exact_fresh .empty none)

namespace Lexer

variable {r : Rules} {l m : Lexer} {before : Supply}

/-! ## A raw token only reads -/

/-- Taking a character reads from the source, or leaves it alone. -/
theorem advances_takeChar (l : Lexer) : l.source.Advances l.takeChar.2.source := by
  unfold takeChar
  split
  · exact .refl
  · exact l.source.advances_readChar

/-- So does discarding the rest of a line. -/
theorem advances_skipFor (l : Lexer) (move : Move) : l.source.Advances (l.skipFor move).2.source := by
  unfold skipFor
  split
  · exact l.source.advances_skipLine
  · exact .refl

/-- Ending a token leaves the source alone. -/
theorem finish_source {quoted : Bool} {result : Option String}
    (hfin : finish r quoted l = (result, m)) : m.source = l.source :=
  (congrArg (fun p => p.2.source) hfin).symm

/-- So a run only reads from its source. -/
theorem advances_run (r : Rules) (l : Lexer) (quoted : Bool) :
    l.source.Advances (run r l quoted).2.source := by
  fun_induction run r l quoted with
  | case1 l quoted hdone result m hfin =>
    rw [finish_source hfin]
    exact .refl
  | case2 l quoted hdone e taken htake => simpa [htake] using l.advances_takeChar
  | case3 l quoted hdone taken htake told hopen => simpa [htake, told] using l.advances_takeChar
  | case4 l quoted hdone taken htake told hopen result m hfin =>
    rw [finish_source hfin, setState_source]
    simpa [htake, told] using l.advances_takeChar
  | case5 l quoted hdone c taken htake m e skipped hskip =>
    have htaken := l.advances_takeChar
    have hskipped := (taken.notify (.charRead l.state (some c))).advances_skipFor m
    rw [htake] at htaken
    rw [hskip] at hskipped
    exact htaken.trans hskipped
  | case6 l quoted hdone c taken htake m skipped hskip next hcomplete result l' hfin =>
    have htaken := l.advances_takeChar
    have hskipped := (taken.notify (.charRead l.state (some c))).advances_skipFor m
    rw [htake] at htaken
    rw [hskip] at hskipped
    have hnext : next.source = skipped.source := setState_source ..
    rw [finish_source hfin, hnext]
    exact htaken.trans hskipped
  | case7 l quoted hdone c taken htake m skipped hskip next hcomplete ih =>
    have htaken := l.advances_takeChar
    have hskipped := (taken.notify (.charRead l.state (some c))).advances_skipFor m
    rw [htake] at htaken
    rw [hskip] at hskipped
    have hnext : next.source = skipped.source := setState_source ..
    rw [hnext] at ih
    exact (htaken.trans hskipped).trans ih

/-! ## The sources of a lexer -/

/-- The resolver is that of the lexer, its current source is on top of the stack, and those that it has suspended are
below. -/
structure ReadsFrom (l : Lexer) (s : Supply) : Prop where
  resolver : s.resolver = l.resolver
  sources : s.stack.map Opened.source = l.source :: l.suspended

/-- A lexer has a source on top. -/
theorem ReadsFrom.cons {s : Supply} (h : l.ReadsFrom s) :
    ∃ top rest, s = ⟨l.resolver, top :: rest⟩ ∧ top.source = l.source ∧ rest.map Opened.source = l.suspended := by
  obtain ⟨resolver, stack⟩ := s
  obtain ⟨rfl, hsources⟩ := h
  obtain ⟨top, rest, rfl, htop, hrest⟩ := List.map_eq_cons_iff.1 hsources
  exact ⟨top, rest, rfl, htop, hrest⟩

/-- Steps lead to where the lexer has its characters from. -/
structure Tracked (r : Rules) (before : Supply) (l : Lexer) : Prop where
  consistent : l.Consistent r
  supply : ∃ s, before.Steps s ∧ l.ReadsFrom s

/-- Reading a raw token reads from the source on top. -/
theorem ReadsFrom.readToken {s : Supply} (h : l.ReadsFrom s) :
    ∃ after, Op.Changes s after .readToken ∧ l.readToken.2.ReadsFrom after := by
  obtain ⟨top, rest, rfl, htop, hrest⟩ := h.cons
  have hadvances : top.source.Advances l.readToken.2.source := by
    rw [htop]
    exact advances_run l.rules l false
  obtain ⟨top', hreads, htop'⟩ := Opened.exists_reads hadvances
  refine ⟨⟨l.resolver, top' :: rest⟩, ⟨top, rest, top', rfl, hreads, rfl⟩, l.sameStack_readToken.resolver.symm, ?_⟩
  rw [l.sameStack_readToken.suspended, List.map_cons, htop', hrest]

namespace Tracked

/-- What a lexer tells its listener makes no difference. -/
theorem notify (h : Tracked r before l) (e : Event) : Tracked r before (l.notify e) := by
  obtain ⟨s, hsteps, hsupply⟩ := h.supply
  exact ⟨h.consistent.notify e, s, hsteps, hsupply.resolver, hsupply.sources⟩

/-- A raw token is read by steps. -/
theorem readToken {x : Except LexError (Option String)} (h : Tracked r before l)
    (hread : l.readToken = (x, m)) : Tracked r before m := by
  obtain ⟨s, hsteps, hsupply⟩ := h.supply
  obtain ⟨top, rest, rfl, -, -⟩ := hsupply.cons
  obtain ⟨after, ⟨top', rest', next, hcons, hreads, rfl⟩, hafter⟩ := hsupply.readToken
  obtain ⟨rfl, rfl⟩ := List.cons_eq_cons.1 hcons
  rw [hread] at hafter
  exact ⟨(h.consistent.readToken hread).1, _, hsteps.trans (Supply.steps_of_reads hreads l.resolver _), hafter⟩

/-- A name is asked for in a step, whether something is included or not. -/
theorem openInclusion {name : String} {x : Except LexError Unit} (h : Tracked r before l)
    (hopen : l.openInclusion name = (x, m)) : Tracked r before m := by
  have hconsistent := h.consistent.openInclusion hopen
  obtain ⟨s, hsteps, hsupply⟩ := h.supply
  obtain ⟨top, rest, rfl, htop, hrest⟩ := hsupply.cons
  have horigin : top.source.origin = l.origin := by rw [origin, htop]
  rcases openInclusion_cases hopen with ⟨e, -, rfl⟩ | ⟨inclusion, left, hresolve, -, -, rfl⟩
  · refine ⟨hconsistent, _, hsteps.tail (.asks l.resolver top rest name), ?_, ?_⟩
    · rw [horigin]
      rfl
    · rw [List.map_cons, htop, hrest]
      rfl
  · rw [← horigin] at hresolve
    refine ⟨hconsistent, _, hsteps.tail (.includes hresolve), ?_, ?_⟩
    · rw [horigin, pushSource_eq_switch, switch_resolver]
      rfl
    · rw [pushSource_eq_switch, switch_source, switch_suspended, List.map_cons, List.map_cons, htop, hrest]
      rfl

/-- Where a source has ended, it is left in a step. -/
theorem resume {parent : Source} {rest : List Source} (h : Tracked r before l)
    (k : Tracked r before m) (hread : l.readToken = (.ok none, m))
    (hsuspended : m.suspended = parent :: rest) : Tracked r before (m.resume parent rest) := by
  obtain ⟨hconsistent, hended⟩ := h.consistent.readToken hread
  have hexhausted := hconsistent.done ((hended none rfl).2 rfl)
  obtain ⟨s, hsteps, hsupply⟩ := k.supply
  obtain ⟨top, below, rfl, htop, hbelow⟩ := hsupply.cons
  rw [hsuspended] at hbelow
  obtain ⟨next, below, rfl, rfl, rfl⟩ := List.map_eq_cons_iff.1 hbelow
  refine ⟨k.consistent.resume _ _, _, hsteps.tail (.leaves (by rw [htop, hexhausted.2])), ?_, ?_⟩
  · rw [resume_eq_switch, switch_resolver]
  · rw [resume_eq_switch, switch_source, switch_suspended, List.map_cons]

/-- So a search is steps. -/
theorem search {x : Except LexError (Option String)} (h : Tracked r before l)
    (hsearch : l.search = (x, m)) : Tracked r before m := by
  refine (search_keeps (P := Tracked r before) ?_ ?_ ?_ ?_ ?_ h hsearch).1
  · exact fun h hread => h.readToken hread
  · exact fun h _ hopen => h.openInclusion hopen
  · exact fun parent rest h k hread hstack => h.resume k hread hstack
  · exact fun e h => h.notify e
  · intro l m h hread
    rw [h.consistent.setState_done hread]
    exact h.readToken hread

/-- The next token is found by steps, or by none if it was put back. -/
theorem nextToken (h : Tracked r before l) : Tracked r before l.nextToken.2 := by
  cases hwaiting : l.waiting with
  | nil =>
    rw [nextToken_of_no_waiting hwaiting]
    exact h.search rfl
  | cons token rest =>
    have hnext := nextToken_of_waiting hwaiting
    have hconsistent := (h.consistent.nextToken hnext).1
    obtain ⟨s, hsteps, hsupply⟩ := h.supply
    rw [hnext]
    exact ⟨hconsistent, s, hsteps, hsupply.resolver, hsupply.sources⟩

end Tracked

/-- Every operation changes the opened sources as it may, and these are again where the lexer has its characters
from. -/
theorem exists_changes {s : Supply} (hconsistent : l.Consistent r) (h : l.ReadsFrom s) (op : Op) :
    ∃ after, op.Changes s after ∧ (op.perform l).ReadsFrom after := by
  have htracked : Tracked r s l := ⟨hconsistent, s, .refl, h⟩
  obtain ⟨s', hsteps, hnext⟩ := htracked.nextToken.supply
  cases op with
  | nextToken => exact ⟨s', hsteps, hnext⟩
  | readToken => exact h.readToken
  | hasNext =>
    refine ⟨s', hsteps, ?_⟩
    show l.hasNext.2.ReadsFrom s'
    rcases l.hasNext_cases with hsame | ⟨token, hsame⟩ <;> rw [hsame]
    · exact hnext
    · exact ⟨hnext.resolver, hnext.sources⟩
  | iterate =>
    show ∃ after, s.Steps after ∧ l.iterate.2.ReadsFrom after
    rcases l.iterate_cases with hsame | hsame | hsame <;> rw [hsame]
    · exact ⟨s, .refl, h⟩
    · exact ⟨s', hsteps, hnext⟩
    · exact ⟨s', hsteps, hnext.resolver, hnext.sources⟩
  | pushToken token => exact ⟨s, rfl, h.resolver, h.sources⟩
  | pushSource stream origin =>
    refine ⟨_, rfl, ?_⟩
    show (l.pushSource stream origin).ReadsFrom _
    rw [pushSource_eq_switch]
    refine ⟨by rw [switch_resolver]; exact h.resolver, ?_⟩
    rw [List.map_cons, h.sources, switch_source, switch_suspended]
    rfl
  | popSource =>
    obtain ⟨top, rest, rfl, htop, hrest⟩ := h.cons
    refine ⟨_, rfl, ?_⟩
    show l.popSource.2.ReadsFrom ⟨l.resolver, Opened.popped (top :: rest)⟩
    unfold popSource
    cases rest with
    | nil =>
      rw [← hrest]
      exact h
    | cons next below =>
      rw [← hrest, List.map_cons]
      dsimp only
      rw [resume_eq_switch]
      refine ⟨by rw [switch_resolver], ?_⟩
      rw [switch_source, switch_suspended]
      rfl
  | close => exact ⟨_, rfl, h.resolver, rfl⟩

/-! ## Open quotations -/

/-- The search asks the resolver for a name, which answers with this error. -/
def Refused (l : Lexer) (e : LexError) : Prop :=
  ∃ k keyword read name named, l.Visits k ∧ k.readToken = (.ok (some keyword), read) ∧
    read.config.sourceKeyword = some keyword ∧ read.readToken = (.ok (some name), named) ∧
    named.resolver.answer name named.origin = .error e

/-- If the error is an open quotation, the current source has ended, and the error gives its file and its line. -/
def Ends (m : Lexer) (e : LexError) : Prop :=
  ∀ origin line, e = .unterminatedQuotation origin line →
    m.source.readChar.1 = .ok none ∧ m.origin = origin ∧ m.line = line

/-- When a run reports an open quotation, its source has ended. -/
theorem ends_run {quoted : Bool} {e : LexError} (h : run r l quoted = (.error e, m)) : m.Ends e := by
  intro origin line he
  subst he
  fun_induction run r l quoted with
  | case1 => simp at h
  | case2 => simp at h
  | case3 l quoted hdone taken htake told hopen =>
    obtain ⟨rfl, hexhausted⟩ := exhausted_of_takeChar htake
    simp only [Prod.mk.injEq, Except.error.injEq, LexError.unterminatedQuotation.injEq] at h
    obtain ⟨⟨horigin, hline⟩, rfl⟩ := h
    exact ⟨congrArg Prod.fst hexhausted.2, horigin, hline⟩
  | case4 => simp at h
  | case5 => simp at h
  | case6 => simp at h
  | case7 l quoted hdone c taken htake move skipped hskip next hcomplete ih => exact ih h

/-- Reading a raw token finds an open quotation at the end of the source. -/
theorem ends_readToken {e : LexError} (h : l.readToken = (.error e, m)) : m.Ends e := ends_run h

/-- Behind the keyword, an open quotation is found in the name, unless the resolver reports it. -/
theorem ends_openInclusion {name : String} {e : LexError} (h : l.openInclusion name = (.error e, m)) :
    l.resolver.answer name l.origin = .error e ∨ m.Ends e := by
  unfold openInclusion at h
  split at h
  · rename_i e' hresolve
    obtain ⟨he, -⟩ := Prod.mk.inj h
    obtain rfl := Except.error.inj he
    exact .inl hresolve
  · split at h
    · obtain ⟨he, -⟩ := Prod.mk.inj h
      obtain rfl := Except.error.inj he
      exact .inr fun origin line he => by cases he
    · cases h

/-- A turn fails for an open quotation at the end of the current source, unless the resolver reports one. -/
theorem ends_turn {e : LexError} (h : l.turn = .failed e m) : l.Refused e ∨ m.Ends e := by
  unfold turn at h
  split at h
  · rename_i e' read hraw
    obtain ⟨rfl, rfl⟩ := Turn.failed.inj h
    exact .inr (ends_readToken hraw)
  · unfold leave at h
    split at h <;> cases h
  rename_i keyword read hraw
  split at h
  · rename_i hkey
    unfold follow at h
    split at h
    · rename_i e' named hname
      obtain ⟨rfl, rfl⟩ := Turn.failed.inj h
      exact .inr (ends_readToken hname)
    · cases h
    rename_i name named hname
    split at h
    · rename_i e' opened hopen
      obtain ⟨rfl, rfl⟩ := Turn.failed.inj h
      refine (ends_openInclusion hopen).imp_left fun hanswer => ?_
      exact ⟨l, keyword, read, name, named, .refl, hraw, hkey, hname, hanswer⟩
    · cases h
  · cases h

/-- A search visits what is visited from where a turn of it leads. -/
theorem Refused.of_passed {e : LexError} (hturn : l.turn = .passed m) (h : m.Refused e) : l.Refused e := by
  obtain ⟨k, keyword, read, name, named, hvisits, h⟩ := h
  exact ⟨k, keyword, read, name, named, .head hturn hvisits, h⟩

/-- So it is with a search. -/
theorem ends_search {e : LexError} (l : Lexer) (h : l.search = (.error e, m)) : l.Refused e ∨ m.Ends e := by
  induction l using hasLess_induction with
  | step l ih =>
    have hspends := spends_turn l
    rw [search_eq_turn] at h
    cases hturn : l.turn with
    | failed e after =>
      rw [hturn] at h
      obtain ⟨he, rfl⟩ := Prod.mk.inj h
      obtain rfl := Except.error.inj he
      exact ends_turn hturn
    | ended after => simp [hturn] at h
    | handed token after => simp [hturn] at h
    | passed after =>
      rw [hturn] at h hspends
      exact (ih after hspends h).imp_left (.of_passed hturn)

/-- The next token is searched for, unless it was put back. -/
theorem ends_nextToken {e : LexError} (h : l.nextToken = (.error e, m)) : l.Refused e ∨ m.Ends e := by
  cases hwaiting : l.waiting with
  | nil =>
    rw [nextToken_of_no_waiting hwaiting] at h
    exact ends_search l h
  | cons token rest =>
    rw [nextToken_of_waiting hwaiting] at h
    cases h

end Lexer

/-- The operation searches for a token, and passes on an error that the resolver has answered it with. -/
def Op.Relays (l : Lexer) (e : LexError) : Op → Prop
  | nextToken | hasNext | iterate => l.Refused e
  | _ => False

namespace Lexer

variable {l m : Lexer}

/-- Whatever operation returns an open quotation, it is that of the current source, unless it is the resolver's. -/
theorem ends_perform {op : Op} {e : LexError} (h : (op.answer l).error? = some e) :
    op.Relays l e ∨ (op.perform l).Ends e := by
  cases op with
  | nextToken =>
    show l.Refused e ∨ l.nextToken.2.Ends e
    rcases hnext : l.nextToken with ⟨e' | token, m⟩ <;> simp only [Op.answer, hnext, Answer.error?] at h
    · obtain rfl := Option.some.inj h
      exact ends_nextToken hnext
    · cases h
  | readToken =>
    right
    show l.readToken.2.Ends e
    rcases hread : l.readToken with ⟨e' | token, m⟩ <;> simp only [Op.answer, hread, Answer.error?] at h
    · obtain rfl := Option.some.inj h
      exact ends_readToken hread
    · cases h
  | hasNext =>
    show l.Refused e ∨ l.hasNext.2.Ends e
    simp only [Op.answer, hasNext] at h ⊢
    rcases hnext : l.nextToken with ⟨e' | _ | token, m⟩ <;> simp only [hnext, Answer.error?] at h ⊢
    · obtain rfl := Option.some.inj h
      exact ends_nextToken hnext
    · cases h
    · cases h
  | iterate =>
    show l.Refused e ∨ l.iterate.2.Ends e
    simp only [Op.answer, iterate] at h ⊢
    split at h
    · cases h
    · rename_i hhalted
      rw [if_neg hhalted]
      rcases hnext : l.nextToken with ⟨e' | _ | token, m⟩ <;> simp only [hnext, Answer.error?] at h ⊢
      · obtain rfl := Option.some.inj h
        exact (ends_nextToken hnext).imp_right fun hends origin line he => hends origin line he
      · cases h
      · cases h
  | popSource =>
    simp only [Op.answer, popSource] at h
    split at h
    · obtain rfl := Option.some.inj h
      exact .inr fun origin line he => by cases he
    · cases h
  | pushToken token => cases h
  | pushSource stream origin => cases h
  | close => cases h

end Lexer

/-! ## Exact lines -/

/-- Nothing is left to read of a source, which comes from this file and has ended at this line: one more than the
newlines in all of its text, if it is a text. -/
structure Opened.EndsAt (o : Opened) (origin : Option Path) (line : Nat) : Prop where
  ended : o.source.readChar.1 = .ok none
  origin_eq : o.source.origin = origin
  line_eq : o.source.line = line
  whole : ∀ cs, o.stream.bytes = Text.Utf8.encode cs → line = 1 + cs.count '\n'

/-- An exact source at its end has been decoded whole. -/
theorem Opened.Exact.endsAt {o : Opened} (h : o.Exact) (hended : o.source.readChar.1 = .ok none) :
    o.EndsAt o.source.origin o.source.line where
  ended := hended
  origin_eq := rfl
  line_eq := rfl
  whole := by
    intro cs hcs
    obtain ⟨rest, rfl, hstream⟩ := h.unread cs hcs
    cases rest with
    | nil => rw [List.append_nil, h.line]
    | cons c rest =>
      rw [Source.readChar, hstream, Stream.next_encode_cons] at hended
      cases hended

/-- If an open quotation is reported, it is at the end of the source that is on top then. This is not said of an
error that the operation passes on from the resolver. -/
def Op.Blames (l : Lexer) (after : Supply) (op : Op) : Prop :=
  ∀ origin line, (op.answer l).error? = some (.unterminatedQuotation origin line) →
    ¬op.Relays l (.unterminatedQuotation origin line) → ∃ top ∈ after.stack.head?, top.EndsAt origin line

namespace Lexer

variable {l : Lexer} {s : Supply}

/-- The lexer has its characters from these sources, and the line of each is exact. -/
structure Accounts (l : Lexer) (s : Supply) : Prop where
  sources : l.ReadsFrom s
  exact : s.Exact

/-- Each of these operations, one after another, changes the sources as it may and is answered rightly, and the
lines are exact before and after it. -/
def AccountsAlong (l : Lexer) (s : Supply) : List Op → Prop
  | [] => l.Accounts s
  | op :: ops => l.Accounts s ∧ ∃ after, op.Changes s after ∧ op.Blames l after ∧
      (op.perform l).AccountsAlong after ops

/-- An answer blames the source that is current after the operation. -/
theorem Accounts.blames {op : Op} (h : (op.perform l).Accounts s) : op.Blames l s := by
  intro file number herror hrelays
  obtain ⟨hended, rfl, rfl⟩ := (ends_perform herror).resolve_left hrelays file number rfl
  obtain ⟨top, rest, rfl, htop, -⟩ := h.sources.cons
  refine ⟨top, rfl, ?_⟩
  rw [← htop] at hended
  have hexact := (List.forall_mem_cons.1 h.exact).1
  rw [origin, line, ← htop]
  exact hexact.endsAt hended

/-- From exact lines on, whatever is asked of a lexer leaves them exact. -/
theorem accountsAlong {r : Rules} (hconsistent : l.Consistent r) (h : l.Accounts s) (ops : List Op) :
    l.AccountsAlong s ops := by
  induction ops generalizing l s with
  | nil => exact h
  | cons op ops ih =>
    obtain ⟨after, hchanges, hsources⟩ := exists_changes hconsistent h.sources op
    have hafter : (op.perform l).Accounts after := ⟨hsources, hchanges.exact h.exact⟩
    exact ⟨h, after, hchanges, hafter.blames, ih (hconsistent.perform op) hafter⟩

/-- In every run the line of the current source and of every suspended one is one more than the newlines that have
been decoded from that source. A suspended source stays as it is until it is current again. And an open quotation
is reported with the file of the source that is then current and with the line of its end, one more than the
newlines in its whole text, unless it is an error that the resolver has returned for the name that was asked for. -/
theorem lines_exact (config : Config) (resolver : Resolver) (stream : Stream) (origin : Option Path)
    (observer : Observer) (allowance : Nat) (ops : List Op) :
    AccountsAlong { ofSource config resolver ⟨stream, origin, 1⟩ with observer, allowance }
      ⟨resolver, [.fresh stream origin]⟩ ops := by
  have hreached := Reached.made config resolver ⟨stream, origin, 1⟩ observer allowance
  have haccounts : Accounts { ofSource config resolver ⟨stream, origin, 1⟩ with observer, allowance }
      ⟨resolver, [.fresh stream origin]⟩ :=
    ⟨⟨rfl, rfl⟩, List.forall_mem_singleton.2 (Opened.exact_fresh stream origin)⟩
  exact accountsAlong hreached.consistent haccounts ops

/-- A resolver that has found an open quotation itself, in the seventh line of a file. -/
def openElsewhere : Resolver := .fixed fun _ _ => .error (.unterminatedQuotation (some ⟨"lib"⟩) 7)

set_option maxRecDepth 4000 in
/-- An open quotation that the resolver reports is passed on as it is, though the current source is not that file and
has no such line. -/
theorem openQuotation_of_resolver :
    ∃ m, (ofText { sourceKeyword := some "source" } openElsewhere "source x").nextToken =
        (.error (.unterminatedQuotation (some ⟨"lib"⟩) 7), m) ∧
      m.source = ⟨.empty, none, 1⟩ ∧ 7 ≠ 1 + "source x".toList.count '\n' := by
  have hkeyword : (ofText { sourceKeyword := some "source" } openElsewhere "source x").readToken =
      (.ok (some "source"), ofText { sourceKeyword := some "source" } openElsewhere "x") :=
    run_of_runWithin 10 rfl
  have hname : (ofText { sourceKeyword := some "source" } openElsewhere "x").readToken = (.ok (some "x"),
      { ofText { sourceKeyword := some "source" } openElsewhere "" with state := .done }) :=
    run_of_runWithin 10 rfl
  refine ⟨{ ofText { sourceKeyword := some "source" } openElsewhere "" with state := .done }, ?_, rfl, by decide⟩
  rw [nextToken_of_no_waiting rfl, search_eq_turn, turn_of_keyword hkeyword rfl, follow, hname]
  rfl

end Lexer
end ShellWords

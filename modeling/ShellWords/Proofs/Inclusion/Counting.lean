import ShellWords.Proofs.Decoding
import ShellWords.Proofs.Inclusion.Descent

/-!
# Every token costs a character

A token holds a character of its source, or the quotes around it did, or it is a character that was put back. So a
lexer has a stock that its tokens are paid from (`Lexer.holdings`): the characters left in its sources, and what it
has put back. A move takes one character and puts at most one back, and then it completes a token that was in
progress before; so a run that returns a token leaves the stock smaller by one (`stock_run`). Including a source
adds its characters to the stock (`pays_turn`). What a search opens on its way is written down in
`Lexer.opens`, and by induction on the turns and then on the calls there are at most as many tokens as characters
in all the sources that are opened (`length_collect_le`).

Where the inclusions nest to a finite depth, reading ends, and what is read is the same with every allowance that is
large enough (`iteration_ends`).
-/

namespace ShellWords

/-! ## Characters of a source -/

namespace Source

/-- The number of characters in a source, up to its end or to the first that cannot be read. -/
def characters (s : Source) : Nat := s.drain.1.length

variable {s t : Source}

/-- Reading a character leaves one less in the source. -/
theorem characters_of_readChar {c : Char} (h : s.readChar = (.ok (some c), t)) :
    s.characters = t.characters + 1 := by
  rw [characters, drain]
  split
  · rename_i hread
    simp [h] at hread
  · rename_i hread
    simp [h] at hread
  · rename_i d u hread
    rw [h] at hread
    obtain ⟨-, rfl⟩ := Prod.mk.inj hread
    rfl

/-- At its end a source has no characters left. -/
theorem characters_of_readChar_none (h : s.readChar = (.ok none, t)) : s.characters = 0 := by
  rw [characters, drain]
  split
  · rfl
  · rfl
  · rename_i d u hread
    simp [h] at hread

/-- A text has the characters that it is made of. -/
theorem characters_of_chars (cs : List Char) (origin : Option Path) (line : Nat) :
    characters ⟨.ofChars cs, origin, line⟩ = cs.length := by
  induction cs generalizing line with
  | nil => exact characters_of_readChar_none (readChar_of_nil rfl)
  | cons c cs ih =>
    rw [characters_of_readChar (readChar_of_cons rfl), ih]
    rfl

/-- Skipping a line takes characters with it. -/
theorem characters_skipLine_le (h : s.skipLine = (.ok (), t)) : t.characters ≤ s.characters := by
  fun_induction skipLine s with
  | case1 s e u hread => simp at h
  | case2 s u hread =>
    obtain ⟨-, rfl⟩ := Prod.mk.inj h
    exact Nat.le_of_eq (congrArg characters (eq_of_readChar_none hread))
  | case3 s u hread =>
    obtain ⟨-, rfl⟩ := Prod.mk.inj h
    rw [characters_of_readChar hread]
    exact Nat.le_succ _
  | case4 s c u hread hc ih =>
    calc t.characters
      _ ≤ u.characters := ih h
      _ ≤ s.characters := by rw [characters_of_readChar hread]; exact Nat.le_succ _

end Source

namespace Lexer

/-! ## The stock of a lexer -/

/-- What the next tokens are paid from, as far as the current source goes: its characters, and what was put
back. -/
def stock (l : Lexer) : Nat :=
  l.source.characters + l.pending.length + l.waiting.length

/-- The number of characters in all of these sources. -/
def charactersOf : List Source → Nat
  | [] => 0
  | s :: sources => s.characters + charactersOf sources

/-- The characters of two lists of sources are those of the one and those of the other. -/
theorem charactersOf_append (a b : List Source) :
    charactersOf (a ++ b) = charactersOf a + charactersOf b := by
  induction a with
  | nil => exact (Nat.zero_add _).symm
  | cons s a ih =>
    show s.characters + charactersOf (a ++ b) = s.characters + charactersOf a + charactersOf b
    rw [ih, Nat.add_assoc]

/-- What all further tokens are paid from, unless more is included. -/
def holdings (l : Lexer) : Nat := l.stock + charactersOf l.suspended

variable {r : Rules} {l m taken skipped : Lexer} {quoted : Bool} {result : Option String} {c : Char}

/-- A character that is taken comes off the stock. -/
theorem stock_takeChar (h : l.takeChar = (.ok (some c), taken)) : l.stock = taken.stock + 1 := by
  unfold takeChar at h
  split at h
  · rename_i d rest hpending
    obtain ⟨-, rfl⟩ := Prod.mk.inj h
    simp only [stock, hpending, List.length_cons]
    omega
  · rename_i hpending
    obtain ⟨hread, rfl⟩ := Prod.mk.inj h
    have hcharacters : l.source.characters = l.source.readChar.2.characters + 1 :=
      Source.characters_of_readChar (Prod.ext hread rfl)
    simp only [stock, hpending, hcharacters]
    omega

/-- Discarding a line adds nothing to the stock. -/
theorem stock_skipFor_le {move : Move} (h : l.skipFor move = (.ok (), skipped)) : skipped.stock ≤ l.stock := by
  unfold skipFor at h
  split at h
  · unfold skipLine at h
    obtain ⟨hskip, rfl⟩ := Prod.mk.inj h
    have hle : l.source.skipLine.2.characters ≤ l.source.characters :=
      Source.characters_skipLine_le (Prod.ext hskip rfl)
    simp only [stock]
    omega
  · obtain ⟨-, rfl⟩ := Prod.mk.inj h
    exact Nat.le_refl _

/-- A character that is taken is gone, and its line may be. -/
theorem stock_of_skipFor {move : Move} {e : Event} (htake : l.takeChar = (.ok (some c), taken))
    (hskip : (taken.notify e).skipFor move = (.ok (), skipped)) : skipped.stock + 1 ≤ l.stock := by
  have hle : skipped.stock ≤ taken.stock := stock_skipFor_le (l := taken.notify e) hskip
  rw [stock_takeChar htake]
  exact Nat.succ_le_succ hle

/-- A move puts one thing back, or nothing. -/
theorem stock_apply (l : Lexer) (move : Move) (c : Char) :
    (l.apply move c).stock = l.stock + if move.held = .nothing then 0 else 1 := by
  cases hheld : move.held with
  | nothing => simp [stock, apply, hheld]
  | char =>
    simp [stock, apply, hheld]
    omega
  | token => simp [stock, apply, hheld, Nat.add_assoc]

/-- Ending a token leaves the stock as it is. -/
theorem stock_finish (h : finish r quoted l = (result, m)) : m.stock = l.stock := by
  unfold finish at h
  obtain ⟨-, rfl⟩ := Prod.mk.inj h
  rfl

/-- A token leaves the stock smaller by one, unless one was in progress before. -/
theorem stock_run (hprogress : r.InProgress l.state l.token quoted)
    (hrun : run r l quoted = (.ok result, m)) :
    m.stock + result.toList.length ≤ l.stock + (l.state.rank - 1) := by
  have htoken : result.toList.length ≤ 1 := by cases result <;> simp
  fun_induction Lexer.run r l quoted with
  | case1 l quoted hdone result' l' =>
    exact (r.ne_done_of_inProgress hprogress hdone).elim
  | case2 l quoted hdone e taken => simp at hrun
  | case3 l quoted hdone taken htake told => simp at hrun
  | case4 l quoted hdone taken htake told hopen result' l' =>
    rename_i hfin
    obtain ⟨hresult, rfl⟩ := Prod.mk.inj hrun
    obtain rfl := Except.ok.inj hresult
    obtain ⟨rfl, -⟩ := exhausted_of_takeChar htake
    have hstock : l'.stock = taken.stock := by
      rw [stock_finish hfin]
      simp [stock, told]
    rw [hstock]
    by_cases hstart : taken.state = .start
    · -- Between tokens there is none to return.
      rw [hstart] at hprogress
      obtain ⟨hempty, rfl⟩ := hprogress
      have hno : r.isToken (told.setState .done).token false = false := by simp [told, hempty, Rules.isToken]
      have hnone := finish_of_not_isToken hno
      rw [hfin] at hnone
      obtain rfl : result' = none := congrArg Prod.fst hnone
      exact Nat.le_add_right ..
    · have hrank : taken.state.rank = 2 := by
        cases hstate : taken.state <;> simp_all [State.rank]
      omega
  | case5 l quoted hdone c taken htake move e skipped => simp at hrun
  | case6 l quoted hdone c taken htake move skipped hskip next hcomplete result' l' =>
    rename_i hfin
    obtain ⟨hresult, rfl⟩ := Prod.mk.inj hrun
    obtain rfl := Except.ok.inj hresult
    have hskipped := stock_of_skipFor htake hskip
    have hnext := stock_apply skipped move c
    have hfinish : l'.stock = (skipped.apply move c).stock := stock_finish hfin
    -- What is put back ends a token that was in progress.
    have hheld := fun h => (r.move_held l.state l.token quoted c h).1
    by_cases hnothing : move.held = .nothing
    · rw [if_pos hnothing] at hnext
      omega
    · rw [if_neg hnothing] at hnext
      have hrank := hheld hnothing
      omega
  | case7 l quoted hdone c taken htake move skipped hskip next hcomplete =>
    rename_i ih
    have hskipped := stock_of_skipFor htake hskip
    have hnext := stock_apply skipped move c
    rcases r.move_progress hprogress c with ⟨htrue, -, -, -, -⟩ | ⟨-, hheld, hprogress'⟩
    · exact (hcomplete htrue).elim
    · have hle := ih (by simpa [next, apply] using hprogress') hrun
      have hrank := next.state.rank_le
      rw [if_pos hheld] at hnext
      have hsame : next.stock = (skipped.apply move c).stock := rfl
      omega

/-- A raw token leaves the stock smaller by one. -/
theorem stock_readToken (h : l.Resting) (hread : l.readToken = (.ok result, m)) :
    m.stock + result.toList.length ≤ l.stock := by
  obtain ⟨htoken, -, hstart | ⟨hdone, -⟩⟩ := h
  · have hprogress : l.rules.InProgress l.state l.token false := by
      rw [hstart, htoken]
      exact l.rules.inProgress_start
    have hle := stock_run hprogress hread
    rw [hstart] at hle
    exact hle
  · unfold readToken at hread
    rw [run_of_done hdone, finish_of_not_isToken (by simp [Rules.isToken])] at hread
    obtain ⟨hresult, rfl⟩ := Prod.mk.inj hread
    obtain rfl := Except.ok.inj hresult
    exact Nat.le_refl _

/-- A raw token is paid for with what the lexer holds. -/
theorem holdings_readToken (h : l.Resting) (hread : l.readToken = (.ok result, m)) :
    m.holdings + result.toList.length ≤ l.holdings := by
  have hle := stock_readToken h hread
  rw [holdings, holdings, (SameStack.of_readToken hread).suspended]
  omega

/-! ## What is opened on the way -/

/-- The source that a turn of this lexer has opened, if one more is suspended behind it. -/
def openedBy (l after : Lexer) : List Source := if l.depth < after.depth then [after.source] else []

/-- The sources that a search opens, one after another. -/
def opens (l : Lexer) : List Source :=
  match _h : l.turn with
  | .passed after => l.openedBy after ++ after.opens
  | .failed _ _ | .ended _ | .handed _ _ => []
termination_by (l.allowance, l.workload)
decreasing_by
  have hspends := spends_turn l
  rw [_h] at hspends
  exact hspends.lex

/-- A search opens what its first turn opens, and then what the rest of it opens. -/
theorem opens_of_passed {after : Lexer} (h : l.turn = .passed after) :
    l.opens = l.openedBy after ++ after.opens := by
  rw [opens]
  split
  · rename_i after' hturn
    rw [h] at hturn
    obtain rfl := Turn.passed.inj hturn
    rfl
  all_goals
    rename_i hturn
    rw [h] at hturn
    cases hturn

/-- The sources that a call for the next token opens. A token that waits opens none. -/
def opensNext (l : Lexer) : List Source := if l.waiting = [] then l.opens else []

/-- The sources that are opened while at most so many tokens are read. -/
def opened (l : Lexer) : (limit : Nat) → List Source
  | 0 => []
  | limit + 1 => l.opensNext ++
    match l.nextToken with
    | (.ok (some _), after) => after.opened limit
    | _ => []

/-! ## Every token is paid for -/

/-- What is handed out is paid for, and what a source that is opened holds comes to the stock. -/
def Pays (l : Lexer) : Turn → Prop
  | .handed _ after => after.Resting ∧ after.holdings + 1 ≤ l.holdings
  | .passed after => after.Resting ∧ after.holdings ≤ l.holdings + charactersOf (l.openedBy after)
  | .failed _ _ | .ended _ => True

/-- Leaving a source leaves its characters behind. -/
theorem holdings_resume_le {parent : Source} {rest : List Source} (h : l.suspended = parent :: rest) :
    (l.resume parent rest).holdings ≤ l.holdings := by
  rw [resume_eq_switch]
  simp only [holdings, stock, switch_source, switch_pending, switch_waiting, switch_suspended, h,
    charactersOf]
  omega

/-- A source that is opened brings its characters. -/
theorem holdings_pushSource (l : Lexer) (stream : Stream) (origin : Option Path) :
    (l.pushSource stream origin).holdings =
      l.holdings + Source.characters (l.pushSource stream origin).source := by
  rw [pushSource_eq_switch]
  simp only [holdings, stock, switch_source, switch_pending, switch_waiting, switch_suspended,
    charactersOf]
  omega

/-- The name behind the keyword is paid for too, and what it opens is told by the depth. -/
theorem pays_follow {n : Lexer} (h : l.Resting) (hdepth : l.depth = n.depth)
    (hholdings : l.holdings ≤ n.holdings) : n.Pays l.follow := by
  unfold follow
  rcases hname : l.readToken with ⟨e | _ | name, named⟩
  · trivial
  · have hle := holdings_readToken h hname
    refine ⟨(settled_readToken h hname).resting, ?_⟩
    simp only [Option.toList_none, List.length_nil] at hle
    omega
  · have hle := holdings_readToken h hname
    have hnamed := (settled_readToken h hname).resting
    have hsame := SameStack.of_readToken hname
    dsimp only
    rcases hopen : named.openInclusion name with ⟨e | u, after⟩
    · trivial
    · rcases openInclusion_cases hopen with ⟨e, he, -⟩ | ⟨inclusion, left, -, -, -, rfl⟩
      · cases he
      · have hdepth' : ∀ stream origin,
            (((named.asking name).allowing left).pushSource stream origin).depth = n.depth + 1 := by
          intro stream origin
          rw [depth, pushSource_eq_switch, switch_suspended, List.length_cons]
          show named.suspended.length + 1 = n.depth + 1
          rw [hsame.suspended, ← hdepth, depth]
        refine ⟨((hnamed.asking name).allowing left).pushSource _ _, ?_⟩
        rw [openedBy, if_pos (by rw [hdepth']; exact Nat.lt_succ_self _), holdings_pushSource]
        have hheld : ((named.asking name).allowing left).holdings = named.holdings := rfl
        simp only [charactersOf]
        omega

/-- Every turn of a lexer that rests pays for what it hands out. -/
theorem pays_turn (h : l.Resting) : l.Pays l.turn := by
  rcases hread : l.readToken with ⟨e | _ | token, read⟩
  · rw [turn_of_error hread]
    trivial
  · have hle := holdings_readToken h hread
    rw [turn_of_none hread, leave]
    split
    · rename_i parent rest hsuspended
      refine ⟨(settled_readToken h hread).resting.resume parent rest, ?_⟩
      have hresumed := holdings_resume_le hsuspended
      simp only [Option.toList_none, List.length_nil] at hle
      omega
    · trivial
  · have hle := holdings_readToken h hread
    have hresting := (settled_readToken h hread).resting
    by_cases hkey : read.config.sourceKeyword = some token
    · rw [turn_of_keyword hread hkey]
      refine pays_follow hresting ?_ (by omega)
      rw [depth, depth, (SameStack.of_readToken hread).suspended]
    · rw [turn_of_token hread hkey]
      exact ⟨hresting.notify _, hle⟩

/-- A search that finds a token has paid for it. -/
theorem holdings_search (l : Lexer) : ∀ {token : String}, l.Resting → l.search = (.ok (some token), m) →
    m.Resting ∧ m.holdings + 1 ≤ l.holdings + charactersOf l.opens := by
  induction l using hasLess_induction with
  | step l ih =>
    intro token h hsearch
    have hspends := spends_turn l
    have hpays := pays_turn h
    rw [search_eq_turn] at hsearch
    cases hturn : l.turn with
    | failed e after => simp [hturn] at hsearch
    | ended after => simp [hturn] at hsearch
    | handed token' after =>
      rw [hturn] at hsearch hpays
      obtain ⟨-, rfl⟩ := Prod.mk.inj hsearch
      exact ⟨hpays.1, by have := hpays.2; omega⟩
    | passed after =>
      rw [hturn] at hsearch hspends hpays
      obtain ⟨hresting, hle⟩ := ih after hspends hpays.1 hsearch
      rw [opens_of_passed hturn, charactersOf_append]
      have hpaid := hpays.2
      exact ⟨hresting, by omega⟩

/-- So has a call that returns one. -/
theorem holdings_nextToken {token : String} (h : l.Resting) (hnext : l.nextToken = (.ok (some token), m)) :
    m.Resting ∧ m.holdings + 1 ≤ l.holdings + charactersOf l.opensNext := by
  cases hwaiting : l.waiting with
  | nil =>
    rw [nextToken_of_no_waiting hwaiting] at hnext
    rw [opensNext, if_pos hwaiting]
    exact holdings_search l h hnext
  | cons token' rest =>
    rw [nextToken_of_waiting hwaiting] at hnext
    obtain ⟨-, rfl⟩ := Prod.mk.inj hnext
    refine ⟨⟨h.token, h.held, h.state⟩, ?_⟩
    have hstock : l.stock = stock { l with waiting := rest } + 1 := by
      simp [stock, hwaiting, Nat.add_assoc]
    have hsame : (notify { l with waiting := rest } (.tokenEmitted (some token'))).holdings + 1 =
        l.holdings := by
      rw [holdings, holdings, hstock]
      exact Nat.add_right_comm ..
    omega

/-- There are no more tokens than characters in all the sources that are opened, besides what the lexer had. -/
theorem length_collect_le (h : l.Resting) (limit : Nat) :
    (l.collect limit).1.length ≤ l.holdings + charactersOf (l.opened limit) := by
  induction limit generalizing l with
  | zero => exact Nat.zero_le _
  | succ limit ih =>
    rw [collect, opened, charactersOf_append]
    rcases hnext : l.nextToken with ⟨e | _ | token, after⟩
    · exact Nat.zero_le _
    · exact Nat.zero_le _
    · obtain ⟨hresting, hle⟩ := holdings_nextToken h hnext
      have hrest := ih hresting
      show (after.collect limit).1.length + 1 ≤ _
      dsimp only
      omega

/-! ## Iterations -/

/-- Reading token after token comes to an end: with any allowance that is large enough these tokens are returned,
and then the end or an error that is not about the allowance. They are no more than the characters of the source
and of those that are opened on the way. -/
structure Iterates (l : Lexer) (bound : Nat) (tokens : List String) (stop : Stop) : Prop where
  stops : stop ≠ .limited
  unlimited : ∀ e, stop = .failed e → Genuine l.resolver e
  collects : ∀ allowance, bound ≤ allowance → ∀ limit, tokens.length < limit →
    ((l.allowing allowance).collect limit).1 = tokens ∧ ((l.allowing allowance).collect limit).2.1 = stop
  counts : ∀ allowance, bound ≤ allowance → ∀ limit, tokens.length < limit →
    tokens.length ≤ l.source.characters + charactersOf ((l.allowing allowance).opened limit)

/-- A lexer that has nothing yet but its source, and reads it to an end, does so token after token. -/
theorem Finishes.iterates {bound : Nat} {tokens : List String} {stop : Stop}
    (h : Finishes (.between l) bound tokens stop) (hresting : l.Resting) (hfresh : l.holdings = l.source.characters) :
    l.Iterates bound tokens stop := by
  have hcollects (allowance : Nat) (hallowance : bound ≤ allowance) (limit : Nat) (hlimit : tokens.length < limit) :
      ((l.allowing allowance).collect limit).1 = tokens ∧ ((l.allowing allowance).collect limit).2.1 = stop := by
    obtain ⟨limit, rfl⟩ := Nat.exists_eq_add_one_of_ne_zero (Nat.ne_zero_of_lt hlimit)
    have hreads := h.reads _ (.of_allowing l allowance) hallowance limit (Nat.le_of_lt_succ hlimit)
    exact Prod.mk.inj ((collect_succ _ limit).trans hreads)
  refine ⟨h.stops, h.unlimited, hcollects, ?_⟩
  intro allowance hallowance limit hlimit
  have hcount := length_collect_le (hresting.allowing allowance) limit
  rw [(hcollects allowance hallowance limit hlimit).1] at hcount
  rw [← hfresh]
  exact hcount

/-- Where inclusions nest to a finite depth, every call for the next token returns, whatever has been asked of the
lexer before. And a lexer at the beginning of a source comes to the end, or to an error, after finitely many calls,
with no more tokens than there are characters in all the sources that it has opened. Inclusions nest to a finite depth
where all that the resolver would include does, whatever it is asked. -/
theorem iteration_ends {l : Lexer} (h : l.Reached) :
    ((∃ depth, NestsInCall depth l) → ∃ x, l.Returns x) ∧
      (l = ofSource l.config l.resolver l.source → (∃ depth, Nests depth (.between l)) →
        ∃ bound tokens stop, l.Iterates bound tokens stop) ∧
      ∀ n, l.NestsWithin n → NestsInCall (l.depth + n) l ∧ Nests (l.depth + n) (.between l) := by
  refine ⟨?_, ?_, fun n => nests_of_nestsWithin⟩
  · rintro ⟨depth, hnests⟩
    exact exists_returns h.consistent hnests
  · rintro hfresh ⟨depth, hnests⟩
    have hresting : l.Resting := by
      rw [hfresh]
      exact resting_ofSource _ _ _
    have hholdings : l.holdings = l.source.characters := by
      rw [hfresh]
      simp [holdings, stock, charactersOf, ofSource]
    obtain ⟨bound, tokens, stop, hfinishes⟩ := hnests.finishes h.consistent
    exact ⟨bound, tokens, stop, hfinishes.iterates hresting hholdings⟩

end Lexer

/-- A file that includes itself. What it is depends on how often a file has been asked for: there is a new version of
it, an old one, and then none. -/
def versions : Resolver := fun name _ earlier =>
  match earlier.length with
  | 0 => .ok ⟨.ofText "'new' source log;", some ⟨name⟩⟩
  | 1 => .ok ⟨.ofText "old", some ⟨name⟩⟩
  | _ => .error (.unresolved name .notFound)

/-- So it nests to a finite depth. -/
theorem nestsWithin_versions (n : Nat) : ∀ (requests : List Request) (current : Option Path),
    2 ≤ requests.length + n → (versions.afterAll requests).NestsWithin n current := by
  have hanswer {requests : List Request} {name : String} {current : Option Path} {earlier : List Request}
      {inclusion : Inclusion} (h : versions.afterAll requests name current earlier = .ok inclusion) :
      requests.length + earlier.length < 2 := by
    unfold Resolver.afterAll versions at h
    rw [List.length_append] at h
    split at h
    · omega
    · omega
    · cases h
  induction n with
  | zero =>
    intro requests current hlength name earlier inclusion h
    have hfew := hanswer h
    omega
  | succ n ih =>
    intro requests current hlength name earlier inclusion h
    have hmore : 2 ≤ (requests ++ (earlier ++ [Request.mk name current])).length + n := by
      rw [List.length_append, List.length_append, List.length_singleton]
      omega
    show ((versions.afterAll requests).afterAll (earlier ++ [⟨name, current⟩])).NestsWithin n inclusion.origin
    rw [Resolver.afterAll_afterAll]
    exact ih _ _ hmore

namespace Lexer

/-- A lexer of a text that includes the file, with an operator behind its name. -/
def aboveVersions : Lexer :=
  ofText { sourceKeyword := some "source", punctuation := .shell } versions "top source log;end"

/-- So every call on this lexer returns, and the iteration over it ends. -/
theorem iteration_ends_versions :
    (∃ x, aboveVersions.Returns x) ∧ ∃ bound tokens stop, aboveVersions.Iterates bound tokens stop := by
  have hreached : aboveVersions.Reached := reached_ofSource _ _ _
  have hwithin : aboveVersions.NestsWithin 2 := by
    intro s _
    exact nestsWithin_versions 2 [] s.origin (Nat.le_refl _)
  obtain ⟨hcall, hiteration⟩ := (iteration_ends hreached).2.2 2 hwithin
  exact ⟨(iteration_ends hreached).1 ⟨_, hcall⟩, (iteration_ends hreached).2.1 rfl ⟨_, hiteration⟩⟩

end Lexer
end ShellWords

import ShellWords.Proofs.Inclusion.Results
import ShellWords.Proofs.Inclusion.Runs
import ShellWords.Proofs.Inclusion.Within

/-!
# Inclusion splices token streams

`expand` says what a text with inclusions stands for, without a lexer that switches sources: the tokens of
the text, read as if there were no keyword, with each keyword and the name behind it replaced by the
expansion of what the name includes. Where neither operators nor short words make a lexer hold back what it
has read, `results_eq_expand` shows that the results of a lexer are exactly this expansion.
-/

namespace ShellWords

/-! ## The expansion of a text -/

/-- The tokens among some results. -/
def Yield.tokens (y : Yield (Except LexError String)) : List String := tokensOf y.items

/-- What a source holds when there is no keyword: its tokens, and its error if it has one. -/
def raw (config : Config) (source : Source) : Yield (Except LexError String) :=
  (Lexer.ofSource { config with sourceKeyword := none } Resolver.refusing source).results

/-- Walks over the tokens of a source. A keyword and the token behind it are replaced by what that token
includes, and a keyword behind which there is no token is dropped. -/
def splice (keyword : String) (include_ : String → Yield (Except LexError String))
    (failure : Option LexError) : List String → Yield (Except LexError String)
  | [] => ⟨[], failure⟩
  | [token] => if token = keyword then ⟨[], failure⟩ else ⟨[.ok token], failure⟩
  | token :: name :: rest =>
    if token = keyword then (include_ name).andThen (splice keyword include_ failure rest)
    else (splice keyword include_ failure (name :: rest)).behind [.ok token]

/-- What a name includes, met in the given file: the error that refuses it, or another error that ends
everything, or the expansion of a source. -/
def included (catalogue : Catalogue) (origin : Option Path)
    (expandSource : Source → Yield (Except LexError String)) (name : String) :
    Yield (Except LexError String) :=
  match catalogue name origin with
  | .error e => if e.isRefusal then ⟨[.error e], none⟩ else ⟨[], some e⟩
  | .ok inclusion => expandSource ⟨inclusion.stream, inclusion.origin, 1⟩

/-- The expansion of a source whose inclusions nest within this depth, itself counted. -/
def expand (config : Config) (catalogue : Catalogue) (keyword : String) :
    (depth : Nat) → Source → Yield (Except LexError String)
  | 0, _ => .empty
  | depth + 1, source =>
    splice keyword (included catalogue source.origin (expand config catalogue keyword depth))
      (raw config source).failure (raw config source).tokens

/-- The names behind the keywords among some tokens. -/
def names (keyword : String) : List String → List String
  | [] => []
  | [_] => []
  | token :: name :: rest =>
    if token = keyword then name :: names keyword rest else names keyword (name :: rest)

/-- The inclusions of a source nest within this depth, the source itself counted. -/
def NestsWithin (config : Config) (catalogue : Catalogue) (keyword : String) : Nat → Source → Prop
  | 0, _ => False
  | depth + 1, source => ∀ name ∈ names keyword (raw config source).tokens, ∀ inclusion,
      catalogue name source.origin = .ok inclusion →
        NestsWithin config catalogue keyword depth ⟨inclusion.stream, inclusion.origin, 1⟩

/-- A token that comes first is the first of the tokens. -/
@[simp] theorem Yield.tokens_behind_ok (y : Yield (Except LexError String)) (token : String) :
    (y.behind [.ok token]).tokens = token :: y.tokens := rfl

section
variable {keyword token name : String} {include_ include' : String → Yield (Except LexError String)}
  {failure : Option LexError} {rest : List String}

/-- A token that is not the keyword is kept. -/
theorem splice_of_token (h : token ≠ keyword) :
    splice keyword include_ failure (token :: rest) =
      (splice keyword include_ failure rest).behind [.ok token] := by
  cases rest with
  | nil =>
    show (if token = keyword then _ else _) = _
    rw [if_neg h]
    rfl
  | cons name rest => rw [splice, if_neg h]

/-- A keyword and the name behind it are replaced. -/
theorem splice_of_name :
    splice keyword include_ failure (keyword :: name :: rest) =
      (include_ name).andThen (splice keyword include_ failure rest) := by
  rw [splice, if_pos rfl]

/-- A keyword at the end is dropped. -/
theorem splice_of_last (keyword : String) (include_ : String → Yield (Except LexError String))
    (failure : Option LexError) : splice keyword include_ failure [keyword] = ⟨[], failure⟩ := by
  show (if keyword = keyword then _ else _) = _
  rw [if_pos rfl]

/-- A token that is not the keyword is followed by no name. -/
theorem names_of_token (h : token ≠ keyword) : names keyword (token :: rest) = names keyword rest := by
  cases rest with
  | nil => rfl
  | cons name rest => rw [names, if_neg h]

/-- The token behind the keyword is a name. -/
theorem names_of_name : names keyword (keyword :: name :: rest) = name :: names keyword rest := by
  rw [names, if_pos rfl]

/-- Only what the names include matters. -/
theorem splice_congr (tokens : List String)
    (h : ∀ name ∈ names keyword tokens, include_ name = include' name) :
    splice keyword include_ failure tokens = splice keyword include' failure tokens := by
  fun_induction splice keyword include_ failure tokens with
  | case1 => rfl
  | case2 => rw [splice, if_pos rfl]
  | case3 token hne => rw [splice, if_neg hne]
  | case4 name rest ih =>
    rw [names_of_name, List.forall_mem_cons] at h
    rw [splice_of_name, h.1, ih h.2]
  | case5 token name rest hne ih =>
    rw [names_of_token hne] at h
    rw [splice_of_token hne, ih h]

end

/-- The depth is no part of the meaning: any depth that the inclusions nest within gives the same
expansion. -/
theorem expand_succ {config : Config} {catalogue : Catalogue} {keyword : String} (depth : Nat) :
    ∀ source, NestsWithin config catalogue keyword depth source →
      expand config catalogue keyword (depth + 1) source = expand config catalogue keyword depth source := by
  induction depth with
  | zero =>
    intro source h
    exact h.elim
  | succ depth ih =>
    intro source h
    rw [expand, expand]
    refine splice_congr _ ?_
    intro name hname
    unfold included
    cases hresolve : catalogue name source.origin with
    | error e => rfl
    | ok inclusion => exact ih _ (h name hname inclusion hresolve)

namespace Lexer

/-! ## Reading without the keyword -/

/-- No move holds back a character. -/
def HoldsNothing (r : Rules) : Prop := r.classes.punctuationActive = false ∧ r.whitespaceSplit = true

/-- The second lexer, with these options and this catalogue, reads from its source what the first does, which
has no keyword. Neither has another source to read. -/
structure Strips (config : Config) (catalogue : Catalogue) (l₀ l : Lexer) : Prop where
  alike : Alike [] [] l₀ l
  config : l.config = config
  resolver : l.resolver = .fixed catalogue
  keyword : l₀.config.sourceKeyword = none
  suspended : l₀.suspended = [] ∧ l.suspended = []
  waiting : l₀.waiting = [] ∧ l.waiting = []
  pending : l.pending = []
  resting : l.Resting

variable {config : Config} {catalogue : Catalogue} {l₀ l read₀ read : Lexer} {e : LexError}
  {token keyword : String} {depth : Nat}

/-- Without the keyword, an error is the only result. -/
theorem results_of_error (hwaiting : l₀.waiting = []) (h : l₀.readToken = (.error e, read₀)) :
    l₀.results = ⟨[], some e⟩ := by
  rw [results_eq, nextToken_of_no_waiting hwaiting, search_of_error h, resultsBehind,
    if_neg (not_isRefusal_of_run h)]

/-- Without the keyword and another source, the end of the source is the end. -/
theorem results_of_none (hwaiting : l₀.waiting = []) (hsuspended : l₀.suspended = [])
    (h : l₀.readToken = (.ok none, read₀)) : l₀.results = .empty := by
  have hsame := SameStack.of_readToken h
  rw [results_eq, nextToken_of_no_waiting hwaiting, search_of_ended h (hsame.suspended.trans hsuspended)]
  rfl

/-- Without the keyword, every raw token is a result. -/
theorem results_of_token (hwaiting : l₀.waiting = []) (hkeyword : l₀.config.sourceKeyword = none)
    (h : l₀.readToken = (.ok (some token), read₀)) :
    l₀.results = (read₀.notify (.tokenEmitted (some token))).results.behind [.ok token] := by
  have hsame := SameStack.of_readToken h
  have hkey : read₀.config.sourceKeyword ≠ some token := by
    rw [hsame.config, hkeyword]
    simp
  rw [results_eq, nextToken_of_no_waiting hwaiting, search_of_token h hkey]
  rfl

namespace Strips

/-- What they tell makes no difference. -/
theorem notify (h : Strips config catalogue l₀ l) (f : Event) : Strips config catalogue (l₀.notify f) l where
  alike := ⟨h.alike.rules, h.alike.source, h.alike.state, h.alike.token, h.alike.pending,
    h.alike.waiting⟩
  config := h.config
  resolver := h.resolver
  keyword := h.keyword
  suspended := h.suspended
  waiting := h.waiting
  pending := h.pending
  resting := h.resting

/-- Both read the same raw token, in the same file, and hold back nothing. -/
theorem readToken (h : Strips config catalogue l₀ l) (hr : HoldsNothing (.ofConfig config))
    {x : Option String} (hread : l₀.readToken = (.ok x, read₀)) :
    ∃ read, l.readToken = (.ok x, read) ∧ Strips config catalogue read₀ read ∧
      read.origin = l.origin := by
  have hrules : HoldsNothing l.rules := by
    rw [rules, h.config]
    exact hr
  obtain ⟨read, hread', halike⟩ := h.alike.readToken hread
  have hsettled := settled_readToken h.resting hread'
  have hsame₀ := SameStack.of_readToken hread
  have hsame := SameStack.of_readToken hread'
  have horigin := run_origin l.rules l false
  have hrun : run l.rules l false = (.ok x, read) := hread'
  rw [hrun] at horigin
  have hempty : read.waiting = [] := (hsettled.waiting_of_split hrules.2).trans h.waiting.2
  have hempty₀ : read₀.waiting = [] := by
    obtain ⟨put, hput, hput'⟩ := halike.waiting
    rw [hput, ← hput', hempty]
  refine ⟨read, hread', ?_, horigin⟩
  exact {
    alike := halike
    config := hsame.config.trans h.config
    resolver := hsame.resolver.trans h.resolver
    keyword := by rw [hsame₀.config, h.keyword]
    suspended := ⟨hsame₀.suspended.trans h.suspended.1, hsame.suspended.trans h.suspended.2⟩
    waiting := ⟨hempty₀, hempty⟩
    pending := hsettled.pending_of_inactive hrules.1
    resting := hsettled.resting }

end Strips

/-! ## The expansion is what a lexer delivers -/

/-- If the inclusions of a source that the first lexer reads nest within this depth, then the second takes
the course that the walk over its tokens says. -/
def Splices (config : Config) (catalogue : Catalogue) (keyword : String) (depth : Nat) (l₀ l : Lexer) :
    Prop :=
  (∀ name ∈ names keyword l₀.results.tokens, ∀ inclusion, catalogue name l.origin = .ok inclusion →
    NestsWithin config catalogue keyword depth ⟨inclusion.stream, inclusion.origin, 1⟩) →
  l.Runs (splice keyword (included catalogue l.origin (expand config catalogue keyword depth))
    l₀.results.failure l₀.results.tokens).outs

/-- Behind the keyword and a name, a lexer runs through what the name includes and then through the rest. -/
theorem runs_included {named₀ named : Lexer} {name : String} {rest : Yield (Except LexError String)}
    (hnested : ∀ source, NestsWithin config catalogue keyword depth source →
      (ofSource config (.fixed catalogue) source).Runs (expand config catalogue keyword depth source).outs)
    (hresting : l.Resting) (hread : l.bare.readToken = (.ok (some keyword), read))
    (hkey : l.config.sourceKeyword = some keyword) (hname : read.readToken = (.ok (some name), named))
    (hnamed : Strips config catalogue named₀ named)
    (hnests : ∀ inclusion, catalogue name named.origin = .ok inclusion →
      NestsWithin config catalogue keyword depth ⟨inclusion.stream, inclusion.origin, 1⟩)
    (hrest : named.Runs rest.outs) :
    l.Runs ((included catalogue named.origin (expand config catalogue keyword depth) name).andThen
      rest).outs := by
  have hnone : putBack named.waiting = [] := by
    rw [hnamed.waiting.2]
    rfl
  unfold included
  have hanswer : named.resolver.answer name named.origin = catalogue name named.origin := by
    rw [hnamed.resolver, Resolver.answer_fixed]
  have hforgets : named.resolver.Memoryless := hnamed.resolver ▸ Resolver.memoryless_fixed catalogue
  cases hresolve : catalogue name named.origin with
  | error e =>
    rw [← hanswer] at hresolve
    cases hrefusal : e.isRefusal with
    | true =>
      have hruns := Runs.of_refused hresting hread hkey hname hresolve hrefusal
        (by rw [asking_eq hforgets]; exact hrest)
      rw [hnone] at hruns
      dsimp only
      rw [if_pos hrefusal]
      exact hruns
    | false =>
      dsimp only
      rw [if_neg (by simp [hrefusal])]
      exact Runs.of_failed hread hkey hname hresolve hrefusal
  | ok inclusion =>
    have hown := hnested _ (hnests inclusion hresolve)
    -- No character was put back, so the included source is read as it is read alone.
    rw [← hanswer] at hresolve
    have halone := alone_eq hnamed.pending inclusion.stream inclusion.origin
    rw [hnamed.config, hnamed.resolver] at halone
    have hdrop := dropPending_eq hnamed.pending
    have hpushed := runs_pushSource hnamed.resting hforgets inclusion.stream inclusion.origin
      (by rw [halone]; exact hown) (by rw [hdrop]; exact hrest)
    have hruns := Runs.of_opened hresting hread hkey hname hresolve
      (by rw [asking_eq hforgets]; exact hpushed)
    rw [hnone, ← Yield.outs_andThen] at hruns
    exact hruns

/-- Behind the keyword, a lexer goes on as the walk over the tokens does. -/
theorem splices_keyword {next₀ : Lexer} (hr : HoldsNothing (.ofConfig config))
    (hnested : ∀ source, NestsWithin config catalogue keyword depth source →
      (ofSource config (.fixed catalogue) source).Runs (expand config catalogue keyword depth source).outs)
    (hresting : l.Resting) (hread : l.bare.readToken = (.ok (some keyword), read))
    (hkey : l.config.sourceKeyword = some keyword) (h : Strips config catalogue next₀ read)
    (horigin : read.origin = l.origin)
    (hnests : ∀ name ∈ names keyword (keyword :: next₀.results.tokens), ∀ inclusion,
      catalogue name l.origin = .ok inclusion →
        NestsWithin config catalogue keyword depth ⟨inclusion.stream, inclusion.origin, 1⟩)
    (hrest : ∀ named₀ named, HasLess named₀ next₀ → Strips config catalogue named₀ named →
      Splices config catalogue keyword depth named₀ named) :
    l.Runs (splice keyword (included catalogue l.origin (expand config catalogue keyword depth))
      next₀.results.failure (keyword :: next₀.results.tokens)).outs := by
  rcases hname₀ : next₀.readToken with ⟨e | _ | name, named₀⟩
  · obtain ⟨named, hname, -⟩ := h.alike.readToken hname₀
    rw [results_of_error h.waiting.1 hname₀]
    show l.Runs (splice keyword _ (some e) [keyword]).outs
    rw [splice_of_last]
    exact Runs.of_name_error hread hkey hname
  · -- The keyword was the last token, so the lexer finds the end of its source again.
    obtain ⟨named, hname, hnamed, -⟩ := h.readToken hr hname₀
    have hdone := ((settled_readToken h.resting hname).ended rfl).1
    obtain ⟨after, hafter, -⟩ := readToken_of_exhausted hnamed.resting (hnamed.resting.exhausted hdone)
    rw [← bare_eq hnamed.waiting.2] at hafter
    have hended := Runs.of_ended hafter hnamed.suspended.2
    have hruns := Runs.of_no_name hresting hread hkey hname hended
    rw [hnamed.waiting.2] at hruns
    rw [results_of_none h.waiting.1 h.suspended.1 hname₀]
    show l.Runs (splice keyword _ none [keyword]).outs
    rw [splice_of_last]
    exact hruns
  · obtain ⟨named, hname, hnamed, horigin'⟩ := h.readToken hr hname₀
    -- The walk passes over the name, which the first lexer has returned as a token.
    have hless₀ : HasLess named₀ next₀ := hasLess_of_readToken hname₀
    have hless : HasLess (named₀.notify (.tokenEmitted (some name))) next₀ := hless₀
    rw [results_of_token h.waiting.1 h.keyword hname₀, Yield.tokens_behind_ok] at hnests ⊢
    rw [Yield.behind_failure, splice_of_name, ← horigin, ← horigin']
    rw [names_of_name, List.forall_mem_cons, ← horigin, ← horigin'] at hnests
    have hrest' := hrest _ named hless (hnamed.notify _) hnests.2
    exact runs_included hnested hresting hread hkey hname hnamed hnests.1 hrest'

/-- A lexer reads the rest of its source as the walk over its tokens says, given that the sources it
includes are read as they expand. -/
theorem splices (hr : HoldsNothing (.ofConfig config)) (hkeyword : config.sourceKeyword = some keyword)
    (hnested : ∀ source, NestsWithin config catalogue keyword depth source →
      (ofSource config (.fixed catalogue) source).Runs (expand config catalogue keyword depth source).outs)
    (l₀ : Lexer) : ∀ l, Strips config catalogue l₀ l → Splices config catalogue keyword depth l₀ l := by
  induction l₀ using hasLess_induction with
  | step l₀ ih =>
    intro l h hnests
    rcases hread₀ : l₀.readToken with ⟨e | _ | token, read₀⟩
    · obtain ⟨read, hread, -⟩ := h.alike.readToken hread₀
      rw [← bare_eq h.waiting.2] at hread
      rw [results_of_error h.waiting.1 hread₀]
      exact Runs.of_error hread
    · obtain ⟨read, hread, -⟩ := h.readToken hr hread₀
      rw [← bare_eq h.waiting.2] at hread
      rw [results_of_none h.waiting.1 h.suspended.1 hread₀]
      exact Runs.of_ended hread h.suspended.2
    obtain ⟨read, hread, hstrips, horigin⟩ := h.readToken hr hread₀
    have hless₀ : HasLess read₀ l₀ := hasLess_of_readToken hread₀
    have hless : HasLess (read₀.notify (.tokenEmitted (some token))) l₀ := hless₀
    rw [← bare_eq h.waiting.2] at hread
    rw [results_of_token h.waiting.1 h.keyword hread₀, Yield.tokens_behind_ok, Yield.behind_failure]
    rw [results_of_token h.waiting.1 h.keyword hread₀, Yield.tokens_behind_ok] at hnests
    -- Only the first lexer has reported its token, which makes no difference.
    replace hstrips := hstrips.notify (.tokenEmitted (some token))
    generalize read₀.notify (.tokenEmitted (some token)) = next₀ at *
    by_cases hkey : token = keyword
    · subst hkey
      have hkey : l.config.sourceKeyword = some token := by rw [h.config, hkeyword]
      exact splices_keyword hr hnested h.resting hread hkey hstrips horigin hnests
        fun named₀ named hnamed₀ => ih named₀ (hnamed₀.trans hless) named
    · have hkey' : l.config.sourceKeyword ≠ some token := by
        rw [h.config, hkeyword]
        simpa using Ne.symm hkey
      rw [names_of_token hkey, ← horigin] at hnests
      have hrest := ih next₀ hless read hstrips hnests
      have hruns := Runs.of_token h.resting hread hkey' hrest
      rw [hstrips.waiting.2] at hruns
      rw [splice_of_token hkey, Yield.outs_behind, ← horigin]
      exact hruns

/-- The lexer of a source and the one that reads its raw tokens start alike. -/
theorem strips_ofSource (config : Config) (catalogue : Catalogue) (source : Source) :
    Strips config catalogue
      (ofSource { config with sourceKeyword := none } Resolver.refusing source)
      (ofSource config (.fixed catalogue) source) where
  alike := ⟨rfl, rfl, rfl, rfl, rfl, [], rfl, rfl⟩
  config := rfl
  resolver := rfl
  keyword := rfl
  suspended := ⟨rfl, rfl⟩
  waiting := ⟨rfl, rfl⟩
  pending := rfl
  resting := resting_ofSource ..

/-- The course of a lexer is the expansion of its source. -/
theorem runs_expand (hr : HoldsNothing (.ofConfig config)) (hkeyword : config.sourceKeyword = some keyword)
    (depth : Nat) : ∀ source, NestsWithin config catalogue keyword depth source →
      (ofSource config (.fixed catalogue) source).Runs (expand config catalogue keyword depth source).outs := by
  induction depth with
  | zero =>
    intro source h
    exact h.elim
  | succ depth ih =>
    intro source h
    exact splices hr hkeyword ih _ _ (strips_ofSource config catalogue source) h

end Lexer

/-- Without operators and with words that end at white space only, the results of a lexer are exactly the
expansion of its source, provided that names are looked up in a catalogue and the inclusions nest within some
depth. -/
theorem results_eq_expand {config : Config} {keyword : String} (hsplit : config.whitespaceSplit = true)
    (hoperators : config.punctuation.isActive = false) (hkeyword : config.sourceKeyword = some keyword)
    (catalogue : Catalogue) (depth : Nat) (source : Source)
    (hnests : NestsWithin config catalogue keyword depth source) :
    (Lexer.ofSource config (.fixed catalogue) source).Delivers (expand config catalogue keyword depth source) := by
  -- An inactive punctuation has no characters, and so the rules have no operators.
  have hinactive : (Rules.ofConfig config).classes.punctuationActive = false := by
    show (!config.punctuation.chars.isEmpty) = false
    simpa [Punctuation.isActive] using hoperators
  have hruns := Lexer.runs_expand ⟨hinactive, hsplit⟩ hkeyword depth source hnests
  have hdelivers := hruns.delivers (Lexer.resting_ofSource ..)
  rw [Yield.flushed_outs] at hdelivers
  exact hdelivers

/-- Two files, the first of which includes the second. -/
def nestedFiles : Catalogue := fun name _ =>
  match name with
  | "a" => .ok ⟨.ofText "a1 source b a2", some ⟨"a"⟩⟩
  | "b" => .ok ⟨.ofText "b1", some ⟨"b"⟩⟩
  | _ => .error (.unresolved name .notFound)

/-- An included file that includes another comes out in the place of its name, and so does that other. -/
theorem results_eq_expand_nested :
    (Lexer.ofText { sourceKeyword := some "source" } (.fixed nestedFiles) "top source a end").Delivers
      ⟨[.ok "top", .ok "a1", .ok "b1", .ok "a2", .ok "end"], none⟩ := by
  let config : Config := { sourceKeyword := some "source" }
  have htop : raw config ⟨.ofText "top source a end", none, 1⟩ =
      ⟨[.ok "top", .ok "source", .ok "a", .ok "end"], none⟩ :=
    Lexer.results_of_resultsWithin 30 (by decide +kernel)
  have ha : raw config ⟨.ofText "a1 source b a2", some ⟨"a"⟩, 1⟩ =
      ⟨[.ok "a1", .ok "source", .ok "b", .ok "a2"], none⟩ :=
    Lexer.results_of_resultsWithin 30 (by decide +kernel)
  have hb : raw config ⟨.ofText "b1", some ⟨"b"⟩, 1⟩ = ⟨[.ok "b1"], none⟩ :=
    Lexer.results_of_resultsWithin 30 (by decide +kernel)
  have hnests : NestsWithin config nestedFiles "source" 3 ⟨.ofText "top source a end", none, 1⟩ := by
    intro name hname inclusion hinclusion
    rw [htop] at hname
    obtain rfl : name = "a" := by simpa [Yield.tokens, tokensOf, Except.toOption, names] using hname
    obtain rfl := Except.ok.inj hinclusion
    intro name hname inclusion hinclusion
    rw [ha] at hname
    obtain rfl : name = "b" := by simpa [Yield.tokens, tokensOf, Except.toOption, names] using hname
    obtain rfl := Except.ok.inj hinclusion
    intro name hname
    rw [hb] at hname
    simp [Yield.tokens, tokensOf, Except.toOption, names] at hname
  have hexpand : expand config nestedFiles "source" 3 ⟨.ofText "top source a end", none, 1⟩ =
      ⟨[.ok "top", .ok "a1", .ok "b1", .ok "a2", .ok "end"], none⟩ := by
    simp [expand, htop, ha, hb, Yield.tokens, tokensOf, Except.toOption, splice, included, nestedFiles,
      Yield.andThen, Yield.behind]
  have hdelivers := results_eq_expand rfl rfl rfl nestedFiles 3 _ hnests
  rw [hexpand] at hdelivers
  exact hdelivers
end ShellWords

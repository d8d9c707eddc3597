import ShellWords.Proofs.Inclusion.Directories
import ShellWords.Proofs.Lexing.FirstChar
import ShellWords.Proofs.Lexing.Written

/-!
# Quoted names of files

The name of a file may be written in double quotes, with blanks or anything else in it. In POSIX mode the automaton
takes the quotes away, and otherwise they are read as part of the token and taken away where the path is found
(`nameAsRead`, `withoutQuotes_nameAsRead`). So both modes include the same file.

Up to its end a word or a quotation is read one character after the other (`Stands.extend`). That gives the keyword
(`Stands.readToken_letters`), and behind it the name (`Stands.readToken_quotation`). Then the resolver is asked for
it (`Asks`, `asks_quoted_name`).
-/

namespace ShellWords

/-! ## Characters -/

namespace Rules

variable {config : Config} {c : Char}

/-- A letter that is no operator belongs to words. -/
theorem onlyWord_letter (hc : c.isAlpha = true) (hop : c ∉ config.punctuation.chars) :
    (ofConfig config).OnlyWord c := by
  have hascii : c.isAlphanum = true := Bool.or_eq_true_iff.2 (.inl hc)
  exact onlyWord_ofConfig (isWord_ofConfig_iff.2 ⟨.ascii (.inl hascii), hop⟩)

/-- A double quote that is no operator opens a quotation. -/
theorem move_start_quote (hop : '"' ∉ config.punctuation.chars) (token : String) (quoted : Bool) :
    (ofConfig config).move .start token quoted '"' =
      { state := .quote '"', token := if config.posix then token else "\"", quoted } := by
  have hspace : (ofConfig config).classes.isWhitespace '"' = false := rfl
  have hcomment : (ofConfig config).classes.isComment '"' = false := isComment_of_ne config (by decide)
  have hescape : (ofConfig config).classes.isEscape '"' = false := rfl
  have hpunctuation : (ofConfig config).classes.isPunctuation '"' = false := isPunctuation_of_notMem hop
  have hword : (ofConfig config).classes.isWord '"' = false := isWord_of_mem_marks config (by decide)
  have hquote : (ofConfig config).classes.isQuote '"' = true := rfl
  have hposix : (ofConfig config).posix = config.posix := rfl
  have htext : String.singleton '"' = "\"" := rfl
  simp [move, moveFromStart, hspace, hcomment, hescape, hword, hpunctuation, hquote, hposix, htext]

/-- Inside, every character belongs to the token that neither closes the quotation nor escapes. -/
theorem move_quote_char (hquote : c ≠ '"') (hescape : c ≠ '\\') (token : String) (quoted : Bool) :
    (ofConfig config).move (.quote '"') token quoted c =
      { state := .quote '"', token := token.push c, quoted := true } := by
  have hplain : (ofConfig config).classes.isEscape c = false := by
    simp [CharClasses.isEscape, ofConfig, CharClasses.ofConfig, hescape]
  simp [move, moveFromQuote, hquote, hplain]

end Rules

/-! ## Words and quotations -/

namespace Lexer

variable {r : Rules} {l : Lexer} {state : State} {token : String} {quoted : Bool} {cs rest : List Char}

/-- Characters that belong to the token, and leave the automaton where it is, are taken one by one. -/
theorem Stands.extend (h : l.Stands state token (cs ++ rest)) (hdone : state ≠ .done)
    (hmove : ∀ c ∈ cs, ∀ token quoted, ∃ quoted',
      r.move state token quoted c = { state, token := token.push c, quoted := quoted' }) :
    ∃ next quoted', Stands next state (token ++ String.ofList cs) rest ∧ run r l quoted = run r next quoted' := by
  induction cs generalizing l token quoted with
  | nil => exact ⟨l, quoted, by simpa using h, rfl⟩
  | cons c cs ih =>
    obtain ⟨quoted', hc⟩ := hmove c List.mem_cons_self token quoted
    obtain ⟨next, hnext, hrun⟩ := h.goesOn hdone hc
    obtain ⟨after, quoted'', hafter, hrest⟩ := ih hnext fun d hd => hmove d (List.mem_cons_of_mem c hd)
    have htoken : token.push c ++ String.ofList cs = token ++ String.ofList (c :: cs) := by
      rw [← String.toList_inj]
      simp
    exact ⟨after, quoted'', htoken ▸ hafter, hrun.trans hrest⟩

/-- A word of letters is read up to the blank behind it. -/
theorem Stands.readToken_letters {k : List Char} (hne : k ≠ []) (hletters : ∀ c ∈ k, c.isAlpha = true)
    (hops : ∀ c ∈ k, c ∉ l.config.punctuation.chars) (h : l.Stands .start "" (k ++ ' ' :: rest)) :
    ∃ read, l.readToken = (.ok (some (String.ofList k)), read) ∧ read.Stands .start "" rest := by
  obtain ⟨c, cs, rfl⟩ := List.exists_cons_of_ne_nil hne
  have hfirst :=
    (Rules.onlyWord_letter (hletters c List.mem_cons_self) (hops c List.mem_cons_self)).move_start "" false
  have hmove : ∀ d ∈ cs, ∀ token quoted, ∃ quoted',
      l.rules.move .word token quoted d = { state := .word, token := token.push d, quoted := quoted' } := by
    intro d hd token quoted
    have hmem : d ∈ c :: cs := List.mem_cons_of_mem c hd
    exact ⟨quoted, (Rules.onlyWord_letter (hletters d hmem) (hops d hmem)).move_word token quoted⟩
  obtain ⟨begun, hbegun, hrun⟩ := h.goesOn (by decide) hfirst
  obtain ⟨word, quoted, hword, hrun'⟩ := hbegun.extend (by decide) hmove
  have htext : String.singleton c ++ String.ofList cs = String.ofList (c :: cs) := by
    rw [← String.toList_inj]
    simp
  rw [htext] at hword
  -- The blank ends the word.
  have hnonempty : l.rules.isToken (String.ofList (c :: cs)) quoted = true := by simp [Rules.isToken]
  have hbreak : l.rules.move word.state word.token quoted ' ' = _ := l.rules.move_break (.inl hword.state) rfl
  obtain ⟨last, hreads⟩ := hword.reads
  rw [← hword.token] at hnonempty
  obtain ⟨read, hread, hbehind⟩ :=
    run_of_used_up (by simp [hword.state]) hreads hbreak hnonempty rfl rfl rfl hnonempty
  have hkeyword : l.readToken = (.ok (some (String.ofList (c :: cs))), read) := by
    rw [← hword.token]
    exact hrun.trans (hrun'.trans hread)
  obtain ⟨-, -, -, -, hheld, -⟩ := h.reads
  have hresting := (settled_readToken ⟨h.token, hheld, .inl h.state⟩ hkeyword).resting
  exact ⟨read, hkeyword, hbehind.state, hresting.token, last, hbehind.reads⟩

end Lexer

/-- What is read of a name in double quotes: in POSIX mode the quotes are taken away. -/
def nameAsRead (posix : Bool) (name : String) : String := if posix then name else "\"" ++ name ++ "\""

namespace Lexer

variable {l : Lexer}

/-- A quotation is read up to the quote that closes it, at the end of the text. -/
theorem Stands.readToken_quotation {name : List Char} (hop : '"' ∉ l.config.punctuation.chars)
    (hquote : '"' ∉ name) (hescape : '\\' ∉ name) (h : l.Stands .start "" ('"' :: name ++ ['"'])) :
    l.readToken.1 = .ok (some (nameAsRead l.config.posix (String.ofList name))) := by
  have hmove : ∀ c ∈ name, ∀ token quoted, ∃ quoted', l.rules.move (.quote '"') token quoted c =
      { state := .quote '"', token := token.push c, quoted := quoted' } := fun c hc token quoted =>
    ⟨true, Rules.move_quote_char (fun heq => hquote (heq ▸ hc)) (fun heq => hescape (heq ▸ hc)) token quoted⟩
  obtain ⟨opened, hopened, hrun⟩ := h.goesOn (by decide) (Rules.move_start_quote hop "" false)
  obtain ⟨inside, quoted, hinside, hrun'⟩ := hopened.extend (by simp) hmove
  have hread : l.readToken = run l.rules inside quoted := hrun.trans hrun'
  rw [hread]
  cases hposix : l.config.posix with
  | true =>
    -- The quote ends the quotation, and the end of the text the word.
    rw [hposix, if_pos rfl, String.empty_append] at hinside
    have hrules : l.rules.posix = true := hposix
    have hclose : l.rules.move (.quote '"') (String.ofList name) quoted '"' =
        { state := .word, token := String.ofList name, quoted := true } := by
      simp [Rules.move, Rules.moveFromQuote, hrules]
    obtain ⟨closed, hclosed, hrun⟩ := hinside.goesOn (by simp) hclose
    have htoken : l.rules.isToken (String.ofList name) true = true := by simp [Rules.isToken, hrules]
    rw [hrun, hclosed.ends (by simp) rfl, htoken]
    rfl
  | false =>
    -- The quote ends the token, to which it belongs.
    rw [hposix, if_neg (by simp)] at hinside
    have hrules : l.rules.posix = false := hposix
    have hclose : l.rules.move (.quote '"') ("\"" ++ String.ofList name) quoted '"' =
        { state := .start, token := ("\"" ++ String.ofList name).push '"', quoted := true, complete := true } := by
      simp [Rules.move, Rules.moveFromQuote, hrules]
    have htoken : l.rules.isToken (("\"" ++ String.ofList name).push '"') true = true := by simp [Rules.isToken]
    rw [hinside.completes (by simp) hclose rfl htoken]
    rfl

/-! ## Asking for a name -/

/-- The next that the lexer does is to ask for this name, as one that stands in this file. -/
structure Asks (l : Lexer) (name : String) (current : Option Path) : Prop where
  /-- If the name is refused, that is the answer. -/
  refused : ∀ e, l.resolver.answer name current = .error e → l.nextToken.1 = .error e
  /-- If there is something to include, it is read next, from its beginning. -/
  granted : ∀ inclusion left, l.resolver.answer name current = .ok inclusion → l.allowance = left + 1 →
    ∃ opened : Lexer, l.nextToken = opened.search ∧
      opened.source = ⟨inclusion.stream, inclusion.origin, 1⟩ ∧ ∃ parent, opened.suspended = parent :: l.suspended

/-- A lexer asks for the name that it reads behind the keyword. -/
theorem asks_of_keyword {read : Lexer} {k name : String} (hwaiting : l.waiting = [])
    (hkeyword : l.config.sourceKeyword = some k) (hread : l.readToken = (.ok (some k), read))
    (hname : read.readToken.1 = .ok (some name)) : Asks l name l.origin := by
  obtain ⟨named, hnamed⟩ : ∃ named, read.readToken = (.ok (some name), named) := ⟨_, Prod.ext hname rfl⟩
  have hsame := (SameStack.of_readToken hread).trans (SameStack.of_readToken hnamed)
  have horigin : named.origin = l.origin := by
    have hfirst := run_origin l.rules l false
    have hsecond := run_origin read.rules read false
    rw [show run l.rules l false = l.readToken from rfl, hread] at hfirst
    rw [show run read.rules read false = read.readToken from rfl, hnamed] at hsecond
    exact hsecond.trans hfirst
  have hkey : read.config.sourceKeyword = some k := (SameStack.of_readToken hread).config ▸ hkeyword
  constructor
  · intro e hrefused
    have hopen : named.openInclusion name = (.error e, named.asking name) := by
      rw [openInclusion, hsame.resolver, horigin, hrefused]
    rw [nextToken_of_no_waiting hwaiting, search_eq_turn, turn_of_keyword hread hkey, follow, hnamed]
    dsimp only
    rw [hopen]
  · intro inclusion left hgranted hallowance
    have hopen : named.openInclusion name =
        (.ok (), ((named.asking name).allowing left).pushSource inclusion.stream inclusion.origin) := by
      rw [openInclusion, hsame.resolver, horigin, hgranted]
      dsimp only
      rw [hsame.allowance, hallowance]
    rw [nextToken_of_no_waiting hwaiting, search_eq_turn, turn_of_keyword hread hkey, follow, hnamed]
    dsimp only
    rw [hopen]
    refine ⟨_, rfl, ?_, named.source, ?_⟩
    · simp [pushSource]
    · simp [pushSource, hsame.suspended]

end Lexer

/-! ## The path of the name -/

/-- Where the path is found, the quotes are taken away that are still there. -/
theorem withoutQuotes_nameAsRead (posix : Bool) {name : String} (hquote : '"' ∉ name.toList) :
    withoutQuotes (nameAsRead posix name).toList = name.toList := by
  cases posix with
  | true => exact withoutQuotes_of_head? fun hhead => hquote (List.mem_of_mem_head? hhead)
  | false =>
    have htext : (nameAsRead false name).toList = '"' :: (name.toList ++ ['"']) := by simp [nameAsRead]
    rw [htext, withoutQuotes, List.getLast?_concat, if_pos rfl, List.dropLast_concat]

/-- So the path is that of the name without quotes. -/
theorem includedPath_nameAsRead (home : Option String) (current : Option Path) (posix : Bool) {name : String}
    (hquote : '"' ∉ name.toList) :
    includedPath home (nameAsRead posix name) current = includedPath home name current := by
  have hname : withoutQuotes (nameAsRead posix name).toList = withoutQuotes name.toList :=
    (withoutQuotes_nameAsRead posix hquote).trans (withoutQuotes_nameAsRead true hquote).symm
  rw [includedPath, hname]
  rfl

namespace Lexer

/-- A lexer that reads the keyword, a blank and a name in double quotes asks for what it has read of the name, and
that means the same path in both modes: that of the name. -/
theorem asks_quoted_name (config : Config) (resolver : Resolver) (origin : Option Path) (home : Option String)
    (k name : String) (hne : k ≠ "") (hletters : ∀ c ∈ k.toList, c.isAlpha = true)
    (hop : '"' ∉ config.punctuation.chars) (hops : ∀ c ∈ config.punctuation.chars, c.isAlpha = false)
    (hquote : '"' ∉ name.toList) (hescape : '\\' ∉ name.toList) (posix : Bool) :
    Asks (ofSource { config with posix, sourceKeyword := some k } resolver
        ⟨.ofText (k ++ " \"" ++ name ++ "\""), origin, 1⟩) (nameAsRead posix name) origin ∧
      includedPath home (nameAsRead posix name) origin = includedPath home name origin := by
  refine ⟨?_, includedPath_nameAsRead home origin posix hquote⟩
  let l := ofSource { config with posix, sourceKeyword := some k } resolver
    ⟨.ofText (k ++ " \"" ++ name ++ "\""), origin, 1⟩
  have htext : (k ++ " \"" ++ name ++ "\"").toList = k.toList ++ ' ' :: ('"' :: name.toList ++ ['"']) := by simp
  have hstands : l.Stands .start "" (k.toList ++ ' ' :: ('"' :: name.toList ++ ['"'])) :=
    ⟨rfl, rfl, _, _, Stream.ofText_eq_ofChars _, htext, Nat.zero_le _, rfl⟩
  have hkops : ∀ c ∈ k.toList, c ∉ l.config.punctuation.chars := fun c hc hmem =>
    Bool.false_ne_true ((hops c hmem).symm.trans (hletters c hc))
  have hk : k.toList ≠ [] := fun hnil => hne (String.toList_inj.1 hnil)
  obtain ⟨read, hread, hrest⟩ := hstands.readToken_letters hk hletters hkops
  have hconfig : read.config = l.config := (SameStack.of_readToken hread).config
  have hname := hrest.readToken_quotation (by rw [hconfig]; exact hop) hquote hescape
  rw [hconfig, String.ofList_toList] at hname
  rw [String.ofList_toList] at hread
  exact asks_of_keyword (l := l) rfl rfl hread hname

/-- The name of a file next to the current one, with a blank, a number sign and an operator in it. Where it is not
found, the error shows that it has been read with its quotes or without them. -/
theorem asks_quoted_name_sharp :
    includedPath none "\"a #;b\"" (some ⟨"/etc/main.sh"⟩) = ⟨"/etc/a #;b"⟩ ∧
      includedPath none "a #;b" (some ⟨"/etc/main.sh"⟩) = ⟨"/etc/a #;b"⟩ ∧
      ∀ posix, (ofSource { posix, punctuation := .shell, sourceKeyword := some "source" } .refusing
          ⟨.ofText "source \"a #;b\"", some ⟨"/etc/main.sh"⟩, 1⟩).nextToken.1 =
        .error (.unresolved (if posix then "a #;b" else "\"a #;b\"") .notFound) := by
  have hletters : "source".toList.all (fun c => c.isAlpha) = true := by decide
  have hops : Punctuation.shell.chars.all (fun c => c.isAlpha == false) = true := by decide
  have hasks := asks_quoted_name { punctuation := .shell } .refusing (some ⟨"/etc/main.sh"⟩) none "source" "a #;b"
    (by decide) (List.all_eq_true.1 hletters) (by decide) (fun c hc => beq_iff_eq.1 (List.all_eq_true.1 hops c hc))
    (by decide) (by decide)
  have hpath : includedPath none "a #;b" (some ⟨"/etc/main.sh"⟩) = ⟨"/etc/a #;b"⟩ := by decide
  refine ⟨(hasks false).2.trans hpath, hpath, fun posix => ?_⟩
  cases posix with
  | true => exact (hasks true).1.refused _ rfl
  | false => exact (hasks false).1.refused _ rfl

end Lexer
end ShellWords

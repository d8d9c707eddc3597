import ShellWords.Command.Run
import ShellWords.Proofs.Json.Grammar
import ShellWords.Proofs.Posix.Joining
import ShellWords.Proofs.Text.Utf8

/-!
# The commands undo each other

What `join` and `quote` print is a command line with a newline behind it, and `split` reads it as the words that it
was made of. The newline that is printed is white space behind the last word (`Rules.Unquotes.wordsFrom_join_space`),
so it belongs to no word, and the one that `quote` takes off its input is not part of the word either.

`run_name` and `Mode.run_ofText` say once what a run without options and without a user's file does with a
text; the rest is what the modes make of it.
-/

namespace ShellWords.Command

variable {files : FileSystem} {home : Option String} {m : Mode} {text : String}

/-- The user keeps no changes to the options. -/
def NoOverlay (files : FileSystem) (home : Option String) : Prop :=
  ∃ e, files (overlayPath home) = .error e ∧ ∀ path, e ≠ .notLoaded path

/-- Without arguments the options stay as they are. -/
theorem Options.applyTo_default (c : Config) : ({} : Options).applyTo c = c := by
  simp [applyTo]

/-- The name of a mode by itself asks for this mode, without options. -/
theorem ofArguments_name {name : String} (h : Mode.ofName? name = some m) :
    Invocation.ofArguments [name] = .run {} m := by
  have hdashes : name = "--" → [] = ([] : List String) → False := by
    rintro rfl
    cases h
  rw [Invocation.ofArguments, Invocation.readBefore.eq_3 _ _ _ hdashes, h]
  dsimp only
  rw [Invocation.readAfter]
  rfl

/-- A run without changes to the options does what its mode does by default. -/
theorem run_name {name : String} (hnone : NoOverlay files home) (hname : Mode.ofName? name = some m)
    (stdin : Stream) : run files home [name] stdin = m.run {} (.files home files) stdin := by
  obtain ⟨e, he, hloaded⟩ := hnone
  have hload : Config.load files home = ⟨{}, false⟩ := Config.load_of_error he
  have hafter (outcome : Outcome) : outcome.after [] = outcome := by cases outcome <;> rfl
  simp only [run, ofArguments_name hname, he]
  split
  · rename_i path hpath
    exact (hloaded path (Except.error.inj hpath)).elim
  · simp [hload, hafter, Options.applyTo_default]

/-- A text on the standard input is taken as it is. -/
theorem inputText_ofText (text : String) : inputText (.ofText text) = .ok text := by
  have hdecode : Text.Utf8.decode? (Stream.ofText text).bytes = some text := Text.Utf8.decode?_eq_some_iff.2 rfl
  rw [inputText, hdecode]
  rfl

/-- What a mode makes of a text is printed as a line. -/
theorem Mode.run_ofText {config : Config} {resolver : Resolver} {line : String}
    (h : m.apply config resolver text = .ok line) :
    m.run config resolver (.ofText text) = .finished { stdout := line ++ "\n" } := by
  rw [Mode.run, inputText_ofText]
  dsimp only
  rw [h]

/-- A joined command line with a newline behind it is split into its words, by default. -/
theorem splitWith_join_newline (resolver : Resolver) (words : List String) :
    splitWith {} resolver (join words ++ "\n") = .ok (words.map unquoted) := by
  have hr : (Rules.ofConfig {}).Unquotes :=
    Rules.unquotes_ofConfig rfl rfl (by simp [Punctuation.chars, Punctuation.text])
  have hnewline : (Rules.ofConfig {}).classes.isWhitespace '\n' = true := by decide
  have hjoin : (Rules.ofConfig {}).wordsFrom .start "" false ((join words).toList ++ ['\n']) =
      some (words.map unquoted) := by
    rw [hr.wordsFrom_join_space words hnewline, Rules.wordsFrom_start_nil, Option.map_some, List.append_nil]
  refine Lexer.words_ofText_of_absent ?_ (by simp) resolver
  rw [String.toList_append]
  exact hjoin

/-- Splitting what `join` or `quote` has printed gives a line with the words in JSON. -/
theorem run_split_join (hnone : NoOverlay files home) (words : List String) :
    run files home ["split"] (.ofText (join words ++ "\n")) =
      .finished { stdout := Json.written (words.map unquoted) ++ "\n" } := by
  have happly : Mode.split.apply {} (.files home files) (join words ++ "\n") =
      .ok (Json.written (words.map unquoted)) := by
    rw [Mode.apply, splitWith_join_newline]
  rw [run_name hnone (m := .split) rfl, Mode.run_ofText happly]

/-- Where the user keeps no changes to the options, every list of words in JSON goes through `join` and `split` and
comes back in JSON, with the blank words empty, and every text goes through `quote` and `split` and comes back as one
word, without the newline at its end and empty if it is blank. All these runs end well and print nothing else. -/
theorem commands_compose (hnone : NoOverlay files home) :
    (∀ words text, Json.Spells words text.toList →
      run files home ["join"] (.ofText text) = .finished { stdout := join words ++ "\n" } ∧
        run files home ["split"] (.ofText (join words ++ "\n")) =
          .finished { stdout := Json.written (words.map unquoted) ++ "\n" }) ∧
    ∀ text, run files home ["quote"] (.ofText text) =
        .finished { stdout := quote (withoutNewline text) ++ "\n" } ∧
      run files home ["split"] (.ofText (quote (withoutNewline text) ++ "\n")) =
        .finished { stdout := Json.written [unquoted (withoutNewline text)] ++ "\n" } := by
  refine ⟨fun words text hspells => ⟨?_, run_split_join hnone words⟩, fun text => ⟨?_, ?_⟩⟩
  · have happly : Mode.join.apply {} (.files home files) text = .ok (join words) := by
      rw [Mode.apply, hspells.words?]
    rw [run_name hnone (m := .join) rfl, Mode.run_ofText happly]
  · rw [run_name hnone (m := .quote) rfl, Mode.run_ofText rfl]
  · have hsplit := run_split_join hnone [withoutNewline text]
    rwa [show join [withoutNewline text] = quote (withoutNewline text) by simp [join]] at hsplit

/-- A word that is spelled by two numbered escapes comes back as it stands, and a tab comes back empty. -/
theorem commands_compose_pair :
    NoOverlay (fun _ => .error .notFound) none ∧
      run (fun _ => .error .notFound) none ["join"] (.ofText "[ \"\\ud83d\\ude00\",\"\\t\"]") =
        .finished { stdout := "'😀' ''\n" } ∧
      run (fun _ => .error .notFound) none ["split"] (.ofText "'😀' ''\n") =
        .finished { stdout := "[\"😀\",\"\"]\n" } := by
  have hnone : NoOverlay (fun _ => .error .notFound) none := ⟨.notFound, rfl, fun _ h => by cases h⟩
  have hnothing : Json.Space [] := by simp [Json.Space]
  have hblank : Json.Space [' '] := by simp [Json.Space, Json.isSpace]
  have hface : Json.SpellsWord "😀" " \"\\ud83d\\ude00\"".toList :=
    .intro hblank (.cons (.pair 0xD83D 0xDE00 "d83d".toList "de00".toList ⟨rfl, rfl⟩ ⟨rfl, rfl⟩ (by decide)
      (by decide) rfl) .nil) hnothing
  have htab : Json.SpellsWord "\t" "\"\\t\"".toList :=
    .intro hnothing (.cons (.letter 't' (by decide)) .nil) hnothing
  have hspells : Json.Spells ["😀", "\t"] "[ \"\\ud83d\\ude00\",\"\\t\"]".toList :=
    .words hnothing (.cons hface (.last htab)) hnothing
  obtain ⟨hjoin, hsplit⟩ := (commands_compose hnone).1 _ _ hspells
  have hline : join ["😀", "\t"] ++ "\n" = "'😀' ''\n" := by decide +kernel
  have hwords : Json.written (["😀", "\t"].map unquoted) ++ "\n" = "[\"😀\",\"\"]\n" := by
    decide +kernel
  rw [hline] at hjoin hsplit
  rw [hwords] at hsplit
  exact ⟨hnone, hjoin, hsplit⟩

end ShellWords.Command

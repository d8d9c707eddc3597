import ShellWords.Command.Run
import ShellWords.Proofs.Toml.Lines

/-!
# Written options are read back

`Config.toToml` writes a line for each option that is given (`Config.toToml_eq_lines`), and the document is read as
the table of these options. Only one thing is lost: a text of operators that is empty is read as no operators at all
(`Config.normal`), as it is wherever options come from a text. So neither a user's file nor an argument ever leads to
the empty text (`Command.effective_punctuation_ne`), and what `--dump-config` prints is read back as it is.
-/

namespace ShellWords

open Toml (Entry Value Writes written writtenFlag)

/-- The operator option as a text gives it: a text of operators that is empty means that there are none. -/
def Punctuation.normal (p : Punctuation) : Punctuation := if p = .custom "" then .disabled else p

/-- The options as a document gives them back. -/
def Config.normal (c : Config) : Config := { c with punctuation := c.punctuation.normal }

/-- Options that do not name an empty text of operators are normal. -/
theorem Config.normal_of_ne {c : Config} (h : c.punctuation ≠ .custom "") : c.normal = c := by
  rw [normal, Punctuation.normal, if_neg h]

/-! ## Documents of options -/

/-- What the operator option is written for. -/
def Punctuation.value : Punctuation → Value
  | .disabled => .boolean false
  | .shell => .boolean true
  | .custom chars => .string chars

/-- The options that have lines, in their order. -/
def Config.entries (c : Config) : List Entry :=
  [⟨"posix", writtenFlag c.posix, .boolean c.posix⟩,
    ⟨"whitespace_split", writtenFlag c.whitespaceSplit, .boolean c.whitespaceSplit⟩,
    ⟨"comments", writtenFlag c.comments, .boolean c.comments⟩,
    ⟨"punctuation_chars", c.punctuation.toToml, c.punctuation.value⟩] ++
  c.sourceKeyword.toList.map (fun keyword => ⟨"source_keyword", written keyword.toList, .string keyword⟩) ++
  [⟨"debug_level", (toString c.debugLevel.toNat).toList, .integer c.debugLevel.toNat⟩,
    ⟨"tag", written c.tag.toList, .string c.tag⟩]

/-- The document consists of the lines of these options. -/
theorem Config.toToml_eq_lines (c : Config) : c.toToml = String.ofList (Toml.lines c.entries) := by
  rw [toToml, toTomlChars, entries]
  cases c.sourceKeyword <;> simp [Toml.lines]

/-- The operator option is written as its value is read. -/
theorem Punctuation.writes_toToml (p : Punctuation) : Writes p.toToml p.value := by
  cases p with
  | disabled => exact Toml.writes_flag false
  | shell => exact Toml.writes_flag true
  | custom chars => exact Toml.writes_written chars

/-- The names of the options need no quotes, and every value ends where its line does. -/
theorem Config.readable_entries (c : Config) : ∀ e ∈ c.entries, e.Readable := by
  intro e he
  simp only [entries, List.mem_append, List.mem_cons, List.mem_map, List.not_mem_nil, or_false] at he
  rcases he with ((rfl | rfl | rfl | rfl) | ⟨keyword, -, rfl⟩) | rfl | rfl
  · exact .of_all (by decide) (Toml.writes_flag c.posix)
  · exact .of_all (by decide) (Toml.writes_flag c.whitespaceSplit)
  · exact .of_all (by decide) (Toml.writes_flag c.comments)
  · exact .of_all (by decide) c.punctuation.writes_toToml
  · exact .of_all (by decide) (Toml.writes_written keyword)
  · exact .of_all (by decide) (Toml.writes_byte c.debugLevel)
  · exact .of_all (by decide) (Toml.writes_written c.tag)

/-- No option has two lines. -/
theorem Config.nodup_entries (c : Config) : (c.entries.map Entry.name).Nodup := by
  rw [entries]
  cases c.sourceKeyword <;> simp

/-- The operator option is read from its value, and is normal then. -/
theorem Punctuation.punctuation?_value (p : Punctuation) :
    p.value.punctuation? = some p.normal := by
  cases p with
  | disabled => rfl
  | shell => rfl
  | custom chars =>
    simp only [value, Value.punctuation?, ofText, normal, String.isEmpty_iff, Punctuation.custom.injEq]

/-- A byte is read from the number that it is written as. -/
theorem Toml.byte?_integer (n : UInt8) : (Value.integer n.toNat).byte? = some n := by
  have hlt := n.toNat_lt
  rw [Value.byte?, if_pos (by omega)]
  simp

/-- The options are read from the values that they are written for. -/
theorem Config.ofTable?_entries (c : Config) :
    Config.ofTable? (c.entries.map fun e => (e.name, e.value)) = some c.normal := by
  obtain ⟨posix, whitespaceSplit, comments, punctuation, sourceKeyword, debugLevel, tag⟩ := c
  cases sourceKeyword <;>
    simp [ofTable?, Toml.Table.option?, entries, List.lookup_cons, Value.flag?, Value.text?, Toml.byte?_integer,
      Punctuation.punctuation?_value, normal]

/-- Written options are read back, but for a text of operators that is empty. -/
theorem Config.ofToml?_toToml (c : Config) : Config.ofToml? c.toToml = some c.normal := by
  rw [ofToml?, toToml_eq_lines, Toml.Table.ofText?_lines c.readable_entries c.nodup_entries, Option.bind_some,
    ofTable?_entries]

/-! ## Options in effect -/

/-- A text never names the empty text of operators. -/
theorem Punctuation.ofText_ne (chars : String) : Punctuation.ofText chars ≠ .custom "" := by
  rw [ofText]
  split_ifs with hempty
  · exact fun h => by cases h
  · rw [ne_eq, Punctuation.custom.injEq]
    rintro rfl
    exact hempty rfl

/-- So no value of a document does. -/
theorem Toml.Value.punctuation?_ne {v : Value} {p : Punctuation} (h : v.punctuation? = some p) :
    p ≠ .custom "" := by
  cases v with
  | boolean b =>
    obtain rfl := Option.some.inj h
    cases b <;> exact fun h => by cases h
  | string chars =>
    obtain rfl := Option.some.inj h
    exact Punctuation.ofText_ne chars
  | _ => cases h

/-- An option that is given has been read from a value. -/
theorem Toml.Table.exists_of_option? {α : Type} {t : Toml.Table} {name : String} {read : Value → Option α}
    {a : α} (h : t.option? name read = some (some a)) : ∃ v, read v = some a := by
  unfold option? at h
  split at h
  · cases h
  · rename_i v hv
    simp only [Option.map_eq_some_iff, Option.some.injEq] at h
    obtain ⟨_, hread, rfl⟩ := h
    exact ⟨v, hread⟩

/-- Nor do the changes that a document describes. -/
theorem Overlay.punctuation_ne {t : Toml.Table} {o : Overlay} {p : Punctuation} (ho : Overlay.ofTable? t = some o)
    (hp : o.punctuation = some p) : p ≠ .custom "" := by
  simp only [ofTable?, Option.bind_eq_bind, Option.bind_eq_some_iff] at ho
  obtain ⟨posix, -, whitespaceSplit, -, comments, -, punctuation, hread, keyword, -, debug, -, tag, -, ho⟩ := ho
  obtain rfl := Option.some.inj ho
  obtain rfl : punctuation = some p := hp
  obtain ⟨v, hv⟩ := Toml.Table.exists_of_option? hread
  exact Toml.Value.punctuation?_ne hv

/-- The options of a user have no empty text of operators. -/
theorem Config.load_punctuation_ne (files : FileSystem) (home : Option String) :
    (Config.load files home).config.punctuation ≠ .custom "" := by
  have hdefault : ({} : Config).punctuation ≠ .custom "" := fun h => by cases h
  rw [load, builtIn_eq]
  split
  · exact hdefault
  · split
    · exact hdefault
    · split
      · exact hdefault
      · rename_i overlay hoverlay
        obtain ⟨t, -, ht⟩ := Option.bind_eq_some_iff.1 hoverlay
        show overlay.punctuation.getD _ ≠ _
        cases hp : overlay.punctuation with
        | none => exact hdefault
        | some p => exact Overlay.punctuation_ne ht hp

namespace Command

/-- The options of a run: those of the user, changed as the arguments say. -/
def effective (files : FileSystem) (home : Option String) (options : Options) : Config :=
  options.applyTo (Config.load files home).config

/-- Arguments name no empty text of operators. -/
theorem effective_punctuation_ne (files : FileSystem) (home : Option String) (options : Options) :
    (effective files home options).punctuation ≠ .custom "" := by
  rw [effective, Options.applyTo]
  split
  · exact Config.load_punctuation_ne files home
  · exact fun h => by cases h
  · exact Punctuation.ofText_ne _

/-- Options that are in effect are read back as they are. -/
theorem ofToml?_effective (files : FileSystem) (home : Option String) (options : Options) :
    Config.ofToml? (effective files home options).toToml = some (effective files home options) := by
  rw [Config.ofToml?_toToml, Config.normal_of_ne (effective_punctuation_ne files home options)]

/-- The options are printed if that is asked for, as soon as it is known whether the user has changed them. -/
theorem run_dumpConfig {files : FileSystem} {home : Option String} {args : List String} {options : Options}
    {m : Mode} (hargs : Invocation.ofArguments args = .run options m) (hdump : options.dumpConfig = true)
    (hloaded : ∀ path, files (overlayPath home) ≠ .error (.notLoaded path)) (stdin : Stream) :
    ∃ warnings, run files home args stdin =
      .finished { stdout := (effective files home options).toToml, stderr := warnings } := by
  simp only [run, hargs, hdump, if_true]
  cases hfiles : files (overlayPath home) with
  | ok stream => exact ⟨_, rfl⟩
  | error e =>
    cases e with
    | notLoaded path => exact (hloaded path hfiles).elim
    | _ => exact ⟨_, rfl⟩

/-- Every configuration is read back from what it is written as, but for an empty text of operators, which means that
there are none. The options that are in effect in a run never hold that text, whatever the user's file and the
arguments are, so they are read back as they are, and they are what the run prints if it is asked for them. -/
theorem dump_reads_back {args : List String} {options : Options} {m : Mode}
    (hargs : Invocation.ofArguments args = .run options m) (files : FileSystem) (home : Option String) :
    (∀ c : Config, Config.ofToml? c.toToml = some c.normal) ∧
      (effective files home options).punctuation ≠ .custom "" ∧
      Config.ofToml? (effective files home options).toToml = some (effective files home options) ∧
      (options.dumpConfig = true → (∀ path, files (overlayPath home) ≠ .error (.notLoaded path)) →
        ∀ stdin, ∃ warnings, run files home args stdin =
          .finished { stdout := (effective files home options).toToml, stderr := warnings }) :=
  ⟨Config.ofToml?_toToml, effective_punctuation_ne files home options, ofToml?_effective files home options,
    run_dumpConfig hargs⟩

/-- An empty text of operators and a keyword with quotes and a newline in it are given as arguments. -/
theorem dump_reads_back_keyword :
    Invocation.ofArguments ["--dump-config", "--punctuation=", "--source='\n\"\"\""] =
        .run { punctuation := some (some ""), source := some "'\n\"\"\"", dumpConfig := true } .split ∧
      ∃ warnings, run (fun _ => .error .notFound) none
          ["--dump-config", "--punctuation=", "--source='\n\"\"\""] .empty =
        .finished {
          stdout := "posix = true\nwhitespace_split = true\ncomments = false\npunctuation_chars = false\n" ++
            "source_keyword = '''\n'\n\"\"\"'''\ndebug_level = 0\ntag = \"shlex\"\n"
          stderr := warnings } := by
  have hargs : Invocation.ofArguments ["--dump-config", "--punctuation=", "--source='\n\"\"\""] =
      .run { punctuation := some (some ""), source := some "'\n\"\"\"", dumpConfig := true } .split := by
    decide +kernel
  obtain ⟨-, -, -, hdump⟩ := dump_reads_back hargs (fun _ => .error .notFound) none
  obtain ⟨warnings, hrun⟩ := hdump rfl (fun path h => by cases h) .empty
  refine ⟨hargs, warnings, ?_⟩
  rw [hrun]
  have hconfig : (effective (fun _ => .error .notFound) none
      { punctuation := some (some ""), source := some "'\n\"\"\"", dumpConfig := true }).toToml =
      "posix = true\nwhitespace_split = true\ncomments = false\npunctuation_chars = false\n" ++
        "source_keyword = '''\n'\n\"\"\"'''\ndebug_level = 0\ntag = \"shlex\"\n" := by
    rw [effective, Config.load_of_error rfl]
    decide +kernel
  rw [hconfig]

end Command
end ShellWords

import ShellWords.Config.Load
import ShellWords.Proofs.Text.Utf8

/-!
# The two ways to read options agree

A document is read as options, where what is not given has its default, or as changes to the options that the
program comes with. Both ways look up the same names and read the same values, so they refuse the same documents,
and from any other they give the same options (`Config.ofToml?_eq_overlay`).

The user's file is read in the second way. So the options of a user are those that the text of the file gives, or,
when there is no such text or it gives none, the defaults, and nothing in between (`Config.load_eq_given_or_default`).
-/

namespace ShellWords

/-! ## Options and changes to options -/

/-- The options of a document are the defaults with the changes that the document describes. -/
theorem Config.ofTable?_eq_overlay (t : Toml.Table) :
    Config.ofTable? t = (Overlay.ofTable? t).map fun overlay => overlay.applyTo {} := by
  simp only [ofTable?, Overlay.ofTable?, Overlay.applyTo, Option.bind_eq_bind, Option.map_bind, Function.comp_def,
    Option.pure_def, Option.map_some, Option.or_none]

/-- The options of a text are those that the program comes with, changed as the text describes. -/
theorem Config.ofToml?_eq_overlay (text : String) :
    Config.ofToml? text =
      ((Toml.Table.ofText? text).bind Overlay.ofTable?).map fun overlay => overlay.applyTo builtIn := by
  rw [ofToml?, builtIn_eq, Option.map_bind]
  exact congrArg _ (funext Config.ofTable?_eq_overlay)

/-! ## The user's file -/

/-- A stream has a text exactly if it is the stream of that text. -/
theorem Stream.text?_eq_some_iff {s : Stream} {text : String} : s.text? = some text ↔ s = .ofText text := by
  obtain ⟨bytes, failure⟩ := s
  cases failure with
  | none => simp [text?, ofText, Text.Utf8.decode?_eq_some_iff]
  | some e => simp [text?, ofText]

variable {files : FileSystem} {home : Option String} {text : String}

/-- A file with a text is read as options; if it gives none, they are the defaults, and that is reported. -/
theorem Config.load_of_text (h : files (overlayPath home) = .ok (.ofText text)) :
    load files home = ⟨(ofToml? text).getD {}, (ofToml? text).isNone⟩ := by
  have htext : (Stream.ofText text).text? = some text := Stream.text?_eq_some_iff.2 rfl
  simp only [load, h, htext, ofToml?_eq_overlay, builtIn_eq]
  cases (Toml.Table.ofText? text).bind Overlay.ofTable? with
  | none => rfl
  | some overlay => rfl

/-- Without a text, the options are the defaults, and nothing is reported. -/
theorem Config.load_of_no_text (h : ∀ text, files (overlayPath home) ≠ .ok (.ofText text)) :
    load files home = ⟨{}, false⟩ := by
  cases hfile : files (overlayPath home) with
  | error e => exact load_of_error hfile
  | ok stream =>
    have hnone : stream.text? = none := by
      rw [Option.eq_none_iff_forall_ne_some]
      intro text htext
      exact h text (by rw [hfile, Stream.text?_eq_some_iff.1 htext])
    simp only [load, hfile, hnone, builtIn_eq]

/-- The options of a user are those that the text of the user's file gives, read as a document of its own. If the
text gives none, they are the defaults, which is reported, and they are the defaults as well if there is no such
file, it cannot be read or its bytes are not those of a text. -/
theorem Config.load_eq_given_or_default (files : FileSystem) (home : Option String) :
    (∀ text c, files (overlayPath home) = .ok (.ofText text) → ofToml? text = some c →
        load files home = ⟨c, false⟩) ∧
      (∀ text, files (overlayPath home) = .ok (.ofText text) → ofToml? text = none →
        load files home = ⟨{}, true⟩) ∧
      ((∀ text, files (overlayPath home) ≠ .ok (.ofText text)) → load files home = ⟨{}, false⟩) := by
  refine ⟨fun text c hfile hgiven => ?_, fun text hfile hnone => ?_, load_of_no_text⟩
  · rw [load_of_text hfile, hgiven, Option.getD_some, Option.isNone_some]
  · rw [load_of_text hfile, hnone, Option.getD_none, Option.isNone_none]

/-- Of two options that are given, both are taken or, if one of them cannot be read, none. Nothing is taken of a file
that ends in the middle of a character. -/
theorem Config.load_both_or_none :
    load (fun _ => .ok (.ofText "posix = false\npunctuation_chars = \";\"\n")) none =
        ⟨{ posix := false, punctuation := .custom ";" }, false⟩ ∧
      load (fun _ => .ok (.ofText "posix = false\ndebug_level = 256\n")) none = ⟨{}, true⟩ ∧
      load (fun _ => .ok ⟨Text.Utf8.encode "posix = false\n# ".toList ++ [0xC3], none⟩) none = ⟨{}, false⟩ := by
  refine ⟨(load_eq_given_or_default _ none).1 _ _ rfl ?_, (load_eq_given_or_default _ none).2.1 _ rfl ?_,
    (load_eq_given_or_default _ none).2.2 ?_⟩
  · decide +kernel
  · decide +kernel
  · intro text h
    have hbytes : Stream.text? ⟨Text.Utf8.encode "posix = false\n# ".toList ++ [0xC3], none⟩ = some text :=
      Stream.text?_eq_some_iff.2 (Except.ok.inj h)
    have hnone : Stream.text? ⟨Text.Utf8.encode "posix = false\n# ".toList ++ [0xC3], none⟩ = none := by
      decide +kernel
    rw [hnone] at hbytes
    cases hbytes

end ShellWords

import ShellWords.Proofs.Posix.Joining

/-!
# Quoted pieces make one word

Pieces that are quoted one by one and written behind each other, with nothing between them, are one word, and it is
read back as what the pieces are read back as, one behind the other.

Each of the three forms in which `quote` writes a piece leaves the automaton in a word, and in a word each of them
adds what its piece is read back as (`wordsFrom_word_quoteChars`). So any form may stand behind any other, and the
pieces follow by induction. Only the first piece has to start a word, which is what `wordsFrom_quoteChars` says of
it. Two quotes add nothing, but from there on the word is one even if it is empty.
-/

namespace ShellWords
namespace Rules

variable {r : Rules} {token : String} {quoted : Bool}

/-- What is added to a token leaves it a token. -/
theorem isToken_append (h : r.isToken token quoted = true) (added : String) :
    r.isToken (token ++ added) quoted = true := by
  simp only [isToken, Bool.or_eq_true, Bool.not_eq_true', String.isEmpty_eq_false_iff] at h ⊢
  exact h.imp_left fun hne hempty => hne (String.append_eq_empty_iff.1 hempty).1

namespace Unquotes

variable (hr : r.Unquotes)
include hr

/-- What has quotes in it is a token. -/
theorem isToken_quoted (token : String) : r.isToken token true = true := by
  simp [isToken, hr.posix]

/-- In a word, a quoted piece adds what it is read back as, and leaves the automaton in the word. -/
theorem wordsFrom_word_quoteChars (htoken : r.isToken token quoted = true) (piece cs : List Char) :
    ∃ quoted', r.isToken (token ++ unquoted (String.ofList piece)) quoted' = true ∧
      r.wordsFrom .word token quoted (quoteChars piece ++ cs) =
        r.wordsFrom .word (token ++ unquoted (String.ofList piece)) quoted' cs := by
  have hsingle : '\'' ∈ r.classes.quotes := by simp [hr.quotes]
  unfold quoteChars unquoted Text.isBlank
  rw [String.toList_ofList]
  split_ifs with hblank hsafe
  · refine ⟨true, hr.isToken_quoted _, ?_⟩
    rw [List.cons_append, hr.wordsFrom_word_quotes hsingle, String.append_empty]
    exact hr.wordsFrom_closing_quote '\''
  · exact ⟨quoted, isToken_append htoken _, hr.wordsFrom_word_safes (List.all_eq_true.1 hsafe) token⟩
  · refine ⟨true, hr.isToken_quoted _, ?_⟩
    rw [List.cons_append, hr.wordsFrom_word_quotes hsingle, List.append_assoc, List.singleton_append,
      hr.wordsFrom_quotedChars]

/-- In a word, quoted pieces add what they are read back as, one behind the other. -/
theorem wordsFrom_word_pieces (htoken : r.isToken token quoted = true) (pieces : List String) :
    ∃ quoted', r.isToken (token ++ String.join (pieces.map unquoted)) quoted' = true ∧
      r.wordsFrom .word token quoted (pieces.flatMap fun piece => quoteChars piece.toList) =
        r.wordsFrom .word (token ++ String.join (pieces.map unquoted)) quoted' [] := by
  induction pieces generalizing token quoted with
  | nil => exact ⟨quoted, isToken_append htoken _, by simp [String.join_nil]⟩
  | cons piece pieces ih =>
    obtain ⟨quotedPiece, hpiece, hword⟩ := hr.wordsFrom_word_quoteChars htoken piece.toList
      (pieces.flatMap fun piece => quoteChars piece.toList)
    rw [String.ofList_toList] at hpiece hword
    obtain ⟨quoted', hpieces, hrest⟩ := ih hpiece
    rw [String.append_assoc, ← String.join_cons, ← List.map_cons] at hpieces hrest
    exact ⟨quoted', hpieces, by rw [List.flatMap_cons, hword, hrest]⟩

/-- Quoted pieces, if there are any, are one word. -/
theorem wordsFrom_pieces {pieces : List String} (hne : pieces ≠ []) :
    r.wordsFrom .start "" false (String.join (pieces.map quote)).toList =
      some [String.join (pieces.map unquoted)] := by
  obtain ⟨piece, pieces, rfl⟩ := List.exists_cons_of_ne_nil hne
  obtain ⟨quotedPiece, hpiece, hword⟩ := hr.wordsFrom_quoteChars piece.toList
    (pieces.flatMap fun piece => quoteChars piece.toList)
  rw [String.ofList_toList] at hpiece hword
  obtain ⟨quoted', htoken, hpieces⟩ := hr.wordsFrom_word_pieces hpiece pieces
  have htext : (String.join ((piece :: pieces).map quote)).toList =
      quoteChars piece.toList ++ pieces.flatMap fun piece => quoteChars piece.toList := by
    simp [quote, List.flatMap_map]
  rw [htext, hword, hpieces, wordsFrom_nil_of_isToken rfl htoken, wordsFrom_start_nil, List.map_cons,
    String.join_cons]
  rfl

end Unquotes
end Rules

/-- Quoted pieces are one word under all options for POSIX and words up to white space, with the same exceptions as
for a joined command line. -/
theorem splitWith_pieces {config : Config} {pieces : List String} (hposix : config.posix = true)
    (hsplit : config.whitespaceSplit = true)
    (hoperators : ∀ c ∈ config.punctuation.chars, c ≠ '\'' ∧ isSafe c = false)
    (hkeyword : config.sourceKeyword ≠ some (String.join (pieces.map unquoted))) (hne : pieces ≠ [])
    (resolver : Resolver) :
    splitWith config resolver (String.join (pieces.map quote)) = .ok [String.join (pieces.map unquoted)] := by
  have hr := Rules.unquotes_ofConfig hposix hsplit hoperators
  exact Lexer.words_ofText_of_absent (hr.wordsFrom_pieces hne) (by simpa using hkeyword) resolver

/-- Pieces that are quoted one by one and written behind each other are split into one word, which is the pieces
behind each other. This is so for any pieces, each empty or not blank, if there is at least one. -/
theorem split_pieces {pieces : List String} (hne : pieces ≠ [])
    (hblank : ∀ piece ∈ pieces, piece = "" ∨ Text.isBlank piece = false) :
    split (String.join (pieces.map quote)) = .ok [String.join pieces] := by
  have hsame : pieces.map unquoted = pieces :=
    (List.map_congr_left fun piece hpiece =>
      unquoted_of_not_blank (hblank piece hpiece).resolve_left).trans (List.map_id pieces)
  have hword : splitWith {} Resolver.refusing (String.join (pieces.map quote)) = _ :=
    splitWith_pieces rfl rfl (by simp [Punctuation.chars, Punctuation.text]) (by simp) hne Resolver.refusing
  rwa [hsame] at hword

/-- An empty piece, a bare one, one with quotes and a blank in it, and a bare one again. -/
theorem split_four_pieces :
    String.join (["", "a=", "it's b", "c"].map quote) = "''a='it'\"'\"'s b'c" ∧
      split (String.join (["", "a=", "it's b", "c"].map quote)) = .ok ["a=it's bc"] :=
  ⟨by decide, split_pieces (by decide) (by decide)⟩

end ShellWords

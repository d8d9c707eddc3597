import Mathlib.Data.List.DropRight
import ShellWords.Inclusion.Files

/-!
# Names in the directories of files

What a path means is the way that it describes: whether it starts at the root, and the steps from there (`Path.way`).
A way says less than the text of the path and its components do. It does not see slashes that are doubled or stand at
the end, nor a `.`, even at the beginning. In terms of it, joining two paths walks one way after the other
(`way_join`), and the parent of a path leaves out the last step (`way_parent`).

A plain name is relative, and nothing in it is taken away or replaced before it is read (`IsPlain`). So a file with
such a name lies on the way through the directory of the file that includes it (`way_includedPath`), and its own
directory is reached by the steps of the name but the last (`directoryWay_includedPath`). Therefore inclusions from
file to file compose (`directoryWay_foldl`, `includedPath_nested`).
-/

namespace ShellWords
namespace Path

/-! ## Segments -/

/-- The segments of a text are what its slashes separate. -/
theorem segments_eq_splitOn (cs : List Char) : segments cs = List.splitOn '/' cs := by
  induction cs with
  | nil => rfl
  | cons c cs ih =>
    obtain ⟨s, rest, hsegs⟩ := List.exists_cons_of_ne_nil (List.splitOn_ne_nil '/' cs)
    rw [List.splitOn_cons_eq_if_modifyHead, segments, ih, hsegs]
    simp only [beq_iff_eq]
    rfl

/-- A slash separates the segments before it from those after it. -/
theorem segments_append_slash (cs ds : List Char) : segments (cs ++ '/' :: ds) = segments cs ++ segments ds := by
  simp only [segments_eq_splitOn, List.splitOn_append_cons_self]

/-- No slash stands in a segment. -/
theorem slash_notMem_of_mem_segments {cs s : List Char} (h : s ∈ segments cs) : '/' ∉ s := by
  induction cs generalizing s with
  | nil =>
    obtain rfl := List.mem_singleton.1 h
    exact List.not_mem_nil
  | cons c cs ih =>
    rw [segments] at h
    split_ifs at h with hc
    · rcases List.mem_cons.1 h with rfl | hmem
      · exact List.not_mem_nil
      · exact ih hmem
    · -- The character goes in front of the first segment behind it.
      split at h <;> rename_i hsegs
      · obtain rfl := List.mem_singleton.1 h
        exact fun hslash => hc (List.mem_singleton.1 hslash).symm
      · rw [hsegs] at ih
        rcases List.mem_cons.1 h with rfl | hmem
        · exact fun hslash => (List.mem_cons.1 hslash).elim (Ne.symm hc) (ih List.mem_cons_self)
        · exact ih (List.mem_cons_of_mem _ hmem)

/-- Segments that are joined are told apart again. -/
theorem segments_joined {segs : List (List Char)} (hne : segs ≠ []) (hfree : ∀ s ∈ segs, '/' ∉ s) :
    segments (joined segs) = segs := by
  rw [segments_eq_splitOn, joined, List.splitOn_intercalate '/' hfree hne]

/-- The segments of a text, joined, are the text. -/
theorem joined_segments (cs : List Char) : joined (segments cs) = cs := by
  rw [segments_eq_splitOn, joined, List.intercalate_splitOn]

/-- A single segment is joined to nothing. -/
theorem joined_singleton (s : List Char) : joined [s] = s := List.intercalate_singleton

/-- What joins two segments or more is a slash. -/
theorem joined_cons_cons (s t : List Char) (segs : List (List Char)) :
    joined (s :: t :: segs) = s ++ '/' :: joined (t :: segs) := by
  rw [joined, List.intercalate_cons_cons, List.append_assoc]
  rfl

/-- The first segments of a text, joined, are the beginning of the text. -/
theorem joined_prefix {segs more : List (List Char)} (h : segs <+: more) : joined segs <+: joined more := by
  induction segs generalizing more with
  | nil => exact List.nil_prefix
  | cons s segs ih =>
    obtain ⟨rest, rfl, hrest⟩ := List.cons_prefix_iff.1 h
    cases segs with
    | nil =>
      cases rest with
      | nil => exact List.prefix_rfl
      | cons t rest => exact ⟨'/' :: joined (t :: rest), by rw [joined_singleton, joined_cons_cons]⟩
    | cons t segs =>
      obtain ⟨rest, rfl, -⟩ := List.cons_prefix_iff.1 hrest
      rw [joined_cons_cons, joined_cons_cons, List.prefix_append_right_inj, List.cons_prefix_cons]
      exact ⟨rfl, ih hrest⟩

/-! ## Segments that are names -/

/-- The segments that are names. -/
def named (segs : List (List Char)) : List (List Char) := segs.filter fun s => !isIdle s

/-- The names among two lists of segments are those of the one and those of the other. -/
theorem named_append (segs more : List (List Char)) : named (segs ++ more) = named segs ++ named more :=
  List.filter_append ..

/-- An idle segment is no name. -/
theorem named_cons_of_idle {s : List Char} (h : isIdle s = true) (segs : List (List Char)) :
    named (s :: segs) = named segs := List.filter_cons_of_neg (by simp [h])

/-- The names in the text of a path. -/
def namesIn (cs : List Char) : List (List Char) := named (segments cs)

/-- The names around a slash are those before it and those behind it. -/
theorem namesIn_append_slash (cs ds : List Char) : namesIn (cs ++ '/' :: ds) = namesIn cs ++ namesIn ds := by
  rw [namesIn, segments_append_slash, named_append]
  rfl

/-- The names in a joined text are those among the segments. -/
theorem namesIn_joined {segs : List (List Char)} (hfree : ∀ s ∈ segs, '/' ∉ s) :
    namesIn (joined segs) = named segs := by
  cases segs with
  | nil => rfl
  | cons s segs => rw [namesIn, segments_joined (List.cons_ne_nil s segs) hfree]

/-- What is trimmed away are the idle segments at the end. -/
theorem trimmed_eq (segs : List (List Char)) : trimmed segs = segs.rdropWhile isIdle := rfl

/-- No name is trimmed away. -/
theorem named_trimmed (segs : List (List Char)) : named (trimmed segs) = named segs := by
  rw [trimmed_eq]
  induction segs using List.reverseRecOn with
  | nil => rfl
  | append_singleton segs s ih =>
    by_cases hidle : isIdle s = true
    · rw [List.rdropWhile_concat_pos _ _ _ hidle, ih, named_append, named_cons_of_idle hidle]
      exact (List.append_nil _).symm
    · rw [List.rdropWhile_concat_neg _ _ _ hidle]

/-- The last segment that trimming leaves is a name. -/
theorem named_dropLast_trimmed (segs : List (List Char)) :
    named (trimmed segs).dropLast = (named segs).dropLast := by
  rw [trimmed_eq]
  induction segs using List.reverseRecOn with
  | nil => rfl
  | append_singleton segs s ih =>
    by_cases hidle : isIdle s = true
    · rw [List.rdropWhile_concat_pos _ _ _ hidle, ih, named_append, named_cons_of_idle hidle]
      exact congrArg List.dropLast (List.append_nil _).symm
    · have hlast : named [s] = [s] := List.filter_cons_of_pos (by simp [hidle])
      rw [List.rdropWhile_concat_neg _ _ _ hidle, named_append, hlast, List.dropLast_concat, List.dropLast_concat]

/-- Everything is trimmed away exactly if there is no name. -/
theorem trimmed_eq_nil_iff (segs : List (List Char)) : trimmed segs = [] ↔ named segs = [] := by
  simp [trimmed_eq, named]

/-! ## The parts of a path -/

variable {p q directory : Path}

/-- A path is absolute exactly if it begins with a slash. -/
theorem isAbsolute_iff (p : Path) : p.isAbsolute = true ↔ p.text.toList.head? = some '/' := by
  rw [List.head?_eq_some_iff]
  unfold isAbsolute anchor anchorOf
  split <;> simp_all

/-- A path is its anchor with its segments behind. -/
theorem ofParts_anchor_body (p : Path) : ofParts p.anchor p.body = p := by
  have htext : p.anchor.chars ++ p.text.toList.drop p.anchor.chars.length = p.text.toList := by
    unfold anchor anchorOf
    split <;> simp_all [Anchor.chars]
  rw [ofParts, body, joined_segments, htext, String.ofList_toList]

/-- Behind a `.` of its own there is a slash, or nothing. -/
theorem head?_body_of_here (h : p.anchor = .here) : p.body.head? = some [] := by
  unfold body
  rw [h]
  unfold anchor anchorOf at h
  split at h <;> simp_all [Anchor.chars, segments]

/-- The anchor contains no name. -/
theorem namesIn_ofParts {anchor : Anchor} {segs : List (List Char)} (hfree : ∀ s ∈ segs, '/' ∉ s)
    (hhere : anchor = .here → ∀ s ∈ segs.head?, s = []) :
    namesIn (anchor.chars ++ joined segs) = named segs := by
  cases anchor with
  | root => exact namesIn_joined hfree
  | bare => exact namesIn_joined hfree
  | here =>
    cases segs with
    | nil => rfl
    | cons s rest =>
      obtain rfl : s = [] := hhere rfl s rfl
      cases rest with
      | nil => rfl
      | cons t rest =>
        have hrest := namesIn_joined fun s hs => hfree s (List.mem_cons_of_mem [] hs)
        rw [joined_cons_cons, List.nil_append, named_cons_of_idle rfl, ← hrest]
        exact namesIn_append_slash ['.'] _

/-- The names of a path are those in its text. -/
theorem namesIn_text (p : Path) : namesIn p.text.toList = named p.body := by
  have hfree : ∀ s ∈ p.body, '/' ∉ s := fun s hs => slash_notMem_of_mem_segments hs
  have hhere (h : p.anchor = .here) : ∀ s ∈ p.body.head?, s = [] := by
    simp [head?_body_of_here h]
  have hparts : (ofParts p.anchor p.body).text.toList = p.anchor.chars ++ joined p.body := String.toList_ofList
  rw [ofParts_anchor_body] at hparts
  rw [hparts, namesIn_ofParts hfree hhere]

/-! ## Ways -/

/-- The way that the path describes. A `.` leads nowhere, not even at the beginning. -/
def way (p : Path) : List Component := p.components.filter fun c => c != .here

/-- Where a way starts. -/
def start (p : Path) : List Component := if p.isAbsolute then [.root] else []

/-- The step that a name is. -/
def stepOf (s : List Char) : Component := if String.ofList s == ".." then .up else .name (String.ofList s)

/-- A way starts at the root or not, and then there is one step for each name. -/
theorem way_eq (p : Path) : p.way = p.start ++ (namesIn p.text.toList).map stepOf := by
  have hstart : p.anchor.components.filter (fun c => c != .here) = p.start := by
    unfold start isAbsolute
    cases p.anchor <;> rfl
  have hsteps (cs : List (List Char)) :
      (cs.map stepOf).filter (fun c => c != .here) = cs.map stepOf := by
    refine List.filter_eq_self.2 fun c hc => ?_
    obtain ⟨s, -, rfl⟩ := List.mem_map.1 hc
    unfold stepOf
    split_ifs <;> rfl
  have hnames : (p.names.map fun s => if s == ".." then Component.up else .name s) = (named p.body).map stepOf :=
    List.map_map
  rw [way, components, List.filter_append, hstart, hnames, hsteps, namesIn_text]

/-- A relative path starts with no component. -/
theorem start_of_relative (h : p.isAbsolute = false) : p.start = [] := by rw [start, h]; rfl

/-- The way along a relative path is one step for each name. -/
theorem way_of_relative (h : p.isAbsolute = false) : p.way = (namesIn p.text.toList).map stepOf := by
  rw [way_eq, start_of_relative h, List.nil_append]

/-- A way along a relative path takes a step only where there is a name. -/
theorem namesIn_ne_nil (h : p.isAbsolute = false) (hway : p.way ≠ []) : namesIn p.text.toList ≠ [] := by
  intro hnil
  rw [way_of_relative h, hnil] at hway
  exact hway rfl

/-- A relative path written behind another, with a slash between them, adds its names. -/
theorem namesIn_join (hq : q.isAbsolute = false) :
    namesIn (p.join q).text.toList = namesIn p.text.toList ++ namesIn q.text.toList := by
  rw [join, if_neg (Bool.eq_false_iff.1 hq)]
  split_ifs with h
  · rw [String.toList_append]
    rcases Bool.or_eq_true_iff.1 h with hempty | hslash
    · rw [String.isEmpty_iff.1 hempty]
      rfl
    · obtain ⟨cs, hcs⟩ := List.getLast?_eq_some_iff.1 (beq_iff_eq.1 hslash)
      rw [hcs, List.append_assoc, List.singleton_append, namesIn_append_slash, namesIn_append_slash]
      exact congrArg (· ++ _) (List.append_nil _).symm
  · have hbetween : (p.text ++ "/" ++ q.text).toList = p.text.toList ++ '/' :: q.text.toList := by simp
    rw [hbetween, namesIn_append_slash]

/-- It starts where the first path does. -/
theorem start_join (hq : q.isAbsolute = false) : (p.join q).start = p.start := by
  have hhead : (p.join q).text.toList.head? = some '/' ↔ p.text.toList.head? = some '/' := by
    have hq' := mt (isAbsolute_iff q).2 (Bool.eq_false_iff.1 hq)
    rw [join, if_neg (Bool.eq_false_iff.1 hq)]
    cases hp : p.text.toList with
    | nil => simp_all [String.isEmpty_iff]
    | cons c cs =>
      split_ifs <;> simp [hp]
  unfold start
  rw [Bool.eq_iff_iff.2 ((isAbsolute_iff _).trans (hhead.trans (isAbsolute_iff p).symm))]

/-- A relative path that is joined to another leads on from there. -/
theorem way_join (hq : q.isAbsolute = false) : (p.join q).way = p.way ++ q.way := by
  rw [way_eq, namesIn_join hq, start_join hq, List.map_append, ← List.append_assoc, ← way_eq, way_of_relative hq]

/-! ## Parents -/

/-- A path with a name has a parent, and so has a lone `.`. -/
theorem parent_cases (h : p.parent = some directory) :
    (named p.body ≠ [] ∧ directory = ofParts p.anchor (trimmed (trimmed p.body).dropLast)) ∨
      (named p.body = [] ∧ p.anchor = .here ∧ directory = ⟨""⟩) := by
  rw [Ne, ← trimmed_eq_nil_iff]
  unfold parent at h
  split at h
  · rename_i hnil
    split_ifs at h with hanchor
    exact .inr ⟨hnil, beq_iff_eq.1 hanchor, (Option.some.inj h).symm⟩
  · rename_i hne
    exact .inl ⟨hne, (Option.some.inj h).symm⟩

/-- A path with a name in it has a parent. -/
theorem exists_parent (h : namesIn p.text.toList ≠ []) : ∃ directory, p.parent = some directory := by
  rw [namesIn_text, Ne, ← trimmed_eq_nil_iff] at h
  unfold parent
  split
  · contradiction
  · exact ⟨_, rfl⟩

/-- The segments of the parent stand at the beginning of those of the path. -/
theorem prefix_body (p : Path) : trimmed (trimmed p.body).dropLast <+: p.body :=
  ((List.rdropWhile_prefix isIdle _).trans (List.dropLast_prefix _)).trans (List.rdropWhile_prefix isIdle _)

/-- The parent of a path is a beginning of its text. -/
theorem parent_prefix (h : p.parent = some directory) : directory.text.toList <+: p.text.toList := by
  rcases parent_cases h with ⟨-, rfl⟩ | ⟨-, -, rfl⟩
  · have htext : p.text.toList = p.anchor.chars ++ joined p.body := by
      conv_lhs => rw [← ofParts_anchor_body p]
      exact String.toList_ofList
    rw [htext, ofParts, String.toList_ofList, List.prefix_append_right_inj]
    exact joined_prefix p.prefix_body
  · exact List.nil_prefix

/-- It has all names of the path but the last. -/
theorem namesIn_parent (h : p.parent = some directory) :
    namesIn directory.text.toList = (namesIn p.text.toList).dropLast := by
  rw [namesIn_text p]
  rcases parent_cases h with ⟨-, rfl⟩ | ⟨hnil, -, rfl⟩
  · have hfree : ∀ s ∈ trimmed (trimmed p.body).dropLast, '/' ∉ s := fun s hs =>
      slash_notMem_of_mem_segments (p.prefix_body.subset hs)
    have hhere (hanchor : p.anchor = .here) : ∀ s ∈ (trimmed (trimmed p.body).dropLast).head?, s = [] := by
      intro s hs
      obtain ⟨rest, hrest⟩ := List.head?_eq_some_iff.1 hs
      obtain ⟨more, hmore⟩ := hrest ▸ p.prefix_body
      have hbody := head?_body_of_here hanchor
      rw [← hmore] at hbody
      exact Option.some.inj hbody
    rw [ofParts, String.toList_ofList, namesIn_ofParts hfree hhere, named_trimmed, named_dropLast_trimmed]
  · rw [hnil]
    rfl

/-- It starts where the path does. -/
theorem start_parent (h : p.parent = some directory) : directory.start = p.start := by
  have habsolute : directory.isAbsolute = true ↔ p.isAbsolute = true := by
    constructor
    · intro hdirectory
      rw [isAbsolute_iff] at hdirectory ⊢
      obtain ⟨rest, hrest⟩ := List.head?_eq_some_iff.1 hdirectory
      obtain ⟨more, hmore⟩ := parent_prefix h
      rw [← hmore, hrest]
      rfl
    · intro hp
      have hroot : p.anchor = .root := beq_iff_eq.1 hp
      rcases parent_cases h with ⟨-, rfl⟩ | ⟨-, hhere, -⟩
      · rw [isAbsolute_iff, ofParts, String.toList_ofList, hroot]
        rfl
      · rw [hroot] at hhere
        contradiction
  unfold start
  rw [Bool.eq_iff_iff.2 habsolute]

/-- The parent of a path is one step less. -/
theorem way_parent (hne : namesIn p.text.toList ≠ []) (h : p.parent = some directory) :
    directory.way = p.way.dropLast := by
  have hsteps : (namesIn p.text.toList).map stepOf ≠ [] := by simpa using hne
  rw [way_eq, way_eq p, start_parent h, namesIn_parent h, List.map_dropLast, List.dropLast_append_of_ne_nil hsteps]

end Path

/-! ## Inclusion -/

/-- A name that is read as a path as it stands: it is relative, and has no quotes to take away and no home directory
to put in. -/
structure IsPlain (name : String) : Prop where
  relative : (⟨name⟩ : Path).isAbsolute = false
  unquoted : name.toList.head? ≠ some '"'
  homeless : name.toList.head? ≠ some '~'

/-- The way to the directory of a file. It is empty if there is no file, or if the file has no parent. -/
def directoryWay (current : Option Path) : List Path.Component :=
  ((current.bind Path.parent).map Path.way).getD []

variable {home : Option String} {name first second : String} {current : Option Path}

/-- Only quotes around a name are taken away. -/
theorem withoutQuotes_of_head? {cs : List Char} (h : cs.head? ≠ some '"') : withoutQuotes cs = cs := by
  unfold withoutQuotes
  split
  · simp at h
  · rfl

/-- Only a tilde at the beginning is replaced by the home directory. -/
theorem expandHome_of_head? (h : name.toList.head? ≠ some '~') : Path.expandHome home name = name := by
  unfold Path.expandHome
  split <;> simp_all

/-- A plain name is written behind the parent of the current file. -/
theorem includedPath_of_plain (h : IsPlain name) :
    includedPath home name current =
      match current.bind Path.parent with
      | some directory => directory.join ⟨name⟩
      | none => ⟨name⟩ := by
  unfold includedPath
  rw [withoutQuotes_of_head? h.unquoted, String.ofList_toList, expandHome_of_head? h.homeless]
  exact if_neg (Bool.eq_false_iff.1 h.relative)

/-- The file lies on the way through the directory of the current one. -/
theorem way_includedPath (h : IsPlain name) :
    (includedPath home name current).way = directoryWay current ++ (⟨name⟩ : Path).way := by
  rw [includedPath_of_plain h, directoryWay]
  cases current.bind Path.parent with
  | none => rfl
  | some directory => exact Path.way_join h.relative

/-- Its own directory is found by the directory of its name. -/
theorem directoryWay_includedPath (h : IsPlain name) (hway : (⟨name⟩ : Path).way ≠ []) :
    directoryWay (some (includedPath home name current)) = directoryWay current ++ (⟨name⟩ : Path).way.dropLast := by
  have hnamed : Path.namesIn name.toList ≠ [] := Path.namesIn_ne_nil h.relative hway
  have hincluded : Path.namesIn (includedPath home name current).text.toList ≠ [] := by
    rw [includedPath_of_plain h]
    cases current.bind Path.parent with
    | none => exact hnamed
    | some directory =>
      rw [Path.namesIn_join h.relative]
      exact List.append_ne_nil_of_right_ne_nil _ hnamed
  obtain ⟨directory, hparent⟩ := Path.exists_parent hincluded
  have hdirectory : directoryWay (some (includedPath home name current)) = directory.way := by
    rw [directoryWay, Option.bind_some, hparent]
    rfl
  rw [hdirectory, Path.way_parent hincluded hparent, way_includedPath h, List.dropLast_append_of_ne_nil hway]

/-- Files that include each other, each by a plain name, lead through all directories of their names. -/
theorem directoryWay_foldl {names : List String} (hplain : ∀ name ∈ names, IsPlain name)
    (hway : ∀ name ∈ names, (⟨name⟩ : Path).way ≠ []) :
    directoryWay (names.foldl (fun current name => some (includedPath home name current)) current) =
      directoryWay current ++ names.flatMap fun name => (⟨name⟩ : Path).way.dropLast := by
  induction names generalizing current with
  | nil => exact (List.append_nil _).symm
  | cons name names ih =>
    rw [List.foldl_cons, List.flatMap_cons, ← List.append_assoc,
      ← directoryWay_includedPath (hplain name List.mem_cons_self) (hway name List.mem_cons_self)]
    exact ih (fun n hn => hplain n (List.mem_cons_of_mem name hn)) fun n hn => hway n (List.mem_cons_of_mem name hn)

/-- What begins as a plain name does, or is empty, makes a plain name with a plain name behind it. -/
theorem IsPlain.join {directory : Path} (hfirst : IsPlain first) (hsecond : IsPlain second)
    (hbegins : directory.text.toList <+: first.toList) : IsPlain (directory.join ⟨second⟩).text := by
  have hhead : (directory.join ⟨second⟩).text.toList.head? = first.toList.head? ∨
      (directory.join ⟨second⟩).text.toList.head? = second.toList.head? := by
    rw [Path.join, if_neg (Bool.eq_false_iff.1 hsecond.relative)]
    cases hdirectory : directory.text.toList with
    | nil => exact .inr (by simp_all [String.isEmpty_iff])
    | cons c cs =>
      obtain ⟨rest, hrest⟩ := hdirectory ▸ hbegins
      refine .inl ?_
      rw [← hrest]
      split_ifs <;> simp [hdirectory]
  have hslash {name : String} (h : IsPlain name) : name.toList.head? ≠ some '/' :=
    mt (Path.isAbsolute_iff ⟨name⟩).2 (Bool.eq_false_iff.1 h.relative)
  constructor
  · refine Bool.eq_false_iff.2 fun habsolute => ?_
    rw [Path.isAbsolute_iff] at habsolute
    rcases hhead with h | h <;> rw [h] at habsolute
    · exact hslash hfirst habsolute
    · exact hslash hsecond habsolute
  · rcases hhead with h | h <;> rw [h]
    · exact hfirst.unquoted
    · exact hsecond.unquoted
  · rcases hhead with h | h <;> rw [h]
    · exact hfirst.homeless
    · exact hsecond.homeless

/-- A file that is included from an included file is the one found by its name in the directory of the other name. -/
theorem includedPath_nested (home : Option String) (current : Option Path) {first second : String}
    (hfirst : IsPlain first) (hsecond : IsPlain second) (hway : (⟨first⟩ : Path).way ≠ []) :
    ∃ directory, (⟨first⟩ : Path).parent = some directory ∧
      (includedPath home second (some (includedPath home first current))).way =
        (includedPath home (directory.join ⟨second⟩).text current).way := by
  have hnamed : Path.namesIn first.toList ≠ [] := Path.namesIn_ne_nil hfirst.relative hway
  obtain ⟨directory, hparent⟩ := Path.exists_parent (p := ⟨first⟩) hnamed
  have hjoined : IsPlain (directory.join ⟨second⟩).text := hfirst.join hsecond (Path.parent_prefix hparent)
  refine ⟨directory, hparent, ?_⟩
  calc (includedPath home second (some (includedPath home first current))).way
      = directoryWay (some (includedPath home first current)) ++ (⟨second⟩ : Path).way := way_includedPath hsecond
    _ = directoryWay current ++ (⟨first⟩ : Path).way.dropLast ++ (⟨second⟩ : Path).way := by
      rw [directoryWay_includedPath hfirst hway]
    _ = directoryWay current ++ (directory.join ⟨second⟩).way := by
      rw [Path.way_join hsecond.relative, Path.way_parent hnamed hparent, List.append_assoc]
    _ = (includedPath home (directory.join ⟨second⟩).text current).way := (way_includedPath hjoined).symm

/-- The names may go up and have doubled slashes. -/
theorem includedPath_nested_up :
    IsPlain "lib//./a.sh" ∧ IsPlain "../b.sh" ∧
      (includedPath none "../b.sh" (some (includedPath none "lib//./a.sh" (some ⟨"/etc/main.sh"⟩)))).way =
        (includedPath none "lib/../b.sh" (some ⟨"/etc/main.sh"⟩)).way := by
  have hfirst : IsPlain "lib//./a.sh" := ⟨by decide, by decide, by decide⟩
  have hsecond : IsPlain "../b.sh" := ⟨by decide, by decide, by decide⟩
  obtain ⟨directory, hparent, hway⟩ :=
    includedPath_nested none (some ⟨"/etc/main.sh"⟩) hfirst hsecond (by decide)
  obtain rfl : directory = ⟨"lib"⟩ := Option.some.inj (hparent.symm.trans (by decide))
  exact ⟨hfirst, hsecond, hway⟩

end ShellWords

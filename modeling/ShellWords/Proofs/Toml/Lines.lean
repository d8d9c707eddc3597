import ShellWords.Config.Dump
import ShellWords.Proofs.Toml.Strings
import ShellWords.Toml.Document

/-!
# Documents of one line for each name

A document that gives names values, one to a line, is read as the table of these names and values
(`Toml.Table.ofText?_lines`). A line is read by itself: its name ends at the blank, its value where the value was
written to end (`Toml.Writes`), and nothing is left of the line (`Toml.statement?_line`). The statements are carried
out one after the other, and each adds its name behind those before it (`Toml.Table.ofStatements?_pairs`).
-/

namespace ShellWords.Toml

variable {c d : Char} {name : String} {text rest : List Char} {v : Value}

/-! ## Names -/

/-- A name that needs no quotes. -/
structure IsBare (name : String) : Prop where
  nonempty : name.toList ≠ []
  chars : ∀ c ∈ name.toList, isKeyChar c = true

/-- A bare name begins with a character that may stand in one. -/
theorem IsBare.exists_cons (h : IsBare name) : ∃ c cs, name.toList = c :: cs ∧ isKeyChar c = true := by
  obtain ⟨c, cs, hname⟩ := List.exists_cons_of_ne_nil h.nonempty
  exact ⟨c, cs, hname, h.chars c (hname ▸ List.mem_cons_self)⟩

/-- Characters of which one can stand in a name, or in a scalar, and the other cannot. -/
theorem ne_of_class {p : Char → Bool} (hc : p c = true) (hd : p d = false) : c ≠ d := by
  rintro rfl
  rw [hc] at hd
  cases hd

/-- A line that begins with a name begins with no blank. -/
theorem skipBlanks_of_isKeyChar (h : isKeyChar c = true) : skipBlanks (c :: rest) = c :: rest := by
  have hspace : c ≠ ' ' := ne_of_class h (by decide)
  have htab : c ≠ '\t' := ne_of_class h (by decide)
  simp [skipBlanks, isBlank, hspace, htab]

/-- A name is read up to the blank behind it. -/
theorem name?_bare (h : IsBare name) (rest : List Char) :
    name? (name.toList ++ ' ' :: rest) = some (name.toList, ' ' :: rest) := by
  have htake : (name.toList ++ ' ' :: rest).takeWhile isKeyChar = name.toList := by
    rw [List.takeWhile_append_of_pos h.chars, List.takeWhile_cons_of_neg (by decide), List.append_nil]
  have hdrop : (name.toList ++ ' ' :: rest).dropWhile isKeyChar = ' ' :: rest := by
    rw [List.dropWhile_append_of_pos h.chars, List.dropWhile_cons_of_neg (by decide)]
  obtain ⟨c, cs, hname, hc⟩ := h.exists_cons
  have hdouble : c ≠ '"' := ne_of_class hc (by decide)
  have hsingle : c ≠ '\'' := ne_of_class hc (by decide)
  rw [hname, List.cons_append] at htake hdrop ⊢
  rw [name?.eq_3 _ (fun _ h => hdouble (List.cons.inj h).1) (fun _ h => hsingle (List.cons.inj h).1), htake, hdrop]

/-- So is a key that is a name. -/
theorem key?_bare (h : IsBare name) (rest : List Char) :
    key? (name.toList ++ ' ' :: '=' :: rest) = some (⟨[], name⟩, '=' :: rest) := by
  have hread := name?_bare h ('=' :: rest)
  obtain ⟨c, cs, hname, hc⟩ := h.exists_cons
  have hblank : skipBlanks (name.toList ++ ' ' :: '=' :: rest) = name.toList ++ ' ' :: '=' :: rest := by
    rw [hname]
    exact skipBlanks_of_isKeyChar hc
  have hnames (fuel : Nat) : names? (fuel + 1) (name.toList ++ ' ' :: '=' :: rest) = some ([name], '=' :: rest) := by
    rw [names?, hblank, hread]
    simp [skipBlanks, isBlank]
  obtain ⟨n, hn⟩ : ∃ n, (name.toList ++ ' ' :: '=' :: rest).length = n + 1 := ⟨_, by rw [hname]; rfl⟩
  rw [key?, hn, hnames]
  rfl

/-! ## Lines -/

/-- Behind an equals sign, this text is read as this value if the line ends there. -/
def Writes (text : List Char) (v : Value) : Prop :=
  ∀ rest, value? nestingLimit (skipBlanks (text ++ '\n' :: rest)) = some (v, '\n' :: rest)

/-- A line that gives a name a value is read by itself. -/
theorem statement?_line (hname : IsBare name) (htext : Writes text v) (rest : List Char) :
    statement? (line name text ++ rest) = some (.pair ⟨[], name⟩ v, rest) := by
  have hline : line name text ++ rest = name.toList ++ ' ' :: '=' :: ' ' :: (text ++ '\n' :: rest) := by
    simp [line]
  have hpair : pair (value? nestingLimit) (line name text ++ rest) = some ((⟨[], name⟩, v), '\n' :: rest) := by
    rw [hline, pair, key?_bare hname]
    show (value? nestingLimit (skipBlanks (text ++ '\n' :: rest))).map _ = _
    rw [htext]
    rfl
  obtain ⟨c, cs, hcons, hc⟩ := hname.exists_cons
  have hbracket : c ≠ '[' := ne_of_class hc (by decide)
  rw [hline, hcons, List.cons_append] at hpair ⊢
  rw [statement?.eq_3 _ (fun _ h => hbracket (List.cons.inj h).1) (fun _ h => hbracket (List.cons.inj h).1), hpair]
  rfl

/-! ### Values in a line -/

/-- Without a bracket in front, a value is read by itself. -/
theorem value?_flat (hbracket : c ≠ '[') (hbrace : c ≠ '\x7b') (depth : Nat) :
    value? depth (c :: rest) = flat? (c :: rest) := by
  unfold value?
  split <;> simp_all

/-- A written string ends where its line does. -/
theorem writes_written (s : String) : Writes (written s.toList) (.string s) := by
  intro rest
  have hread : string? (written s.toList ++ '\n' :: rest) = some (s.toList, '\n' :: rest) :=
    string?_written s.toList fun c hc => by
      obtain rfl := Option.some.inj hc
      decide
  obtain ⟨q, t, ht, hq⟩ : ∃ q t, written s.toList ++ '\n' :: rest = q :: t ∧ (q = '"' ∨ q = '\'') := by
    unfold written
    cases Style.of s.toList with
    | basic => exact ⟨'"', _, rfl, .inl rfl⟩
    | plain => exact ⟨'\'', _, rfl, .inr rfl⟩
    | multilineBasic => exact ⟨'"', _, rfl, .inl rfl⟩
    | multilinePlain => exact ⟨'\'', _, rfl, .inr rfl⟩
  rw [ht] at hread ⊢
  have hblank : skipBlanks (q :: t) = q :: t := by rcases hq with rfl | rfl <;> rfl
  rw [hblank, value?_flat (by rcases hq with rfl | rfl <;> decide) (by rcases hq with rfl | rfl <;> decide), flat?,
    hread]
  rcases hq with rfl | rfl <;> simp

/-- So does a scalar, which is read by its run alone. -/
theorem writes_scalar (hne : text ≠ []) (hrun : ∀ c ∈ text, isScalarChar c = true)
    (hread : ∀ s rest, scalarRun s = (text, rest) → scalar? s = some (v, rest)) : Writes text v := by
  intro rest
  have hscalar : scalar? (text ++ '\n' :: rest) = some (v, '\n' :: rest) := by
    refine hread _ _ ?_
    rw [scalarRun, List.takeWhile_append_of_pos hrun, List.dropWhile_append_of_pos hrun,
      List.takeWhile_cons_of_neg (by decide), List.dropWhile_cons_of_neg (by decide), List.append_nil]
  obtain ⟨c, cs, rfl⟩ := List.exists_cons_of_ne_nil hne
  have hc := hrun c List.mem_cons_self
  have hspace : c ≠ ' ' := ne_of_class hc (by decide)
  have htab : c ≠ '\t' := ne_of_class hc (by decide)
  have hblank : skipBlanks (c :: cs ++ '\n' :: rest) = c :: (cs ++ '\n' :: rest) := by
    simp [skipBlanks, isBlank, hspace, htab]
  have hdouble : c ≠ '"' := ne_of_class hc (by decide)
  have hsingle : c ≠ '\'' := ne_of_class hc (by decide)
  rw [hblank, value?_flat (ne_of_class hc (by decide)) (ne_of_class hc (by decide)), flat?]
  simpa [hdouble, hsingle] using hscalar

/-- A truth value ends there, and so does a number. -/
theorem writes_flag (b : Bool) : Writes (writtenFlag b) (.boolean b) := by
  have hrun : (writtenFlag b).all isScalarChar = true := by cases b <;> decide
  refine writes_scalar (by cases b <;> decide) (List.all_eq_true.1 hrun) fun s rest hs => ?_
  rw [scalar?, hs]
  cases b <;> rfl

/-- And so does a byte. -/
theorem writes_byte (n : UInt8) : Writes (toString n.toNat).toList (.integer n.toNat) := by
  have hall : ∀ n : Nat, n < 256 → (toString n).toList ≠ [] ∧ (toString n).toList.all isScalarChar = true ∧
      ((toString n).toList == "true".toList) = false ∧ ((toString n).toList == "false".toList) = false ∧
      integer? (toString n).toList = some (n : Int) := by
    decide +kernel
  obtain ⟨hne, hrun, htrue, hfalse, hinteger⟩ := hall n.toNat n.toNat_lt
  refine writes_scalar hne (List.all_eq_true.1 hrun) fun s rest hs => ?_
  rw [scalar?, hs]
  simp only [htrue, hfalse, hinteger]
  rfl

/-- A name, how its value is written, and the value. -/
structure Entry where
  name : String
  text : List Char
  value : Value

/-- An entry that can stand in a line. -/
structure Entry.Readable (e : Entry) : Prop where
  name : IsBare e.name
  text : Writes e.text e.value

/-- An entry whose name is made of the right characters can. -/
theorem Entry.Readable.of_all (hname : (!name.toList.isEmpty && name.toList.all isKeyChar) = true)
    (htext : Writes text v) : Entry.Readable ⟨name, text, v⟩ := by
  rw [Bool.and_eq_true, Bool.not_eq_true', List.isEmpty_eq_false_iff, List.all_eq_true] at hname
  exact ⟨⟨hname.1, hname.2⟩, htext⟩

/-- A line for each entry. -/
def lines (es : List Entry) : List Char := es.flatMap fun e => line e.name e.text

/-- Lines of entries are read as the statements that give the names their values. -/
theorem statements?_lines {es : List Entry} (h : ∀ e ∈ es, e.Readable) {fuel : Nat} (hfuel : es.length ≤ fuel) :
    statements? fuel (lines es) = some (es.map fun e => .pair ⟨[], e.name⟩ e.value) := by
  induction es generalizing fuel with
  | nil => cases fuel <;> rfl
  | cons e es ih =>
    rw [List.forall_mem_cons] at h
    obtain ⟨fuel, rfl⟩ := Nat.exists_eq_add_one.2 (Nat.zero_lt_of_lt hfuel)
    have hread := statement?_line h.1.name h.1.text (lines es)
    have hlines : lines (e :: es) = line e.name e.text ++ lines es := List.flatMap_cons
    obtain ⟨c, cs, hname, hc⟩ := h.1.name.exists_cons
    obtain ⟨t, ht⟩ : ∃ t, line e.name e.text ++ lines es = c :: t := by
      rw [line, hname]
      exact ⟨_, rfl⟩
    rw [hlines]
    rw [ht] at hread ⊢
    -- A line that begins with a name is no empty line.
    have hhash : c ≠ '#' := ne_of_class hc (by decide)
    have hnewline : c ≠ '\n' := ne_of_class hc (by decide)
    have hreturn : c ≠ '\r' := ne_of_class hc (by decide)
    have hend : lineEnd? (c :: t) = none := by
      rw [lineEnd?, skipBlanks_of_isKeyChar hc, skipComment.eq_2 _ (fun _ h => hhash (List.cons.inj h).1)]
      simp [newline?, hnewline, hreturn]
    rw [statements?.eq_3 _ _ (List.cons_ne_nil c t)]
    simp only [hend, skipBlanks_of_isKeyChar hc, hread, ih h.2 (Nat.le_of_succ_le_succ hfuel)]
    rfl

/-! ## Tables -/

/-- A name that a table does not have is added behind the others. -/
theorem Table.addPair_header {t : Table} (h : name ∉ t.map Prod.fst) (v : Value) :
    t.addPair .header ⟨[], name⟩ v = some (t ++ [(name, v)]) := by
  have hlookup : t.lookup name = none := by
    rw [List.lookup_eq_none_iff]
    intro p hp
    rw [bne_iff_ne]
    rintro rfl
    exact h (List.mem_map_of_mem hp)
  simp [addPair, update, hlookup]

/-- Names that are all different are added one behind the other. -/
theorem Table.ofStatements?_pairs {es : List Entry} (hnames : (es.map Entry.name).Nodup) :
    Table.ofStatements? (es.map fun e => .pair ⟨[], e.name⟩ e.value) =
      some (es.map fun e => (e.name, e.value)) := by
  have hadds (t : Table) (h : (t.map Prod.fst ++ es.map Entry.name).Nodup) :
      (es.map fun e => Statement.pair ⟨[], e.name⟩ e.value).foldlM Progress.carryOut ⟨t, []⟩ =
        some ⟨t ++ es.map fun e => (e.name, e.value), []⟩ := by
    clear hnames
    induction es generalizing t with
    | nil => simp
    | cons e es ih =>
      have hnew : e.name ∉ t.map Prod.fst := fun ht =>
        (List.nodup_append.1 h).2.2 _ ht e.name (by simp) rfl
      have hcarry : Progress.carryOut ⟨t, []⟩ (.pair ⟨[], e.name⟩ e.value) =
          some ⟨t ++ [(e.name, e.value)], []⟩ := by
        simp [Progress.carryOut, update, Table.addPair_header hnew]
      rw [List.map_cons, List.foldlM_cons, hcarry]
      have hrest := ih (t ++ [(e.name, e.value)]) (by simpa using h)
      simpa using hrest
  rw [ofStatements?, hadds [] (by simpa using hnames)]
  simp

/-- A document of one line for each name is read as the table of the names and values. -/
theorem Table.ofText?_lines {es : List Entry} (h : ∀ e ∈ es, e.Readable) (hnames : (es.map Entry.name).Nodup) :
    Table.ofText? (String.ofList (lines es)) = some (es.map fun e => (e.name, e.value)) := by
  have hlength : es.length ≤ (lines es).length := by
    clear h hnames
    induction es with
    | nil => exact Nat.le_refl 0
    | cons e es ih =>
      rw [lines, List.flatMap_cons, List.length_append, ← lines]
      have hline : 0 < (line e.name e.text).length := by
        simp only [line, List.length_append, List.length_cons]
        omega
      rw [List.length_cons]
      omega
  -- A name does not begin with a byte order mark.
  have hmark : ∀ rest, lines es = '\ufeff' :: rest → False := by
    intro rest hrest
    cases es with
    | nil => cases hrest
    | cons e es =>
      obtain ⟨c, cs, hname, hc⟩ := (h e List.mem_cons_self).name.exists_cons
      rw [lines, List.flatMap_cons, line, hname] at hrest
      exact ne_of_class hc (by decide) (List.cons.inj hrest).1
  rw [ofText?, String.toList_ofList]
  split
  · rename_i rest hrest
    exact (hmark rest hrest).elim
  · rw [statements?_lines h hlength, Option.bind_some, ofStatements?_pairs hnames]

end ShellWords.Toml

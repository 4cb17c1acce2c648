import Mathlib.Data.Char
import Mathlib.Data.List.DropRight
import Mathlib.Data.List.Lex
import ArincEmulator.Lib.Fields
import ArincEmulator.Lib.Multimap

/- The property file. Its lines are trimmed, blank lines and comments are passed over,
   and any other line has a key and a value on the two sides of an equals sign; a line
   that has not makes the module manager throw.

   A comment is found with `find_first_of`, which looks for one of the characters it is
   given and not for all of them, so every line that begins with a slash is passed
   over.

   What is proved, for any contents (`property_file_iff`): the pairs of the lines that
   are neither blank nor comments are what is read, and it throws when one of these
   lines has not two fields, just when no line begins with a single slash, or when it
   throws because of another line. -/
namespace Arinc.PropertyFile
open Fields

/-- `std::string`. -/
abbrev Text := List Char

/-- `PropertyMap`. -/
abbrev PropertyMap := Multimap Text Text

/-- The characters that are trimmed; the literal ends at its NUL. -/
def blanks : Text := [' ', '\t', '\r', '\n']

/-- One of the characters in a string. -/
def isOneOf (chars : Text) (c : Char) : Bool := decide (c ∈ chars)

theorem isOneOf_iff {chars : Text} {c : Char} : isOneOf chars c = true ↔ c ∈ chars :=
  decide_eq_true_iff

/-- What is left of a string from its first character on that is none of `chars`, which
    is where `find_first_not_of` stops; nothing for `npos`. -/
def fromFirstNotOf (rest chars : Text) : Text := rest.dropWhile (isOneOf chars)

/-- The same for `find_first_of`. -/
def fromFirstOf (rest chars : Text) : Text := rest.dropWhile (!isOneOf chars ·)

/-- `find_first_of`, from the start. -/
def findFirstOf (str chars : Text) : Option Nat := str.findIdx? (isOneOf chars)

/-- `stringTrim`, which erases what is behind the last character that is none of
    `delims`, and then what is before the first. -/
def stringTrim (str delims : Text) : Text := fromFirstNotOf (str.rdropWhile (isOneOf delims)) delims

theorem length_next_lt {lastPos : Text} (h : lastPos ≠ []) (delimiters : Text) :
    (fromFirstNotOf (fromFirstOf lastPos delimiters) delimiters).length < lastPos.length :=
  length_behind_lt h

/-- The loop of `stringTokenize`. A position is what is left of the string from there. -/
def stringTokenizeFrom (delimiters lastPos : Text) : List Text :=
  if lastPos = [] then []
  else
    let pos := fromFirstOf lastPos delimiters
    let substring := lastPos.take (lastPos.length - pos.length)
    stringTrim substring blanks :: stringTokenizeFrom delimiters (fromFirstNotOf pos delimiters)
termination_by lastPos.length
decreasing_by exact length_next_lt (by assumption) delimiters

/-- `stringTokenize`. -/
def stringTokenize (str delimiters : Text) : List Text :=
  stringTokenizeFrom delimiters (fromFirstNotOf str delimiters)

/-- The body of the loop over the lines; what is thrown is -1. -/
def readLine (map : PropertyMap) (line : Text) : Except Int PropertyMap :=
  let line := stringTrim line blanks
  if line = [] then .ok map
  else if findFirstOf line ['/', '/'] = some 0 then .ok map
  else
    match stringTokenize line ['='] with
    | [key, value] => .ok (map.insert key value)
    | _ => .error (-1)

/-- `INIT_PARTITION_PROPERTY_MAP`. `getline` ends a line at a newline, and the last one,
    which may be empty, at the end of the file. -/
def initPartitionPropertyMap (map : PropertyMap) (contents : Text) : Except Int PropertyMap :=
  (contents.splitOn '\n').foldlM readLine map

/-! ## What is to be read -/

/-- The fields of a line, trimmed. -/
def lineFields (line : Text) : List Text :=
  (fields (· == '=') line).map fun field => stringTrim field blanks

/-- The key and the value of a line that has two fields. -/
def pair (line : Text) : Option (Text × Text) :=
  match lineFields line with
  | [key, value] => some (key, value)
  | _ => none

/-- The lines that are neither blank nor comments, trimmed. -/
def propertyLines (contents : Text) : List Text :=
  ((contents.splitOn '\n').map fun line => stringTrim line blanks).filter
    fun line => decide (line ≠ [] ∧ ¬ ['/', '/'] <+: line)

/-- A result that is right for some property lines. -/
structure Reads (lines : List Text) (result : Except Int PropertyMap) : Prop where
  holds : ∀ map, result = .ok map → map.Holds (lines.filterMap pair)
  throws : (∃ error, result = .error error) ↔ ∃ line ∈ lines, (lineFields line).length ≠ 2

/-! ## Strings -/

theorem fromFirstNotOf_head {rest chars : Text} {c : Char}
    (hc : c ∈ (fromFirstNotOf rest chars).head?) : c ∉ chars := by
  have hnot := List.head?_dropWhile_not (isOneOf chars) rest
  rw [show (rest.dropWhile (isOneOf chars)).head? = some c from hc] at hnot
  exact of_decide_eq_false hnot

/-- Trimming takes blanks away from both ends, and leaves none there. -/
theorem stringTrim_spec (str delims : Text) :
    ∃ before after, str = before ++ stringTrim str delims ++ after ∧
      (∀ c ∈ before ++ after, c ∈ delims) ∧
      (∀ c ∈ (stringTrim str delims).head?, c ∉ delims) ∧
      ∀ c ∈ (stringTrim str delims).getLast?, c ∉ delims := by
  have hsplit : (str.rdropWhile (isOneOf delims)).takeWhile (isOneOf delims) ++
      stringTrim str delims = str.rdropWhile (isOneOf delims) := List.takeWhile_append_dropWhile
  refine ⟨(str.rdropWhile (isOneOf delims)).takeWhile (isOneOf delims),
    str.rtakeWhile (isOneOf delims), ?_, ?_, fun c hc => fromFirstNotOf_head hc, ?_⟩
  · rw [hsplit]
    exact List.rdropWhile_append_rtakeWhile.symm
  · intro c hc
    obtain hc | hc := List.mem_append.mp hc
    · exact isOneOf_iff.mp (List.mem_takeWhile_imp hc)
    · exact isOneOf_iff.mp (List.mem_rtakeWhile_imp hc)
  · intro c hc
    have hlast : (str.rdropWhile (isOneOf delims)).getLast? = some c := by
      rw [← hsplit, List.getLast?_append, Option.mem_def.mp hc]
      rfl
    have hne : str.rdropWhile (isOneOf delims) ≠ [] := by
      intro hnil
      rw [hnil] at hlast
      cases hlast
    have hnot := List.rdropWhile_last_not (isOneOf delims) str hne
    rw [List.getLast?_eq_some_getLast hne] at hlast
    rw [Option.some.inj hlast] at hnot
    exact of_decide_eq_false (Bool.eq_false_iff.mpr hnot)

/-- The loop finds the fields: it stands at the beginning of one, or at the end. -/
theorem stringTokenizeFrom_eq {delimiters lastPos : Text}
    (h : ∀ c ∈ lastPos.head?, c ∉ delimiters) :
    stringTokenizeFrom delimiters lastPos =
      (fields (isOneOf delimiters) lastPos).map (stringTrim · blanks) := by
  induction lastPos using stringTokenizeFrom.induct delimiters with
  | case1 => rw [stringTokenizeFrom, if_pos rfl, fields_nil, List.map_nil]
  | case2 lastPos hne pos ih =>
    obtain ⟨c, rest, rfl⟩ := List.exists_cons_of_ne_nil hne
    have hc : isOneOf delimiters c = false := decide_eq_false (h c rfl)
    have hsubstring : (c :: rest).take ((c :: rest).length - pos.length) =
        (c :: rest).takeWhile (!isOneOf delimiters ·) := take_sub_length_dropWhile _ _
    have hrest : fields (isOneOf delimiters) (fromFirstNotOf pos delimiters) =
        fields (isOneOf delimiters) pos := fields_skip pos
    have hbehind := ih fun d hd => fromFirstNotOf_head hd
    rw [hrest] at hbehind
    rw [stringTokenizeFrom, if_neg hne, fields_of_ne_nil hc, List.map_cons, ← hsubstring]
    exact congrArg (stringTrim _ blanks :: ·) hbehind

theorem stringTokenize_fields (str delimiters : Text) :
    stringTokenize str delimiters =
      (fields (isOneOf delimiters) str).map (stringTrim · blanks) := by
  rw [stringTokenize, stringTokenizeFrom_eq fun d hd => fromFirstNotOf_head hd, fromFirstNotOf,
    fields_skip]

theorem stringTokenize_eq (line : Text) : stringTokenize line ['='] = lineFields line := by
  have hequals : isOneOf ['='] = (· == '=') := by
    funext c
    simp only [isOneOf, List.mem_singleton]
    rfl
  rw [stringTokenize_fields, hequals, lineFields]

theorem findFirstOf_slash {line : Text} :
    findFirstOf line ['/', '/'] = some 0 ↔ line.head? = some '/' := by
  cases line with
  | nil => simp [findFirstOf]
  | cons c line => simp [findFirstOf, isOneOf, List.findIdx?_cons]

/-! ## The loop over the lines -/

/-- The lines that are read: those that are not blank and do not begin with a slash. -/
def linesRead (lines : List Text) : List Text :=
  (lines.map fun line => stringTrim line blanks).filter
    fun line => decide (line ≠ [] ∧ line.head? ≠ some '/')

theorem pair_eq_none_iff {line : Text} : pair line = none ↔ (lineFields line).length ≠ 2 := by
  unfold pair
  split
  · rename_i key value heq
    simp [heq]
  · rename_i hnot
    refine iff_of_true rfl fun hlength => ?_
    obtain ⟨key, value, heq⟩ := List.length_eq_two.mp hlength
    exact hnot key value heq

theorem readLine_skips {line : Text}
    (h : stringTrim line blanks = [] ∨ (stringTrim line blanks).head? = some '/')
    (map : PropertyMap) : readLine map line = .ok map := by
  unfold readLine
  simp only
  by_cases hblank : stringTrim line blanks = []
  · rw [if_pos hblank]
  · rw [if_neg hblank, if_pos (findFirstOf_slash.mpr (h.resolve_left hblank))]

theorem readLine_reads {line : Text} (hblank : stringTrim line blanks ≠ [])
    (hslash : (stringTrim line blanks).head? ≠ some '/') (map : PropertyMap) :
    readLine map line = (pair (stringTrim line blanks)).elim (.error (-1))
      fun e => .ok (map.insert e.1 e.2) := by
  unfold readLine pair
  simp only
  rw [if_neg hblank, if_neg (findFirstOf_slash.not.mpr hslash), stringTokenize_eq]
  split
  · rfl
  · rfl

theorem foldlM_readLine (lines : List Text) (map : PropertyMap) :
    lines.foldlM readLine map =
      if ∀ line ∈ linesRead lines, pair line ≠ none then
        .ok (map.insertAll ((linesRead lines).filterMap pair))
      else .error (-1) := by
  -- A line is blank or a comment and skipped, or it is a pair, or it ends the reading.
  induction lines generalizing map with
  | nil => rfl
  | cons line lines ih =>
    rw [List.foldlM_cons]
    by_cases hread : stringTrim line blanks ≠ [] ∧ (stringTrim line blanks).head? ≠ some '/'
    · have hcons : linesRead (line :: lines) = stringTrim line blanks :: linesRead lines := by
        rw [linesRead, List.map_cons, List.filter_cons_of_pos (by simpa using hread)]
        rfl
      rw [readLine_reads hread.1 hread.2, hcons]
      cases hpair : pair (stringTrim line blanks) with
      | none =>
        rw [if_neg fun hall => hall _ List.mem_cons_self hpair]
        rfl
      | some e =>
        rw [List.filterMap_cons_some hpair, Multimap.insertAll_cons]
        refine (ih _).trans ?_
        simp only [List.forall_mem_cons, hpair, ne_eq, reduceCtorEq, not_false_eq_true, true_and]
    · have hcons : linesRead (line :: lines) = linesRead lines := by
        rw [linesRead, List.map_cons, List.filter_cons_of_neg (by simpa using hread)]
        rfl
      have hskips : stringTrim line blanks = [] ∨ (stringTrim line blanks).head? = some '/' := by
        simpa [Classical.or_iff_not_imp_left] using hread
      rw [readLine_skips hskips, hcons]
      exact ih map

/-! ## The file -/

/-- The lines that are read are the property lines that do not begin with a slash. -/
theorem linesRead_splitOn (contents : Text) :
    linesRead (contents.splitOn '\n') =
      (propertyLines contents).filter fun line => decide (line.head? ≠ some '/') := by
  unfold linesRead propertyLines
  rw [List.filter_filter]
  apply List.filter_congr
  intro line _
  rw [← Bool.decide_and, decide_eq_decide]
  constructor
  · rintro ⟨hblank, hslash⟩
    refine ⟨hslash, hblank, ?_⟩
    rintro ⟨rest, rfl⟩
    exact hslash rfl
  · rintro ⟨hslash, hblank, -⟩
    exact ⟨hblank, hslash⟩

/-- No line but a comment begins with a slash. -/
def NoSingleSlash (contents : Text) : Prop :=
  ∀ line ∈ propertyLines contents, line.head? ≠ some '/'

/-- A line that does not begin with a slash has not two fields. -/
def Malformed (contents : Text) : Prop :=
  ∃ line ∈ propertyLines contents, line.head? ≠ some '/' ∧ (lineFields line).length ≠ 2

theorem initPartitionPropertyMap_cases (contents : Text) :
    (Malformed contents ∧
        initPartitionPropertyMap Multimap.empty contents = .error (-1)) ∨
      (∀ line ∈ linesRead (contents.splitOn '\n'), pair line ≠ none) ∧
        initPartitionPropertyMap Multimap.empty contents =
          .ok (Multimap.empty.insertAll ((linesRead (contents.splitOn '\n')).filterMap pair)) := by
  rw [initPartitionPropertyMap, foldlM_readLine]
  by_cases hall : ∀ line ∈ linesRead (contents.splitOn '\n'), pair line ≠ none
  · exact Or.inr ⟨hall, if_pos hall⟩
  · refine Or.inl ⟨?_, if_neg hall⟩
    push Not at hall
    obtain ⟨line, hline, hnone⟩ := hall
    rw [linesRead_splitOn, List.mem_filter] at hline
    exact ⟨line, hline.1, of_decide_eq_true hline.2, pair_eq_none_iff.mp hnone⟩

/-- **The property file.** The pairs of the property lines are read, and it throws when
    one of them has not two fields, just when none of them begins with a slash, or one
    that does not has not two fields. -/
theorem property_file_iff (contents : Text) :
    Reads (propertyLines contents) (initPartitionPropertyMap Multimap.empty contents) ↔
      NoSingleSlash contents ∨ Malformed contents := by
  obtain ⟨hmalformed, hresult⟩ | ⟨hall, hresult⟩ := initPartitionPropertyMap_cases contents
  · obtain ⟨line, hline, -, hfields⟩ := id hmalformed
    rw [hresult]
    refine iff_of_true ⟨(fun map hok => by cases hok), ?_⟩ (Or.inr hmalformed)
    exact iff_of_true ⟨-1, rfl⟩ ⟨line, hline, hfields⟩
  have hwell : ¬ Malformed contents := by
    rintro ⟨line, hline, hslash, hfields⟩
    refine hall line ?_ (pair_eq_none_iff.mpr hfields)
    rw [linesRead_splitOn, List.mem_filter]
    exact ⟨hline, decide_eq_true hslash⟩
  have hheld := Multimap.holds_insertAll ((linesRead (contents.splitOn '\n')).filterMap pair)
  rw [hresult, or_iff_left hwell]
  constructor
  · intro hreads
    have hpairs : ∀ line ∈ propertyLines contents, pair line ≠ none := by
      intro line hline hnone
      obtain ⟨error, herror⟩ := hreads.throws.mpr ⟨line, hline, pair_eq_none_iff.mp hnone⟩
      cases herror
    -- as many entries as lines read, and as many as property lines
    have hcount := (hheld.1.symm.trans (hreads.holds _ rfl).1).length_eq
    have hsome {lines : List Text} (h : ∀ line ∈ lines, pair line ≠ none) :
        (lines.filterMap pair).length = lines.length :=
      List.filterMap_length_eq_length.mpr fun line hline => Option.isSome_iff_ne_none.mpr (h line hline)
    rw [hsome hall, hsome hpairs, linesRead_splitOn, List.length_filter_eq_length_iff] at hcount
    exact fun line hline => of_decide_eq_true (hcount line hline)
  · intro hnone
    have hsame : linesRead (contents.splitOn '\n') = propertyLines contents := by
      rw [linesRead_splitOn]
      exact List.filter_eq_self.mpr fun line hline => decide_eq_true (hnone line hline)
    rw [hsame] at hheld hall ⊢
    refine ⟨fun map hok => ?_, iff_of_false (fun ⟨error, herror⟩ => by cases herror) ?_⟩
    · rw [← Except.ok.inj hok]
      exact hheld
    · rintro ⟨line, hline, hfields⟩
      exact hall line hline (pair_eq_none_iff.mpr hfields)

/-- A line with a key that begins with a slash is taken for a comment. -/
theorem single_slash_not_read :
    initPartitionPropertyMap Multimap.empty ['/', 'a', '=', 'b'] = .ok Multimap.empty ∧
      propertyLines ['/', 'a', '=', 'b'] = [['/', 'a', '=', 'b']] ∧
      pair ['/', 'a', '=', 'b'] = some (['/', 'a'], ['b']) ∧
      ¬ Reads (propertyLines ['/', 'a', '=', 'b'])
        (initPartitionPropertyMap Multimap.empty ['/', 'a', '=', 'b']) := by
  have hresult : initPartitionPropertyMap Multimap.empty ['/', 'a', '=', 'b'] =
      .ok Multimap.empty := rfl
  refine ⟨hresult, by decide, by decide, fun hreads => ?_⟩
  have hcount := (hreads.holds _ hresult).1.length_eq
  exact absurd hcount (by decide)

end Arinc.PropertyFile

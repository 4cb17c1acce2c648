import ArincEmulator.Logger
import ArincEmulator.LogParser

/- From the logger to the log parser: a line as `LOGGER` writes it, and what the parser
   finds in it. The time is whatever `%0.9Lf` prints, the name of the partition is without
   a bar, and nothing has a line break in it.

   What is proved: a dump is cut into the events of the calls, in order, just when there
   were fewer calls than slots. From then on it begins with the warning, also when nothing
   is lost yet, and the parser raises at it (`dump_parsed_iff`). -/
namespace Arinc.Logger
open Strings

/-- The time of a call, as it is printed. -/
def Call.sec : Call → Text
  | .logger _ sec _ => sec
  | .loggerIdent _ _ sec _ => sec

/-- What is written behind the tag. -/
def Call.description : Call → Text
  | .logger _ _ message => message
  | .loggerIdent name _ _ message => ['[', 'F', 'r', 'o', 'm', ' '] ++ name ++ [']'] ++ message

/-- The entry without the line break. -/
def Call.line (source : Source) (c : Call) : Text := c.heading source ++ c.message

/-- What `myfile` has in it. -/
def LogFile.text (file : LogFile) : Text :=
  (file.warning.elim [] fun warning => warning ++ ['\n']) ++ file.entries.flatten

/-- What `%0.9Lf` prints for a time. -/
def Seconds (sec : Text) : Prop :=
  ∃ whole fraction : Text, sec = whole ++ '.' :: fraction ∧ whole ≠ [] ∧ fraction.length = 9 ∧
    ∀ c ∈ whole ++ fraction, c.isDigit = true

/-- A call of a process whose line keeps to the format. -/
structure Printable (source : Source) (c : Call) : Prop where
  seconds : Seconds c.sec
  bar : '|' ∉ source.partitionName
  nameLine : '\n' ∉ source.partitionName
  textLine : '\n' ∉ c.description

theorem Call.entry_eq (source : Source) (c : Call) : c.entry source = c.line source ++ ['\n'] := rfl

theorem Call.line_eq (source : Source) (c : Call) :
    c.line source = Nat.toDigits 10 source.pidData ++ ':' :: (source.partitionName ++
      '|' :: (c.sec ++ '|' :: (c.level.tag ++ '|' :: c.description))) := by
  cases c with
  | logger level sec message =>
    simp [line, heading, Logger.heading, Call.message, Call.sec, Call.level, description]
  | loggerIdent name level sec message =>
    simp [line, heading, Logger.heading, Call.message, Call.sec, Call.level, description]

theorem LogLevel.not_mem_tag {c : Char} (hc : c.isUpper = false) (level : LogLevel) :
    c ∉ level.tag := by
  have hupper : ∀ d ∈ level.tag, d.isUpper = true := by
    cases level
    all_goals exact List.all_iff_forall_prop.mp (by decide)
  intro hmem
  rw [hupper c hmem] at hc
  cases hc

theorem not_mem_toDigits {c : Char} (hc : c.isDigit = false) (n : Nat) :
    c ∉ Nat.toDigits 10 n := by
  intro hmem
  rw [Nat.isDigit_of_mem_toDigits (by decide) (by decide) hmem] at hc
  cases hc

theorem Seconds.not_mem {sec : Text} (h : Seconds sec) {c : Char} (hc : c.isDigit = false)
    (hpoint : c ≠ '.') : c ∉ sec := by
  obtain ⟨whole, fraction, rfl, -, -, hdigits⟩ := h
  intro hmem
  have hparts : c ∈ whole ++ fraction := by
    simp only [List.mem_append, List.mem_cons] at hmem ⊢
    tauto
  rw [hdigits c hparts] at hc
  cases hc

theorem Printable.newline_not_mem {source : Source} {c : Call} (h : Printable source c) :
    '\n' ∉ c.line source := by
  have hpid := not_mem_toDigits (c := '\n') (by decide) source.pidData
  have hsec := h.seconds.not_mem (c := '\n') (by decide) (by decide)
  have htag := LogLevel.not_mem_tag (c := '\n') (by decide) c.level
  have hname := h.nameLine
  have htext := h.textLine
  rw [Call.line_eq]
  simp only [List.mem_append, List.mem_cons]
  have hcolon : '\n' ≠ ':' := by decide
  have hbar : '\n' ≠ '|' := by decide
  tauto

/-! ## The dump -/

section dump

variable {source : Source} {level : Int} {entries : Text} {memory : Nat → Text} {calls : List Call}
  {s : State} {file : LogFile}

theorem mirrors_of_run (hmax : 1 < atol entries)
    (hrun : run source (logInit (start level) (some entries) memory) calls = some s) :
    Mirrors (atol entries).toNat s
      (CircularLog.after (slots (atol entries).toNat) memory (calls.map (Call.entry source))) := by
  have hinit : Mirrors (atol entries).toNat (logInit (start level) (some entries) memory)
      (CircularLog.empty memory) := by
    have heq : logInit (start level) (some entries) memory =
        { start level with maxLogEntries := (atol entries).toNat, logBuffer := some memory } :=
      if_pos hmax
    rw [heq]
    exact ⟨rfl, rfl, rfl, rfl⟩
  have hslots : 0 < slots (atol entries).toNat := by
    unfold slots
    omega
  obtain ⟨s', hrun', hmirrors⟩ :=
    run_mirrors (by omega) source hinit hslots (fits_of_run hrun)
  obtain rfl : s' = s := Option.some.inj (hrun'.symm.trans hrun)
  exact hmirrors

theorem warning_log2File {opened : Bool} (hfile : log2File s opened = some file) :
    file.warning = if s.logOverflow then some overflowWarning else none := by
  unfold log2File at hfile
  split at hfile
  · cases hfile
  · split at hfile
    · cases hfile
    · split at hfile
      · cases hfile
      · obtain rfl := Option.some.inj hfile
        rfl

/-- The warning is there as soon as the last slot is written. -/
theorem warning_of_run (hmax : 1 < atol entries) (hshort : (atol entries).toNat < 2 ^ 32)
    (hrun : run source (logInit (start level) (some entries) memory) calls = some s)
    (hfile : log2File s true = some file) :
    file.warning = if (atol entries).toNat ≤ calls.length then some overflowWarning else none := by
  have hmirrors := mirrors_of_run hmax hrun
  have hslots : slots (atol entries).toNat = (atol entries).toNat :=
    Nat.min_eq_left (Nat.le_of_lt hshort)
  have hretains := CircularLog.retains_after (n := (atol entries).toNat) (by omega) memory
    (calls.map (Call.entry source))
  rw [hslots] at hmirrors
  have hoverflow : s.logOverflow = decide ((atol entries).toNat ≤ calls.length) := by
    rw [hmirrors.overflow, hretains.full, List.length_map, decide_eq_true hshort, Bool.and_true]
  rw [warning_log2File hfile, hoverflow]
  simp only [decide_eq_true_eq]

theorem entries_of_run (hmax : 1 < atol entries) (hshort : (atol entries).toNat < 2 ^ 32)
    (hrun : run source (logInit (start level) (some entries) memory) calls = some s)
    (hfile : log2File s true = some file) (hfew : calls.length < (atol entries).toNat) :
    file.entries = calls.map (Call.entry source) := by
  obtain ⟨s', file', hrun', hfile', hentries⟩ :=
    (dumpsLast_of_fits source level entries hmax memory (fits_of_run hrun)).mpr
      ⟨Or.inr hshort, Or.inl (Nat.le_of_lt hfew)⟩
  obtain rfl : s' = s := Option.some.inj (hrun'.symm.trans hrun)
  obtain rfl : file' = file := Option.some.inj (hfile'.symm.trans hfile)
  rw [hentries, lastEntries, Nat.sub_eq_zero_of_le (Nat.le_of_lt hfew), List.drop_zero]

end dump

end Arinc.Logger

namespace Arinc.LogParser
open Strings Logger

/-! ## The line -/

/-- The event of a call, before it has its identifiers. The description ends at a bar. -/
def eventOf (source : Source) (c : Call) : LogEvent :=
  LogEvent.describe ⟨c.line source, strip isspace source.partitionName, c.level.tag,
    strip isspace (c.description.takeWhile (· != '|')), 1, [], [], [], -1, -1, -1⟩

theorem content_line (source : Source) (c : Call) :
    content (c.line source) =
      source.partitionName ++ '|' :: (c.sec ++ '|' :: (c.level.tag ++ '|' :: c.description)) := by
  rw [content, Call.line_eq]
  exact drop_find_append (not_mem_toDigits (by decide) _) _

theorem isDigit_of_isspace {c : Char} (h : isspace c = true) : c.isDigit = false := by
  unfold isspace at h
  unfold Char.isDigit
  have hcode : c.toNat < 48 := by
    obtain heq | hcode := Bool.or_eq_true_iff.mp h
    · obtain rfl := beq_iff_eq.mp heq
      decide
    · have hcode := of_decide_eq_true hcode
      omega
  have hlow : ¬ '0'.val ≤ c.val := by
    rw [UInt32.le_iff_toNat_le]
    exact Nat.not_le.mpr hcode
  rw [decide_eq_false hlow, Bool.false_and]

theorem atof_of_seconds {sec : Text} (h : Seconds sec) : atof sec = true := by
  -- Seconds have neither blanks nor a sign, so the number is cut at its point.
  have hstrip : strip isspace sec = sec := by
    apply strip_eq_self
    intro c hc
    by_contra hnot
    have hspace : isspace c = true := Bool.not_eq_false _ |>.mp hnot
    refine h.not_mem (isDigit_of_isspace hspace) ?_ hc
    rintro rfl
    cases hspace
  obtain ⟨whole, fraction, heq, hwhole, hlength, hdigits⟩ := h
  have hdigits := List.forall_mem_append.mp hdigits
  have hbefore : sec.takeWhile Char.isDigit = whole := by
    rw [heq, List.takeWhile_append_of_pos hdigits.1]
    exact List.append_nil whole
  have hbehind : sec.dropWhile Char.isDigit = '.' :: fraction := by
    rw [heq, List.dropWhile_append_of_pos hdigits.1]
    rfl
  have hfraction : fraction.dropWhile Char.isDigit = [] :=
    List.dropWhile_eq_nil_iff.mpr hdigits.2
  have hsign : unsigned sec = sec := by
    obtain ⟨c, rest, rfl⟩ := List.exists_cons_of_ne_nil hwhole
    have hc := hdigits.1 c List.mem_cons_self
    rw [heq]
    unfold unsigned
    split
    · rename_i hcons
      obtain rfl := (List.cons.inj hcons).1
      cases hc
    · rename_i hcons
      obtain rfl := (List.cons.inj hcons).1
      cases hc
    · rfl
  have hdecimal : isDecimal sec = true := by
    unfold isDecimal
    rw [hbefore, hbehind]
    simp only
    rw [hfraction]
    simp [hwhole, isExponent]
  unfold atof
  rw [hstrip, hsign]
  simp only
  rw [hdecimal, Bool.true_or]

theorem parse_line {source : Source} {c : Call} (h : Printable source c) :
    LogEvent.parse (c.line source) = some (eventOf source c) := by
  have hsec := h.seconds.not_mem (c := '|') (by decide) (by decide)
  have htag := LogLevel.not_mem_tag (c := '|') (by decide) c.level
  obtain ⟨rest, hdescription⟩ := splitOn_eq_takeWhile '|' c.description
  have hfields : (content (c.line source)).splitOn '|' =
      source.partitionName :: c.sec :: c.level.tag ::
        c.description.takeWhile (· != '|') :: rest := by
    rw [content_line, List.splitOn_append_cons_self_of_not_mem h.bar,
      List.splitOn_append_cons_self_of_not_mem hsec, List.splitOn_append_cons_self_of_not_mem htag,
      hdescription]
  have hstrip : strip isspace c.level.tag = c.level.tag := by
    cases c.level
    all_goals rfl
  unfold LogEvent.parse
  rw [hfields]
  simp only
  rw [if_pos (atof_of_seconds h.seconds), hstrip]
  rfl

/-! ## The file -/

/-- The line is not ignored. -/
def kept (line : Text) : Bool := !checkForIgnoreProceses line

/-- The lines of calls, one behind the other. -/
def logText (calls : List (Source × Call)) : Text :=
  (calls.map fun call => call.2.entry call.1).flatten

/-- The calls whose lines are not ignored. -/
def keptCalls (calls : List (Source × Call)) : List (Source × Call) :=
  calls.filter fun call => kept (call.2.line call.1)

theorem logLines_cons {line : Text} (hline : '\n' ∉ line) (rest : Text) :
    logLines (line ++ '\n' :: rest) =
      (if !line.isEmpty && kept line then [line] else []) ++ logLines rest := by
  unfold logLines kept
  rw [List.splitOn_append_cons_self_of_not_mem hline, List.filter_cons]
  split
  · rfl
  · rfl

theorem logLines_logText {calls : List (Source × Call)}
    (hprint : ∀ call ∈ calls, Printable call.1 call.2) :
    logLines (logText calls) = (keptCalls calls).map fun call => call.2.line call.1 := by
  induction calls with
  | nil => rfl
  | cons call calls ih =>
    have hprint := List.forall_mem_cons.mp hprint
    have hne : (call.2.line call.1).isEmpty = false := by
      rw [Call.line_eq]
      simp
    have htext : logText (call :: calls) = call.2.line call.1 ++ '\n' :: logText calls := by
      rw [logText, List.map_cons, List.flatten_cons, Call.entry_eq, List.append_assoc]
      rfl
    rw [htext, logLines_cons hprint.1.newline_not_mem, ih hprint.2, hne]
    unfold keptCalls
    rw [List.filter_cons]
    cases kept (call.2.line call.1)
    · rfl
    · rfl

/-- Every line of the calls is cut into the event of its call. -/
theorem mapM_parse_logText {calls : List (Source × Call)}
    (hprint : ∀ call ∈ calls, Printable call.1 call.2) :
    (logLines (logText calls)).mapM LogEvent.parse =
      some ((keptCalls calls).map fun call => eventOf call.1 call.2) := by
  have hkept : ∀ call ∈ keptCalls calls, Printable call.1 call.2 := fun call hcall =>
    hprint call (List.mem_of_mem_filter hcall)
  rw [logLines_logText hprint]
  generalize keptCalls calls = lines at hkept
  induction lines with
  | nil => rfl
  | cons call rest ih =>
    have hkept := List.forall_mem_cons.mp hkept
    rw [List.map_cons, List.mapM_cons, parse_line hkept.1, ih hkept.2]
    rfl

theorem logLines_warning (rest : Text) :
    logLines (overflowWarning ++ '\n' :: rest) = overflowWarning :: logLines rest := by
  have hwarning : '\n' ∉ overflowWarning ∧
      (!overflowWarning.isEmpty && kept overflowWarning) = true := by decide +kernel
  rw [logLines_cons hwarning.1, if_pos hwarning.2]
  rfl

theorem parse_warning : LogEvent.parse overflowWarning = none := by decide +kernel

theorem text_of_warning {file : LogFile} (h : file.warning = some overflowWarning) :
    file.text = overflowWarning ++ '\n' :: file.entries.flatten := by
  rw [LogFile.text, h, Option.elim_some, List.append_assoc, List.singleton_append]

theorem readLines_warning (rest : List Text) : readLines (overflowWarning :: rest) = none := by
  have hinit : Parser.readLine Parser.start overflowWarning = none := by
    rw [Parser.readLine, Parser.processEvent, Parser.construct, LogEvent.init, parse_warning]
    rfl
  rw [readLines, Runs.run, hinit, Option.bind_none]

/-- **The log, written and read.** For every number of slots that `LOG_INIT` is given and
    every calls of a process with a run: the lines of the dump that are not ignored are
    cut into the events of the calls, in the order of the calls, just when there were
    fewer calls than slots. From then on the parser does not get beyond the first line. -/
theorem dump_parsed_iff (source : Source) (level : Int) (entries : Logger.Text)
    (hmax : 1 < atol entries) (hshort : (atol entries).toNat < 2 ^ 32)
    (memory : Nat → Logger.Text) (calls : List Call) (s : State) (file : LogFile)
    (hrun : Logger.run source (logInit (start level) (some entries) memory) calls = some s)
    (hfile : log2File s true = some file) (hprint : ∀ c ∈ calls, Printable source c) :
    ((logLines file.text).mapM LogEvent.parse =
        some ((keptCalls (calls.map (source, ·))).map fun call => eventOf call.1 call.2) ↔
      calls.length < (atol entries).toNat) ∧
    ((atol entries).toNat ≤ calls.length → parseLog file.text = none) := by
  have hwarning := warning_of_run hmax hshort hrun hfile
  obtain hfew | hmany := Nat.lt_or_ge calls.length (atol entries).toNat
  · refine ⟨iff_of_true ?_ hfew, fun hmany => absurd hfew (Nat.not_lt.mpr hmany)⟩
    rw [if_neg (Nat.not_le.mpr hfew)] at hwarning
    have htext : file.text = logText (calls.map (source, ·)) := by
      rw [LogFile.text, hwarning, entries_of_run hmax hshort hrun hfile hfew, logText,
        List.map_map]
      rfl
    rw [htext]
    apply mapM_parse_logText
    intro call hcall
    obtain ⟨c, hc, rfl⟩ := List.mem_map.mp hcall
    exact hprint c hc
  · rw [if_pos hmany] at hwarning
    rw [text_of_warning hwarning]
    refine ⟨iff_of_false (fun h => ?_) (Nat.not_lt.mpr hmany), fun _ => ?_⟩
    · rw [logLines_warning, List.mapM_cons, parse_warning] at h
      cases h
    · rw [parseLog, readLog, logLines_warning, readLines_warning, Option.map_none]

/-- A partition that says what it does, in a log of three slots. -/
def partition : Source := ⟨7, ['P']⟩

def tells (letter : Char) : Call :=
  .logger .trace ['1', '.', '5', '0', '0', '0', '0', '0', '0', '0', '0'] [letter]

theorem tells_printable (letter : Char) (h : letter ≠ '\n') : Printable partition (tells letter) where
  seconds := ⟨['1'], ['5', '0', '0', '0', '0', '0', '0', '0', '0'], rfl, List.cons_ne_nil _ _, rfl,
    List.all_iff_forall_prop.mp (by decide)⟩
  bar := by decide
  nameLine := by decide
  textLine := by
    intro hmem
    exact h (List.mem_singleton.mp hmem).symm

theorem dump_parsed_iff_partition :
    ∃ s file, Logger.run partition (logInit (start 0) (some ['3']) fun _ => [])
        [tells 'a', tells 'b'] = some s ∧ log2File s true = some file ∧
      (((logLines file.text).mapM LogEvent.parse =
          some ((keptCalls ([tells 'a', tells 'b'].map (partition, ·))).map fun call =>
            eventOf call.1 call.2) ↔ [tells 'a', tells 'b'].length < (atol ['3']).toNat) ∧
        ((atol ['3']).toNat ≤ [tells 'a', tells 'b'].length → parseLog file.text = none)) := by
  refine ⟨_, _, rfl, rfl, ?_⟩
  refine dump_parsed_iff partition 0 ['3'] (by decide) (by decide) (fun _ => [])
    [tells 'a', tells 'b'] _ _ rfl rfl ?_
  simp only [List.forall_mem_cons]
  exact ⟨tells_printable 'a' (by decide), tells_printable 'b' (by decide), List.forall_mem_nil _⟩

end Arinc.LogParser

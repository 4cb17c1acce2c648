import ArincEmulator.Lib.CircularLog

/- The logger's buffer. `LOGGER` formats a line on its stack and stores it in an array
   whose size `LOG_INIT` takes from the environment; the index of the next slot goes back
   to the first one at the end, and `log_overflow` says that it has. `LOG2FILE` writes
   the slots one after the other, from the first on, wherever the index stands.

   The index is an `unsigned int` and the size an `unsigned long`, so an array of 2^32
   slots or more is written round and round without being found full.

   What is proved, for every size and every list of calls (`dumpsLast_iff`): the last
   entries are in the file, in the order of the calls, just when every line fits its
   buffer, the index has not wrapped unnoticed, and the calls are no more than the slots,
   or the lines retained read the same when they are turned by the index. For lines that
   differ that takes a number of calls that is a multiple of the size
   (`dumpsLast_iff_dvd`). -/
namespace Arinc.Logger

/-- A C string. -/
abbrev Text := List Char

/-- `LOG_LEVEL`. -/
inductive LogLevel where
  | info
  | warning
  | debug
  | trace
  | hmevent
  | app
  | error
  | fatal
  | user
  deriving DecidableEq, Repr

/-- The value of a level. -/
def LogLevel.toInt : LogLevel → Int
  | .info => 0
  | .warning => 1
  | .debug => 2
  | .trace => 3
  | .hmevent => 4
  | .app => 5
  | .error => 6
  | .fatal => 7
  | .user => 8

/-- How a level is written. -/
def LogLevel.tag : LogLevel → Text
  | .info => ['I', 'N', 'F']
  | .warning => ['W', 'R', 'N']
  | .debug => ['D', 'E', 'B']
  | .trace => ['T', 'R', 'C']
  | .hmevent => ['H', 'M', 'E']
  | .app => ['A', 'P', 'P']
  | .error => ['E', 'R', 'R']
  | .fatal => ['F', 'T', 'L']
  | .user => ['U', 'S', 'R']

/-- `LOG_ENTRY_SIZE`. -/
def logEntrySize : Nat := 255

/-- What the first call finds out and keeps. -/
structure Source where
  pidData : Nat
  partitionName : Text
  deriving DecidableEq, Repr

/-- The static data of the logger, and what it has written to `std::cout`. -/
structure State where
  maxLogEntries : Nat
  logBuffer : Option (Nat → Text)
  logIndex : Nat
  logOverflow : Bool
  currentLoglevel : Int
  cout : List Text

/-- The logger before `LOG_INIT`. -/
def start (currentLoglevel : Int) : State := ⟨0, none, 0, false, currentLoglevel, []⟩

/-! ## LOG_INIT -/

/-- `isspace`. -/
def isspace (c : Char) : Bool := c == ' ' || decide (9 ≤ c.toNat ∧ c.toNat ≤ 13)

/-- The digits a string begins with, as a number. -/
def digits (s : Text) : Nat :=
  (s.takeWhile Char.isDigit).foldl (fun n c => 10 * n + (c.toNat - 48)) 0

/-- `atol`, which stops at the ends of a `long`. -/
def atol (s : Text) : Int :=
  match s.dropWhile isspace with
  | '-' :: s => max (-(digits s : Int)) (-2 ^ 63)
  | '+' :: s => min (digits s) (2 ^ 63 - 1)
  | s => min (digits s) (2 ^ 63 - 1)

/-- `LOG_INIT`, with `ACM_LOG_ENTRIES` where it is set, and what `malloc` returns. -/
def logInit (s : State) (entries : Option Text) (memory : Nat → Text) : State :=
  if s.logBuffer.isSome then s
  else
    match entries with
    | none => s
    | some entries =>
      if 1 < atol entries then
        { s with maxLogEntries := (atol entries).toNat, logBuffer := some memory }
      else s

/-! ## LOGGER -/

/-- `snprintf` into a buffer of `LOG_ENTRY_SIZE`: what does not fit is cut off. -/
def snprintf (text : Text) : Text := text.take (logEntrySize - 1)

/-- `strcat` onto such a buffer. It does not look for its end. -/
def strcat (buffer text : Text) : Option Text :=
  if (buffer ++ text).length < logEntrySize then some (buffer ++ text) else none

/-- The line that is made in `buffer2`. -/
def format (heading message : Text) : Option Text :=
  (strcat (snprintf heading) (snprintf message)).bind (strcat · ['\n'])

/-- The line into the next slot. -/
def store (s : State) (line : Text) : Option State :=
  match s.logBuffer with
  | none => some s
  | some buffer =>
    if ¬ 1 < s.maxLogEntries then some s
    -- behind the array
    else if s.maxLogEntries ≤ s.logIndex then none
    else
      let buffer := Function.update buffer s.logIndex line
      let logIndex := (s.logIndex + 1) % 2 ^ 32
      if s.maxLogEntries ≤ logIndex then
        some { s with logBuffer := some buffer, logIndex := 0, logOverflow := true }
      else some { s with logBuffer := some buffer, logIndex }

/-- The line to `std::cout`, from the level on that is configured. -/
def print (s : State) (level : LogLevel) (line : Text) : State :=
  if level.toInt < s.currentLoglevel then s else { s with cout := s.cout ++ [line] }

/-- What `LOGGER` and `LOGGER_IDENT` do when the heading is written. -/
def log (s : State) (level : LogLevel) (heading message : Text) : Option State :=
  (format heading message).bind fun line => (store s line).map (print · level line)

/-- `"%d:%s|%0.9Lf|INF|"`, with the time as it is printed. -/
def heading (source : Source) (level : LogLevel) (sec : Text) : Text :=
  Nat.toDigits 10 source.pidData ++ [':'] ++ source.partitionName ++ ['|'] ++ sec ++ ['|'] ++
    level.tag ++ ['|']

/-- `LOGGER`. -/
def logger (source : Source) (s : State) (level : LogLevel) (sec message : Text) :
    Option State :=
  log s level (heading source level sec) message

/-- `LOGGER_IDENT`. -/
def loggerIdent (source : Source) (s : State) (name : Text) (level : LogLevel)
    (sec message : Text) : Option State :=
  log s level (heading source level sec ++ ['[', 'F', 'r', 'o', 'm', ' '] ++ name ++ [']']) message

/-! ## LOG2FILE -/

/-- A log file: the warning where there is one, and the entries. -/
structure LogFile where
  warning : Option Text
  entries : List Text
  deriving DecidableEq, Repr

/-- " Warning : log_overflow occured" -/
def overflowWarning : Text := " Warning : log_overflow occured".toList

/-- `LOG2FILE`, when the file can be opened or not. -/
def log2File (s : State) (opened : Bool) : Option LogFile :=
  match s.logBuffer with
  | none => none
  | some buffer =>
    if s.maxLogEntries < 1 then none
    else if !opened then none
    else
      let numIterations := (if s.logOverflow then s.maxLogEntries else s.logIndex) % 2 ^ 32
      some ⟨if s.logOverflow then some overflowWarning else none,
        (List.range numIterations).map buffer⟩

/-! ## Calls -/

/-- A call. -/
inductive Call where
  | logger (level : LogLevel) (sec message : Text)
  | loggerIdent (name : Text) (level : LogLevel) (sec message : Text)
  deriving DecidableEq, Repr

/-- What it does. -/
def Call.run (source : Source) (s : State) : Call → Option State
  | .logger level sec message => Logger.logger source s level sec message
  | .loggerIdent name level sec message => Logger.loggerIdent source s name level sec message

/-- Its level. -/
def Call.level : Call → LogLevel
  | .logger level _ _ => level
  | .loggerIdent _ level _ _ => level

/-- What is written before its message. -/
def Call.heading (source : Source) : Call → Text
  | .logger level sec _ => Logger.heading source level sec
  | .loggerIdent name level sec _ =>
    Logger.heading source level sec ++ ['[', 'F', 'r', 'o', 'm', ' '] ++ name ++ [']']

/-- Its message. -/
def Call.message : Call → Text
  | .logger _ _ message => message
  | .loggerIdent _ _ _ message => message

/-- Its entry: the whole line, whether there is room for it or not. -/
def Call.entry (source : Source) (c : Call) : Text := c.heading source ++ c.message ++ ['\n']

/-- There is room for it. -/
def Call.Fits (source : Source) (c : Call) : Prop := (c.entry source).length < logEntrySize

instance (source : Source) : DecidablePred (Call.Fits source) := fun c =>
  inferInstanceAs (Decidable ((c.entry source).length < logEntrySize))

/-- The calls, one after the other. -/
def run (source : Source) (s : State) (calls : List Call) : Option State :=
  calls.foldlM (Call.run source) s

/-- The entries of the last calls, as many as there are slots. -/
def lastEntries (source : Source) (maxLogEntries : Nat) (calls : List Call) : List Text :=
  (calls.map (Call.entry source)).drop (calls.length - maxLogEntries)

/-- After `LOG_INIT` and the calls `LOG2FILE` writes the entries of the last calls, each
    once and in the order of the calls. -/
def DumpsLast (source : Source) (level : Int) (entries : Text) (memory : Nat → Text)
    (calls : List Call) : Prop :=
  ∃ s file, run source (logInit (start level) (some entries) memory) calls = some s ∧
    log2File s true = some file ∧
    file.entries = lastEntries source (atol entries).toNat calls

/-! ## The line -/

/-- A line that fits is whole; for any other there is no room on the stack. -/
theorem format_eq (heading message : Text) :
    format heading message =
      if (heading ++ message ++ ['\n']).length < logEntrySize then
        some (heading ++ message ++ ['\n'])
      else none := by
  unfold format snprintf strcat logEntrySize
  by_cases hfits : (heading ++ message ++ ['\n']).length < 255
  · have hlength := hfits
    simp only [List.length_append, List.length_singleton] at hlength
    rw [List.take_of_length_le (by omega), List.take_of_length_le (by omega),
      if_pos (by rw [List.length_append]; omega), Option.bind_some]
  · rw [if_neg hfits]
    simp only [List.length_append, List.length_singleton] at hfits
    split
    · -- the heading and the message fill the buffer
      rename_i hroom
      rw [Option.bind_some]
      apply if_neg
      simp only [List.length_append, List.length_take, List.length_singleton] at hroom ⊢
      omega
    · rfl

theorem Call.run_eq_bind (source : Source) (s : State) (c : Call) :
    c.run source s =
      (if (c.entry source).length < logEntrySize then some (c.entry source) else none).bind
        fun line => (store s line).map (print · c.level line) := by
  have hlog : c.run source s = log s c.level (c.heading source) c.message := by
    cases c with
    | logger level sec message => rfl
    | loggerIdent name level sec message => rfl
  rw [hlog, log, format_eq]
  rfl

theorem Call.run_of_fits {source : Source} {c : Call} (h : c.Fits source) (s : State) :
    c.run source s = (store s (c.entry source)).map (print · c.level (c.entry source)) := by
  rw [Call.run_eq_bind, if_pos (show (c.entry source).length < logEntrySize from h), Option.bind_some]

theorem Call.run_of_not_fits {source : Source} {c : Call} (h : ¬ c.Fits source) (s : State) :
    c.run source s = none := by
  rw [Call.run_eq_bind, if_neg (show ¬ (c.entry source).length < logEntrySize from h), Option.bind_none]

/-! ## The array -/

/-- The slots that are written in turn. -/
def slots (maxLogEntries : Nat) : Nat := min maxLogEntries (2 ^ 32)

/-- The state is a circular log. One that the index cannot reach the end of is not found
    full. -/
structure Mirrors (maxLogEntries : Nat) (s : State) (ring : CircularLog.Log Text) : Prop where
  size : s.maxLogEntries = maxLogEntries
  buffer : s.logBuffer = some ring.slots
  index : s.logIndex = ring.index
  overflow : s.logOverflow = (ring.full && decide (maxLogEntries < 2 ^ 32))

variable {maxLogEntries : Nat} {s : State} {ring : CircularLog.Log Text}

theorem Mirrors.print (h : Mirrors maxLogEntries s ring) (level : LogLevel) (line : Text) :
    Mirrors maxLogEntries (print s level line) ring := by
  unfold Logger.print
  split
  · exact h
  · exact ⟨h.size, h.buffer, h.index, h.overflow⟩

theorem Mirrors.store (hmax : 1 < maxLogEntries) (h : Mirrors maxLogEntries s ring)
    (hindex : ring.index < slots maxLogEntries) (line : Text) :
    ∃ s', store s line = some s' ∧
      Mirrors maxLogEntries s' (CircularLog.write (slots maxLogEntries) ring line) := by
  have hsize := h.size
  have hslot := h.index
  have hoverflow := h.overflow
  unfold slots at hindex ⊢
  unfold Logger.store
  rw [h.buffer]
  simp only
  rw [if_neg (by omega), if_neg (by omega)]
  have hbuffer : some (Function.update ring.slots s.logIndex line) =
      some (Function.update ring.slots ring.index line) := by rw [hslot]
  by_cases hend : s.maxLogEntries ≤ (s.logIndex + 1) % 2 ^ 32
  · -- the last slot of an array that the index reaches the end of
    have hnext : Ring.next (min maxLogEntries (2 ^ 32)) ring.index = 0 := if_pos (by omega)
    have hlast : ring.index + 1 = min maxLogEntries (2 ^ 32) := by omega
    have hshort : maxLogEntries < 2 ^ 32 := by omega
    rw [if_pos hend]
    refine ⟨_, rfl, hsize, hbuffer, hnext.symm, ?_⟩
    show true = ((ring.full || decide (ring.index + 1 = min maxLogEntries (2 ^ 32))) &&
      decide (maxLogEntries < 2 ^ 32))
    rw [decide_eq_true hlast, decide_eq_true hshort, Bool.or_true, Bool.and_true]
  · rw [if_neg hend]
    refine ⟨_, rfl, hsize, hbuffer, ?_, ?_⟩
    · show (s.logIndex + 1) % 2 ^ 32 =
        if ring.index + 1 = min maxLogEntries (2 ^ 32) then 0 else ring.index + 1
      split
      · omega
      · omega
    · show s.logOverflow = ((ring.full || decide (ring.index + 1 = min maxLogEntries (2 ^ 32))) &&
        decide (maxLogEntries < 2 ^ 32))
      rw [hoverflow]
      by_cases hshort : maxLogEntries < 2 ^ 32
      · have hnot : ring.index + 1 ≠ min maxLogEntries (2 ^ 32) := by omega
        rw [decide_eq_false hnot, Bool.or_false]
      · rw [decide_eq_false hshort, Bool.and_false, Bool.and_false]

/-! ## A run -/

theorem Call.run_mirrors (hmax : 1 < maxLogEntries) (source : Source) (h : Mirrors maxLogEntries s ring)
    (hindex : ring.index < slots maxLogEntries) {c : Call} (hfits : c.Fits source) :
    ∃ s', c.run source s = some s' ∧
      Mirrors maxLogEntries s' (CircularLog.write (slots maxLogEntries) ring (c.entry source)) := by
  obtain ⟨s', hstore, hmirrors⟩ := h.store hmax hindex (c.entry source)
  refine ⟨print s' c.level (c.entry source), ?_, hmirrors.print _ _⟩
  rw [Call.run_of_fits hfits, hstore, Option.map_some]

/-- All lines fit, or the run comes to nothing that is defined. -/
theorem fits_of_run {source : Source} {calls : List Call} {s' : State}
    (hrun : run source s calls = some s') : ∀ c ∈ calls, c.Fits source := by
  induction calls generalizing s with
  | nil =>
    intro c hc
    cases hc
  | cons c calls ih =>
    rw [run, List.foldlM_cons] at hrun
    obtain ⟨s₁, hcall, hrest⟩ := Option.bind_eq_some_iff.mp hrun
    have hfits : c.Fits source := by
      by_contra hnot
      rw [Call.run_of_not_fits hnot] at hcall
      cases hcall
    exact List.forall_mem_cons.mpr ⟨hfits, ih hrest⟩

theorem run_mirrors (hmax : 1 < maxLogEntries) (source : Source) (h : Mirrors maxLogEntries s ring)
    (hindex : ring.index < slots maxLogEntries) {calls : List Call}
    (hfits : ∀ c ∈ calls, c.Fits source) :
    ∃ s', run source s calls = some s' ∧ Mirrors maxLogEntries s'
      ((calls.map (Call.entry source)).foldl (CircularLog.write (slots maxLogEntries)) ring) := by
  induction calls generalizing s ring with
  | nil => exact ⟨s, rfl, h⟩
  | cons c calls ih =>
    have hfits := List.forall_mem_cons.mp hfits
    obtain ⟨s₁, hcall, h₁⟩ := Call.run_mirrors hmax source h hindex hfits.1
    obtain ⟨s', hrest, h'⟩ := ih h₁ (CircularLog.index_write_lt hindex _) hfits.2
    refine ⟨s', ?_, h'⟩
    rw [run, List.foldlM_cons, hcall]
    exact hrest

/-! ## The file -/

theorem Mirrors.log2File (hmax : 1 < maxLogEntries) (h : Mirrors maxLogEntries s ring) :
    ∃ file, log2File s true = some file ∧ file.entries =
      (List.range ((if ring.full && decide (maxLogEntries < 2 ^ 32) then maxLogEntries
        else ring.index) % 2 ^ 32)).map ring.slots := by
  have hsize : ¬ s.maxLogEntries < 1 := by
    rw [h.size]
    omega
  unfold Logger.log2File
  rw [h.buffer]
  simp only
  rw [if_neg hsize, h.overflow, h.size, h.index]
  exact ⟨_, rfl, rfl⟩

variable {entries : List Text}

/-- An array that the index reaches the end of is written slot by slot. -/
theorem file_of_lt (hpos : 0 < maxLogEntries) (hshort : maxLogEntries < 2 ^ 32)
    (hretains : CircularLog.Retains maxLogEntries ring entries) :
    (List.range ((if ring.full && decide (maxLogEntries < 2 ^ 32) then maxLogEntries
      else ring.index) % 2 ^ 32)).map ring.slots = CircularLog.bySlot maxLogEntries ring := by
  have hindex : ring.index < maxLogEntries := by
    rw [hretains.index]
    exact Nat.mod_lt _ hpos
  have hcount : (if ring.full then maxLogEntries else ring.index) ≤ maxLogEntries := by
    split
    · exact Nat.le_refl _
    · exact Nat.le_of_lt hindex
  rw [decide_eq_true hshort, Bool.and_true, CircularLog.bySlot, CircularLog.window_zero hcount,
    Nat.mod_eq_of_lt (by omega)]

theorem file_of_ge (hlong : 2 ^ 32 ≤ maxLogEntries)
    (hretains : CircularLog.Retains (2 ^ 32) ring entries) :
    (List.range ((if ring.full && decide (maxLogEntries < 2 ^ 32) then maxLogEntries
      else ring.index) % 2 ^ 32)).map ring.slots =
        (List.range (entries.length % 2 ^ 32)).map ring.slots := by
  rw [decide_eq_false (Nat.not_lt.mpr hlong), Bool.and_false, if_neg Bool.false_ne_true,
    hretains.index, Nat.mod_mod]

/-- The file has the last entries in order: when the array is not found full only before
    the index wraps, and else when there is room for all or the turn changes nothing. -/
theorem file_eq_last_iff (hpos : 0 < maxLogEntries)
    (hretains : CircularLog.Retains (slots maxLogEntries) ring entries) :
    (List.range ((if ring.full && decide (maxLogEntries < 2 ^ 32) then maxLogEntries
      else ring.index) % 2 ^ 32)).map ring.slots =
        entries.drop (entries.length - maxLogEntries) ↔
      (entries.length < 2 ^ 32 ∨ maxLogEntries < 2 ^ 32) ∧
        (entries.length ≤ maxLogEntries ∨
          (entries.drop (entries.length - maxLogEntries)).rotate (entries.length % maxLogEntries) =
            entries.drop (entries.length - maxLogEntries)) := by
  unfold slots at hretains
  obtain hshort | hlong := Nat.lt_or_ge maxLogEntries (2 ^ 32)
  · rw [Nat.min_eq_left (Nat.le_of_lt hshort)] at hretains
    rw [file_of_lt hpos hshort hretains, hretains.bySlot_eq_last_iff]
    exact (and_iff_right (Or.inr hshort)).symm
  · rw [Nat.min_eq_right hlong] at hretains
    rw [file_of_ge hlong hretains]
    by_cases hfew : entries.length < 2 ^ 32
    · refine iff_of_true ?_ ⟨Or.inl hfew, Or.inl (by omega)⟩
      have hfull : ring.full = false := by
        rw [hretains.full]
        exact decide_eq_false (Nat.not_le.mpr hfew)
      have hindex : ring.index = entries.length % 2 ^ 32 := hretains.index
      have hslot := hretains.bySlot_of_lt hfew
      rw [CircularLog.bySlot, hfull, if_neg Bool.false_ne_true, hindex,
        CircularLog.window_zero (Nat.le_of_lt (Nat.mod_lt _ (by decide)))] at hslot
      rw [hslot, Nat.sub_eq_zero_of_le (by omega), List.drop_zero]
    · refine iff_of_false (fun heq => ?_) (fun h => ?_)
      · -- there are fewer slots before the index than entries to be written
        have hlength := congrArg List.length heq
        rw [List.length_map, List.length_range, List.length_drop] at hlength
        have hlt := Nat.mod_lt entries.length (show 0 < 2 ^ 32 by decide)
        omega
      · have hor := h.1
        omega

/-- When every line fits, the file is that of a circular log. -/
theorem dumpsLast_of_fits (source : Source) (level : Int) (entries : Text)
    (hmax : 1 < atol entries) (memory : Nat → Text) {calls : List Call}
    (hfits : ∀ c ∈ calls, c.Fits source) :
    DumpsLast source level entries memory calls ↔
      (calls.length < 2 ^ 32 ∨ (atol entries).toNat < 2 ^ 32) ∧
      (calls.length ≤ (atol entries).toNat ∨
        (lastEntries source (atol entries).toNat calls).rotate
            (calls.length % (atol entries).toNat) =
          lastEntries source (atol entries).toNat calls) := by
  have hmax' : 1 < (atol entries).toNat := by omega
  have hinit : Mirrors (atol entries).toNat (logInit (start level) (some entries) memory)
      (CircularLog.empty memory) := by
    have heq : logInit (start level) (some entries) memory =
        { start level with maxLogEntries := (atol entries).toNat, logBuffer := some memory } :=
      if_pos hmax
    rw [heq]
    exact ⟨rfl, rfl, rfl, rfl⟩
  -- The index is an unsigned int, so the log turns after fewer slots than there are from 2^32 on.
  have hslots : 0 < slots (atol entries).toNat := by
    unfold slots
    omega
  obtain ⟨s, hrun, hmirrors⟩ :
      ∃ s, run source (logInit (start level) (some entries) memory) calls = some s ∧
        Mirrors (atol entries).toNat s (CircularLog.after (slots (atol entries).toNat) memory
          (calls.map (Call.entry source))) := run_mirrors hmax' source hinit hslots hfits
  have hretains := CircularLog.retains_after hslots memory (calls.map (Call.entry source))
  obtain ⟨file, hfile, hentries⟩ := hmirrors.log2File hmax'
  have hlast := file_eq_last_iff (Nat.lt_of_succ_lt hmax') hretains
  rw [← hentries, List.length_map] at hlast
  rw [lastEntries, ← hlast]
  constructor
  · intro h
    obtain ⟨s', file', hrun', hfile', hentries'⟩ := h
    rw [hrun] at hrun'
    obtain rfl := Option.some.inj hrun'
    rw [hfile] at hfile'
    obtain rfl := Option.some.inj hfile'
    exact hentries'
  · intro hentries'
    exact ⟨s, file, hrun, hfile, hentries'⟩

/-- For lines that differ there have to be no more calls than slots, or a multiple of
    their number. -/
theorem dumpsLast_iff_dvd (source : Source) (level : Int) (entries : Text)
    (hmax : 1 < atol entries) (hshort : (atol entries).toNat < 2 ^ 32) (memory : Nat → Text)
    {calls : List Call} (hfits : ∀ c ∈ calls, c.Fits source)
    (hdiffer : (lastEntries source (atol entries).toNat calls).Nodup) :
    DumpsLast source level entries memory calls ↔
      calls.length ≤ (atol entries).toNat ∨ (atol entries).toNat ∣ calls.length := by
  rw [dumpsLast_of_fits source level entries hmax memory hfits, and_iff_right (Or.inr hshort)]
  by_cases hfew : calls.length ≤ (atol entries).toNat
  · exact iff_of_true (Or.inl hfew) (Or.inl hfew)
  · have hlength : (calls.map (Call.entry source)).length = calls.length := List.length_map _
    rw [lastEntries, ← hlength] at hdiffer
    have hturn := CircularLog.rotate_eq_last_iff (by omega) (by omega) hdiffer
    rw [hlength] at hturn
    exact or_congr_right hturn

/-- **The log file.** For every size above one that `LOG_INIT` is given, and every list of
    calls: the file has the entries of the last calls, each once and in order, just when
    every line fits its buffer, the index has not wrapped before the end of the array,
    and there were no more calls than slots, or the entries retained read the same when
    they are turned by the index. -/
theorem dumpsLast_iff (source : Source) (level : Int) (entries : Text) (hmax : 1 < atol entries)
    (memory : Nat → Text) (calls : List Call) :
    DumpsLast source level entries memory calls ↔
      (∀ c ∈ calls, c.Fits source) ∧
      (calls.length < 2 ^ 32 ∨ (atol entries).toNat < 2 ^ 32) ∧
      (calls.length ≤ (atol entries).toNat ∨
        (lastEntries source (atol entries).toNat calls).rotate
            (calls.length % (atol entries).toNat) =
          lastEntries source (atol entries).toNat calls) := by
  by_cases hfits : ∀ c ∈ calls, c.Fits source
  · rw [and_iff_right hfits]
    exact dumpsLast_of_fits source level entries hmax memory hfits
  · refine iff_of_false (fun h => ?_) (fun h => hfits h.1)
    obtain ⟨s', -, hrun, -⟩ := h
    exact hfits (fits_of_run hrun)

/-- A process, and a message of one letter. -/
def source : Source := ⟨7, ['P']⟩

def note (letter : Char) : Call := .logger .app ['0', '.', '5'] [letter]

/-- Two slots have room for two calls. -/
theorem two_calls_dumped :
    1 < atol ['2'] ∧
      DumpsLast source 0 ['2'] (fun _ => []) [note 'a', note 'b'] :=
  ⟨by decide, (dumpsLast_iff source 0 ['2'] (by decide) (fun _ => []) [note 'a', note 'b']).mpr
    ⟨by decide, Or.inr (by decide), Or.inl (by decide)⟩⟩

/-- A third call takes the first slot, and is written before the second. -/
theorem third_call_dumped_first :
    ((run source (logInit (start 0) (some ['2']) fun _ => []) [note 'a', note 'b', note 'c']).bind
        (log2File · true)).map LogFile.entries =
          some [(note 'c').entry source, (note 'b').entry source] ∧
      lastEntries source 2 [note 'a', note 'b', note 'c'] =
        [(note 'b').entry source, (note 'c').entry source] ∧
      ¬ DumpsLast source 0 ['2'] (fun _ => []) [note 'a', note 'b', note 'c'] := by
  have hdump : ((run source (logInit (start 0) (some ['2']) fun _ => [])
      [note 'a', note 'b', note 'c']).bind (log2File · true)).map LogFile.entries =
        some [(note 'c').entry source, (note 'b').entry source] := by decide
  refine ⟨hdump, by decide, fun h => ?_⟩
  obtain ⟨s, file, hrun, hfile, hentries⟩ := h
  rw [hrun, Option.bind_some, hfile, Option.map_some, hentries] at hdump
  exact absurd hdump (by decide)

end Arinc.Logger

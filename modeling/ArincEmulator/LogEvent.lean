import Mathlib.Data.Bool.AllAny
import ArincEmulator.Lib.Strings

/- One line of a log file and the event it is turned into (`LogEvent` of the log parser,
   up to the identifiers): the line is cut at its first colon and then at the bars, the
   description at its colons and its arrow. And the two lines that are made for a process
   that is forcefully stopped.

   What is proved: the lines that are made are of no health-management type, whatever the
   line is that they are made from (`endLine_type`, `stopLine_type`). So the events of
   that type are those of the file. -/
namespace Arinc.LogParser
open Strings

/-- `str`. -/
abbrev Text := List Char

/-- The white space of `string.strip`. -/
def isspace (c : Char) : Bool := c == ' ' || decide (9 ≤ c.toNat ∧ c.toNat ≤ 13)

/-- `LogEvent`, without what is only written to the output. -/
structure LogEvent where
  line : Text
  source : Text
  type : Text
  desc : Text
  eventID : Int
  action : Text
  actionInfo : Text
  module : Text
  moduleID : Int
  msgID : Int
  ce : Int
  deriving DecidableEq, Repr

/-! ## Numbers -/

/-- A string without its sign. -/
def unsigned : Text → Text
  | '+' :: s => s
  | '-' :: s => s
  | s => s

/-- What may follow the digits of a number. -/
def isExponent : Text → Bool
  | [] => true
  | c :: s =>
    (c == 'e' || c == 'E') && !(unsigned s).isEmpty && (unsigned s).all Char.isDigit

/-- Digits, with a point among them or not, and an exponent. -/
def isDecimal (s : Text) : Bool :=
  let whole := s.takeWhile Char.isDigit
  match s.dropWhile Char.isDigit with
  | '.' :: s =>
    !(whole ++ s.takeWhile Char.isDigit).isEmpty && isExponent (s.dropWhile Char.isDigit)
  | s => !whole.isEmpty && isExponent s

/-- `locale.atof` does not raise. -/
def atof (s : Text) : Bool :=
  let s := unsigned (strip isspace s)
  isDecimal s ||
    decide (s.map Char.toLower ∈ ["inf".toList, "infinity".toList, "nan".toList])

/-! ## The line -/

/-- The first part of `buildInfo`: the action and the module. -/
def LogEvent.describe (e : LogEvent) : LogEvent :=
  if e.desc = "START: MM".toList then
    { e with action := "CREATE".toList, module := "MM".toList }
  else if find e.desc [':'] ≠ -1 then
    let details := e.desc.splitOn ':'
    let actions := split (strip isspace (details.getD 0 [])) "->".toList
    let action := strip isspace (actions.getD 0 [])
    { e with
      module := strip isspace (details.getD 1 [])
      actionInfo := if actions.length = 2 then strip isspace (actions.getD 1 []) else []
      action := if action = "CREATE_PROCESS".toList ∨ action = "CREATE_PARTITION".toList then
        "CREATE".toList else action }
  else { e with action := e.desc }

/-- What is behind the process identifier. -/
def content (line : Text) : Text := line.drop (find line [':'] + 1).toNat

/-- The event of a line before it has its identifiers. Nothing for a line with less than
    four fields, or without a time in the second one. -/
def LogEvent.parse (line : Text) : Option LogEvent :=
  match (content line).splitOn '|' with
  | source :: absTime :: type :: desc :: _ =>
    if atof absTime then
      some (LogEvent.describe ⟨line, strip isspace source, strip isspace type, strip isspace desc,
        1, [], [], [], -1, -1, -1⟩)
    else none
  | _ => none

/-! ## A forced stop -/

/-- What `generateEndEvent` makes of a line with a process that is forcefully stopped. -/
def endLine (line : Text) : Text :=
  let newline := replace line "HME".toList "TRC".toList
  let pos1 := find newline "PROCESS".toList + 7
  let pos2 := find newline "forcefully".toList
  let initPart := slice newline 0 (pos1 - 7)
  let module := strip isspace (slice newline (pos1 + 1) pos2)
  initPart ++ "END_PROCESS:".toList ++ module

/-- The second line it makes. -/
def stopLine (line : Text) : Text :=
  replace (endLine line) "END_PROCESS".toList "STOP_PROCESS".toList

/-! ## The type of a line -/

/-- A colon or a bar. -/
def isSeparator (c : Char) : Bool := c == '|' || c == ':'

theorem type_of_parse {line : Text} {e : LogEvent} (h : LogEvent.parse line = some e) :
    ∃ type ∈ (content line).splitOn '|', e.type = strip isspace type := by
  unfold LogEvent.parse at h
  split at h
  · rename_i source absTime type desc rest hfields
    split at h
    · obtain rfl := Option.some.inj h
      refine ⟨type, by simp [hfields], ?_⟩
      unfold LogEvent.describe
      split
      · rfl
      · split
        · rfl
        · rfl
    · cases h
  · cases h

theorem exists_cell {line type : Text} {e : LogEvent} (h : LogEvent.parse line = some e)
    (htype : e.type = type) (hcolon : ':' ∉ type) :
    ∃ cell ∈ line.splitOnP isSeparator, strip isspace cell = type := by
  obtain ⟨cell, hcell, hstrip⟩ := type_of_parse h
  rw [htype] at hstrip
  have hno : ∀ c ∈ cell, (c == ':') = false := by
    intro c hc
    refine beq_eq_false_iff_ne.mpr ?_
    rintro rfl
    rw [hstrip] at hcolon
    exact hcolon (mem_strip hc (by decide))
  have hmem : cell ∈ (content line).splitOnP isSeparator := mem_splitOnP_or hcell hno
  refine ⟨cell, ?_, hstrip.symm⟩
  obtain hwhole | ⟨before, hbefore⟩ := drop_find ':' line
  · rw [content, hwhole] at hmem
    exact hmem
  · rw [hbefore, List.splitOnP_append_cons _ _ (show isSeparator ':' = true by decide)]
    exact List.mem_append_right _ hmem

/-- The action, between two parts of a line from which "HME" is gone. -/
theorem endLine_parts (line : Text) :
    ∃ initPart module, endLine line = (initPart ++ "END_PROCESS".toList) ++ ':' :: module ∧
      ¬ "HME".toList <:+: initPart ∧ ¬ "HME".toList <:+: module := by
  have hgone : ∀ part, part <:+: replace line "HME".toList "TRC".toList → ¬ "HME".toList <:+: part :=
    fun part hpart hwithin =>
      not_infix_replace (by decide) (by decide) (List.all_iff_forall_prop.mp (by decide)) line
        (hwithin.trans hpart)
  have haction : ∀ initPart module : Text, initPart ++ "END_PROCESS:".toList ++ module =
      (initPart ++ "END_PROCESS".toList) ++ ':' :: module := by
    intro initPart module
    rw [List.append_assoc, List.append_assoc]
    rfl
  refine ⟨_, _, haction _ _, ?_, ?_⟩
  · exact hgone _ (infix_slice _ _ _)
  · exact hgone _ ((infix_strip _ _).trans (infix_slice _ _ _))

theorem cell_endLine {line cell : Text} (h : cell ∈ (endLine line).splitOnP isSeparator) :
    ¬ "HME".toList <:+: cell ∨ "END_PROCESS".toList <:+: cell := by
  obtain ⟨initPart, module, hline, hinit, hmodule⟩ := endLine_parts line
  have haction : ∀ c ∈ "END_PROCESS".toList, isSeparator c = false :=
    List.all_iff_forall_prop.mp (by decide)
  obtain ⟨init, last, hsplit, happend⟩ := splitOnP_append haction initPart
  rw [hline, List.splitOnP_append_cons _ _ (show isSeparator ':' = true by decide), happend,
    List.mem_append, List.mem_append, List.mem_singleton] at h
  obtain (hbefore | rfl) | hbehind := h
  · have hcell : cell ∈ initPart.splitOnP isSeparator := by
      rw [hsplit]
      exact List.mem_append_left _ hbefore
    exact Or.inl fun hwithin => hinit (hwithin.trans (infix_of_mem_splitOnP hcell))
  · exact Or.inr (List.suffix_append last "END_PROCESS".toList).isInfix
  · exact Or.inl fun hwithin => hmodule (hwithin.trans (infix_of_mem_splitOnP hbehind))

theorem mem_hme {cell : Text} (h : strip isspace cell = "HME".toList) {c : Char} (hc : c ∈ cell)
    (hspace : isspace c = false) : c ∈ "HME".toList := h ▸ mem_strip hc hspace

theorem endLine_type {line : Text} {e : LogEvent} (h : LogEvent.parse (endLine line) = some e) :
    e.type ≠ "HME".toList := by
  intro htype
  obtain ⟨cell, hcell, hstrip⟩ := exists_cell h htype (by decide)
  obtain hgone | haction := cell_endLine hcell
  · exact hgone (hstrip ▸ infix_strip isspace cell)
  · exact absurd (mem_hme hstrip (haction.subset (show 'N' ∈ "END_PROCESS".toList by decide))
      (by decide)) (by decide)

theorem stopLine_type {line : Text} {e : LogEvent} (h : LogEvent.parse (stopLine line) = some e) :
    e.type ≠ "HME".toList := by
  intro htype
  obtain ⟨cell, hcell, hstrip⟩ := exists_cell h htype (by decide)
  rw [stopLine, splitOnP_replace (by decide) (List.all_iff_forall_prop.mp (by decide))
    (List.all_iff_forall_prop.mp (by decide))] at hcell
  obtain ⟨cell, hfirst, rfl⟩ := List.mem_map.mp hcell
  -- nothing was replaced in it, so it is a cell of the first line
  have hno : 'S' ∉ replace cell "END_PROCESS".toList "STOP_PROCESS".toList := fun hmem =>
    absurd (mem_hme hstrip hmem (by decide)) (by decide)
  obtain ⟨hsame, haction⟩ := replace_eq_self (by decide) (by decide) cell hno
  rw [hsame] at hstrip
  exact (cell_endLine hfirst).resolve_right haction (hstrip ▸ infix_strip isspace cell)

end Arinc.LogParser

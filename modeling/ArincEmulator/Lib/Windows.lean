import Mathlib.Data.List.Basic

/- Parties that take turns. A party puts things into ports of its own and takes things
   out of others while it has its turn, its window, and the log says what was put, what
   was taken and which window was closed, the newest first. What a party has put
   before its last window was closed (`closedPuts`) is what others may rely on: it is
   all the party has put once its window is closed (`closedPuts_close`), it does not
   change while a window is open (`closedPuts_put`, `closedPuts_take`), and it is the
   beginning of all that has been put (`closedPuts_isPrefix`). -/
namespace Arinc.Windows

/-- An entry of the log: `a` was put into a port or taken out of one, or the window of
    a party was closed. -/
inductive Entry (ι κ α : Type*) where
  | put (port : κ) (a : α)
  | take (port : κ) (a : α)
  | close (party : ι)

variable {ι κ α : Type*} [DecidableEq ι] [DecidableEq κ]

/-- What was put into a port, the oldest first. -/
def puts (k : κ) : List (Entry ι κ α) → List α
  | [] => []
  | .put port a :: log => if port = k then puts k log ++ [a] else puts k log
  | .take _ _ :: log => puts k log
  | .close _ :: log => puts k log

/-- What was taken out of a port, the oldest first. -/
def takes (k : κ) : List (Entry ι κ α) → List α
  | [] => []
  | .put _ _ :: log => takes k log
  | .take port a :: log => if port = k then takes k log ++ [a] else takes k log
  | .close _ :: log => takes k log

/-- What was put into a port before the last window of a party was closed. -/
def closedPuts (i : ι) (k : κ) : List (Entry ι κ α) → List α
  | [] => []
  | .put _ _ :: log => closedPuts i k log
  | .take _ _ :: log => closedPuts i k log
  | .close party :: log => if party = i then puts k log else closedPuts i k log

section
variable {i party : ι} {k port : κ} {a : α} {log : List (Entry ι κ α)}

omit [DecidableEq ι] in
@[simp] theorem puts_put_self : puts k (.put k a :: log) = puts k log ++ [a] := if_pos rfl

omit [DecidableEq ι] in
theorem puts_put_of_ne (h : port ≠ k) : puts k (.put port a :: log) = puts k log := if_neg h

omit [DecidableEq ι] in
@[simp] theorem puts_take : puts k (.take port a :: log) = puts k log := rfl

omit [DecidableEq ι] in
@[simp] theorem puts_close : puts k (.close party :: log) = puts k log := rfl

omit [DecidableEq ι] in
@[simp] theorem takes_put : takes k (.put port a :: log) = takes k log := rfl

omit [DecidableEq ι] in
@[simp] theorem takes_take_self : takes k (.take k a :: log) = takes k log ++ [a] := if_pos rfl

omit [DecidableEq ι] in
theorem takes_take_of_ne (h : port ≠ k) : takes k (.take port a :: log) = takes k log := if_neg h

omit [DecidableEq ι] in
@[simp] theorem takes_close : takes k (.close party :: log) = takes k log := rfl

@[simp] theorem closedPuts_put : closedPuts i k (.put port a :: log) = closedPuts i k log := rfl

@[simp] theorem closedPuts_take : closedPuts i k (.take port a :: log) = closedPuts i k log := rfl

@[simp] theorem closedPuts_close : closedPuts i k (.close i :: log) = puts k log := if_pos rfl

theorem closedPuts_close_of_ne (h : party ≠ i) :
    closedPuts i k (.close party :: log) = closedPuts i k log := if_neg h

/-- A window of another party changes nothing for a party whose puts all count. -/
theorem closedPuts_close_of_eq (h : closedPuts i k log = puts k log) :
    closedPuts i k (.close party :: log) = puts k (.close party :: log) := by
  by_cases hparty : party = i
  · rw [hparty, closedPuts_close, puts_close]
  · rw [closedPuts_close_of_ne hparty, puts_close, h]

/-- What counts is the beginning of all that has been put. -/
theorem closedPuts_isPrefix (i : ι) (k : κ) (log : List (Entry ι κ α)) :
    closedPuts i k log <+: puts k log := by
  induction log with
  | nil => exact List.prefix_refl _
  | cons e log ih =>
    cases e with
    | put port a =>
      by_cases hport : port = k
      · rw [closedPuts_put, hport, puts_put_self]
        exact ih.trans (List.prefix_append _ _)
      · rw [closedPuts_put, puts_put_of_ne hport]
        exact ih
    | take port a => exact ih
    | close party =>
      by_cases hparty : party = i
      · exact ⟨[], by rw [List.append_nil, hparty, closedPuts_close, puts_close]⟩
      · rw [closedPuts_close_of_ne hparty, puts_close]
        exact ih

end

end Arinc.Windows

import Mathlib.Algebra.Group.Nat.Defs
import Mathlib.Data.List.Forall2
import ArincEmulator.PropertyFile

/- The tokenizer by positions, as it is written: two searches, either of which may
   answer `npos`, and a `substr` of the difference of what they answer. The loop of
   `PropertyFile.stringTokenize` goes over what is left of the string; here that loop
   is what the one over the positions comes to.

   1. `std::string` and its searches, `stringTrim` and `stringTokenize` by positions;
   2. a search stops at what is left behind the characters it passes over
      (`drop_findFirst`), and `stringTrim` is the trimming of what is left
      (`stringTrim_eq`);
   3. the loop ends within as many rounds as the string has characters, no `substr`
      throws, and the tokens are those of `PropertyFile` (`loop_eq`);
   4. these are the maximal runs without delimiters, each trimmed
      (`stringTokenize_runs`). -/
namespace Arinc.Tokenizer
open PropertyFile (Text blanks isOneOf isOneOf_iff)
open Fields

/-- `std::string::npos`, the largest `size_type`. -/
def npos : Nat := 2 ^ 64 - 1

/-- `std::string`. None is as long as `npos`. -/
structure StdString where
  chars : Text
  length_lt : chars.length < npos

/-- The difference of two `size_type`s. -/
def sub (a b : Nat) : Nat := (a + 2 ^ 64 - b) % 2 ^ 64

/-- The first place from `pos` on where `p` holds, or `npos`. -/
def findFirst (p : Char → Bool) (str : Text) (pos : Nat) : Nat :=
  ((str.drop pos).findIdx? p).elim npos (pos + ·)

/-- `find_first_of`. -/
def findFirstOf (str chars : Text) (pos : Nat) : Nat := findFirst (isOneOf chars) str pos

/-- `find_first_not_of`. -/
def findFirstNotOf (str chars : Text) (pos : Nat) : Nat := findFirst (!isOneOf chars ·) str pos

/-- `find_last_not_of`, from the end. -/
def findLastNotOf (str chars : Text) : Nat :=
  (str.reverse.findIdx? (!isOneOf chars ·)).elim npos (str.length - 1 - ·)

/-- `substr`, which throws for a place behind the end. -/
def substr (str : Text) (pos n : Nat) : Option Text :=
  if str.length < pos then none else some ((str.drop pos).take n)

/-- `stringTrim`. The first `erase` takes what is from its place on, the second what is
    before. -/
def stringTrim (str delims : Text) : Text :=
  let pos := findLastNotOf str delims
  if pos ≠ npos then
    let str := str.take (pos + 1)
    let pos := findFirstNotOf str delims 0
    if pos ≠ npos then str.drop pos else str
  else []

/-- Where the loop of `stringTokenize` stands. -/
structure Scan where
  tokens : List Text
  lastPos : Nat
  pos : Nat

/-- The body of the loop. Nothing comes of it when `substr` throws. -/
def body (str delimiters : Text) (scan : Scan) : Option Scan :=
  (substr str scan.lastPos (sub scan.pos scan.lastPos)).map fun substring =>
    let lastPos := findFirstNotOf str delimiters scan.pos
    ⟨scan.tokens ++ [stringTrim substring blanks], lastPos, findFirstOf str delimiters lastPos⟩

/-- The loop, for so many rounds at most. -/
def loop (str delimiters : Text) : Nat → Scan → Option (List Text)
  | 0, _ => none
  | fuel + 1, scan =>
    if npos ≠ scan.pos ∨ npos ≠ scan.lastPos then
      (body str delimiters scan).bind (loop str delimiters fuel)
    else some scan.tokens

/-- `stringTokenize`: the tokens behind those that are there. -/
def stringTokenize (str : StdString) (tokens : List Text) (delimiters : Text) (fuel : Nat) :
    Option (List Text) :=
  let lastPos := findFirstNotOf str.chars delimiters 0
  let pos := findFirstOf str.chars delimiters lastPos
  loop str.chars delimiters fuel ⟨tokens, lastPos, pos⟩

/-- `token` is what is left of `run` without the characters of `chars` at its two ends. -/
structure Trimmed (chars run token : Text) : Prop where
  ends : ∃ before after, run = before ++ token ++ after ∧ ∀ c ∈ before ++ after, c ∈ chars
  head : ∀ c ∈ token.head?, c ∉ chars
  last : ∀ c ∈ token.getLast?, c ∉ chars

/-! ## The searches -/

/-- A place in a string, or `npos`. -/
def Place (str : Text) (pos : Nat) : Prop := pos < str.length ∨ pos = npos

variable {str : Text} {p : Char → Bool} {pos : Nat}

theorem findFirst_place : Place str (findFirst p str pos) := by
  unfold findFirst
  cases hfind : (str.drop pos).findIdx? p with
  | none => exact Or.inr rfl
  | some k =>
    obtain ⟨hk, -⟩ := List.findIdx?_eq_some_iff_getElem.mp hfind
    rw [List.length_drop] at hk
    refine Or.inl ?_
    show pos + k < str.length
    omega

theorem le_findFirst (hpos : pos ≤ npos) : pos ≤ findFirst p str pos := by
  unfold findFirst
  cases (str.drop pos).findIdx? p with
  | none => exact hpos
  | some k => exact Nat.le_add_right pos k

theorem drop_findFirst (hlength : str.length < npos) :
    str.drop (findFirst p str pos) = (str.drop pos).dropWhile (!p ·) := by
  rw [List.dropWhile_eq_drop_findIdx_not]
  simp only [Bool.not_not]
  unfold findFirst
  cases hfind : (str.drop pos).findIdx? p with
  | none =>
    rw [List.findIdx?_eq_none_iff_findIdx_eq.mp hfind, List.drop_length]
    exact List.drop_eq_nil_of_le (Nat.le_of_lt hlength)
  | some k =>
    rw [(List.findIdx?_eq_some_iff_findIdx_eq.mp hfind).2, List.drop_drop]
    rfl

theorem drop_findFirstOf (hlength : str.length < npos) (chars : Text) :
    str.drop (findFirstOf str chars pos) = PropertyFile.fromFirstOf (str.drop pos) chars :=
  drop_findFirst hlength

theorem drop_findFirstNotOf (hlength : str.length < npos) (chars : Text) :
    str.drop (findFirstNotOf str chars pos) = PropertyFile.fromFirstNotOf (str.drop pos) chars := by
  refine (drop_findFirst hlength).trans ?_
  simp only [Bool.not_not]
  rfl

theorem Place.eq_npos_iff (hplace : Place str pos) (hlength : str.length < npos) :
    pos = npos ↔ str.drop pos = [] := by
  rw [List.drop_eq_nil_iff]
  constructor
  · intro heq
    omega
  · intro hle
    exact hplace.resolve_left (by omega)

/-! ## Trimming -/

theorem stringTrim_eq (hlength : str.length < npos) (delims : Text) :
    stringTrim str delims = PropertyFile.stringTrim str delims := by
  unfold stringTrim findLastNotOf PropertyFile.stringTrim List.rdropWhile
  cases hfind : str.reverse.findIdx? (!isOneOf delims ·) with
  | none =>
    -- nothing but characters to be trimmed
    have hall : str.reverse.dropWhile (isOneOf delims) = [] := by
      rw [List.dropWhile_eq_nil_iff]
      intro c hc
      simpa using List.findIdx?_eq_none_iff.mp hfind c hc
    rw [hall]
    exact if_neg (not_not_intro rfl)
  | some k =>
    obtain ⟨hk, hlast, -⟩ := List.findIdx?_eq_some_iff_getElem.mp hfind
    rw [List.length_reverse] at hk
    have herased : str.take (str.length - 1 - k + 1) =
        (str.reverse.dropWhile (isOneOf delims)).reverse := by
      have hdrop : str.reverse.dropWhile (isOneOf delims) = str.reverse.drop k := by
        rw [List.dropWhile_eq_drop_findIdx_not, (List.findIdx?_eq_some_iff_findIdx_eq.mp hfind).2]
      rw [hdrop, List.drop_reverse, List.reverse_reverse]
      congr 1
      omega
    have hshort : (str.take (str.length - 1 - k + 1)).length < npos :=
      Nat.lt_of_le_of_lt (List.length_take_le' _ _) hlength
    have hleft : PropertyFile.fromFirstNotOf (str.take (str.length - 1 - k + 1)) delims ≠ [] := by
      intro hnil
      have hmem : str[str.length - 1 - k] ∈ str.take (str.length - 1 - k + 1) :=
        List.mem_take_iff_getElem.mpr ⟨str.length - 1 - k, by omega, rfl⟩
      have hdelim := List.dropWhile_eq_nil_iff.mp hnil _ hmem
      rw [List.getElem_reverse] at hlast
      simp [hdelim] at hlast
    have hfound : (str.take (str.length - 1 - k + 1)).drop
        (findFirstNotOf (str.take (str.length - 1 - k + 1)) delims 0) =
          PropertyFile.fromFirstNotOf (str.take (str.length - 1 - k + 1)) delims :=
      drop_findFirstNotOf hshort delims
    have hpos : findFirstNotOf (str.take (str.length - 1 - k + 1)) delims 0 ≠ npos := by
      intro heq
      have hplace : Place (str.take (str.length - 1 - k + 1))
        (findFirstNotOf (str.take (str.length - 1 - k + 1)) delims 0) := findFirst_place
      rw [(hplace.eq_npos_iff hshort).mp heq] at hfound
      exact hleft hfound.symm
    have hlastPos : str.length - 1 - k ≠ npos := by omega
    calc _ = (str.take (str.length - 1 - k + 1)).drop
          (findFirstNotOf (str.take (str.length - 1 - k + 1)) delims 0) :=
        (if_pos hlastPos).trans (if_pos hpos)
      _ = PropertyFile.fromFirstNotOf (str.take (str.length - 1 - k + 1)) delims := hfound
      _ = _ := by rw [herased]

theorem stringTrim_trimmed (run chars : Text) : Trimmed chars run (PropertyFile.stringTrim run chars) := by
  obtain ⟨before, after, hrun, hends, hhead, hlast⟩ := PropertyFile.stringTrim_spec run chars
  exact ⟨⟨before, after, hrun, hends⟩, hhead, hlast⟩

/-! ## The loop -/

/-- The difference of the two places is what lies between them, up to the end when the
    second search found nothing. -/
theorem substr_eq (hlength : str.length < npos) {lastPos : Nat} (hlast : lastPos < str.length)
    (hle : lastPos ≤ pos) (hplace : Place str pos) :
    substr str lastPos (sub pos lastPos) =
      some ((str.drop lastPos).take ((str.drop lastPos).length - (str.drop pos).length)) := by
  have hsub : sub pos lastPos = pos - lastPos := by
    have hpos : pos ≤ npos := by
      obtain hlt | heq := hplace
      · omega
      · exact Nat.le_of_eq heq
    unfold sub npos at *
    omega
  unfold substr
  rw [if_neg (by omega), hsub, Option.some.injEq, List.length_drop, List.length_drop]
  obtain hlt | heq := hplace
  · congr 1
    omega
  · rw [List.take_of_length_le, List.take_of_length_le]
    · rw [List.length_drop]
      omega
    · rw [List.length_drop]
      omega

/-- One round: the next token, and where the next one begins. -/
theorem body_eq (hlength : str.length < npos) (delimiters : Text) (tokens : List Text) {lastPos : Nat}
    (hlast : lastPos < str.length) :
    body str delimiters ⟨tokens, lastPos, findFirstOf str delimiters lastPos⟩ =
      let next := findFirstNotOf str delimiters (findFirstOf str delimiters lastPos)
      let rest := PropertyFile.fromFirstOf (str.drop lastPos) delimiters
      let run := (str.drop lastPos).take ((str.drop lastPos).length - rest.length)
      some ⟨tokens ++ [PropertyFile.stringTrim run blanks], next, findFirstOf str delimiters next⟩ := by
  have hle : lastPos ≤ findFirstOf str delimiters lastPos := le_findFirst (by omega)
  have hsubstr := substr_eq hlength hlast hle findFirst_place
  rw [drop_findFirstOf hlength] at hsubstr
  have hrun : ((str.drop lastPos).take ((str.drop lastPos).length -
      (PropertyFile.fromFirstOf (str.drop lastPos) delimiters).length)).length < npos := by
    refine Nat.lt_of_le_of_lt ?_ hlength
    rw [List.length_take, List.length_drop]
    omega
  rw [body, hsubstr, Option.map_some, stringTrim_eq hrun]

/-- From the beginning of a token, or from `npos`, enough rounds find what the loop over
    what is left finds. -/
theorem loop_eq (hlength : str.length < npos) (delimiters : Text) (fuel : Nat) (tokens : List Text)
    {lastPos : Nat} (hlast : Place str lastPos) (hfuel : str.length - lastPos < fuel) :
    loop str delimiters fuel ⟨tokens, lastPos, findFirstOf str delimiters lastPos⟩ =
      some (tokens ++ PropertyFile.stringTokenizeFrom delimiters (str.drop lastPos)) := by
  induction fuel generalizing tokens lastPos with
  | zero => omega
  | succ fuel ih =>
    have hrest : str.drop (findFirstOf str delimiters lastPos) =
        PropertyFile.fromFirstOf (str.drop lastPos) delimiters := drop_findFirstOf hlength delimiters
    by_cases hend : lastPos = npos
    · -- nothing was found, and nothing will be
      have hnil := (hlast.eq_npos_iff hlength).mp hend
      have hplace : Place str (findFirstOf str delimiters lastPos) := findFirst_place
      have hpos : findFirstOf str delimiters lastPos = npos := by
        rw [hplace.eq_npos_iff hlength, hrest, hnil]
        rfl
      rw [loop, if_neg (by rw [hpos, hend]; simp), hnil, PropertyFile.stringTokenizeFrom, if_pos rfl,
        List.append_nil]
    · have hne : str.drop lastPos ≠ [] := (hlast.eq_npos_iff hlength).not.mp hend
      have hplace : Place str (findFirstNotOf str delimiters (findFirstOf str delimiters lastPos)) :=
        findFirst_place
      have hnext : str.drop (findFirstNotOf str delimiters (findFirstOf str delimiters lastPos)) =
          PropertyFile.fromFirstNotOf (str.drop (findFirstOf str delimiters lastPos)) delimiters :=
        drop_findFirstNotOf hlength delimiters
      rw [hrest] at hnext
      -- there is less left, so the place is farther on
      have hless := PropertyFile.length_next_lt hne delimiters
      rw [← hnext, List.length_drop, List.length_drop] at hless
      rw [loop, if_pos (Or.inr (Ne.symm hend)),
        body_eq hlength delimiters tokens (hlast.resolve_right hend), Option.bind_some]
      refine (ih _ hplace (by omega)).trans ?_
      conv_rhs => rw [PropertyFile.stringTokenizeFrom, if_neg hne]
      rw [List.append_assoc, hnext]
      rfl

theorem stringTokenize_eq (str : StdString) (tokens : List Text) (delimiters : Text) (more : Nat) :
    stringTokenize str tokens delimiters (str.chars.length + 1 + more) =
      some (tokens ++ PropertyFile.stringTokenize str.chars delimiters) := by
  have hplace : Place str.chars (findFirstNotOf str.chars delimiters 0) := findFirst_place
  have hbegin : str.chars.drop (findFirstNotOf str.chars delimiters 0) =
      PropertyFile.fromFirstNotOf str.chars delimiters := drop_findFirstNotOf str.length_lt delimiters
  refine (loop_eq str.length_lt delimiters _ tokens hplace (by omega)).trans ?_
  rw [hbegin]
  rfl

/-- **The tokenizer.** For every string and every set of delimiters: it ends, in no more
    rounds than the string has characters, and what it puts behind the tokens that are
    there are the maximal runs without delimiters, each once and in their order, with
    the blanks at their ends taken away. -/
theorem stringTokenize_runs (str : StdString) (tokens : List Text) (delimiters : Text) :
    ∃ (spans : List (Nat × Nat)) (found : List Text),
      spans.Pairwise (fun a b => a.2 ≤ b.1) ∧
      (∀ i j, (i, j) ∈ spans ↔ IsMaximalRun (isOneOf delimiters) str.chars i j) ∧
      List.Forall₂ (fun span => Trimmed blanks (slice str.chars span.1 span.2)) spans found ∧
      ∀ more, stringTokenize str tokens delimiters (str.chars.length + 1 + more) =
        some (tokens ++ found) := by
  obtain ⟨spans, hordered, hmem, hfields⟩ := fields_spans (isOneOf delimiters) str.chars
  refine ⟨spans, PropertyFile.stringTokenize str.chars delimiters, hordered, hmem, ?_,
    stringTokenize_eq str tokens delimiters⟩
  rw [PropertyFile.stringTokenize_fields, hfields, List.map_map, List.forall₂_map_right_iff]
  apply List.forall₂_same.mpr
  intro span _
  exact stringTrim_trimmed (slice str.chars span.1 span.2) blanks

/-- A blank run leaves an empty token. -/
example : stringTokenize ⟨['=', ' ', '=', 'a', '\t', '='], by decide⟩ [] ['='] 7 =
    some [[], ['a']] := by decide

end Arinc.Tokenizer

import CallAlign.Proofs.ObservedLayout

/-!
# The verdict on a call

Which argument a call is reported at, by the places of its arguments in the list.  The positions may
be any: nothing here asks that one argument comes after the other in a text.

    find?_lineOpeners_eq_some_iff : the first of the arguments that open a line and pass a test
    foldl_step                    : what one pass over the arguments has seen at its end
    checkCall_exact               : when a call is reported and where, and that one pass finds it
-/

namespace CallAlign

/-! ## Arguments by their places -/

/-- The argument at a place of the list opens a line: it has an argument before it, starts below the
end of that one, and does not make a second pair of it. -/
def OpensLineAt (arguments : List Argument) (i : Nat) (argument : Argument) : Prop :=
  1 ≤ i ∧ arguments[i]? = some argument ∧ ∃ previous, arguments[i - 1]? = some previous ∧
    previous.stop.line < argument.start.line ∧ ¬ (previous.kind = .pair ∧ argument.kind = .pair)

theorem opensLine_iff {previous argument : Argument} : opensLine previous argument = true ↔
    previous.stop.line < argument.start.line ∧
      ¬ (previous.kind = .pair ∧ argument.kind = .pair) := by
  simp [opensLine, imp_iff_not_or]

theorem opensLineAt_succ_iff {arguments : List Argument} {i : Nat} {argument : Argument} :
    OpensLineAt arguments (i + 1) argument ↔ ∃ previous,
      (arguments.zip arguments.tail)[i]? = some (previous, argument) ∧
        opensLine previous argument = true := by
  simp only [OpensLineAt, opensLine_iff, List.getElem?_zip_eq_some, List.getElem?_tail]
  constructor
  · rintro ⟨-, hargument, previous, hprevious, hopens⟩
    exact ⟨previous, ⟨hprevious, hargument⟩, hopens⟩
  · rintro ⟨previous, ⟨hprevious, hargument⟩, hopens⟩
    exact ⟨Nat.le_add_left 1 i, hargument, previous, hprevious, hopens⟩

/-- What opens a line in a list that goes on. -/
theorem lineOpeners_cons_cons (previous argument : Argument) (rest : List Argument) :
    lineOpeners (previous :: argument :: rest) =
      (if opensLine previous argument then [argument] else []) ++
        lineOpeners (argument :: rest) := by
  rw [lineOpeners]
  split <;> rfl

/-- The arguments that open a line are the second ones of the pairs of neighbours that say so. -/
theorem lineOpeners_eq_zip (arguments : List Argument) :
    lineOpeners arguments =
      ((arguments.zip arguments.tail).filter fun pair => opensLine pair.1 pair.2).map (·.2) := by
  induction arguments with
  | nil => rfl
  | cons previous arguments ih =>
    cases arguments with
    | nil => rfl
    | cons argument rest =>
      rw [lineOpeners_cons_cons, ih]
      simp only [List.tail_cons, List.zip_cons_cons, List.filter_cons]
      split <;> rfl

/-- An argument opens a line when it does so at one of the places of the list. -/
theorem mem_lineOpeners_iff_exists_place {arguments : List Argument} {argument : Argument} :
    argument ∈ lineOpeners arguments ↔ ∃ i, OpensLineAt arguments i argument := by
  rw [lineOpeners_eq_zip, List.mem_map]
  constructor
  · rintro ⟨⟨previous, argument⟩, hpair, rfl⟩
    obtain ⟨hpair, hopens⟩ := List.mem_filter.1 hpair
    obtain ⟨i, hi⟩ := List.mem_iff_getElem?.1 hpair
    exact ⟨i + 1, opensLineAt_succ_iff.2 ⟨previous, hi, hopens⟩⟩
  · rintro ⟨i, hi⟩
    obtain ⟨i, rfl⟩ := Nat.exists_eq_add_of_le' hi.1
    obtain ⟨previous, hpair, hopens⟩ := opensLineAt_succ_iff.1 hi
    exact ⟨_, List.mem_filter.2 ⟨List.mem_of_getElem? hpair, hopens⟩, rfl⟩

/-- The first argument found among those that open a line is the one with the least place. -/
theorem find?_lineOpeners_eq_some_iff {p : Argument → Bool} {arguments : List Argument}
    {argument : Argument} :
    (lineOpeners arguments).find? p = some argument ↔
      ∃ i, OpensLineAt arguments i argument ∧ p argument = true ∧
        ∀ j earlier, OpensLineAt arguments j earlier → j < i → p earlier = false := by
  rw [lineOpeners_eq_zip, List.find?_map, List.find?_filter, Option.map_eq_some_iff]
  constructor
  · rintro ⟨⟨previous, argument⟩, hfind, rfl⟩
    obtain ⟨htest, i, hi, hpair, hleast⟩ := List.find?_eq_some_iff_getElem.1 hfind
    obtain ⟨hopens, hp⟩ : opensLine previous argument = true ∧ p argument = true := by
      simpa using htest
    have hplace := List.getElem?_eq_some_iff.2 ⟨hi, hpair⟩
    refine ⟨i + 1, opensLineAt_succ_iff.2 ⟨previous, hplace, hopens⟩, hp, ?_⟩
    intro j earlier hearlier hj
    obtain ⟨j, rfl⟩ := Nat.exists_eq_add_of_le' hearlier.1
    obtain ⟨before, hbefore, hopens⟩ := opensLineAt_succ_iff.1 hearlier
    obtain ⟨hlt, hbefore⟩ := List.getElem?_eq_some_iff.1 hbefore
    have hout := hleast j (by omega)
    rw [hbefore] at hout
    simpa [hopens] using hout
  · rintro ⟨i, hargument, hp, hleast⟩
    obtain ⟨i, rfl⟩ := Nat.exists_eq_add_of_le' hargument.1
    obtain ⟨previous, hpair, hopens⟩ := opensLineAt_succ_iff.1 hargument
    obtain ⟨hi, hpair⟩ := List.getElem?_eq_some_iff.1 hpair
    refine ⟨(previous, argument), List.find?_eq_some_iff_getElem.2 ?_, rfl⟩
    refine ⟨by simp [hopens, hp], i, hi, hpair, fun j hj => ?_⟩
    -- an earlier pair of neighbours is an earlier place, or no place at all
    have hj' : j < (arguments.zip arguments.tail).length := by omega
    generalize hother : (arguments.zip arguments.tail)[j] = other
    cases hopens : opensLine other.1 other.2 with
    | false => simp
    | true =>
      have hearlier : OpensLineAt arguments (j + 1) other.2 := opensLineAt_succ_iff.2
        ⟨other.1, List.getElem?_eq_some_iff.2 ⟨hj', hother⟩, hopens⟩
      simp [hleast (j + 1) other.2 hearlier (by omega)]

/-! ## One pass -/

/-- What a pass over the arguments keeps besides the first of them: the argument before, whether one
began on another line than the first, whether one opened a tab-indented line, and the first that
opened a line out of column. -/
structure Scan where
  previous : Argument
  otherLine : Bool
  tab : Bool
  mismatch : Option Argument

namespace Scan

/-- The pass before the second argument. -/
def start (first : Argument) : Scan :=
  { previous := first, otherLine := false, tab := false, mismatch := none }

/-- The pass goes on by one argument. -/
def step (lines : SourceLines) (first : Argument) (s : Scan) (argument : Argument) : Scan :=
  let opens := opensLine s.previous argument
  let outOfColumn := argument.start.column != first.start.column
  { previous := argument
    otherLine := s.otherLine || argument.start.line != first.start.line
    tab := s.tab || opens && lines.isTabIndented argument.start.line
    mismatch := s.mismatch.or (if opens && outOfColumn then some argument else none) }

/-- The offense that the end of a pass shows. -/
def offense? (lines : SourceLines) (call : Call) (first : Argument) (s : Scan) : Option Offense :=
  if s.otherLine && first.start.line == call.calleeStart.line &&
      !lines.isTabIndented call.calleeStart.line && !s.tab then
    s.mismatch.map fun argument =>
      { severity := .convention, message := misalignedMessage, line := argument.start.line,
        column := argument.start.column }
  else none

theorem offense?_eq_some_iff {lines : SourceLines} {call : Call} {first : Argument} {s : Scan}
    {o : Offense} : s.offense? lines call first = some o ↔
      s.otherLine = true ∧ first.start.line = call.calleeStart.line ∧
        lines.isTabIndented call.calleeStart.line = false ∧ s.tab = false ∧
        ∃ argument, s.mismatch = some argument ∧
          o = { severity := .convention, message := misalignedMessage, line := argument.start.line,
                column := argument.start.column } := by
  simp only [offense?, Option.ite_none_right_eq_some, Bool.and_eq_true, beq_iff_eq,
    Bool.not_eq_true', Option.map_eq_some_iff, and_assoc, eq_comm (a := o)]

/-- At its end a pass has seen what opens a line in the list that begins with the argument
before. -/
theorem foldl_step (lines : SourceLines) (first : Argument) (rest : List Argument) (s : Scan) :
    rest.foldl (step lines first) s =
      { previous := rest.getLastD s.previous
        otherLine := s.otherLine || rest.any (·.start.line != first.start.line)
        tab := s.tab || (lineOpeners (s.previous :: rest)).any (lines.isTabIndented ·.start.line)
        mismatch := s.mismatch.or
          ((lineOpeners (s.previous :: rest)).find? (·.start.column != first.start.column)) } := by
  -- by induction on what is left, for every state of the pass
  induction rest generalizing s with
  | nil => simp [lineOpeners]
  | cons argument rest ih =>
    rw [List.foldl_cons, ih, Scan.mk.injEq, lineOpeners_cons_cons, List.any_append,
      List.find?_append]
    refine ⟨List.getLastD_cons.symm, ?_, ?_, ?_⟩
    · simp [step, Bool.or_assoc]
    · cases hopens : opensLine s.previous argument <;> simp [step, hopens, Bool.or_assoc]
    · rw [← Option.or_assoc]
      cases hopens : opensLine s.previous argument <;> simp [step, hopens, List.find?_singleton]

end Scan

/-- The check as one pass over the arguments from left to right. -/
def Call.onePass (lines : SourceLines) (call : Call) : Option Offense :=
  match call.arguments with
  | [] => none
  | first :: rest => (rest.foldl (Scan.step lines first) (.start first)).offense? lines call first

/-- The check comes to what there is to see in the whole list. -/
theorem checkCall_of_cons (lines : SourceLines) {call : Call} {first : Argument}
    {rest : List Argument} (harguments : call.arguments = first :: rest) :
    checkCall lines call = Scan.offense? lines call first
      { previous := rest.getLastD first
        otherLine := rest.any (·.start.line != first.start.line)
        tab := (lineOpeners call.arguments).any (lines.isTabIndented ·.start.line)
        mismatch :=
          (lineOpeners call.arguments).find? (·.start.column != first.start.column) } := by
  have hmultiline : call.isMultiline = rest.any (·.start.line != first.start.line) := by
    simp [Call.isMultiline, harguments]
  rw [checkCall, Call.verdict_of_cons lines harguments, hmultiline]
  unfold Scan.offense?
  dsimp only
  generalize (lineOpeners call.arguments).any _ = tab
  generalize (lineOpeners call.arguments).find? _ = mismatch
  generalize rest.any _ = otherLine
  generalize lines.isTabIndented _ = calleeTab
  by_cases hline : first.start.line = call.calleeStart.line
  · cases otherLine <;> cases calleeTab <;> cases tab <;> cases mismatch <;>
      simp [hline, Verdict.offense?]
  · simp [hline, Verdict.offense?]

theorem checkCall_eq_onePass (lines : SourceLines) (call : Call) :
    checkCall lines call = call.onePass lines := by
  unfold Call.onePass
  split
  · next hnil => simp [checkCall, Call.verdict, hnil, Verdict.offense?]
  · next first rest harguments =>
    rw [checkCall_of_cons lines harguments, Scan.foldl_step, harguments]
    simp [Scan.start]

/-! ## Top theorem -/

/-- A call is reported exactly when two of its arguments begin on different lines, the first stands
on the line where the call begins, neither that line nor one that an argument opens is
tab-indented, and an argument that opens a line is out of the first one's column; the report stands
at the one of these with the least place.  One pass over the arguments comes to the same. -/
theorem checkCall_exact (lines : SourceLines) (call : Call) :
    (∀ o, checkCall lines call = some o ↔ ∃ first rest, call.arguments = first :: rest ∧
      (∃ argument ∈ call.arguments, argument.start.line ≠ first.start.line) ∧
      first.start.line = call.calleeStart.line ∧
      lines.isTabIndented call.calleeStart.line = false ∧
      (∀ i argument, OpensLineAt call.arguments i argument →
        lines.isTabIndented argument.start.line = false) ∧
      ∃ i argument, OpensLineAt call.arguments i argument ∧
        argument.start.column ≠ first.start.column ∧
        (∀ j earlier, OpensLineAt call.arguments j earlier → j < i →
          earlier.start.column = first.start.column) ∧
        o = { severity := .convention, message := misalignedMessage, line := argument.start.line,
              column := argument.start.column }) ∧
    checkCall lines call = call.onePass lines := by
  refine ⟨fun o => ?_, checkCall_eq_onePass lines call⟩
  cases harguments : call.arguments with
  | nil => simp [checkCall, Call.verdict, harguments, Verdict.offense?]
  | cons first rest =>
    have hother : rest.any (·.start.line != first.start.line) = true ↔
        ∃ argument ∈ first :: rest, argument.start.line ≠ first.start.line := by
      simp
    have htab : (lineOpeners (first :: rest)).any (lines.isTabIndented ·.start.line) = false ↔
        ∀ i argument, OpensLineAt (first :: rest) i argument →
          lines.isTabIndented argument.start.line = false := by
      simp only [List.any_eq_false, mem_lineOpeners_iff_exists_place, Bool.not_eq_true]
      constructor
      · intro h i argument hi
        exact h argument ⟨i, hi⟩
      · rintro h argument ⟨i, hi⟩
        exact h i argument hi
    rw [checkCall_of_cons lines harguments, Scan.offense?_eq_some_iff, harguments]
    simp only [hother, htab, find?_lineOpeners_eq_some_iff, bne_iff_ne, bne_eq_false_iff_eq]
    constructor
    · rintro ⟨h₁, h₂, h₃, h₄, argument, ⟨i, hi, hcolumn, hleast⟩, rfl⟩
      exact ⟨first, rest, rfl, h₁, h₂, h₃, h₄, i, argument, hi, hcolumn, hleast, rfl⟩
    · rintro ⟨_, _, heq, h₁, h₂, h₃, h₄, i, argument, hi, hcolumn, hleast, rfl⟩
      cases heq
      exact ⟨h₁, h₂, h₃, h₄, argument, ⟨i, hi, hcolumn, hleast⟩, rfl⟩

end CallAlign

import CallAlign.Proofs.TabSuppression
import Mathlib.Data.List.SplitBy

/-!
# Braceless hashes

Pairs that follow one another make up one braceless hash.  A call in source order is checked as if
each such hash were a single pair, from the start of its first pair to the end of its last
(`mergePairs`).  The arguments that open a line begin at the same places then
(`map_start_lineOpeners_mergePairs`).  What can differ is whether the arguments begin on several
lines at all; but in source order an argument that opens a line begins below the first one
(`LinesInOrder.line_lt_of_mem_lineOpeners`), so where it differs there is nothing to report.

    checkCall_mergePairs : the pairs after the first of a hash do not matter
-/

namespace CallAlign

/-! ## Merging pairs -/

/-- Two neighbours of one braceless hash. -/
def bothPairs (previous argument : Argument) : Bool :=
  previous.kind == .pair && argument.kind == .pair

/-- From the start of the first argument of a run to the end of the last one. -/
def hull? : List Argument → Option Argument
  | [] => none
  | first :: rest => some { first with stop := (rest.getLastD first).stop }

/-- The arguments with every longest run of pairs made one pair; other arguments are runs of their
own. -/
def mergePairs (arguments : List Argument) : List Argument :=
  (arguments.splitBy bothPairs).filterMap hull?

def Call.mergePairs (call : Call) : Call :=
  { call with arguments := CallAlign.mergePairs call.arguments }

/-- The runs of a list that goes on. -/
theorem splitBy_cons_cons {α : Type} (r : α → α → Bool) (a b : α) (l : List α) :
    (a :: b :: l).splitBy r =
      if r a b then ((b :: l).splitBy r).modifyHead (a :: ·) else [a] :: (b :: l).splitBy r := by
  split
  · next h =>
    obtain ⟨hflat, hnil, hwithin, hbetween⟩ := List.splitBy_eq_iff.1 (rfl : (b :: l).splitBy r = _)
    generalize (b :: l).splitBy r = runs at hflat hnil hwithin hbetween ⊢
    cases runs with
    | nil => cases hflat
    | cons run runs =>
      cases run with
      | nil => exact absurd List.mem_cons_self hnil
      | cons c run =>
        obtain ⟨rfl, rfl⟩ : b = c ∧ l = run ++ runs.flatten := by simpa using hflat
        refine List.splitBy_eq_iff.2 ⟨rfl, ?_, ?_, ?_⟩
        · simpa using hnil
        · simp_all
        · cases runs with
          | nil => simp
          | cons next runs => simpa [List.isChain_cons_cons] using hbetween
  · next h => exact List.splitBy_append_cons (l := [a]) l (by simpa using h)

/-- Merging what follows an argument, and merging it too: a pair before a merged pair only moves its
start. -/
theorem mergePairs_cons_cons (previous argument : Argument) (rest : List Argument) :
    ∃ stop later, mergePairs (argument :: rest) = { argument with stop } :: later ∧
      mergePairs (previous :: argument :: rest) =
        if bothPairs previous argument then { previous with stop } :: later
        else previous :: { argument with stop } :: later := by
  obtain ⟨hflat, hnil, -⟩ :=
    List.splitBy_eq_iff.1 (rfl : (argument :: rest).splitBy bothPairs = _)
  unfold mergePairs
  rw [splitBy_cons_cons]
  generalize (argument :: rest).splitBy bothPairs = runs at hflat hnil ⊢
  cases runs with
  | nil => cases hflat
  | cons run runs =>
    cases run with
    | nil => exact absurd List.mem_cons_self hnil
    | cons first run =>
      obtain ⟨rfl, -⟩ : argument = first ∧ _ := by simpa using hflat
      refine ⟨(run.getLastD argument).stop, runs.filterMap hull?, rfl, ?_⟩
      cases bothPairs previous argument with
      | true =>
        have hhull : hull? (previous :: argument :: run) =
            some { previous with stop := (run.getLastD argument).stop } := by
          rw [hull?, List.getLastD_cons]
        exact List.filterMap_cons_some hhull
      | false => rfl

/-- Merging keeps the first argument but for its end. -/
theorem exists_mergePairs_cons (argument : Argument) (rest : List Argument) :
    ∃ stop later, mergePairs (argument :: rest) = { argument with stop } :: later := by
  obtain ⟨stop, later, h, -⟩ := mergePairs_cons_cons argument argument rest
  exact ⟨stop, later, h⟩

/-! ## What opens a line -/

/-- What comes after an argument opens lines by the kind and the end of that argument. -/
theorem lineOpeners_cons_congr {previous previous' : Argument} (rest : List Argument)
    (hkind : previous'.kind = previous.kind) (hstop : previous'.stop = previous.stop) :
    lineOpeners (previous' :: rest) = lineOpeners (previous :: rest) := by
  cases rest with
  | nil => rfl
  | cons argument rest =>
    have hopens : opensLine previous' argument = opensLine previous argument := by
      unfold opensLine
      rw [hkind, hstop]
    rw [lineOpeners_cons_cons, lineOpeners_cons_cons, hopens]

theorem kinds_of_bothPairs {previous argument : Argument}
    (h : bothPairs previous argument = true) :
    previous.kind = .pair ∧ argument.kind = .pair := by
  simpa [bothPairs] using h

/-- Merging pairs keeps the places at which arguments open a line. -/
theorem map_start_lineOpeners_mergePairs (arguments : List Argument) :
    (lineOpeners (mergePairs arguments)).map (·.start) =
      (lineOpeners arguments).map (·.start) := by
  induction arguments with
  | nil => rfl
  | cons previous rest ih =>
    cases rest with
    | nil => rfl
    | cons argument rest =>
      obtain ⟨stop, later, hrest, hmerge⟩ := mergePairs_cons_cons previous argument rest
      rw [hrest] at ih
      rw [hmerge, lineOpeners_cons_cons previous, List.map_append, ← ih]
      cases hpairs : bothPairs previous argument with
      | true =>
        -- the two pairs of one hash: the second opens no line, and what comes after sees the same
        obtain ⟨hprevious, hargument⟩ := kinds_of_bothPairs hpairs
        have hopens : opensLine previous argument = false := by
          simp [opensLine, hprevious, hargument]
        have hcongr : lineOpeners ({ previous with stop } :: later) =
            lineOpeners ({ argument with stop } :: later) :=
          lineOpeners_cons_congr later (hprevious.trans hargument.symm) rfl
        simp [hopens, hcongr]
      | false =>
        have hopens : opensLine previous { argument with stop } = opensLine previous argument := rfl
        simp only [Bool.false_eq_true, if_false]
        rw [lineOpeners_cons_cons, hopens, List.map_append]
        cases opensLine previous argument <;> rfl

/-! ## Source order -/

/-- The lines of arguments in the order of a text: none ends above its start, and none starts above
the end of the one before. -/
structure LinesInOrder (arguments : List Argument) : Prop where
  ordered : ∀ a ∈ arguments, a.start.line ≤ a.stop.line
  inTurn : arguments.IsChain fun a b => a.stop.line ≤ b.start.line

theorem linesInOrder_cons_cons {previous argument : Argument} {rest : List Argument} :
    LinesInOrder (previous :: argument :: rest) ↔
      previous.start.line ≤ previous.stop.line ∧ previous.stop.line ≤ argument.start.line ∧
        LinesInOrder (argument :: rest) := by
  constructor
  · rintro ⟨hordered, hturn⟩
    obtain ⟨hprevious, hordered⟩ := List.forall_mem_cons.1 hordered
    obtain ⟨hnext, hturn⟩ := List.isChain_cons_cons.1 hturn
    exact ⟨hprevious, hnext, hordered, hturn⟩
  · rintro ⟨hprevious, hnext, hordered, hturn⟩
    exact ⟨List.forall_mem_cons.2 ⟨hprevious, hordered⟩, List.isChain_cons_cons.2 ⟨hnext, hturn⟩⟩

/-- The first argument may begin further up. -/
theorem LinesInOrder.extend {argument argument' : Argument} {rest : List Argument}
    (h : LinesInOrder (argument :: rest)) (hstop : argument'.stop = argument.stop)
    (hstart : argument'.start.line ≤ argument.start.line) : LinesInOrder (argument' :: rest) := by
  obtain ⟨hargument, hordered⟩ := List.forall_mem_cons.1 h.ordered
  refine ⟨List.forall_mem_cons.2 ⟨?_, hordered⟩, ?_⟩
  · rw [hstop]
    omega
  · have hturn := h.inTurn
    rw [List.isChain_cons] at hturn ⊢
    rwa [hstop]

theorem LinesInOrder.mergePairs {arguments : List Argument} (h : LinesInOrder arguments) :
    LinesInOrder (mergePairs arguments) := by
  induction arguments with
  | nil => exact h
  | cons previous rest ih =>
    cases rest with
    | nil => exact h
    | cons argument rest =>
      obtain ⟨hprevious, hnext, hrest⟩ := linesInOrder_cons_cons.1 h
      obtain ⟨stop, later, hmerged, hmerge⟩ := mergePairs_cons_cons previous argument rest
      have ih := ih hrest
      rw [hmerged] at ih
      rw [hmerge]
      split
      · exact ih.extend rfl (Int.le_trans hprevious hnext)
      · exact linesInOrder_cons_cons.2 ⟨hprevious, hnext, ih⟩

/-- In source order, an argument that opens a line begins below the first one. -/
theorem LinesInOrder.line_lt_of_mem_lineOpeners {first argument : Argument} {rest : List Argument}
    (h : LinesInOrder (first :: rest)) (hopener : argument ∈ lineOpeners (first :: rest)) :
    first.start.line < argument.start.line := by
  induction rest generalizing first with
  | nil => cases hopener
  | cons next rest ih =>
    obtain ⟨hfirst, hnext, hrest⟩ := linesInOrder_cons_cons.1 h
    rw [lineOpeners_cons_cons, List.mem_append] at hopener
    rcases hopener with hopener | hopener
    · split at hopener
      · next hopens =>
        obtain rfl := List.mem_singleton.1 hopener
        have := (opensLine_iff.1 hopens).1
        omega
      · cases hopener
    · have := ih hrest hopener
      omega

theorem isMultiline_of_lineOpeners {call : Call} (h : LinesInOrder call.arguments)
    (hopeners : lineOpeners call.arguments ≠ []) : call.isMultiline = true := by
  obtain ⟨argument, hopener⟩ := List.exists_mem_of_ne_nil _ hopeners
  obtain ⟨before, previous, after, hsplit, -⟩ := (mem_lineOpeners_iff _).1 hopener
  have hmem : argument ∈ call.arguments := by simp [hsplit]
  cases harguments : call.arguments with
  | nil => simp [harguments] at hmem
  | cons first rest =>
    rw [harguments] at h hopener hmem
    have hlt := h.line_lt_of_mem_lineOpeners hopener
    rw [Call.isMultiline, harguments]
    exact List.any_eq_true.2 ⟨argument, hmem, by simpa using (Int.ne_of_gt hlt)⟩

/-! ## The check -/

section

variable {lines : SourceLines} {call call' : Call}

theorem checkCall_of_no_lineOpeners (h : lineOpeners call.arguments = []) :
    checkCall lines call = none := by
  refine Option.eq_none_iff_forall_ne_some.2 fun o ho => ?_
  obtain ⟨argument, hopener, -⟩ := exists_lineOpener_of_checkCall ho
  rw [h] at hopener
  cases hopener

/-- Of the arguments the check sees whether there are several lines, where the first begins, and
where those begin that open a line. -/
theorem checkCall_congr_starts {first first' : Argument} {rest rest' : List Argument}
    (harguments : call.arguments = first :: rest)
    (harguments' : call'.arguments = first' :: rest')
    (hcallee : call'.calleeStart = call.calleeStart) (hfirst : first'.start = first.start)
    (hmultiline : call'.isMultiline = call.isMultiline)
    (hstarts : (lineOpeners call'.arguments).map (·.start) =
      (lineOpeners call.arguments).map (·.start)) :
    checkCall lines call' = checkCall lines call := by
  have hany : (lineOpeners call'.arguments).any (lines.isTabIndented ·.start.line) =
      (lineOpeners call.arguments).any (lines.isTabIndented ·.start.line) := by
    have h := congrArg (List.any · (lines.isTabIndented ·.line)) hstarts
    rwa [List.any_map, List.any_map] at h
  have hfind : ((lineOpeners call'.arguments).find? (·.start.column != first.start.column)).map
        (·.start) =
      ((lineOpeners call.arguments).find? (·.start.column != first.start.column)).map
        (·.start) := by
    have h := congrArg (List.find? (·.column != first.start.column)) hstarts
    rwa [List.find?_map, List.find?_map] at h
  have helim (found : Option Argument) : found.elim Verdict.clean (.misaligned ·.start) =
      (found.map (·.start)).elim .clean .misaligned := by cases found <;> rfl
  unfold checkCall
  rw [Call.verdict_of_cons lines harguments', Call.verdict_of_cons lines harguments, helim, helim,
    hcallee, hfirst, hmultiline, hany, hfind]

theorem checkCall_mergePairs_of_linesInOrder (h : LinesInOrder call.arguments) :
    checkCall lines call.mergePairs = checkCall lines call := by
  have hstarts := map_start_lineOpeners_mergePairs call.arguments
  have hempty : lineOpeners (mergePairs call.arguments) = [] ↔
      lineOpeners call.arguments = [] := by
    rw [← List.map_eq_nil_iff (f := (·.start)), hstarts, List.map_eq_nil_iff]
  by_cases hopeners : lineOpeners call.arguments = []
  · rw [checkCall_of_no_lineOpeners hopeners, checkCall_of_no_lineOpeners (hempty.2 hopeners)]
  · have hmultiline : call.mergePairs.isMultiline = call.isMultiline := by
      rw [isMultiline_of_lineOpeners h hopeners]
      exact isMultiline_of_lineOpeners h.mergePairs (mt hempty.1 hopeners)
    cases harguments : call.arguments with
    | nil => exact absurd (by rw [harguments]; rfl) hopeners
    | cons first rest =>
      obtain ⟨stop, later, hmerged⟩ := exists_mergePairs_cons first rest
      rw [← harguments] at hmerged
      exact checkCall_congr_starts harguments hmerged rfl rfl hmultiline hstarts

end

/-! ## Top theorem -/

/-- A call whose arguments come in source order is checked as if every longest run of pairs were one
pair, from the start of the first to the end of the last.  So the call keeps its offense, or has
none still, when the later pairs of a run are laid out in another way, on whatever lines, and
whatever tabs indent these. -/
theorem checkCall_mergePairs (lines : SourceLines) (call : Call)
    (horder : LinesInOrder call.arguments) :
    checkCall lines call.mergePairs = checkCall lines call ∧
      ∀ (lines' : SourceLines) (call' : Call), call'.calleeStart = call.calleeStart →
        LinesInOrder call'.arguments → mergePairs call'.arguments = mergePairs call.arguments →
        call.mergePairs.TabsAgree lines lines' →
        checkCall lines' call' = checkCall lines call := by
  have hmerged : checkCall lines call.mergePairs = checkCall lines call :=
    checkCall_mergePairs_of_linesInOrder horder
  refine ⟨hmerged, fun lines' call' hcallee horder' harguments htabs => ?_⟩
  calc checkCall lines' call'
      = checkCall lines' call'.mergePairs :=
        (checkCall_mergePairs_of_linesInOrder horder').symm
    _ = checkCall lines' call.mergePairs := checkCall_congr lines' hcallee harguments
    _ = checkCall lines call.mergePairs := checkCall_eq_of_tabsAgree htabs
    _ = checkCall lines call := hmerged

/-- `f(x, a: 1,`, then `b: [` and `],` on lines of their own, and ` *y)`. -/
def hashCall : Call :=
  { methodName := "f", calleeStart := ⟨1, 0⟩, span := ⟨⟨1, 0⟩, ⟨4, 4⟩⟩, usesParens := true,
    openParen := some ⟨1, 1⟩,
    arguments := [⟨.value, ⟨1, 2⟩, ⟨1, 3⟩⟩, ⟨.pair, ⟨1, 5⟩, ⟨1, 9⟩⟩, ⟨.pair, ⟨2, 0⟩, ⟨3, 1⟩⟩,
      ⟨.splat, ⟨4, 1⟩, ⟨4, 3⟩⟩] }

/-- `hashCall` with three pairs where the later two are: `b: 2` with a tab before it, and `c: [`. -/
def hashCallRelaid : Call :=
  { hashCall with
    arguments := [⟨.value, ⟨1, 2⟩, ⟨1, 3⟩⟩, ⟨.pair, ⟨1, 5⟩, ⟨1, 9⟩⟩, ⟨.pair, ⟨2, 1⟩, ⟨2, 5⟩⟩,
      ⟨.pair, ⟨2, 7⟩, ⟨3, 1⟩⟩, ⟨.splat, ⟨4, 1⟩, ⟨4, 3⟩⟩] }

def relaidText : List Char := "f(x, a: 1,\n\tb: 2, c: [\n],\n *y)\n".toList

/-- The splat of `hashCall` is out of line, the second pair is not asked for, nor are those that
stand in its place. -/
theorem checkCall_mergePairs_hashCall :
    LinesInOrder hashCall.arguments ∧
      mergePairs hashCall.arguments = [⟨.value, ⟨1, 2⟩, ⟨1, 3⟩⟩, ⟨.pair, ⟨1, 5⟩, ⟨3, 1⟩⟩,
        ⟨.splat, ⟨4, 1⟩, ⟨4, 3⟩⟩] ∧
      checkCall (.ofText []) hashCall = some ⟨.convention, misalignedMessage, 4, 1⟩ ∧
      checkCall (.ofText []) hashCall.mergePairs = checkCall (.ofText []) hashCall ∧
      (SourceLines.ofText relaidText).isTabIndented 2 = true ∧
      checkCall (.ofText relaidText) hashCallRelaid = checkCall (.ofText []) hashCall := by
  have horder : LinesInOrder hashCall.arguments := ⟨by decide, by decide⟩
  have horder' : LinesInOrder hashCallRelaid.arguments := ⟨by decide, by decide⟩
  have hmerge := checkCall_mergePairs (.ofText []) hashCall horder
  exact ⟨horder, by decide, by decide, hmerge.1, by decide,
    hmerge.2 (.ofText relaidText) hashCallRelaid rfl horder' (by decide) (by decide)⟩

end CallAlign

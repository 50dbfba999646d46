import CallAlign.Call
import CallAlign.Offense

/-!
# Alignment of call arguments

The rule: when the arguments of a call span several lines and the first one stands on the line
where the call begins, every argument that opens a line of the list has the column of the first.

- An argument opens a line when it starts below the end of the argument before it.  Two pairs in a
  row belong to one braceless hash, so the second of them opens no line.
- A tab in the indentation of the call's line, or of a line that an argument opens, leaves columns
  without a meaning: the call is passed over.

    sortOffenses_perm : sorting the offenses of a file neither drops nor adds one
-/

namespace CallAlign

def copName : String := "Layout/AlignParameters"

def misalignedMessage : String :=
  "Align the parameters of a method call if they span more than one line."

/-! ## One call -/

/-- `argument` opens a line of the argument list in which it follows `previous`. -/
def opensLine (previous argument : Argument) : Bool :=
  previous.stop.line < argument.start.line &&
    !(previous.kind == .pair && argument.kind == .pair)

/-- The arguments that open a line. -/
def lineOpeners : List Argument → List Argument
  | previous :: argument :: rest =>
    if opensLine previous argument then argument :: lineOpeners (argument :: rest)
    else lineOpeners (argument :: rest)
  | _ => []

/-- What the check finds for a call. -/
inductive Verdict where
  | clean
  | tabIndented
  | misaligned (first : Position)
  deriving DecidableEq, Repr

/-- The offense of a misaligned call stands at the first argument out of line. -/
def Verdict.offense? : Verdict → Option Offense
  | misaligned p =>
    some { severity := .convention, message := misalignedMessage, line := p.line,
           column := p.column }
  | _ => none

def Call.verdict (lines : SourceLines) (call : Call) : Verdict :=
  match call.arguments with
  | [] => .clean
  | first :: _ =>
    if !call.isMultiline || first.start.line != call.calleeStart.line then .clean
    else
      let openers := lineOpeners call.arguments
      if lines.anyTabIndented call.calleeStart.line first.start.line ||
          openers.any (lines.isTabIndented ·.start.line) then .tabIndented
      else
        match openers.find? (·.start.column != first.start.column) with
        | none => .clean
        | some argument => .misaligned argument.start

/-- The offense of a call, `none` when it is aligned or exempt. -/
def checkCall (lines : SourceLines) (call : Call) : Option Offense :=
  (call.verdict lines).offense?

/-! ## A whole tree -/

/-- The offenses in order of position; those at one position keep their places. -/
def sortOffenses (offenses : List Offense) : List Offense :=
  offenses.mergeSort Offense.positionLE

/-- All offenses of a tree, in order of position. -/
def inspect (root : SyntaxTree Extent) (lines : SourceLines) : List Offense :=
  sortOffenses ((callSites root).filterMap (checkCall lines))

/-- The calls of a tree that tabs exempt, in the order of the tree. -/
def tabExempt (root : SyntaxTree Extent) (lines : SourceLines) : List Call :=
  (callSites root).filter fun call => call.verdict lines == .tabIndented

/-! ## Lemmas -/

theorem positionLE_total (a b : Offense) : (a.positionLE b || b.positionLE a) = true := by
  rw [Bool.or_eq_true, Offense.positionLE_iff, Offense.positionLE_iff]
  omega

theorem positionLE_trans (a b c : Offense) (hab : a.positionLE b = true)
    (hbc : b.positionLE c = true) : a.positionLE c = true := by
  rw [Offense.positionLE_iff] at *
  omega

theorem sortOffenses_perm (offenses : List Offense) :
    (sortOffenses offenses).Perm offenses :=
  List.mergeSort_perm _ _

theorem pairwise_sortOffenses (offenses : List Offense) :
    (sortOffenses offenses).Pairwise fun a b => a.positionLE b = true :=
  List.pairwise_mergeSort positionLE_trans positionLE_total offenses

end CallAlign

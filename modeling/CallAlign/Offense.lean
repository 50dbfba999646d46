/-!
# Offenses

An offense is a rule broken at a position; a file offense adds the file and the cop that reports
it.  File offenses are ordered by path, line, column and cop, paths and cops by code points.
-/

namespace CallAlign

/-! ## Severities -/

inductive Severity where
  | refactor
  | convention
  | warning
  | error
  | fatal
  deriving DecidableEq, Repr

namespace Severity

def name : Severity → String
  | refactor => "refactor"
  | convention => "convention"
  | warning => "warning"
  | error => "error"
  | fatal => "fatal"

def all : List Severity := [refactor, convention, warning, error, fatal]

def ofName? (s : String) : Option Severity := all.find? (·.name == s)

/-- The letter that stands for a severity in a report. -/
def code : Severity → String
  | refactor => "R"
  | convention => "C"
  | warning => "W"
  | error => "E"
  | fatal => "F"

end Severity

/-! ## The order of names -/

/-- Text order by code points: a text comes before its extensions. -/
def codePointLE : List Char → List Char → Bool
  | [], _ => true
  | _ :: _, [] => false
  | a :: as, b :: bs => a.toNat < b.toNat || (a == b && codePointLE as bs)

/-! ## Offenses -/

structure Offense where
  severity : Severity
  message : String
  line : Int
  column : Int
  deriving DecidableEq, Repr

/-- An integer in at least three places, filled with spaces on the left. -/
def padded (n : Int) : String :=
  String.ofList ((toString n).toList.leftpad 3 ' ')

/-- The short form of an offense: severity letter, line and message. -/
def Offense.text (o : Offense) : String :=
  o.severity.code ++ ":" ++ padded o.line ++ ": " ++ o.message

/-- Line first, then column. -/
def Offense.positionLE (a b : Offense) : Bool :=
  a.line < b.line || (a.line == b.line && a.column ≤ b.column)

structure FileOffense where
  path : String
  cop : String
  severity : Severity
  line : Int
  column : Int
  message : String
  deriving DecidableEq, Repr

def FileOffense.ofOffense (path cop : String) (o : Offense) : FileOffense :=
  { path, cop, severity := o.severity, line := o.line, column := o.column, message := o.message }

/-- The order of a report: path, line, column, cop. -/
def FileOffense.reportLE (a b : FileOffense) : Bool :=
  if a.path != b.path then codePointLE a.path.toList b.path.toList
  else if a.line != b.line then a.line ≤ b.line
  else if a.column != b.column then a.column ≤ b.column
  else codePointLE a.cop.toList b.cop.toList

/-! ## Lemmas -/

theorem Offense.positionLE_iff (a b : Offense) :
    a.positionLE b = true ↔ a.line < b.line ∨ a.line = b.line ∧ a.column ≤ b.column := by
  simp [positionLE]

theorem codePointLE_total (s t : List Char) : (codePointLE s t || codePointLE t s) = true := by
  induction s generalizing t with
  | nil => simp [codePointLE]
  | cons a as ih =>
    cases t with
    | nil => simp [codePointLE]
    | cons b bs =>
      have := ih bs
      simp only [codePointLE, Bool.or_eq_true, Bool.and_eq_true, decide_eq_true_eq, beq_iff_eq]
        at this ⊢
      rcases Nat.lt_trichotomy a.toNat b.toNat with h | h | h
      · exact .inl (.inl h)
      · have hab : a = b := by rw [← Char.ofNat_toNat a, h, Char.ofNat_toNat]
        subst hab
        simpa using this
      · exact .inr (.inl h)

theorem codePointLE_trans (s t u : List Char) (hst : codePointLE s t = true)
    (htu : codePointLE t u = true) : codePointLE s u = true := by
  induction s generalizing t u with
  | nil => simp [codePointLE]
  | cons a as ih =>
    cases t with
    | nil => simp [codePointLE] at hst
    | cons b bs =>
      cases u with
      | nil => simp [codePointLE] at htu
      | cons c cs =>
        simp only [codePointLE, Bool.or_eq_true, Bool.and_eq_true, decide_eq_true_eq,
          beq_iff_eq] at hst htu ⊢
        rcases hst with h | ⟨rfl, h⟩ <;> rcases htu with h' | ⟨rfl, h'⟩
        · left; omega
        · exact .inl h
        · exact .inl h'
        · exact .inr ⟨rfl, ih bs cs h h'⟩

theorem codePointLE_antisymm (s t : List Char) (hst : codePointLE s t = true)
    (hts : codePointLE t s = true) : s = t := by
  induction s generalizing t with
  | nil => cases t with
    | nil => rfl
    | cons b bs => simp [codePointLE] at hts
  | cons a as ih =>
    cases t with
    | nil => simp [codePointLE] at hst
    | cons b bs =>
      simp only [codePointLE, Bool.or_eq_true, Bool.and_eq_true, decide_eq_true_eq,
        beq_iff_eq] at hst hts
      rcases hst with h | ⟨rfl, h⟩ <;> rcases hts with h' | ⟨h₂, h'⟩
      · omega
      · subst h₂; omega
      · omega
      · rw [ih bs h h']

end CallAlign

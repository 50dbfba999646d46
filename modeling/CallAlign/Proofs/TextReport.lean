import CallAlign.Proofs.JsonText
import CallAlign.Proofs.OffensePositions
import CallAlign.Report

/-!
# Reading a text report back

A text report tells what it reports.  Its lines are of three kinds (`ReportLine`), told apart by
their last characters.  A line about a file begins with a path, which may hold anything but a line
feed, so that such a line is read from its right end: behind the path stand words that are always
the same and numbers, which hold no colon.  The summary, which begins with a number, is read from
its left end.

    ReportLine.text_injective : what a line says can be read from it
    text_tells_result         : two reports are alike when the results are
-/

namespace CallAlign

/-! ## Definitions -/

/-- The offense of the alignment check at a position of a file. -/
def offenseAt (path : String) (line column : Int) : FileOffense :=
  { path, cop := copName, severity := .convention, line, column, message := misalignedMessage }

/-- The offense is one of the alignment check: name, severity and message are those of its cop. -/
def FileOffense.OfCop (o : FileOffense) : Prop :=
  o.cop = copName ∧ o.severity = .convention ∧ o.message = misalignedMessage

/-- All offenses are of the alignment check, and no path that is reported holds a line feed. -/
structure RunResult.OnLines (r : RunResult) : Prop where
  ofCop : ∀ o ∈ r.offenses, o.OfCop
  paths : ∀ o ∈ r.offenses, '\n' ∉ o.path.toList
  skipped : ∀ path ∈ r.skipped, '\n' ∉ path.toList

instance (o : FileOffense) : Decidable o.OfCop :=
  inferInstanceAs (Decidable (o.cop = copName ∧ o.severity = .convention ∧
    o.message = misalignedMessage))

instance (r : RunResult) : Decidable r.OnLines :=
  decidable_of_iff ((∀ o ∈ r.offenses, o.OfCop) ∧ (∀ o ∈ r.offenses, '\n' ∉ o.path.toList) ∧
      ∀ path ∈ r.skipped, '\n' ∉ path.toList)
    ⟨fun h => ⟨h.1, h.2.1, h.2.2⟩, fun h => ⟨h.ofCop, h.paths, h.skipped⟩⟩

/-- What a line of a text report says. -/
inductive ReportLine where
  | offense (path : String) (line column : Int)
  | skipped (path : String)
  | summary (files offenses : Nat)

namespace ReportLine

def text : ReportLine → String
  | offense path line column => (offenseAt path line column).text
  | skipped path => skippedText path
  | summary files offenses =>
    counted files "file" ++ " inspected, " ++ counted offenses "offense" ++ " detected"

/-- The character with which lines of a kind end. -/
def lastChar : ReportLine → Char
  | offense _ _ _ => '.'
  | skipped _ => ')'
  | summary _ _ => 'd'

/-- The offense that a line tells of. -/
def offense? : ReportLine → Option FileOffense
  | offense path line column => some (offenseAt path line column)
  | _ => none

/-- The file that a line tells to have been passed over. -/
def skipped? : ReportLine → Option String
  | skipped path => some path
  | _ => none

theorem getLast?_text (l : ReportLine) : l.text.toList.getLast? = some l.lastChar := by
  have hlast (front back : String) {c : Char} (hback : back.toList.getLast? = some c) :
      (front ++ back).toList.getLast? = some c := by
    rw [String.toList_append, List.getLast?_append, hback, Option.some_or]
  cases l with
  | offense path line column => exact hlast (c := '.') _ misalignedMessage (by decide)
  | skipped path =>
    exact hlast (c := ')') path ": skipped (unreadable or syntax error)" (by decide)
  | summary files offenses => exact hlast (c := 'd') _ " detected" (by decide)

end ReportLine

/-! ## Lines from the right -/

/-- The last colon of a text is found where no colon follows. -/
theorem append_colon_inj {l l' r r' : List Char} (hr : ':' ∉ r) (hr' : ':' ∉ r')
    (h : l ++ ':' :: r = l' ++ ':' :: r') : l = l' ∧ r = r' := by
  rcases List.append_eq_append_iff.1 h with ⟨between, hl, hrest⟩ | ⟨between, hl, hrest⟩
  · cases between with
    | nil => exact ⟨by simpa using hl.symm, (List.cons.inj hrest).2⟩
    | cons c between => exact absurd (by simp [(List.cons.inj hrest).2]) hr
  · cases between with
    | nil => exact ⟨by simpa using hl, (List.cons.inj hrest).2.symm⟩
    | cons c between => exact absurd (by simp [(List.cons.inj hrest).2]) hr'

theorem notMem_toString {c : Char} (hc : Json.isNumeral c = false) (n : Int) :
    c ∉ (toString n).toList := by
  intro hmem
  rw [Json.isNumeral_of_mem_toString hmem] at hc
  cases hc

/-- A number behind the last colon is read in one way. -/
theorem append_colon_toString_inj {l l' : List Char} {n n' : Int}
    (h : l ++ ':' :: (toString n).toList = l' ++ ':' :: (toString n').toList) :
    l = l' ∧ n = n' := by
  have hcolon : ∀ m : Int, ':' ∉ (toString m).toList := notMem_toString rfl
  obtain ⟨hl, hn⟩ := append_colon_inj (hcolon n) (hcolon n') h
  exact ⟨hl, Json.eq_of_toString_eq (String.toList_inj.1 hn)⟩

theorem offenseAt_text_inj {path path' : String} {line line' column column' : Int}
    (h : (offenseAt path line column).text = (offenseAt path' line' column').text) :
    path = path' ∧ line = line' ∧ column = column' := by
  have hplace (path : String) (line column : Int) : (offenseAt path line column).text.toList =
      (path.toList ++ ':' :: (toString line).toList) ++ ':' :: (toString (column + 1)).toList ++
        (": C: " ++ misalignedMessage).toList := by
    have hcode : Severity.convention.code = "C" := rfl
    simp [offenseAt, FileOffense.text, hcode]
  have h := congrArg String.toList h
  rw [hplace, hplace] at h
  obtain ⟨hfront, hcolumn⟩ := append_colon_toString_inj (List.append_cancel_right h)
  obtain ⟨hpath, hline⟩ := append_colon_toString_inj hfront
  exact ⟨String.toList_inj.1 hpath, hline, by omega⟩

theorem skippedText_inj {path path' : String} (h : skippedText path = skippedText path') :
    path = path' := by
  have h := congrArg String.toList h
  unfold skippedText at h
  rw [String.toList_append, String.toList_append] at h
  exact String.toList_inj.1 (List.append_cancel_right h)

/-! ## Counts -/

/-- A count at the front of a text is read in one way. -/
theorem counted_append_inj {thing r r' : String} {n n' : Nat}
    (h : counted n thing ++ r = counted n' thing ++ r') : n = n' ∧ r = r' := by
  have hends (text : String) : Json.EndsNumeral (" " ++ text).toList := by
    rw [String.toList_append]
    exact Json.endsNumeral_cons (c := ' ') rfl text.toList
  have hcounted (n : Nat) (r : String) : (counted n thing ++ r).toList =
      (toString (n : Int)).toList ++
        (" " ++ ((if n = 1 then thing else thing ++ "s") ++ r)).toList := by
    have hn : toString (n : Int) = toString n := rfl
    rw [counted, hn, ← String.toList_append, String.append_assoc, String.append_assoc]
  have hlist := congrArg String.toList h
  rw [hcounted, hcounted] at hlist
  have hn := (Json.toString_append_inj (hends _) (hends _) hlist).1
  obtain rfl : n = n' := Int.ofNat.inj hn
  exact ⟨rfl, (String.append_right_inj _).1 h⟩

theorem summary_inj {files files' offenses offenses' : Nat}
    (h : (ReportLine.summary files offenses).text = (ReportLine.summary files' offenses').text) :
    files = files' ∧ offenses = offenses' := by
  unfold ReportLine.text at h
  simp only [String.append_assoc] at h
  obtain ⟨hfiles, h⟩ := counted_append_inj h
  obtain ⟨hoffenses, -⟩ := counted_append_inj ((String.append_right_inj _).1 h)
  exact ⟨hfiles, hoffenses⟩

/-- What a line says can be read from it. -/
theorem ReportLine.text_injective {l l' : ReportLine} (h : l.text = l'.text) : l = l' := by
  have hlast : some l.lastChar = some l'.lastChar := by
    rw [← getLast?_text, ← getLast?_text, h]
  cases l with
  | offense path line column =>
    cases l' with
    | offense path' line' column' =>
      obtain ⟨rfl, rfl, rfl⟩ := offenseAt_text_inj h
      rfl
    | _ => simp [lastChar] at hlast
  | skipped path =>
    cases l' with
    | skipped path' =>
      obtain rfl := skippedText_inj h
      rfl
    | _ => simp [lastChar] at hlast
  | summary files offenses =>
    cases l' with
    | summary files' offenses' =>
      obtain ⟨rfl, rfl⟩ := summary_inj h
      rfl
    | _ => simp [lastChar] at hlast

/-! ## Line feeds -/

theorem lineFeed_notMem_append {s t : String} :
    '\n' ∉ (s ++ t).toList ↔ '\n' ∉ s.toList ∧ '\n' ∉ t.toList := by
  rw [String.toList_append, List.mem_append, not_or]

theorem lineFeed_notMem_toString (n : Int) : '\n' ∉ (toString n).toList := notMem_toString rfl n

theorem lineFeed_notMem_counted {n : Nat} {thing : String} (h : '\n' ∉ thing.toList) :
    '\n' ∉ (counted n thing).toList := by
  have hn : '\n' ∉ (toString n).toList := lineFeed_notMem_toString n
  unfold counted
  rw [lineFeed_notMem_append, lineFeed_notMem_append]
  refine ⟨⟨hn, by decide⟩, ?_⟩
  split
  · exact h
  · exact lineFeed_notMem_append.2 ⟨h, by decide⟩

theorem lineFeed_notMem_offenseAt {path : String} (h : '\n' ∉ path.toList) (line column : Int) :
    '\n' ∉ (offenseAt path line column).text.toList := by
  unfold FileOffense.text offenseAt
  simp only [lineFeed_notMem_append]
  exact ⟨⟨⟨⟨⟨⟨⟨⟨h, by decide⟩, lineFeed_notMem_toString line⟩, by decide⟩,
    lineFeed_notMem_toString (column + 1)⟩, by decide⟩, by decide⟩, by decide⟩, by decide⟩

/-! ## Reports -/

/-- What the lines of the report of a result say. -/
def RunResult.reportLines (r : RunResult) : List ReportLine :=
  r.offenses.map (fun o => .offense o.path o.line o.column) ++ r.skipped.map .skipped ++
    [.summary r.inspected.length r.offenses.length]

theorem FileOffense.OfCop.eq_offenseAt {o : FileOffense} (h : o.OfCop) :
    o = offenseAt o.path o.line o.column := by
  obtain ⟨hcop, hseverity, hmessage⟩ := h
  cases o
  simp_all [offenseAt]

section

variable {r r' : RunResult}

theorem RunResult.OnLines.text_eq (h : r.OnLines) :
    r.text = "\n".intercalate (r.reportLines.map ReportLine.text) ++ "\n" := by
  have hoffenses : r.offenses.map FileOffense.text =
      r.offenses.map fun o => (offenseAt o.path o.line o.column).text :=
    List.map_congr_left fun o ho => congrArg FileOffense.text (h.ofCop o ho).eq_offenseAt
  unfold RunResult.text RunResult.reportLines
  rw [hoffenses]
  simp [ReportLine.text, RunResult.summary, Function.comp_def]

/-- No line of a report goes on behind a line feed. -/
theorem RunResult.OnLines.lineFeed_notMem (h : r.OnLines) :
    ∀ row ∈ r.reportLines.map (String.toList ∘ ReportLine.text), '\n' ∉ row := by
  intro row hrow
  obtain ⟨l, hl, rfl⟩ := List.mem_map.1 hrow
  unfold reportLines at hl
  rw [List.mem_append, List.mem_append, List.mem_map, List.mem_map, List.mem_singleton] at hl
  rcases hl with (⟨o, ho, rfl⟩ | ⟨path, hpath, rfl⟩) | rfl
  · exact lineFeed_notMem_offenseAt (h.paths o ho) o.line o.column
  · exact lineFeed_notMem_append.2 ⟨h.skipped path hpath, by decide⟩
  · show '\n' ∉ (_ ++ _ ++ _ ++ _ : String).toList
    rw [lineFeed_notMem_append, lineFeed_notMem_append, lineFeed_notMem_append]
    exact ⟨⟨⟨lineFeed_notMem_counted (by decide), by decide⟩, lineFeed_notMem_counted (by decide)⟩,
      by decide⟩

/-- The lines of a report can be read from it. -/
theorem reportLines_eq_of_text_eq (h : r.OnLines) (h' : r'.OnLines) (htext : r.text = r'.text) :
    r.reportLines = r'.reportLines := by
  have hrows {r : RunResult} (h : r.OnLines) :
      r.text.toList = ['\n'].intercalate (r.reportLines.map (String.toList ∘ ReportLine.text)) ++
        ['\n'] := by
    rw [h.text_eq, String.toList_append, String.toList_intercalate, List.map_map]
    rfl
  have hlist := congrArg String.toList htext
  rw [hrows h, hrows h'] at hlist
  have hsplit := congrArg (List.splitOn '\n') (List.append_cancel_right hlist)
  rw [List.splitOn_intercalate _ h.lineFeed_notMem (by simp [RunResult.reportLines]),
    List.splitOn_intercalate _ h'.lineFeed_notMem (by simp [RunResult.reportLines])] at hsplit
  exact List.map_injective_iff.2
    (fun l l' heq => ReportLine.text_injective (String.toList_inj.1 heq)) hsplit

/-- What the lines of a report say is the result, but for the names of the files inspected. -/
theorem eq_of_reportLines_eq (h : r.OnLines) (h' : r'.OnLines)
    (hlines : r.reportLines = r'.reportLines) :
    r.offenses = r'.offenses ∧ r.skipped = r'.skipped ∧
      r.inspected.length = r'.inspected.length := by
  have hoffenses {r : RunResult} (h : r.OnLines) :
      r.reportLines.filterMap ReportLine.offense? = r.offenses := by
    have heach : r.offenses.map (fun o => offenseAt o.path o.line o.column) = r.offenses.map id :=
      List.map_congr_left fun o ho => (h.ofCop o ho).eq_offenseAt.symm
    rw [List.map_id] at heach
    simp [RunResult.reportLines, List.filterMap_map, Function.comp_def, ReportLine.offense?, heach]
  have hskipped (r : RunResult) : r.reportLines.filterMap ReportLine.skipped? = r.skipped := by
    simp [RunResult.reportLines, List.filterMap_map, Function.comp_def, ReportLine.skipped?]
  have hlast : some (ReportLine.summary r.inspected.length r.offenses.length) =
      some (.summary r'.inspected.length r'.offenses.length) := by
    have hlast := congrArg List.getLast? hlines
    unfold RunResult.reportLines at hlast
    rwa [List.getLast?_concat, List.getLast?_concat] at hlast
  refine ⟨?_, ?_, ?_⟩
  · rw [← hoffenses h, ← hoffenses h', hlines]
  · rw [← hskipped r, ← hskipped r', hlines]
  · simp only [Option.some.injEq, ReportLine.summary.injEq] at hlast
    exact hlast.1

end

/-- What a run finds can be read from its report when no file that it names has a line feed in its
name. -/
theorem onLines_of_run {ε : Type} {ignore : IgnoreReader ε} {parse : Parser} {fs : FileSystem}
    {root : Path} {config : Config} {jobs : Int} {r : Run}
    (hrun : run ignore parse fs root config jobs = .ok r)
    (hinspected : ∀ path ∈ r.result.inspected, '\n' ∉ path.toList)
    (hskipped : ∀ path ∈ r.result.skipped, '\n' ∉ path.toList) : r.result.OnLines where
  ofCop := by
    intro o ho
    obtain ⟨file, ho, -⟩ := exists_file_of_mem_offenses hrun ho
    obtain ⟨bytes, offense, hoffense, heq⟩ := exists_bytes_of_mem_inspectFile ho
    rw [inspect, (sortOffenses_perm _).mem_iff, List.mem_filterMap] at hoffense
    obtain ⟨call, -, hcheck⟩ := hoffense
    rw [heq]
    exact ⟨rfl, severity_message_of_checkCall hcheck⟩
  paths := by
    intro o ho
    obtain ⟨_, -, hpath⟩ := exists_file_of_mem_offenses hrun ho
    exact hinspected o.path hpath
  skipped := hskipped

/-! ## Top theorem -/

/-- **Text reports.**  Of two results with offenses of the alignment check, at any positions, and
with paths that hold no line feed, the text reports are alike exactly when the offenses are the
same, the files passed over are the same, and as many files were inspected. -/
theorem text_tells_result (r r' : RunResult) (h : r.OnLines) (h' : r'.OnLines) :
    r.text = r'.text ↔ r.offenses = r'.offenses ∧ r.skipped = r'.skipped ∧
      r.inspected.length = r'.inspected.length := by
  constructor
  · intro htext
    exact eq_of_reportLines_eq h h' (reportLines_eq_of_text_eq h h' htext)
  · rintro ⟨hoffenses, hskipped, hinspected⟩
    unfold RunResult.text RunResult.summary
    rw [hoffenses, hskipped, hinspected]

/-- An offense in a file whose name ends as a position does, and a file passed over whose name reads
as an offense. -/
def colonPaths : RunResult :=
  { offenses := [offenseAt "a:1" 2 (-3)]
    inspected := ["a:1"]
    skipped := [(offenseAt "a" 1 2).text] }

/-- An offense in a file with the shorter name, at the line with which the longer one ends. -/
def colonPathsMoved : RunResult :=
  { colonPaths with offenses := [offenseAt "a" 1 (-3)] }

/-- The same with another file inspected. -/
def colonPathsRenamed : RunResult :=
  { colonPaths with inspected := ["b\n"] }

/-- A colon that moves from the name to the position shows in the report; the names of the files
inspected do not. -/
theorem text_tells_result_colonPaths :
    (colonPaths.OnLines ∧ colonPathsMoved.OnLines ∧ colonPathsRenamed.OnLines) ∧
      colonPaths.text = colonPathsRenamed.text ∧ colonPaths.text ≠ colonPathsMoved.text := by
  have hcolon : colonPaths.OnLines := by decide
  have hmoved : colonPathsMoved.OnLines := by decide
  have hrenamed : colonPathsRenamed.OnLines := by decide
  refine ⟨⟨hcolon, hmoved, hrenamed⟩, ?_, fun htext => ?_⟩
  · exact (text_tells_result _ _ hcolon hrenamed).2 ⟨rfl, rfl, rfl⟩
  · have hoffenses := ((text_tells_result _ _ hcolon hmoved).1 htext).1
    exact absurd hoffenses (by decide)

end CallAlign

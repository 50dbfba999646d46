import CallAlign.Proofs.JsonLines
import CallAlign.Proofs.ObservedLayout
import CallAlign.Record

/-!
# What a listing of calls tells

The listing of the calls of a file leaves out where a call ends and where its bracket stands.  All
the rest of a call can be read from its line (`Call.SameListed`): whatever the order in which an
object lists its members, they are told apart by their keys (`SameButOrder.member`).  The check asks
for nothing that the listing leaves out.

    callLines?_inj          : two listings are alike when their calls are, one by one
    callLines_tell_verdicts : calls that are listed alike are checked alike
-/

namespace CallAlign

/-! ## Definitions -/

/-- Line and column have 64 bits, signed or unsigned. -/
structure Position.InRange (p : Position) : Prop where
  line : -9223372036854775808 ≤ p.line ∧ p.line ≤ 18446744073709551615
  column : -9223372036854775808 ≤ p.column ∧ p.column ≤ 18446744073709551615

/-- The positions that are listed for a call have 64 bits. -/
structure Call.InRange (call : Call) : Prop where
  calleeStart : call.calleeStart.InRange
  arguments : ∀ a ∈ call.arguments, a.start.InRange ∧ a.stop.InRange

/-- The calls differ at most in their extents and in where their brackets stand. -/
structure Call.SameListed (call call' : Call) : Prop where
  methodName : call.methodName = call'.methodName
  calleeStart : call.calleeStart = call'.calleeStart
  usesParens : call.usesParens = call'.usesParens
  arguments : call.arguments = call'.arguments

/-! ## Parts of values that are the same but for order -/

namespace Json

theorem SameButOrder.bool_inj {b b' : Bool} (h : SameButOrder (.bool b) (.bool b')) : b = b' := by
  cases h
  rfl

theorem SameButOrder.int_inj {n n' : Int} (h : SameButOrder (.int n) (.int n')) : n = n' := by
  cases h
  rfl

theorem SameButOrder.str_inj {s s' : String} (h : SameButOrder (.str s) (.str s')) : s = s' := by
  cases h
  rfl

theorem SameButOrder.items {items items' : List Json}
    (h : SameButOrder (.arr items) (.arr items')) : List.Forall₂ SameButOrder items items' := by
  cases h
  assumption

/-- Members with one key are the same but for order. -/
theorem SameButOrder.member {members members' : List (String × Json)}
    (h : SameButOrder (.obj members) (.obj members')) (hkeys : (members'.map Prod.fst).Nodup)
    (key : String) {v w : Json} (hv : (key, v) ∈ members) (hw : (key, w) ∈ members') :
    SameButOrder v w := by
  cases h with
  | @obj _ _ reordered hsame hperm =>
    obtain ⟨i, hi, hget⟩ := List.getElem_of_mem hv
    have hi' : i < reordered.length := hsame.length_eq ▸ hi
    have hmember := hsame.get hi hi'
    rw [List.get_eq_getElem, List.get_eq_getElem, hget] at hmember
    have hmem : reordered[i] ∈ members' := hperm.mem_iff.1 (List.getElem_mem hi')
    generalize reordered[i] = m at hmember hmem
    cases hmember with
    | @intro _ _ w' hvw =>
      obtain rfl : w' = w := congrArg Prod.snd (List.inj_on_of_nodup_map hkeys hmem hw rfl)
      exact hvw

end Json

open Json

/-! ## One call -/

theorem ArgumentKind.eq_of_name {k k' : ArgumentKind} (h : k.name = k'.name) : k = k' := by
  have hname := congrArg ArgumentKind.ofName? h
  rwa [ArgumentKind.ofName?_name, ArgumentKind.ofName?_name, Option.some.injEq] at hname

/-- All of an argument is listed. -/
theorem Argument.eq_of_summary {a a' : Argument} (h : SameButOrder a.summary a'.summary) :
    a = a' := by
  have hkeys : ["kind", "line", "column", "end_line", "end_column"].Nodup := by decide
  have hkind : SameButOrder (.str a.kind.name) (.str a'.kind.name) :=
    h.member hkeys "kind" (by simp) (by simp)
  have hline : SameButOrder (.int a.start.line) (.int a'.start.line) :=
    h.member hkeys "line" (by simp) (by simp)
  have hcolumn : SameButOrder (.int a.start.column) (.int a'.start.column) :=
    h.member hkeys "column" (by simp) (by simp)
  have hendLine : SameButOrder (.int a.stop.line) (.int a'.stop.line) :=
    h.member hkeys "end_line" (by simp) (by simp)
  have hendColumn : SameButOrder (.int a.stop.column) (.int a'.stop.column) :=
    h.member hkeys "end_column" (by simp) (by simp)
  have hkind : a.kind = a'.kind := ArgumentKind.eq_of_name hkind.str_inj
  have hstart : a.start = a'.start := congrArg₂ Position.mk hline.int_inj hcolumn.int_inj
  have hstop : a.stop = a'.stop := congrArg₂ Position.mk hendLine.int_inj hendColumn.int_inj
  cases a
  cases a'
  rw [Argument.mk.injEq]
  exact ⟨hkind, hstart, hstop⟩

/-- All of a call is listed but its extent and the place of its bracket. -/
theorem Call.sameListed_of_summary {call call' : Call}
    (h : SameButOrder call.summary call'.summary) : call.SameListed call' := by
  have hkeys : ["method", "line", "column", "parens", "arguments"].Nodup := by decide
  have hmethod : SameButOrder (.str call.methodName) (.str call'.methodName) :=
    h.member hkeys "method" (by simp) (by simp)
  have hline : SameButOrder (.int call.calleeStart.line) (.int call'.calleeStart.line) :=
    h.member hkeys "line" (by simp) (by simp)
  have hcolumn : SameButOrder (.int call.calleeStart.column) (.int call'.calleeStart.column) :=
    h.member hkeys "column" (by simp) (by simp)
  have hparens : SameButOrder (.bool call.usesParens) (.bool call'.usesParens) :=
    h.member hkeys "parens" (by simp) (by simp)
  have harguments : SameButOrder (.arr (call.arguments.map Argument.summary))
      (.arr (call'.arguments.map Argument.summary)) :=
    h.member hkeys "arguments" (by simp) (by simp)
  have hitems := harguments.items
  rw [List.forall₂_map_left_iff, List.forall₂_map_right_iff] at hitems
  refine
    { methodName := hmethod.str_inj
      calleeStart := congrArg₂ Position.mk hline.int_inj hcolumn.int_inj
      usesParens := hparens.bool_inj
      arguments := ?_ }
  have hequal : List.Forall₂ Eq call.arguments call'.arguments :=
    hitems.imp fun _ _ => Argument.eq_of_summary
  rwa [List.forall₂_eq_eq_eq] at hequal

theorem Call.SameListed.summary_eq {call call' : Call} (h : call.SameListed call') :
    call.summary = call'.summary := by
  unfold Call.summary
  rw [h.methodName, h.calleeStart, h.usesParens, h.arguments]

/-- The check reads nothing of a call that is not listed. -/
theorem Call.SameListed.checkCall_eq {call call' : Call} (h : call.SameListed call')
    (lines : SourceLines) : checkCall lines call = checkCall lines call' :=
  checkCall_congr lines h.calleeStart h.arguments

/-! ## Range -/

theorem Position.inRange_iff (p : Position) :
    p.InRange ↔ intFits p.line = true ∧ intFits p.column = true := by
  unfold intFits
  simp only [Bool.and_eq_true, decide_eq_true_eq]
  constructor
  · intro h
    have hline := h.line
    have hcolumn := h.column
    omega
  · intro h
    exact ⟨by omega, by omega⟩

theorem Argument.fits_summary (a : Argument) :
    a.summary.fits = true ↔ a.start.InRange ∧ a.stop.InRange := by
  rw [Position.inRange_iff, Position.inRange_iff]
  simp [Argument.summary, fits, fitsMembers, and_assoc]

/-- A call can be listed exactly when the positions that are listed for it have 64 bits. -/
theorem Call.fits_summary (call : Call) : call.summary.fits = true ↔ call.InRange := by
  have harguments : fitsItems (call.arguments.map Argument.summary) = true ↔
      ∀ a ∈ call.arguments, a.start.InRange ∧ a.stop.InRange := by
    rw [fitsItems_iff, List.forall_mem_map]
    exact forall₂_congr fun a _ => a.fits_summary
  have hstart := call.calleeStart.inRange_iff
  simp only [Call.summary, fits, fitsMembers, Bool.and_eq_true, harguments, true_and, and_true]
  constructor
  · rintro ⟨hline, hcolumn, harguments⟩
    exact ⟨hstart.2 ⟨hline, hcolumn⟩, harguments⟩
  · intro h
    exact ⟨(hstart.1 h.calleeStart).1, (hstart.1 h.calleeStart).2, h.arguments⟩

/-! ## Listings -/

section

variable {calls calls' : List Call}

theorem inRange_summaries (h : ∀ call ∈ calls, call.InRange) :
    ∀ record ∈ calls.map Call.summary, record.InRange :=
  List.forall_mem_map.2 fun call hcall =>
    (fits_iff_inRange _).1 (call.fits_summary.2 (h call hcall))

/-- Two listings are alike when their calls are, one by one. -/
theorem callLines?_inj (h : ∀ call ∈ calls, call.InRange) (h' : ∀ call ∈ calls', call.InRange) :
    callLines? calls = callLines? calls' ↔ List.Forall₂ Call.SameListed calls calls' := by
  unfold callLines?
  rw [jsonLines?_inj (inRange_summaries h) (inRange_summaries h'), List.map_map, List.map_map,
    map_eq_map_iff_forall₂]
  constructor
  · intro htexts
    refine htexts.imp fun call call' htext => ?_
    exact Call.sameListed_of_summary (sameButOrder_of_canonical_eq (canonical_eq_of_text_eq htext))
  · intro hsame
    refine hsame.imp fun call call' hsame => ?_
    exact congrArg Json.text hsame.summary_eq

end

/-! ## Top theorem -/

/-- **Listings of calls.**  Calls whose listed positions have 64 bits are listed, and two such
listings have one text exactly when there are as many calls in both and they agree, one by one, in
all but their extents and the places of their brackets.  Over any lines, calls that are listed alike
are then checked alike. -/
theorem callLines_tell_verdicts (calls calls' : List Call)
    (h : ∀ call ∈ calls, call.InRange) (h' : ∀ call ∈ calls', call.InRange) :
    (∃ text, callLines? calls = some text) ∧
      (callLines? calls = callLines? calls' ↔ List.Forall₂ Call.SameListed calls calls') ∧
      (callLines? calls = callLines? calls' →
        calls.length = calls'.length ∧ ∀ lines,
          List.Forall₂ (fun call call' => checkCall lines call = checkCall lines call')
            calls calls') := by
  refine ⟨⟨_, jsonLines?_eq_some (inRange_summaries h)⟩, callLines?_inj h h', fun htext => ?_⟩
  have hsame := (callLines?_inj h h').1 htext
  exact ⟨hsame.length_eq, fun lines => hsame.imp fun call call' hcall => hcall.checkCall_eq lines⟩

/-- A call in brackets whose second argument, on the next line, is out of column. -/
def listedCall : Call :=
  { methodName := "a\"b"
    calleeStart := ⟨1, 0⟩
    span := ⟨⟨1, 0⟩, ⟨2, 5⟩⟩
    usesParens := true
    openParen := some ⟨1, 3⟩
    arguments := [⟨.value, ⟨1, 4⟩, ⟨1, 5⟩⟩, ⟨.blockPass, ⟨2, 3⟩, ⟨2, 4⟩⟩] }

/-- The same call with its brackets set wider apart. -/
def widerCall : Call :=
  { listedCall with span := ⟨⟨1, 0⟩, ⟨3, 1⟩⟩, openParen := some ⟨1, 2⟩ }

/-- The call with another name. -/
def renamedCall : Call :=
  { listedCall with methodName := "a" }

/-- The wider call is listed as the other one is and has the same offense; in another order, or with
another name, calls are not listed alike. -/
theorem callLines_tell_verdicts_widerCall :
    (∃ text, callLines? [listedCall, renamedCall] = some text ∧
      callLines? [widerCall, renamedCall] = some text) ∧
    callLines? [listedCall, renamedCall] ≠ callLines? [renamedCall, widerCall] ∧
    checkCall (.ofText []) widerCall = checkCall (.ofText []) listedCall ∧
    checkCall (.ofText []) listedCall = some ⟨.convention, misalignedMessage, 2, 3⟩ := by
  have hlisted : listedCall.InRange := (Call.fits_summary _).1 (by decide)
  have hwider : widerCall.InRange := (Call.fits_summary _).1 (by decide)
  have hrenamed : renamedCall.InRange := (Call.fits_summary _).1 (by decide)
  have hsame : listedCall.SameListed widerCall := ⟨rfl, rfl, rfl, rfl⟩
  have hcalls : ∀ call ∈ [listedCall, renamedCall], call.InRange := by simp [hlisted, hrenamed]
  obtain ⟨⟨text, htext⟩, hiff, hverdicts⟩ :=
    callLines_tell_verdicts _ [widerCall, renamedCall] hcalls (by simp [hwider, hrenamed])
  have halike := hiff.2 (.cons hsame (.cons ⟨rfl, rfl, rfl, rfl⟩ .nil))
  refine ⟨⟨text, htext, halike ▸ htext⟩, fun hswapped => ?_, ?_, by decide⟩
  · have hswapped := (callLines_tell_verdicts _ [renamedCall, widerCall] hcalls
      (by simp [hwider, hrenamed])).2.1.1 hswapped
    cases hswapped with
    | cons hfirst _ => exact absurd hfirst.methodName (by decide)
  · cases (hverdicts halike).2 (.ofText []) with
    | cons hfirst _ => exact hfirst.symm

end CallAlign

import CallAlign.Alignment
import CallAlign.Proofs.DistinctOffenses

/-!
# What the check observes

Of a call the check observes where it begins, the kinds and the extents of its arguments, and
whether tabs indent the line on which it begins and the lines that its arguments open
(`Call.checkedLines`).  Of a tree it observes kinds, fields and spans, never a text.  Lines and
columns are compared with each other only, so that the check does not see where in a file a call
stands.

    verdict_shift, checkCall_shift : a call that moves with the tabs of its lines
    inspect_map_shift              : a tree read in two ways, one the shift of the other
-/

namespace CallAlign

/-! ## Moving by lines and columns -/

/-- A position moved down by `k` lines and right by `c` columns. -/
def Position.shift (k c : Int) (p : Position) : Position := ⟨p.line + k, p.column + c⟩

def Span.shift (k c : Int) (s : Span) : Span := ⟨s.start.shift k c, s.stop.shift k c⟩

def Argument.shift (k c : Int) (a : Argument) : Argument :=
  { a with start := a.start.shift k c, stop := a.stop.shift k c }

def Offense.shift (k c : Int) (o : Offense) : Offense :=
  { o with line := o.line + k, column := o.column + c }

def Verdict.shift (k c : Int) : Verdict → Verdict
  | .clean => .clean
  | .tabIndented => .tabIndented
  | .misaligned first => .misaligned (first.shift k c)

@[simp] theorem Position.shift_zero (p : Position) : p.shift 0 0 = p := by
  simp [shift]

@[simp] theorem Span.shift_zero (s : Span) : s.shift 0 0 = s := by
  simp [shift]

@[simp] theorem Offense.shift_zero : Offense.shift 0 0 = id :=
  funext fun o => by simp [shift]

theorem Verdict.offense?_shift (k c : Int) (v : Verdict) :
    (v.shift k c).offense? = v.offense?.map (.shift k c) := by
  cases v <;> rfl

/-! ## One call -/

/-- The lines whose indentation the check of a call asks for. -/
def Call.checkedLines (call : Call) : List Int :=
  call.calleeStart.line :: (lineOpeners call.arguments).map (·.start.line)

theorem opensLine_shift (k c : Int) (previous argument : Argument) :
    opensLine (previous.shift k c) (argument.shift k c) = opensLine previous argument := by
  simp [opensLine, Argument.shift, Position.shift]

theorem lineOpeners_map_shift (k c : Int) (arguments : List Argument) :
    lineOpeners (arguments.map (.shift k c)) = (lineOpeners arguments).map (.shift k c) := by
  fun_induction lineOpeners arguments with
  | case1 previous argument rest hopens ih =>
    rw [List.map_cons, List.map_cons, lineOpeners, opensLine_shift, if_pos hopens,
      ← List.map_cons, ih, List.map_cons]
  | case2 previous argument rest hopens ih =>
    rw [List.map_cons, List.map_cons, lineOpeners, opensLine_shift, if_neg hopens,
      ← List.map_cons, ih]
  | case3 arguments hshort =>
    cases arguments with
    | nil => rfl
    | cons previous rest =>
      cases rest with
      | nil => rfl
      | cons argument rest => exact absurd rfl (hshort previous argument rest)

/-- A tab on some line from `n` to `n` is a tab on line `n`. -/
theorem SourceLines.anyTabIndented_self (lines : SourceLines) (n : Int) :
    lines.anyTabIndented n n = lines.isTabIndented n := by
  unfold anyTabIndented isTabIndented
  rw [List.contains_eq_any_beq]
  congr 1
  funext m
  rw [Bool.eq_iff_iff]
  simp only [Bool.and_eq_true, decide_eq_true_eq, beq_iff_eq]
  omega

/-- The check asks for the tabs of one line of the call itself, because its first argument stands
on the line where it begins. -/
theorem Call.verdict_of_cons (lines : SourceLines) {call : Call} {first : Argument}
    {rest : List Argument} (harguments : call.arguments = first :: rest) :
    call.verdict lines =
      if !call.isMultiline || first.start.line != call.calleeStart.line then .clean
      else if lines.isTabIndented call.calleeStart.line ||
          (lineOpeners call.arguments).any (lines.isTabIndented ·.start.line) then .tabIndented
      else
        ((lineOpeners call.arguments).find? (·.start.column != first.start.column)).elim .clean
          (.misaligned ·.start) := by
  unfold verdict
  rw [harguments]
  dsimp only
  by_cases hexempt : (!call.isMultiline || first.start.line != call.calleeStart.line) = true
  · rw [if_pos hexempt, if_pos hexempt]
  · have hline : first.start.line = call.calleeStart.line := by
      simp only [Bool.or_eq_true, not_or, bne_iff_ne, not_not] at hexempt
      exact hexempt.2
    rw [if_neg hexempt, if_neg hexempt, hline, SourceLines.anyTabIndented_self]
    cases (lineOpeners (first :: rest)).find? (·.start.column != first.start.column) <;> rfl

theorem bne_add_right (m n k : Int) : (m + k != n + k) = (m != n) := by
  rw [Bool.eq_iff_iff, bne_iff_ne, bne_iff_ne]
  omega

section

variable {lines lines' : SourceLines} {call call' : Call} {k c : Int}

theorem isMultiline_shift (harguments : call'.arguments = call.arguments.map (.shift k c)) :
    call'.isMultiline = call.isMultiline := by
  unfold Call.isMultiline
  rw [harguments]
  cases call.arguments with
  | nil => rfl
  | cons first rest =>
    simp [List.any_map, Function.comp_def, Argument.shift, Position.shift, bne_add_right]

/-- A call that moves by `k` lines and `c` columns, with the tabs of the lines that are checked,
keeps its verdict. -/
theorem verdict_shift (hstart : call'.calleeStart = call.calleeStart.shift k c)
    (harguments : call'.arguments = call.arguments.map (.shift k c))
    (htabs : ∀ n ∈ call.checkedLines, lines'.isTabIndented (n + k) = lines.isTabIndented n) :
    call'.verdict lines' = (call.verdict lines).shift k c := by
  obtain ⟨hcallee, hopeners⟩ := List.forall_mem_cons.1 htabs
  cases hcall : call.arguments with
  | nil => simp [Call.verdict, harguments, hcall, Verdict.shift]
  | cons first rest =>
    have hcall' : call'.arguments = first.shift k c :: rest.map (.shift k c) := by
      rw [harguments, hcall, List.map_cons]
    have hline : ((first.shift k c).start.line != call'.calleeStart.line) =
        (first.start.line != call.calleeStart.line) := by
      rw [hstart]
      exact bne_add_right first.start.line call.calleeStart.line k
    have hcallee : lines'.isTabIndented call'.calleeStart.line =
        lines.isTabIndented call.calleeStart.line := by
      rw [hstart]
      exact hcallee
    have hany : (lineOpeners call'.arguments).any (lines'.isTabIndented ·.start.line) =
        (lineOpeners call.arguments).any (lines.isTabIndented ·.start.line) := by
      rw [harguments, lineOpeners_map_shift, List.any_map, Bool.eq_iff_iff, List.any_eq_true,
        List.any_eq_true]
      refine exists_congr fun a => and_congr_right fun ha => ?_
      exact Eq.congr_left (hopeners a.start.line (List.mem_map_of_mem ha))
    have hfind :
        (lineOpeners call'.arguments).find? (·.start.column != (first.shift k c).start.column) =
          ((lineOpeners call.arguments).find? (·.start.column != first.start.column)).map
            (.shift k c) := by
      rw [harguments, lineOpeners_map_shift, List.find?_map]
      congr 2
      exact funext fun a => bne_add_right a.start.column first.start.column c
    rw [Call.verdict_of_cons lines' hcall', Call.verdict_of_cons lines hcall,
      isMultiline_shift harguments, hline, hcallee, hany, hfind]
    split
    · rfl
    split
    · rfl
    cases (lineOpeners call.arguments).find? (·.start.column != first.start.column) <;> rfl

theorem checkCall_shift (hstart : call'.calleeStart = call.calleeStart.shift k c)
    (harguments : call'.arguments = call.arguments.map (.shift k c))
    (htabs : ∀ n ∈ call.checkedLines, lines'.isTabIndented (n + k) = lines.isTabIndented n) :
    checkCall lines' call' = (checkCall lines call).map (.shift k c) := by
  unfold checkCall
  rw [verdict_shift hstart harguments htabs, Verdict.offense?_shift]

end

/-- Calls that begin at the same place and have the same arguments have the same offense. -/
theorem checkCall_congr {call call' : Call} (lines : SourceLines)
    (hstart : call'.calleeStart = call.calleeStart)
    (harguments : call'.arguments = call.arguments) :
    checkCall lines call' = checkCall lines call := by
  unfold checkCall Call.verdict Call.isMultiline
  rw [hstart, harguments]

/-- All offenses that the check finds are alike but for their positions. -/
theorem severity_message_of_checkCall {lines : SourceLines} {call : Call} {o : Offense}
    (h : checkCall lines call = some o) :
    o.severity = .convention ∧ o.message = misalignedMessage := by
  unfold checkCall at h
  cases hverdict : call.verdict lines with
  | clean => simp [hverdict, Verdict.offense?] at h
  | tabIndented => simp [hverdict, Verdict.offense?] at h
  | misaligned first =>
    simp only [hverdict, Verdict.offense?, Option.some.injEq] at h
    subst h
    exact ⟨rfl, rfl⟩

/-! ## A whole tree -/

section

variable {α : Type} {f f' : α → Extent} {lines lines' : SourceLines} {k c : Int}

theorem argumentsOf_map_shift {entries : List (SyntaxTree α)}
    (hspan : ∀ t ∈ entries, (f' t.label).span = (f t.label).span.shift k c) :
    argumentsOf (entries.map (.map f')) =
      (argumentsOf (entries.map (.map f))).map (.shift k c) := by
  unfold argumentsOf
  rw [List.filter_map, List.filter_map, List.map_map, List.map_map, List.map_map]
  have hkind (g : α → Extent) :
      (fun entry : SyntaxTree Extent => !nonArgumentKinds.contains entry.kind) ∘ .map g =
        fun entry => !nonArgumentKinds.contains entry.kind :=
    funext fun t => by simp [SyntaxTree.kind_map]
  rw [hkind, hkind]
  refine List.map_congr_left fun t ht => ?_
  have ht := hspan t (List.mem_of_mem_filter ht)
  simp [Argument.ofNode, Argument.shift, SyntaxTree.kind_map, SyntaxTree.label_map, ht, Span.shift]

theorem arguments_ofNode_map (f : α → Extent) (t : SyntaxTree α) :
    (Call.ofNode (t.map f)).arguments =
      argumentsOf (((t.field? "arguments").elim [] (·.children)).map (.map f)) := by
  cases h : t.field? "arguments" with
  | none => simp [Call.ofNode, SyntaxTree.field?_map, h]
  | some list => simp [Call.ofNode, SyntaxTree.field?_map, h, SyntaxTree.children_map]

theorem mem_nodes_of_mem_entries {s t : SyntaxTree α}
    (h : s ∈ (t.field? "arguments").elim [] (·.children)) : s ∈ t.preorder [] := by
  cases hfield : t.field? "arguments" with
  | none => simp [hfield] at h
  | some list =>
    have h : s ∈ list.children := by simpa [hfield] using h
    have hlist := SyntaxTree.child_mem_nodes (SyntaxTree.field?_mem_children hfield)
      (SyntaxTree.self_mem_nodes t)
    exact SyntaxTree.child_mem_nodes h hlist

/-- The lines that are checked for the call of a node are lines on which nodes below it start. -/
theorem exists_node_of_mem_checkedLines {t : SyntaxTree α} {n : Int}
    (h : n ∈ (Call.ofNode (t.map f)).checkedLines) :
    ∃ s ∈ t.preorder [], n = (f s.label).span.start.line := by
  rcases List.mem_cons.1 h with rfl | h
  · exact ⟨t, SyntaxTree.self_mem_nodes t, by simp [Call.ofNode, SyntaxTree.label_map]⟩
  · obtain ⟨argument, hopener, rfl⟩ := List.mem_map.1 h
    obtain ⟨before, previous, after, hsplit, -⟩ := (mem_lineOpeners_iff _).1 hopener
    have hargument : argument ∈ (Call.ofNode (t.map f)).arguments := by simp [hsplit]
    rw [arguments_ofNode_map] at hargument
    obtain ⟨entry, hentry, -, rfl⟩ := mem_argumentsOf.1 hargument
    obtain ⟨s, hs, rfl⟩ := List.mem_map.1 hentry
    exact ⟨s, mem_nodes_of_mem_entries hs, by simp [Argument.ofNode, SyntaxTree.label_map]⟩

theorem checkCall_map_shift {t : SyntaxTree α}
    (hspan : ∀ s ∈ t.preorder [], (f' s.label).span = (f s.label).span.shift k c)
    (htabs : ∀ s ∈ t.preorder [], lines'.isTabIndented ((f s.label).span.start.line + k) =
      lines.isTabIndented (f s.label).span.start.line) :
    checkCall lines' (.ofNode (t.map f')) =
      (checkCall lines (.ofNode (t.map f))).map (.shift k c) := by
  apply checkCall_shift
  · have ht := hspan t (SyntaxTree.self_mem_nodes t)
    simp [Call.ofNode, SyntaxTree.label_map, ht, Span.shift]
  · rw [arguments_ofNode_map, arguments_ofNode_map]
    exact argumentsOf_map_shift fun s hs => hspan s (mem_nodes_of_mem_entries hs)
  · intro n hn
    obtain ⟨s, hs, rfl⟩ := exists_node_of_mem_checkedLines hn
    exact htabs s hs

theorem sortOffenses_map_shift (k c : Int) (offenses : List Offense) :
    sortOffenses (offenses.map (.shift k c)) = (sortOffenses offenses).map (.shift k c) := by
  refine (List.map_mergeSort fun a _ b _ => ?_).symm
  rw [Bool.eq_iff_iff, Offense.positionLE_iff, Offense.positionLE_iff]
  simp only [Offense.shift]
  omega

/-- When one reading of a tree is the shift of another, and the tabs move with the lines on which
its nodes start, the offenses move with them. -/
theorem inspect_map_shift (tree : SyntaxTree α)
    (hspan : ∀ s ∈ tree.preorder [], (f' s.label).span = (f s.label).span.shift k c)
    (htabs : ∀ s ∈ tree.preorder [], lines'.isTabIndented ((f s.label).span.start.line + k) =
      lines.isTabIndented (f s.label).span.start.line) :
    inspect (tree.map f') lines' = (inspect (tree.map f) lines).map (.shift k c) := by
  unfold inspect
  rw [← sortOffenses_map_shift, callSites_map, callSites_map, List.filterMap_map,
    List.filterMap_map, List.map_filterMap]
  congr 1
  refine List.filterMap_congr fun t ht => ?_
  have ht := List.mem_of_mem_filter ht
  rw [SyntaxTree.walk_eq_preorder] at ht
  have hnodes : ∀ s ∈ t.preorder [], s ∈ tree.preorder [] := fun s hs =>
    SyntaxTree.mem_preorder_trans hs (SyntaxTree.mem_nodes_of_mem_preorder ht)
  exact checkCall_map_shift (fun s hs => hspan s (hnodes s hs)) fun s hs => htabs s (hnodes s hs)

end

end CallAlign

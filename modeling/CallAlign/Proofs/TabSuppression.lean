import CallAlign.Proofs.AlignmentVerdict
import CallAlign.Proofs.MovedCode

/-!
# Tabs suppress offenses

Tab-indented lines only take offenses away.  A call that is reported although tabs indent some lines
is reported alike when fewer lines are (`checkCall_of_moreTabs`), and sorting by position keeps some
of a list some of it (`sortOffenses_sublist`).  They do so locally: a call asks for the line on
which it begins, if an argument begins there too, and for the lines on which its later arguments
begin (`checkCall_eq_of_tabsAgree`); what is inside an argument or outside the call is not asked for.

    tabs_suppress_locally : more tabs leave some of the offenses, tabs on other lines leave all
-/

namespace CallAlign

/-! ## Sorting some of a list -/

/-- What stands before an element in a sorted list, told by the order. -/
theorem filter_of_pairwise {α : Type} {le : α → α → Bool} {a : α} {before after : List α}
    (hbefore : ∀ b ∈ before, (!le a b) = true)
    (hsorted : (before ++ a :: after).Pairwise fun x y => le x y = true) :
    (before ++ after).filter (!le a ·) = before ∧ (before ++ after).filter (le a ·) = after := by
  have hafter : ∀ b ∈ after, le a b = true :=
    (List.pairwise_cons.1 (List.pairwise_append.1 hsorted).2.1).1
  have hnone : after.filter (!le a ·) = [] :=
    List.filter_eq_nil_iff.2 fun b hb => by simp [hafter b hb]
  have hnone' : before.filter (le a ·) = [] :=
    List.filter_eq_nil_iff.2 fun b hb => by simpa using hbefore b hb
  rw [List.filter_append, List.filter_append, List.filter_eq_self.2 hbefore,
    List.filter_eq_self.2 hafter, hnone, hnone']
  exact ⟨List.append_nil before, List.nil_append after⟩

/-- A sorted part of a list is a part of the sorted list, equal elements in their places. -/
theorem mergeSort_sublist {α : Type} {le : α → α → Bool}
    (trans : ∀ a b c, le a b = true → le b c = true → le a c = true)
    (total : ∀ a b, (le a b || le b a) = true) {xs ys : List α} (h : xs.Sublist ys) :
    (xs.mergeSort le).Sublist (ys.mergeSort le) := by
  induction h with
  | slnil => exact List.Sublist.refl _
  | @cons xs ys a _ ih =>
    obtain ⟨before, after, hsort, hrest, -⟩ := List.mergeSort_cons trans total a ys
    rw [hrest] at ih
    rw [hsort]
    exact ih.trans ((List.sublist_cons_self a after).append_left before)
  | @cons_cons xs ys a _ ih =>
    obtain ⟨before, after, hsort, hrest, hbefore⟩ := List.mergeSort_cons trans total a xs
    obtain ⟨before', after', hsort', hrest', hbefore'⟩ := List.mergeSort_cons trans total a ys
    -- what stands before `a`, and what behind it, can be told in both lists by the order
    have hsplit := filter_of_pairwise hbefore
      (hsort ▸ List.pairwise_mergeSort trans total (a :: xs))
    have hsplit' := filter_of_pairwise hbefore'
      (hsort' ▸ List.pairwise_mergeSort trans total (a :: ys))
    rw [hrest, hrest'] at ih
    have hfirst := ih.filter (!le a ·)
    have hlast := ih.filter (le a ·)
    rw [hsplit.1, hsplit'.1] at hfirst
    rw [hsplit.2, hsplit'.2] at hlast
    rw [hsort, hsort']
    exact hfirst.append (hlast.cons_cons a)

theorem sortOffenses_sublist {offenses offenses' : List Offense}
    (h : offenses.Sublist offenses') :
    (sortOffenses offenses).Sublist (sortOffenses offenses') :=
  mergeSort_sublist positionLE_trans positionLE_total h

/-- What one function keeps of a list is some of what another keeps, when it keeps less. -/
theorem filterMap_sublist_of_imp {α β : Type} {f g : α → Option β} {xs : List α}
    (h : ∀ x ∈ xs, ∀ y, f x = some y → g x = some y) : (xs.filterMap f).Sublist (xs.filterMap g) := by
  induction xs with
  | nil => exact List.Sublist.refl _
  | cons x xs ih =>
    obtain ⟨hx, hxs⟩ := List.forall_mem_cons.1 h
    have ih := ih hxs
    rw [List.filterMap_cons, List.filterMap_cons]
    cases hf : f x with
    | some y =>
      rw [hx y hf]
      exact ih.cons_cons y
    | none =>
      cases g x with
      | none => exact ih
      | some y => exact ih.cons y

/-! ## One call -/

/-- All tab-indented lines of the first are tab-indented in the second. -/
def SourceLines.TabsWithin (lines lines' : SourceLines) : Prop :=
  ∀ n, lines.isTabIndented n = true → lines'.isTabIndented n = true

/-- The lines are tab-indented alike where the call begins, if an argument begins there too, and
where each argument after the first begins, unless it is a pair that follows a pair. -/
def Call.TabsAgree (call : Call) (lines lines' : SourceLines) : Prop :=
  ((∃ argument ∈ call.arguments, argument.start.line = call.calleeStart.line) →
    lines'.isTabIndented call.calleeStart.line = lines.isTabIndented call.calleeStart.line) ∧
  ∀ neighbours ∈ call.arguments.zip call.arguments.tail,
    ¬ (neighbours.1.kind = .pair ∧ neighbours.2.kind = .pair) →
      lines'.isTabIndented neighbours.2.start.line = lines.isTabIndented neighbours.2.start.line

instance (call : Call) (lines lines' : SourceLines) : Decidable (call.TabsAgree lines lines') :=
  inferInstanceAs (Decidable (_ ∧ _))

theorem exists_neighbours_of_mem_lineOpeners {arguments : List Argument} {argument : Argument}
    (h : argument ∈ lineOpeners arguments) : ∃ previous,
      (previous, argument) ∈ arguments.zip arguments.tail ∧ opensLine previous argument = true := by
  rw [lineOpeners_eq_zip, List.mem_map] at h
  obtain ⟨⟨previous, argument⟩, hmem, rfl⟩ := h
  exact ⟨previous, List.mem_filter.1 hmem⟩

theorem checkCall_of_nil (lines : SourceLines) {call : Call} (h : call.arguments = []) :
    checkCall lines call = none := by
  simp [checkCall, Call.verdict, h, Verdict.offense?]

section

variable {lines lines' : SourceLines} {call : Call}

/-- An offense that tabs leave is found, the same, when there are fewer of them. -/
theorem checkCall_of_moreTabs (htabs : lines.TabsWithin lines') {o : Offense}
    (h : checkCall lines' call = some o) : checkCall lines call = some o := by
  cases harguments : call.arguments with
  | nil =>
    rw [checkCall_of_nil lines' harguments] at h
    cases h
  | cons first rest =>
    rw [checkCall_of_cons lines' harguments, Scan.offense?_eq_some_iff] at h
    rw [checkCall_of_cons lines harguments, Scan.offense?_eq_some_iff]
    obtain ⟨hother, hline, hcallee, htab, hmismatch⟩ := h
    rw [← Bool.not_eq_true] at hcallee
    rw [List.any_eq_false] at htab
    refine ⟨hother, hline, ?_, ?_, hmismatch⟩
    · rw [← Bool.not_eq_true]
      exact fun hmore => hcallee (htabs _ hmore)
    · rw [List.any_eq_false]
      exact fun argument hargument hmore => htab argument hargument (htabs _ hmore)

/-- No other lines are asked for than those of the call. -/
theorem checkCall_eq_of_tabsAgree (h : call.TabsAgree lines lines') :
    checkCall lines' call = checkCall lines call := by
  cases harguments : call.arguments with
  | nil => rw [checkCall_of_nil lines' harguments, checkCall_of_nil lines harguments]
  | cons first rest =>
    have htab : (lineOpeners call.arguments).any (lines'.isTabIndented ·.start.line) =
        (lineOpeners call.arguments).any (lines.isTabIndented ·.start.line) := by
      rw [Bool.eq_iff_iff, List.any_eq_true, List.any_eq_true]
      refine exists_congr fun argument => and_congr_right fun hargument => ?_
      obtain ⟨previous, hmem, hopens⟩ := exists_neighbours_of_mem_lineOpeners hargument
      rw [h.2 _ hmem (opensLine_iff.1 hopens).2]
    rw [checkCall_of_cons lines' harguments, checkCall_of_cons lines harguments, htab]
    unfold Scan.offense?
    by_cases hline : first.start.line = call.calleeStart.line
    · rw [h.1 ⟨first, by simp [harguments], hline⟩]
    · simp [hline]

end

/-! ## Top theorem -/

/-- When all tab-indented lines of a text are tab-indented in another, the offenses found with the
other are some of those found with the first, in the same order.  When the texts differ in the tabs
of other lines than those of a call, the call is checked alike, and when they do so for all calls of
a tree, the same offenses are found. -/
theorem tabs_suppress_locally (root : SyntaxTree Extent) (lines lines' : SourceLines) :
    (lines.TabsWithin lines' → (inspect root lines').Sublist (inspect root lines)) ∧
      ((∀ call ∈ callSites root, call.TabsAgree lines lines') →
        inspect root lines' = inspect root lines) ∧
      ∀ call : Call, call.TabsAgree lines lines' →
        checkCall lines' call = checkCall lines call := by
  refine ⟨fun htabs => ?_, fun hagree => ?_, fun call => checkCall_eq_of_tabsAgree⟩
  · exact sortOffenses_sublist (filterMap_sublist_of_imp fun call _ o => checkCall_of_moreTabs htabs)
  · unfold inspect
    rw [List.filterMap_congr fun call hcall => checkCall_eq_of_tabsAgree (hagree call hcall)]

/-- The text of `nestedCalls` with a tab on the last line of the call inside, and one more line. -/
def tabbedText : List Char := "f(x,\n g(y,\n\t z))\n".toList

/-- The text of `nestedCalls` and a tab-indented line behind it. -/
def tabBelowText : List Char := "f(x,\n g(y,\n  z))\n\tw".toList

/-- The tab on the last line takes the offense of the inner call away and leaves the outer one; a
tab below both calls leaves both. -/
theorem tabs_suppress_nestedCalls :
    (SourceLines.ofText nestedText).TabsWithin (.ofText tabbedText) ∧
      (∀ call ∈ callSites nestedCalls, call.TabsAgree (.ofText nestedText) (.ofText tabBelowText)) ∧
      (inspect nestedCalls (.ofText nestedText)).length = 2 ∧
      (inspect nestedCalls (.ofText tabbedText)).length = 1 ∧
      (inspect nestedCalls (.ofText tabbedText)).Sublist (inspect nestedCalls (.ofText nestedText)) ∧
      inspect nestedCalls (.ofText tabBelowText) = inspect nestedCalls (.ofText nestedText) := by
  have htabs : (SourceLines.ofText nestedText).TabsWithin (.ofText tabbedText) := by
    have hnone : (SourceLines.ofText nestedText).tabIndented = [] := by decide
    intro n hn
    simp [SourceLines.isTabIndented, hnone] at hn
  have hagree : ∀ call ∈ callSites nestedCalls,
      call.TabsAgree (.ofText nestedText) (.ofText tabBelowText) := by
    rw [callSites, SyntaxTree.walk_eq_preorder]
    decide
  refine ⟨htabs, hagree, ?_, ?_, (tabs_suppress_locally nestedCalls _ _).1 htabs,
    (tabs_suppress_locally nestedCalls _ _).2.1 hagree⟩
  · rw [inspect, (sortOffenses_perm _).length_eq, callSites, SyntaxTree.walk_eq_preorder]
    decide
  · rw [inspect, (sortOffenses_perm _).length_eq, callSites, SyntaxTree.walk_eq_preorder]
    decide

end CallAlign

import CallAlign.Alignment
import CallAlign.Proofs.Nesting

/-!
# No two offenses at one position

The offense of a call stands on a line at which one of its arguments starts and which the argument
before it does not reach.  Such a line cuts through the argument list and through nothing else below
the call: every argument, and every other child of the call, ends above the line or starts at or
below it (`Apart`).  The offense of a call further down lies inside one of these, on a line that
cuts it, so it stands on another line.

    line_ne_of_below, line_ne_of_siblings : offenses of nested calls, and of calls side by side
    inspect_strictly_sorted               : the offenses of a tree are strictly sorted by position

An argument list that is itself a call, with a heredoc body for its own argument list, is the one
place where two offenses can meet (`heredocList_offenses_meet`); no grammar gives such a tree.
-/

namespace CallAlign

/-! ## Trees as a parser gives them -/

def tokenKinds : List String := ["(", ")", ",", "comment"]

namespace SyntaxTree

/-- The spans of a tree are well nested. -/
def SpansNest (root : SyntaxTree Extent) : Prop :=
  root.WellNested (·.span.start) (·.span.stop)

/-- Brackets, commas and comments have nothing below them. -/
def TokensAreLeaves (root : SyntaxTree Extent) : Prop :=
  ∀ t ∈ root.preorder [], t.kind ∈ tokenKinds → t.children = []

/-- No call that stands for the argument list of a call has a heredoc body for its own. -/
def NoHeredocLists (root : SyntaxTree Extent) : Prop :=
  ∀ t ∈ root.preorder opaqueKinds, t.kind = "call" →
    ∀ list ∈ t.field? "arguments", list.kind = "call" →
      ∀ inner ∈ list.field? "arguments", inner.kind ≠ "heredoc_body"

def firstLine (t : SyntaxTree Extent) : Int := t.label.span.start.line

def lastLine (t : SyntaxTree Extent) : Int := t.label.span.stop.line

/-- A node lies above a line, or starts at or below it. -/
def Apart (line : Int) (t : SyntaxTree Extent) : Prop := t.lastLine < line ∨ line ≤ t.firstLine

/-! ## Lemmas -/

theorem SpansNest.firstLine_le {t : SyntaxTree Extent} (hn : t.SpansNest) :
    t.firstLine ≤ t.lastLine :=
  Position.line_mono (WellNested.ordered hn)

theorem SpansNest.firstLine_le_of_mem {s t : SyntaxTree Extent} (hn : t.SpansNest)
    (hs : s ∈ t.preorder []) : t.firstLine ≤ s.firstLine :=
  Position.line_mono (WellNested.start_le_of_mem hn hs)

theorem SpansNest.lastLine_le_of_mem {s t : SyntaxTree Extent} (hn : t.SpansNest)
    (hs : s ∈ t.preorder []) : s.lastLine ≤ t.lastLine :=
  Position.line_mono (WellNested.stop_le_of_mem hn hs)

theorem SpansNest.pairwise_children {t : SyntaxTree Extent} (hn : t.SpansNest) :
    t.children.Pairwise fun c d => c.lastLine ≤ d.firstLine :=
  (WellNested.pairwise_children hn).imp fun h => Position.line_mono h

/-- What a line does not cut has no node that the line cuts. -/
theorem SpansNest.apart_of_mem {line : Int} {s t : SyntaxTree Extent} (hn : t.SpansNest)
    (ht : t.Apart line) (hs : s ∈ t.preorder []) : s.Apart line := by
  have h1 := hn.firstLine_le_of_mem hs
  have h2 := hn.lastLine_le_of_mem hs
  unfold Apart at *
  omega

end SyntaxTree

theorem mem_lineOpeners_iff {argument : Argument} (arguments : List Argument) :
    argument ∈ lineOpeners arguments ↔
      ∃ before previous after, arguments = before ++ previous :: argument :: after ∧
        opensLine previous argument = true := by
  fun_induction lineOpeners arguments with
  | case1 previous next rest hopens ih =>
    rw [List.mem_cons, ih]
    constructor
    · rintro (rfl | ⟨before, p, after, h, ho⟩)
      · exact ⟨[], previous, rest, rfl, hopens⟩
      · exact ⟨previous :: before, p, after, by rw [h, List.cons_append], ho⟩
    · rintro ⟨_ | ⟨q, before⟩, p, after, h, ho⟩
      · simp only [List.nil_append, List.cons.injEq] at h
        exact .inl h.2.1.symm
      · simp only [List.cons_append, List.cons.injEq] at h
        exact .inr ⟨before, p, after, h.2, ho⟩
  | case2 previous next rest hopens ih =>
    rw [ih]
    constructor
    · rintro ⟨before, p, after, h, ho⟩
      exact ⟨previous :: before, p, after, by rw [h, List.cons_append], ho⟩
    · rintro ⟨_ | ⟨q, before⟩, p, after, h, ho⟩
      · simp only [List.nil_append, List.cons.injEq] at h
        obtain ⟨rfl, rfl, -⟩ := h
        exact absurd ho hopens
      · simp only [List.cons_append, List.cons.injEq] at h
        exact ⟨before, p, after, h.2, ho⟩
  | case3 arguments hshort =>
    simp only [List.not_mem_nil, false_iff]
    rintro ⟨_ | ⟨q, before⟩, p, after, rfl, -⟩
    · exact hshort p argument after rfl
    · cases before with
      | nil => exact hshort q p (argument :: after) rfl
      | cons r before => exact hshort q r (before ++ p :: argument :: after) rfl

/-- The offense of a call stands where one of its arguments opens a line. -/
theorem exists_lineOpener_of_checkCall {lines : SourceLines} {call : Call} {o : Offense}
    (h : checkCall lines call = some o) :
    ∃ argument ∈ lineOpeners call.arguments,
      o.line = argument.start.line ∧ o.column = argument.start.column := by
  unfold checkCall Call.verdict at h
  split at h
  · cases h
  dsimp only at h
  split at h
  · cases h
  split at h
  · cases h
  split at h
  · cases h
  · next argument hfind =>
    simp only [Verdict.offense?, Option.some.injEq] at h
    subst h
    exact ⟨argument, List.mem_of_find?_eq_some hfind, rfl, rfl⟩

/-- An entry of an argument list that is an argument. -/
def isArgumentEntry (entry : SyntaxTree Extent) : Bool := !nonArgumentKinds.contains entry.kind

theorem isArgumentEntry_of_kind {entry : SyntaxTree Extent} (htoken : entry.kind ∉ tokenKinds)
    (hbody : entry.kind ≠ "heredoc_body") : isArgumentEntry entry = true := by
  simp only [tokenKinds, List.mem_cons, List.not_mem_nil, or_false, not_or] at htoken
  simp [isArgumentEntry, nonArgumentKinds, htoken, hbody]

/-- An argument that opens a line, with the argument before it, as entries of the list. -/
theorem exists_entries_of_mem_lineOpeners {argument : Argument}
    {entries : List (SyntaxTree Extent)} (h : argument ∈ lineOpeners (argumentsOf entries)) :
    ∃ before previous entry after,
      entries.filter isArgumentEntry = before ++ previous :: entry :: after ∧
        argument.start.line = entry.firstLine ∧ previous.lastLine < entry.firstLine := by
  obtain ⟨before, previous, after, hsplit, hopens⟩ := (mem_lineOpeners_iff _).1 h
  have hmap : (entries.filter isArgumentEntry).map Argument.ofNode =
      before ++ previous :: argument :: after := hsplit
  obtain ⟨before', rest, hentries, -, hrest⟩ := List.map_eq_append_iff.1 hmap
  obtain ⟨p, rest', rfl, rfl, hrest'⟩ := List.map_eq_cons_iff.1 hrest
  obtain ⟨entry, after', rfl, rfl, -⟩ := List.map_eq_cons_iff.1 hrest'
  simp only [opensLine, Bool.and_eq_true, decide_eq_true_eq] at hopens
  exact ⟨before', p, entry, after', hentries, rfl, hopens.1⟩

namespace SyntaxTree

/-- The line of an argument that opens it cuts no argument of the list. -/
theorem SpansNest.apart_of_lineOpener {list : SyntaxTree Extent} (hn : list.SpansNest)
    {before after : List (SyntaxTree Extent)} {previous entry : SyntaxTree Extent}
    (hsplit : list.children.filter isArgumentEntry = before ++ previous :: entry :: after)
    (hopens : previous.lastLine < entry.firstLine) :
    ∀ d ∈ list.children, isArgumentEntry d → d.Apart entry.firstLine := by
  intro d hd harg
  have hmem : ∀ c ∈ before ++ previous :: entry :: after, c.SpansNest := fun c hc =>
    WellNested.child hn (List.mem_of_mem_filter (hsplit ▸ hc))
  have horder := hn.pairwise_children.filter isArgumentEntry
  have hd : d ∈ before ++ previous :: entry :: after := hsplit ▸ List.mem_filter.2 ⟨hd, harg⟩
  have hprevious := (hmem previous (by simp)).firstLine_le
  have hentry := (hmem entry (by simp)).firstLine_le
  rw [hsplit, List.pairwise_append, List.pairwise_cons, List.pairwise_cons] at horder
  obtain ⟨-, ⟨-, hafter, -⟩, hbefore⟩ := horder
  unfold Apart
  rcases List.mem_append.1 hd with hd | hd
  · have := hbefore d hd previous (by simp)
    omega
  rcases List.mem_cons.1 hd with rfl | hd
  · exact .inl hopens
  rcases List.mem_cons.1 hd with rfl | hd
  · exact .inr (Int.le_refl _)
  · have := hafter d hd
    omega

/-- The line of an offense cuts the argument list of its call, and none of the arguments. -/
theorem SpansNest.argumentList_of_offense {lines : SourceLines} {t : SyntaxTree Extent}
    {o : Offense} (hn : t.SpansNest) (h : checkCall lines (.ofNode t) = some o) :
    ∃ list, t.field? "arguments" = some list ∧ list.children ≠ [] ∧ list.firstLine < o.line ∧
      o.line ≤ list.lastLine ∧ ∀ d ∈ list.children, isArgumentEntry d → d.Apart o.line := by
  obtain ⟨argument, hopener, hline, -⟩ := exists_lineOpener_of_checkCall h
  cases hfield : t.field? "arguments" with
  | none => simp [Call.ofNode, hfield, argumentsOf, lineOpeners] at hopener
  | some list =>
    have hlist : list.SpansNest := WellNested.child hn (field?_mem_children hfield)
    have hopener : argument ∈ lineOpeners (argumentsOf list.children) := by
      simpa [Call.ofNode, hfield] using hopener
    obtain ⟨before, previous, entry, after, hsplit, hstart, hopens⟩ :=
      exists_entries_of_mem_lineOpeners hopener
    have hmem : ∀ c ∈ previous :: entry :: after, c ∈ list.children := fun c hc =>
      List.mem_of_mem_filter (hsplit ▸ List.mem_append_right before hc)
    have hprevious : previous ∈ list.children := hmem previous (by simp)
    have hentry : entry ∈ list.children := hmem entry (by simp)
    have h1 := hlist.firstLine_le_of_mem (child_mem_nodes hprevious (self_mem_nodes list))
    have h2 := SpansNest.firstLine_le (WellNested.child hlist hprevious)
    have h3 := SpansNest.firstLine_le (WellNested.child hlist hentry)
    have h4 := hlist.lastLine_le_of_mem (child_mem_nodes hentry (self_mem_nodes list))
    rw [hline, hstart]
    exact ⟨list, rfl, List.ne_nil_of_mem hentry, by omega, by omega,
      hlist.apart_of_lineOpener hsplit hopens⟩

/-- A line that cuts one child of a node cuts no other. -/
theorem SpansNest.apart_of_sibling {line : Int} {t c list : SyntaxTree Extent} (hn : t.SpansNest)
    (hlist : list ∈ t.children) (hfirst : list.firstLine < line) (hlast : line ≤ list.lastLine)
    (hc : c ∈ t.children) (hne : c ≠ list) : c.Apart line := by
  let beside (c d : SyntaxTree Extent) : Prop :=
    c.lastLine ≤ d.firstLine ∨ d.lastLine ≤ c.firstLine
  have : Std.Symm beside := ⟨fun _ _ h => h.symm⟩
  have hpair : t.children.Pairwise beside := hn.pairwise_children.imp .inl
  have horder : beside c list := hpair.forall hc hlist hne
  unfold Apart
  omega

/-- The offense of a call and that of a call below it stand on different lines. -/
theorem line_ne_of_below {lines : SourceLines} {t c s : SyntaxTree Extent} {o o' : Offense}
    (hn : t.SpansNest) (hleaf : t.TokensAreLeaves) (hcalls : t.NoHeredocLists)
    (ht : t.kind = "call") (hc : c ∈ t.children) (hs : s ∈ c.preorder opaqueKinds)
    (hcall : s.kind = "call") (ho : checkCall lines (.ofNode t) = some o)
    (ho' : checkCall lines (.ofNode s) = some o') : o.line ≠ o'.line := by
  have hnc : c.SpansNest := WellNested.child hn hc
  have hns : s.SpansNest := WellNested.of_mem hnc (mem_nodes_of_mem_preorder hs)
  obtain ⟨list, hfield, -, hfirst, hlast, hargs⟩ := hn.argumentList_of_offense ho
  obtain ⟨list', hfield', hne', hfirst', hlast', -⟩ := hns.argumentList_of_offense ho'
  have hlist' := child_mem_nodes (field?_mem_children hfield') (self_mem_nodes s)
  suffices list'.Apart o.line by
    unfold Apart at this
    omega
  by_cases hclist : c = list
  · subst hclist
    obtain ⟨hkind, rfl | ⟨d, hd, hs⟩⟩ := mem_preorder_iff.1 hs
    · -- the argument list is the other call
      have hroot : t ∈ t.preorder opaqueKinds :=
        mem_preorder_iff.2 ⟨by simp [ht, opaqueKinds], .inl rfl⟩
      have hbody := hcalls t hroot ht s hfield hcall list' hfield'
      have hmem := field?_mem_children hfield'
      refine hargs list' hmem (isArgumentEntry_of_kind (fun htoken => hne' ?_) hbody)
      exact hleaf list' (child_mem_nodes hmem (child_mem_nodes hc (self_mem_nodes t))) htoken
    · -- the other call lies in an entry of the argument list
      have hdnodes := child_mem_nodes hd (child_mem_nodes hc (self_mem_nodes t))
      obtain ⟨hkind, hsd⟩ := mem_preorder_iff.1 hs
      have htoken : d.kind ∉ tokenKinds := by
        intro htoken
        rcases hsd with rfl | ⟨e, he, -⟩
        · simp [hcall, tokenKinds] at htoken
        · simp [hleaf d hdnodes htoken] at he
      have hbody : d.kind ≠ "heredoc_body" := by simpa [opaqueKinds] using hkind
      have hd := hargs d hd (isArgumentEntry_of_kind htoken hbody)
      refine SpansNest.apart_of_mem (WellNested.of_mem hn hdnodes) hd ?_
      exact mem_preorder_trans hlist' (mem_nodes_of_mem_preorder hs)
  · have hapart := hn.apart_of_sibling (field?_mem_children hfield) hfirst hlast hc hclist
    exact hnc.apart_of_mem hapart (mem_preorder_trans hlist' (mem_nodes_of_mem_preorder hs))

/-- The offenses of calls below two siblings stand on different lines. -/
theorem line_ne_of_siblings {lines : SourceLines} {c d r s : SyntaxTree Extent} {o o' : Offense}
    (hc : c.SpansNest) (hd : d.SpansNest) (horder : c.lastLine ≤ d.firstLine)
    (hr : r ∈ c.preorder opaqueKinds) (hs : s ∈ d.preorder opaqueKinds)
    (ho : checkCall lines (.ofNode r) = some o) (ho' : checkCall lines (.ofNode s) = some o') :
    o.line ≠ o'.line := by
  have hr := mem_nodes_of_mem_preorder hr
  have hs := mem_nodes_of_mem_preorder hs
  obtain ⟨list, hfield, -, -, hlast, -⟩ :=
    SpansNest.argumentList_of_offense (WellNested.of_mem hc hr) ho
  obtain ⟨list', hfield', -, hfirst', -, -⟩ :=
    SpansNest.argumentList_of_offense (WellNested.of_mem hd hs) ho'
  have h1 := hc.lastLine_le_of_mem (child_mem_nodes (field?_mem_children hfield) hr)
  have h2 := hd.firstLine_le_of_mem (child_mem_nodes (field?_mem_children hfield') hs)
  omega

end SyntaxTree

/-- The offenses of two calls of a tree stand on different lines. -/
theorem pairwise_line_ne (root : SyntaxTree Extent) (lines : SourceLines) (hn : root.SpansNest)
    (hleaf : root.TokensAreLeaves) (hcalls : root.NoHeredocLists) :
    (callSites root).Pairwise fun c d =>
      ∀ o ∈ checkCall lines c, ∀ o' ∈ checkCall lines d, o.line ≠ o'.line := by
  unfold callSites
  rw [SyntaxTree.walk_eq_preorder, List.pairwise_map, List.pairwise_filter]
  refine SyntaxTree.pairwise_preorder root (fun t ht c hc s hs => ?_) (fun t ht => ?_)
  · intro htcall hscall o ho o' ho'
    have htn := SyntaxTree.mem_nodes_of_mem_preorder ht
    refine SyntaxTree.line_ne_of_below (SyntaxTree.WellNested.of_mem hn htn) ?_ ?_
      (by simpa using htcall) hc hs (by simpa using hscall) ho ho'
    · exact fun r hr => hleaf r (SyntaxTree.mem_preorder_trans hr htn)
    · exact fun r hr => hcalls r (SyntaxTree.mem_preorder_trans hr ht)
  · have htn : t.SpansNest :=
      SyntaxTree.WellNested.of_mem hn (SyntaxTree.mem_nodes_of_mem_preorder ht)
    refine htn.pairwise_children.imp_of_mem fun hc hd horder r hr s hs => ?_
    intro _ _ o ho o' ho'
    exact SyntaxTree.line_ne_of_siblings (SyntaxTree.WellNested.child htn hc)
      (SyntaxTree.WellNested.child htn hd) horder hr hs ho ho'

/-! ## Top theorems -/

/-- A position comes before another: on an earlier line, or in an earlier column of its line. -/
def Offense.Before (a b : Offense) : Prop :=
  a.line < b.line ∨ a.line = b.line ∧ a.column < b.column

instance (a b : Offense) : Decidable (a.Before b) := inferInstanceAs (Decidable (_ ∨ _))

/-- No two calls have an offense at one position, and the offenses of a tree come in strictly
increasing order. -/
theorem inspect_strictly_sorted (root : SyntaxTree Extent) (lines : SourceLines)
    (hn : root.SpansNest) (hleaf : root.TokensAreLeaves) (hcalls : root.NoHeredocLists) :
    ((callSites root).Pairwise fun c d => ∀ o ∈ checkCall lines c, ∀ o' ∈ checkCall lines d,
      (o.line, o.column) ≠ (o'.line, o'.column)) ∧
    (inspect root lines).Pairwise Offense.Before := by
  have hne := pairwise_line_ne root lines hn hleaf hcalls
  refine ⟨hne.imp fun h o ho o' ho' heq => h o ho o' ho' (congrArg Prod.fst heq), ?_⟩
  have hlines : ((callSites root).filterMap (checkCall lines)).Pairwise fun a b =>
      a.line ≠ b.line :=
    List.pairwise_filterMap.2 (hne.imp fun h o ho o' ho' => h o ho o' ho')
  have hlines : (inspect root lines).Pairwise fun a b => a.line ≠ b.line :=
    ((sortOffenses_perm _).pairwise_iff fun h => h.symm).2 hlines
  refine ((pairwise_sortOffenses _).and hlines).imp fun {a b} h => ?_
  have hle := h.1
  simp only [Offense.positionLE, Bool.or_eq_true, Bool.and_eq_true, decide_eq_true_eq,
    beq_iff_eq] at hle
  have hne := h.2
  unfold Offense.Before
  omega

/-- The extent from one line and column to another. -/
def extent (line column line' column' : Int) : Extent := ⟨⟨⟨line, column⟩, ⟨line', column'⟩⟩, ""⟩

/-- `f(x,` and on the next lines ` g(y,` and `  z))`. -/
def nestedCalls : SyntaxTree Extent :=
  .node "call" (extent 1 0 3 5) [("arguments", 1)]
    [.node "identifier" (extent 1 0 1 1) [] [],
     .node "argument_list" (extent 1 1 3 5) []
      [.node "(" (extent 1 1 1 2) [] [], .node "identifier" (extent 1 2 1 3) [] [],
       .node "call" (extent 2 1 3 4) [("arguments", 0)]
        [.node "argument_list" (extent 2 2 3 4) []
          [.node "identifier" (extent 2 3 2 4) [] [], .node "identifier" (extent 3 2 3 3) [] []]]]]

/-- Both calls of `nestedCalls` are misaligned, and their offenses come in order. -/
theorem inspect_nestedCalls :
    nestedCalls.SpansNest ∧ nestedCalls.TokensAreLeaves ∧ nestedCalls.NoHeredocLists ∧
      ((callSites nestedCalls).filterMap (checkCall (.ofText []))).length = 2 ∧
      (inspect nestedCalls (.ofText [])).Pairwise Offense.Before := by
  have hn : nestedCalls.SpansNest := by
    unfold SyntaxTree.SpansNest SyntaxTree.WellNested
    decide
  have hleaf : nestedCalls.TokensAreLeaves := by
    unfold SyntaxTree.TokensAreLeaves
    decide
  have hcalls : nestedCalls.NoHeredocLists := by
    unfold SyntaxTree.NoHeredocLists
    decide
  refine ⟨hn, hleaf, hcalls, ?_, (inspect_strictly_sorted _ (.ofText []) hn hleaf hcalls).2⟩
  rw [callSites, SyntaxTree.walk_eq_preorder]
  decide

/-- A call whose argument list is a call, with a heredoc body for its argument list. -/
def heredocList : SyntaxTree Extent :=
  .node "call" (extent 1 0 2 2) [("arguments", 0)]
    [.node "call" (extent 1 0 2 2) [("arguments", 1)]
      [.node "identifier" (extent 1 0 1 1) [] [],
       .node "heredoc_body" (extent 1 2 2 1) []
        [.node "identifier" (extent 1 2 1 3) [] [], .node "identifier" (extent 2 1 2 1) [] []],
       .node "identifier" (extent 2 1 2 2) [] []]]

/-- Both calls of `heredocList` have their offense at the same position. -/
theorem heredocList_offenses_meet :
    heredocList.SpansNest ∧ heredocList.TokensAreLeaves ∧
      ¬ (inspect heredocList (.ofText [])).Pairwise Offense.Before := by
  refine ⟨?_, ?_, ?_⟩
  · unfold SyntaxTree.SpansNest SyntaxTree.WellNested
    decide
  · unfold SyntaxTree.TokensAreLeaves
    decide
  · have hfound : (callSites heredocList).filterMap (checkCall (.ofText [])) =
        List.replicate 2 ⟨.convention, misalignedMessage, 2, 1⟩ := by
      rw [callSites, SyntaxTree.walk_eq_preorder]
      decide
    have hperm := sortOffenses_perm ((callSites heredocList).filterMap (checkCall (.ofText [])))
    rw [hfound, List.perm_replicate] at hperm
    rw [inspect, hfound, hperm]
    decide

end CallAlign

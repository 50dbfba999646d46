import CallAlign.Proofs.ObservedLayout
import Mathlib.Algebra.Order.Group.Multiset
import Mathlib.Tactic.Abel

/-!
# Calls do not interfere

A tree with one node left out is a context: the frames on the way down to the node.  The check of a
call above the node reads its argument list and the entries of the list; of the node itself it reads
the kind and the span, when the node is an entry, unless the node is the list.  So the tree outside
the node has the same offenses whatever node of that kind and span is put in.

    mem_preorder_iff_reaches : the nodes that a traversal reaches, each with its context
    checkCall_fill_congr     : the offense of a call above the node
    exists_outer_offenses    : the offenses outside the node
    inspect_replace          : the offenses of the tree are those outside and those of the node
-/

namespace CallAlign

namespace SyntaxTree

variable {α : Type}

/-! ## Contexts -/

/-- A node with one of its children left out. -/
structure Frame (α : Type) where
  kind : String
  label : α
  fields : List (String × Nat)
  before : List (SyntaxTree α)
  after : List (SyntaxTree α)

/-- The node with a child put in. -/
def Frame.fill (frame : Frame α) (child : SyntaxTree α) : SyntaxTree α :=
  .node frame.kind frame.label frame.fields (frame.before ++ child :: frame.after)

/-- A field of the node finds the child that is left out. -/
def Frame.Names (frame : Frame α) (field : String) : Prop :=
  frame.fields.lookup field = some frame.before.length

/-- A tree with one node left out: the frames from the root down to it. -/
abbrev Context (α : Type) := List (Frame α)

/-- The tree with a node put in. -/
def Context.plug (context : Context α) (t : SyntaxTree α) : SyntaxTree α :=
  context.foldr Frame.fill t

/-- A traversal of `root` reaches `t` by way of the context. -/
structure Context.Reaches (skip : List String) (context : Context α) (t root : SyntaxTree α) :
    Prop where
  plug_eq : context.plug t = root
  entered : ∀ frame ∈ context, frame.kind ∉ skip
  kind_notMem : t.kind ∉ skip

/-- The node left out is the argument list of a call. -/
def Context.IsArgumentList (context : Context α) : Prop :=
  ∃ frame ∈ context.getLast?, frame.kind = "call" ∧ frame.Names "arguments"

/-! ## Lemmas -/

theorem Context.IsArgumentList.cons {context : Context α} (h : context.IsArgumentList)
    (frame : Frame α) : Context.IsArgumentList (frame :: context) := by
  obtain ⟨last, hlast, h⟩ := h
  exact ⟨last, by rw [List.getLast?_cons, hlast]; rfl, h⟩

@[simp] theorem Context.plug_nil (t : SyntaxTree α) : Context.plug [] t = t := rfl

@[simp] theorem Context.plug_cons (frame : Frame α) (context : Context α) (t : SyntaxTree α) :
    Context.plug (frame :: context) t = frame.fill (context.plug t) := rfl

@[simp] theorem Frame.kind_fill (frame : Frame α) (child : SyntaxTree α) :
    (frame.fill child).kind = frame.kind := rfl

@[simp] theorem Frame.children_fill (frame : Frame α) (child : SyntaxTree α) :
    (frame.fill child).children = frame.before ++ child :: frame.after := rfl

theorem exists_fill_eq {c t : SyntaxTree α} (hc : c ∈ t.children) :
    ∃ frame : Frame α, frame.fill c = t := by
  cases t with
  | node kind label fields children =>
    obtain ⟨before, after, hchildren⟩ := List.append_of_mem hc
    have hchildren : children = before ++ c :: after := hchildren
    exact ⟨⟨kind, label, fields, before, after⟩, by rw [Frame.fill, hchildren]⟩

theorem Frame.field?_fill_of_names {frame : Frame α} {field : String} (h : frame.Names field)
    (child : SyntaxTree α) : (frame.fill child).field? field = some child := by
  unfold Names at h
  simp [fill, field?, SyntaxTree.fields, SyntaxTree.children, h]

theorem Frame.field?_fill_congr {frame : Frame α} {field : String} (h : ¬ frame.Names field)
    (child child' : SyntaxTree α) :
    (frame.fill child').field? field = (frame.fill child).field? field := by
  unfold Names at h
  simp only [fill, field?, SyntaxTree.fields, SyntaxTree.children]
  cases hlookup : frame.fields.lookup field with
  | none => rfl
  | some i =>
    have hi : i ≠ frame.before.length := fun heq => h (heq ▸ hlookup)
    rw [Option.bind_some, Option.bind_some]
    rcases Nat.lt_or_gt_of_ne hi with hlt | hgt
    · rw [List.getElem?_append_left hlt, List.getElem?_append_left hlt]
    · obtain ⟨j, rfl⟩ : ∃ j, i = frame.before.length + (j + 1) :=
        ⟨i - frame.before.length - 1, by omega⟩
      rw [List.getElem?_append_right (by omega), List.getElem?_append_right (by omega),
        Nat.add_sub_cancel_left, List.getElem?_cons_succ, List.getElem?_cons_succ]

/-- The nodes that a traversal reaches are those at the end of a context that it enters. -/
theorem mem_preorder_iff_reaches {skip : List String} {t root : SyntaxTree α} :
    t ∈ root.preorder skip ↔ ∃ context : Context α, context.Reaches skip t root := by
  constructor
  · intro h
    induction root using induction_on_children with
    | node root ih =>
      obtain ⟨hkind, rfl | ⟨c, hc, ht⟩⟩ := mem_preorder_iff.1 h
      · exact ⟨[], rfl, by simp, hkind⟩
      · obtain ⟨context, rfl, hentered, htkind⟩ := ih c hc ht
        obtain ⟨frame, rfl⟩ := exists_fill_eq hc
        exact ⟨frame :: context, rfl, List.forall_mem_cons.2 ⟨hkind, hentered⟩, htkind⟩
  · rintro ⟨context, rfl, hentered, htkind⟩
    induction context with
    | nil => exact mem_preorder_iff.2 ⟨htkind, .inl rfl⟩
    | cons frame context ih =>
      obtain ⟨hkind, hentered⟩ := List.forall_mem_cons.1 hentered
      exact mem_preorder_iff.2 ⟨hkind, .inr ⟨Context.plug context t, by simp, ih hentered⟩⟩

/-- Seen from above, a tree changes its kind only if the node put in is the whole tree. -/
theorem Context.kind_plug_congr (context : Context α) {t t' : SyntaxTree α}
    (h : t'.kind = t.kind) : (context.plug t').kind = (context.plug t).kind := by
  cases context with
  | nil => exact h
  | cons frame context => rfl

theorem Context.span_plug_congr (context : Context Extent) {t t' : SyntaxTree Extent}
    (h : t'.label.span = t.label.span) :
    (context.plug t').label.span = (context.plug t).label.span := by
  cases context with
  | nil => exact h
  | cons frame context => rfl

end SyntaxTree

open SyntaxTree

/-! ## The call of a frame -/

/-- An argument list is read by the kinds and the spans of its entries. -/
theorem argumentsOf_congr (before after : List (SyntaxTree Extent)) {t t' : SyntaxTree Extent}
    (hkind : t'.kind = t.kind) (hspan : t'.label.span = t.label.span) :
    argumentsOf (before ++ t' :: after) = argumentsOf (before ++ t :: after) := by
  have hargument : Argument.ofNode t' = Argument.ofNode t := by
    simp [Argument.ofNode, hkind, hspan]
  simp only [argumentsOf, List.filter_append, List.filter_cons, hkind, List.map_append]
  split <;> simp [hargument]

/-- The call of a frame has the same offense whatever node of one kind and span is put in below it,
unless the node is its argument list. -/
theorem checkCall_fill_congr (lines : SourceLines) {frame : Frame Extent}
    {context : Context Extent} {t t' : SyntaxTree Extent} (hcall : frame.kind = "call")
    (hlist : ¬ Context.IsArgumentList (frame :: context)) (hkind : t'.kind = t.kind)
    (hspan : t'.label.span = t.label.span) :
    checkCall lines (.ofNode (frame.fill (context.plug t'))) =
      checkCall lines (.ofNode (frame.fill (context.plug t))) := by
  refine checkCall_congr lines (by rfl) ?_
  unfold Call.ofNode
  dsimp only
  by_cases hnames : frame.Names "arguments"
  · rw [Frame.field?_fill_of_names hnames, Frame.field?_fill_of_names hnames]
    cases context with
    | nil => exact absurd ⟨frame, rfl, hcall, hnames⟩ hlist
    | cons inner context =>
      exact argumentsOf_congr inner.before inner.after (Context.kind_plug_congr context hkind)
        (Context.span_plug_congr context hspan)
  · rw [Frame.field?_fill_congr hnames]

/-! ## All offenses -/

/-- The offenses of a tree, in no order. -/
def offensesIn (lines : SourceLines) (t : SyntaxTree Extent) : Multiset Offense :=
  (callSites t).filterMap (checkCall lines)

/-- The offense of the call that a node is, if it is a call. -/
def ownOffense (lines : SourceLines) (t : SyntaxTree Extent) : Multiset Offense :=
  if t.kind = "call" then (checkCall lines (.ofNode t)).toList else 0

theorem coe_inspect (t : SyntaxTree Extent) (lines : SourceLines) :
    (inspect t lines : Multiset Offense) = offensesIn lines t :=
  Multiset.coe_eq_coe.2 (sortOffenses_perm _)

theorem callSites_eq {t : SyntaxTree Extent} (hkind : t.kind ∉ opaqueKinds) :
    callSites t =
      (if t.kind = "call" then [Call.ofNode t] else []) ++ t.children.flatMap callSites := by
  unfold callSites
  simp only [walk_eq_preorder]
  rw [preorder_eq, if_neg (by simpa using hkind), List.filter_cons, List.filter_flatMap]
  split <;> simp_all [List.map_flatMap]

theorem coe_filterMap_flatMap (lines : SourceLines) (ts : List (SyntaxTree Extent)) :
    (((ts.flatMap callSites).filterMap (checkCall lines) : List Offense) : Multiset Offense) =
      (ts.map (offensesIn lines)).sum := by
  induction ts with
  | nil => rfl
  | cons t ts ih =>
    rw [List.flatMap_cons, List.filterMap_append, ← Multiset.coe_add, ih, List.map_cons,
      List.sum_cons, offensesIn]

/-- A node has its own offense and those below its children. -/
theorem offensesIn_fill (lines : SourceLines) {frame : Frame Extent}
    (hkind : frame.kind ∉ opaqueKinds) (child : SyntaxTree Extent) :
    offensesIn lines (frame.fill child) =
      ownOffense lines (frame.fill child) + ((frame.before.map (offensesIn lines)).sum +
        (offensesIn lines child + (frame.after.map (offensesIn lines)).sum)) := by
  have hown : ((if frame.kind = "call" then [Call.ofNode (frame.fill child)] else []).filterMap
      (checkCall lines) : Multiset Offense) = ownOffense lines (frame.fill child) := by
    unfold ownOffense
    rw [Frame.kind_fill]
    split
    · cases h : checkCall lines (.ofNode (frame.fill child)) <;> simp [h]
    · rfl
  rw [offensesIn, callSites_eq (by exact hkind), List.filterMap_append, ← Multiset.coe_add]
  rw [Frame.kind_fill, hown, coe_filterMap_flatMap, Frame.children_fill, List.map_append,
    List.sum_append, List.map_cons, List.sum_cons]

/-- The offenses outside a node that a traversal reaches depend on the kind and the span of the
node alone, unless the node is the argument list of a call. -/
theorem exists_outer_offenses (lines : SourceLines) (kind : String) (span : Span)
    {context : Context Extent} (hentered : ∀ frame ∈ context, frame.kind ∉ opaqueKinds)
    (hlist : ¬ context.IsArgumentList) :
    ∃ M : Multiset Offense, ∀ t : SyntaxTree Extent, t.kind = kind → t.label.span = span →
      offensesIn lines (context.plug t) = M + offensesIn lines t := by
  induction context with
  | nil => exact ⟨0, fun t _ _ => (zero_add _).symm⟩
  | cons frame context ih =>
    obtain ⟨hframe, hentered⟩ := List.forall_mem_cons.1 hentered
    obtain ⟨M, hM⟩ := ih hentered fun h => hlist (h.cons frame)
    -- the call of the frame is the same with a leaf for the node
    let leaf : SyntaxTree Extent := .node kind ⟨span, ""⟩ [] []
    refine ⟨ownOffense lines (frame.fill (Context.plug context leaf)) +
      (frame.before.map (offensesIn lines)).sum + (frame.after.map (offensesIn lines)).sum + M,
      fun t hkind hspan => ?_⟩
    have hown : ownOffense lines (frame.fill (Context.plug context t)) =
        ownOffense lines (frame.fill (Context.plug context leaf)) := by
      unfold ownOffense
      rw [Frame.kind_fill, Frame.kind_fill]
      split
      · next hcall => rw [checkCall_fill_congr lines (t := leaf) hcall hlist hkind hspan]
      · rfl
    rw [Context.plug_cons, offensesIn_fill lines hframe, hM t hkind hspan, hown]
    abel

/-! ## Order -/

/-- The offenses of `M` in order of position. -/
structure Arranges (os : List Offense) (M : Multiset Offense) : Prop where
  sorted : os.Pairwise fun a b => a.positionLE b = true
  coe_eq : (os : Multiset Offense) = M

/-- There is one order, because offenses that the check finds at one position are alike. -/
theorem eq_inspect_iff_arranges (t : SyntaxTree Extent) (lines : SourceLines) (os : List Offense) :
    os = inspect t lines ↔ Arranges os (offensesIn lines t) := by
  constructor
  · rintro rfl
    exact ⟨pairwise_sortOffenses _, coe_inspect t lines⟩
  · rintro ⟨hsorted, hos⟩
    have hperm : os.Perm (inspect t lines) :=
      Multiset.coe_eq_coe.1 (hos.trans (coe_inspect t lines).symm)
    have halike : ∀ o ∈ inspect t lines,
        o.severity = .convention ∧ o.message = misalignedMessage := by
      intro o ho
      obtain ⟨call, -, hcall⟩ := List.mem_filterMap.1 ((sortOffenses_perm _).mem_iff.1 ho)
      exact severity_message_of_checkCall hcall
    refine hperm.eq_of_pairwise (fun a b ha hb hab hba => ?_) hsorted (pairwise_sortOffenses _)
    obtain ⟨hsa, hma⟩ := halike a (hperm.mem_iff.1 ha)
    obtain ⟨hsb, hmb⟩ := halike b hb
    rw [Offense.positionLE_iff] at hab hba
    obtain ⟨severity, message, line, column⟩ := a
    obtain ⟨severity', message', line', column'⟩ := b
    simp only [Offense.mk.injEq] at *
    refine ⟨hsa.trans hsb.symm, hma.trans hmb.symm, ?_, ?_⟩ <;> omega

/-! ## Top theorem -/

/-- A traversal reaches the nodes at the end of a context that it enters.  For every such node that
is no argument list of a call there are offenses `M`, the same for all nodes of its kind and span,
so that the tree with one of these in its place has `M` and the offenses of the new node, in order
of position. -/
theorem inspect_replace (root t : SyntaxTree Extent) (lines : SourceLines) :
    (t ∈ root.walk opaqueKinds ↔ ∃ context : Context Extent, context.Reaches opaqueKinds t root) ∧
    ∀ context : Context Extent, context.Reaches opaqueKinds t root → ¬ context.IsArgumentList →
      ∃ M : Multiset Offense, ∀ t' : SyntaxTree Extent,
        t'.kind = t.kind → t'.label.span = t.label.span →
        ∀ os : List Offense, os = inspect (context.plug t') lines ↔
          Arranges os (M + (inspect t' lines : Multiset Offense)) := by
  refine ⟨by rw [walk_eq_preorder, mem_preorder_iff_reaches], fun context hreaches hlist => ?_⟩
  obtain ⟨M, hM⟩ :=
    exists_outer_offenses lines t.kind t.label.span hreaches.entered hlist
  refine ⟨M, fun t' hkind hspan os => ?_⟩
  rw [eq_inspect_iff_arranges, hM t' hkind hspan, coe_inspect]

/-- The inner call of `nestedCalls`. -/
def innerCall : SyntaxTree Extent :=
  .node "call" (extent 2 1 3 4) [("arguments", 0)]
    [.node "argument_list" (extent 2 2 3 4) []
      [.node "identifier" (extent 2 3 2 4) [] [], .node "identifier" (extent 3 2 3 3) [] []]]

/-- `nestedCalls` without its inner call, which is an entry of the outer argument list. -/
def aroundInnerCall : Context Extent :=
  [⟨"call", extent 1 0 3 5, [("arguments", 1)], [.node "identifier" (extent 1 0 1 1) [] []], []⟩,
   ⟨"argument_list", extent 1 1 3 5, [],
    [.node "(" (extent 1 1 1 2) [] [], .node "identifier" (extent 1 2 1 3) [] []], []⟩]

/-- The offense of the outer call. -/
def outerOffense : Offense := ⟨.convention, misalignedMessage, 2, 1⟩

/-- A call without arguments on the lines of the inner one. -/
def bareCall : SyntaxTree Extent := .node "call" (extent 2 1 3 4) [] []

theorem inspect_bareCall : inspect bareCall (.ofText []) = [] := by
  have hfound : (callSites bareCall).filterMap (checkCall (.ofText [])) = [] := by
    rw [callSites, walk_eq_preorder]
    decide
  rw [inspect, hfound]
  exact List.perm_nil.1 (sortOffenses_perm _)

/-- Around a call without arguments, the outer call alone has an offense. -/
theorem inspect_aroundBareCall :
    inspect (aroundInnerCall.plug bareCall) (.ofText []) = [outerOffense] := by
  have hfound : (callSites (aroundInnerCall.plug bareCall)).filterMap (checkCall (.ofText [])) =
      [outerOffense] := by
    rw [callSites, walk_eq_preorder]
    decide
  rw [inspect, hfound]
  exact List.perm_singleton.1 (sortOffenses_perm _)

/-- Whatever call stands on the lines of the inner one, the outer call keeps its offense. -/
theorem inspect_replace_innerCall :
    aroundInnerCall.Reaches opaqueKinds innerCall nestedCalls ∧
      ¬ aroundInnerCall.IsArgumentList ∧
      ∀ t' : SyntaxTree Extent, t'.kind = "call" → t'.label.span = ⟨⟨2, 1⟩, ⟨3, 4⟩⟩ →
        outerOffense ∈ inspect (aroundInnerCall.plug t') (.ofText []) ∧
        ∀ os : List Offense, os = inspect (aroundInnerCall.plug t') (.ofText []) ↔
          Arranges os ({outerOffense} + (inspect t' (.ofText []) : Multiset Offense)) := by
  have hreaches : aroundInnerCall.Reaches opaqueKinds innerCall nestedCalls :=
    ⟨rfl, by decide, by decide⟩
  have hlist : ¬ aroundInnerCall.IsArgumentList := by
    rintro ⟨frame, hlast, hcall, -⟩
    cases hlast
    exact absurd hcall (by decide)
  obtain ⟨M, hM⟩ :=
    (inspect_replace nestedCalls innerCall (.ofText [])).2 aroundInnerCall hreaches hlist
  -- with a call that has no offense in its place, the tree has those outside
  obtain rfl : M = {outerOffense} := by
    have harranged := (hM bareCall rfl rfl _).1 inspect_aroundBareCall.symm
    rw [inspect_bareCall] at harranged
    simpa using harranged.coe_eq.symm
  refine ⟨hreaches, hlist, fun t' hkind hspan => ⟨?_, hM t' hkind hspan⟩⟩
  have harranged := (hM t' hkind hspan _).1 rfl
  rw [← Multiset.mem_coe, harranged.coe_eq]
  exact Multiset.mem_add.2 (.inl (Multiset.mem_singleton_self _))

end CallAlign

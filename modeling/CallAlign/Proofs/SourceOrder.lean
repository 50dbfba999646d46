import CallAlign.Proofs.DecodedRows
import CallAlign.Proofs.DistinctOffenses

/-!
# Calls and arguments in the order of the source

A parser's tree is well nested in rows and bytes; a call is read in lines and characters.  Turning
a point into a position keeps the order of points (`RowTable.position_mono`): on one row, a longer
prefix of the bytes decodes to no fewer characters, wherever it cuts a character or an ill-formed
part.  So the tree that is read is well nested too (`spansNest_read`), and what nesting says about
a node and its children, a call says about its bracket and its arguments.

    SpansNest.call_inOrder   : the parts of one call come in order and lie inside it
    SpansNest.pairwise_start : a traversal meets nodes in the order in which they start
    calls_in_source_order    : the calls of a file, and the parts of each, come in order
-/

namespace CallAlign

/-! ## Points -/

/-- Points in order: a row above, or the same row and no later byte. -/
instance : PartialOrder Point where
  le p q := p.row < q.row ∨ p.row = q.row ∧ p.byte ≤ q.byte
  le_refl p := .inr ⟨rfl, Nat.le_refl _⟩
  le_trans p q r hpq hqr := by omega
  le_antisymm p q hpq hqp := by
    obtain ⟨row, byte⟩ := p
    obtain ⟨row', byte'⟩ := q
    simp only [Point.mk.injEq] at *
    omega

instance : DecidableLE Point := fun p q =>
  inferInstanceAs (Decidable (p.row < q.row ∨ p.row = q.row ∧ p.byte ≤ q.byte))

theorem Point.le_iff (p q : Point) :
    p ≤ q ↔ p.row < q.row ∨ p.row = q.row ∧ p.byte ≤ q.byte := Iff.rfl

/-- A shorter prefix of some bytes decodes to no more characters than a longer one. -/
theorem Utf8.length_decode_take_mono (bs : List UInt8) {m n : Nat} (h : m ≤ n) :
    (decode (bs.take m)).length ≤ (decode (bs.take n)).length := by
  have hle := length_decode_take_le (bs.take n) m
  rwa [List.take_take, Nat.min_eq_left h] at hle

/-- Points in order are read as positions in order, also between the bytes of a character and
beyond the end of a row or of the file. -/
theorem RowTable.position_mono (t : RowTable) {p q : Point} (h : p ≤ q) :
    t.position p ≤ t.position q := by
  refine (Position.le_iff _ _).2 ?_
  rw [line_position, line_position]
  obtain hrow | ⟨hrow, hbyte⟩ := (Point.le_iff p q).1 h
  · left
    omega
  · right
    refine ⟨by omega, ?_⟩
    unfold position
    rw [hrow]
    split
    · next row _ _ =>
      have := Utf8.length_decode_take_mono row hbyte
      simp only
      omega
    · simp only
      omega

/-! ## Trees -/

namespace SyntaxTree

variable {α β γ δ : Type}

/-- Relabelling a tree along a map that keeps the order of places keeps its nesting. -/
theorem WellNested.map [LE β] [LE γ] {start stop : α → β} {start' stop' : δ → γ} {t : SyntaxTree α}
    (f : α → δ) (move : β → γ) (hmove : ∀ p q, p ≤ q → move p ≤ move q)
    (hstart : ∀ a, start' (f a) = move (start a)) (hstop : ∀ a, stop' (f a) = move (stop a))
    (h : t.WellNested start stop) : (t.map f).WellNested start' stop' := by
  intro s' hs'
  rw [preorder_map] at hs'
  obtain ⟨s, hs, rfl⟩ := List.mem_map.1 hs'
  obtain ⟨hordered, hfirst, hlast, hturn⟩ := h s hs
  constructor
  · rw [label_map, hstart, hstop]
    exact hmove _ _ hordered
  · intro c' hc'
    rw [children_map] at hc'
    obtain ⟨c, hc, rfl⟩ := List.mem_map.1 hc'
    rw [label_map, label_map, hstart, hstart]
    exact hmove _ _ (hfirst c hc)
  · intro c' hc'
    rw [children_map] at hc'
    obtain ⟨c, hc, rfl⟩ := List.mem_map.1 hc'
    rw [label_map, label_map, hstop, hstop]
    exact hmove _ _ (hlast c hc)
  · rw [children_map, List.isChain_map]
    refine hturn.imp fun c d hcd => ?_
    rw [label_map, label_map, hstop, hstart]
    exact hmove _ _ hcd

/-- A tree that nests in bytes nests in characters. -/
theorem spansNest_read (table : RowTable) {tree : SyntaxTree ByteRange}
    (h : tree.WellNested (·.start) (·.stop)) : (table.read tree).SpansNest :=
  h.map _ table.position (fun _ _ => table.position_mono) (fun _ => rfl) (fun _ => rfl)

end SyntaxTree

/-! ## Calls -/

/-- A call begins where its span begins; its opening bracket, if it has one, and its arguments
follow in this order, each ending before the next begins, and end within the span. -/
structure Call.InOrder (c : Call) : Prop where
  calleeStart_eq : c.calleeStart = c.span.start
  le_openParen : ∀ p ∈ c.openParen, c.span.start ≤ p
  openParen_le : ∀ p ∈ c.openParen, ∀ a ∈ c.arguments, p ≤ a.start
  start_le : ∀ a ∈ c.arguments, c.span.start ≤ a.start
  ordered : ∀ a ∈ c.arguments, a.start ≤ a.stop
  inTurn : c.arguments.Pairwise fun a b => a.stop ≤ b.start
  stop_le : ∀ a ∈ c.arguments, a.stop ≤ c.span.stop

namespace SyntaxTree

/-- An argument lies inside the list that it is an entry of. -/
theorem SpansNest.argument_within {list : SyntaxTree Extent} (hn : list.SpansNest) {a : Argument}
    (ha : a ∈ argumentsOf list.children) :
    list.label.span.start ≤ a.start ∧ a.start ≤ a.stop ∧ a.stop ≤ list.label.span.stop := by
  obtain ⟨entry, hentry, -, rfl⟩ := mem_argumentsOf.1 ha
  have hlist := hn list (self_mem_nodes list)
  exact ⟨hlist.start_le entry hentry, (WellNested.child hn hentry).ordered,
    hlist.stop_le entry hentry⟩

/-- Leaving out what is no argument keeps the order of a list. -/
theorem SpansNest.pairwise_arguments {list : SyntaxTree Extent} (hn : list.SpansNest) :
    (argumentsOf list.children).Pairwise fun a b => a.stop ≤ b.start := by
  rw [argumentsOf, List.pairwise_map]
  exact (WellNested.pairwise_children hn).filter _

/-- The opening bracket stands in the list, before the arguments. -/
theorem SpansNest.openParen_before {list : SyntaxTree Extent} (hn : list.SpansNest) {p : Position}
    (hp : openParen? list.children = some p) :
    list.label.span.start ≤ p ∧ ∀ a ∈ argumentsOf list.children, p ≤ a.start := by
  obtain ⟨paren, rest, hchildren, hkind, rfl⟩ := openParen?_eq_some hp
  have hparen : paren ∈ list.children := by simp [hchildren]
  refine ⟨(hn list (self_mem_nodes list)).start_le paren hparen, fun a ha => ?_⟩
  obtain ⟨entry, hentry, hargument, rfl⟩ := mem_argumentsOf.1 ha
  have horder := WellNested.pairwise_children hn
  rw [hchildren, List.pairwise_cons] at horder
  rw [hchildren, List.mem_cons] at hentry
  obtain rfl | hentry := hentry
  · exact absurd (by simp [hkind, nonArgumentKinds]) hargument
  · exact le_trans (WellNested.child hn hparen).ordered (horder.1 entry hentry)

/-- What stands in the argument list of a node stands in order and inside the node. -/
theorem SpansNest.call_inOrder {t : SyntaxTree Extent} (hn : t.SpansNest) :
    (Call.ofNode t).InOrder := by
  cases hfield : t.field? "arguments" with
  | none => constructor <;> simp [Call.ofNode, hfield, argumentsOf, openParen?]
  | some list =>
    have hmem := field?_mem_children hfield
    have hlist : list.SpansNest := WellNested.child hn hmem
    have hnode := hn t (self_mem_nodes t)
    have harguments : (Call.ofNode t).arguments = argumentsOf list.children := by
      simp [Call.ofNode, hfield]
    have hopenParen : (Call.ofNode t).openParen = openParen? list.children := by
      simp [Call.ofNode, hfield]
    constructor
    case calleeStart_eq => rfl
    all_goals simp only [harguments, hopenParen]
    case le_openParen =>
      exact fun p hp => le_trans (hnode.start_le list hmem) (hlist.openParen_before hp).1
    case openParen_le => exact fun p hp => (hlist.openParen_before hp).2
    case start_le =>
      exact fun a ha => le_trans (hnode.start_le list hmem) (hlist.argument_within ha).1
    case ordered => exact fun a ha => (hlist.argument_within ha).2.1
    case inTurn => exact hlist.pairwise_arguments
    case stop_le =>
      exact fun a ha => le_trans (hlist.argument_within ha).2.2 (hnode.stop_le list hmem)

/-- A traversal meets nodes in the order in which they start. -/
theorem SpansNest.pairwise_start {root : SyntaxTree Extent} (hn : root.SpansNest)
    (skip : List String) :
    (root.preorder skip).Pairwise fun s t => s.label.span.start ≤ t.label.span.start := by
  refine pairwise_preorder root (fun t ht c hc s hs => ?_) (fun t ht => ?_)
  · have hnt : t.SpansNest := WellNested.of_mem hn (mem_nodes_of_mem_preorder ht)
    exact hnt.start_le_of_mem (mem_preorder_iff.2
      ⟨by simp, .inr ⟨c, hc, mem_nodes_of_mem_preorder hs⟩⟩)
  · have hnt : t.SpansNest := WellNested.of_mem hn (mem_nodes_of_mem_preorder ht)
    refine (WellNested.pairwise_children hnt).imp_of_mem fun {c d} hc hd hcd r hr s hs => ?_
    have hnc := WellNested.child hnt hc
    have hr := mem_nodes_of_mem_preorder hr
    calc r.label.span.start
        ≤ r.label.span.stop := (hnc.of_mem hr).ordered
      _ ≤ c.label.span.stop := hnc.stop_le_of_mem hr
      _ ≤ d.label.span.start := hcd
      _ ≤ s.label.span.start :=
        (WellNested.child hnt hd).start_le_of_mem (mem_nodes_of_mem_preorder hs)

end SyntaxTree

/-! ## Top theorem -/

/-- For any bytes and any tree that nests over them, the calls read off the tree have the
character spans of its call nodes, the parts of each call come in order and inside it, and the
calls come in the order in which they begin. -/
theorem calls_in_source_order (bytes : List UInt8) (tree : SyntaxTree ByteRange)
    (hn : tree.WellNested (·.start) (·.stop)) :
    let table := RowTable.ofBytes bytes
    (callSites (table.read tree)).map (·.span) =
        ((tree.walk opaqueKinds).filter (·.kind == "call")).map (table.span ·.label) ∧
      (∀ c ∈ callSites (table.read tree), c.InOrder) ∧
      (callSites (table.read tree)).Pairwise fun c d => c.calleeStart ≤ d.calleeStart := by
  intro table
  have hread := SyntaxTree.spansNest_read table hn
  refine ⟨?_, ?_, ?_⟩
  · rw [RowTable.read, callSites_map, List.map_map]
    refine List.map_congr_left fun t _ => ?_
    simp [Call.ofNode, SyntaxTree.label_map]
  · intro c hc
    obtain ⟨t, ht, rfl⟩ := List.mem_map.1 hc
    have ht := List.mem_of_mem_filter ht
    rw [SyntaxTree.walk_eq_preorder] at ht
    exact SyntaxTree.SpansNest.call_inOrder
      (hread.of_mem (SyntaxTree.mem_nodes_of_mem_preorder ht))
  · unfold callSites
    rw [SyntaxTree.walk_eq_preorder, List.pairwise_map]
    exact (hread.pairwise_start opaqueKinds).filter _

/-- `é(`, the first two of the three bytes of a character, and on the next row ` y)`. -/
def cutCallBytes : List UInt8 := [0xC3, 0xA9, 0x28, 0xE2, 0x82, 0x2C, 0x0A, 0x20, 0x79, 0x29]

/-- The call of `cutCallBytes`; its first argument ends between the two bytes. -/
def cutCall : SyntaxTree ByteRange :=
  .node "call" ⟨⟨0, 0⟩, ⟨1, 3⟩⟩ [("arguments", 1)]
    [.node "identifier" ⟨⟨0, 0⟩, ⟨0, 2⟩⟩ [] [],
     .node "argument_list" ⟨⟨0, 2⟩, ⟨1, 3⟩⟩ []
      [.node "(" ⟨⟨0, 2⟩, ⟨0, 3⟩⟩ [] [], .node "identifier" ⟨⟨0, 3⟩, ⟨0, 4⟩⟩ [] [],
       .node "ERROR" ⟨⟨0, 4⟩, ⟨0, 5⟩⟩ [] [], .node "," ⟨⟨0, 5⟩, ⟨0, 6⟩⟩ [] [],
       .node "identifier" ⟨⟨1, 1⟩, ⟨1, 2⟩⟩ [] [], .node ")" ⟨⟨1, 2⟩, ⟨1, 3⟩⟩ [] []]]

/-- The one call of `cutCall` comes in order, with three arguments: what is left of the cut
character takes no room. -/
theorem cutCall_in_source_order :
    cutCall.WellNested (·.start) (·.stop) ∧
      (callSites ((RowTable.ofBytes cutCallBytes).read cutCall)).map (·.openParen) =
        [some ⟨1, 1⟩] ∧
      (callSites ((RowTable.ofBytes cutCallBytes).read cutCall)).map (·.arguments) =
        [[⟨.value, ⟨1, 2⟩, ⟨1, 3⟩⟩, ⟨.value, ⟨1, 3⟩, ⟨1, 3⟩⟩, ⟨.value, ⟨2, 1⟩, ⟨2, 2⟩⟩]] ∧
      (∀ c ∈ callSites ((RowTable.ofBytes cutCallBytes).read cutCall), c.InOrder) ∧
      (callSites ((RowTable.ofBytes cutCallBytes).read cutCall)).Pairwise fun c d =>
        c.calleeStart ≤ d.calleeStart := by
  have hn : cutCall.WellNested (·.start) (·.stop) := by
    unfold SyntaxTree.WellNested
    decide
  refine ⟨hn, ?_, ?_, (calls_in_source_order cutCallBytes cutCall hn).2⟩
  · rw [callSites, SyntaxTree.walk_eq_preorder]
    decide
  · rw [callSites, SyntaxTree.walk_eq_preorder]
    decide

end CallAlign

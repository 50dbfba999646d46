import CallAlign.Source
import Mathlib.Data.List.Chain
import Mathlib.Order.Defs.PartialOrder

/-!
# Nodes of a tree and the nesting of their spans

A tree is well nested when the spans of a node and of its children fit together: a node does not
end before it starts, its children lie inside it, and each of them ends no later than the next one
starts.

    pairwise_preorder      : what holds down a branch and across siblings holds along a traversal
    start_le_of_mem, stop_le_of_mem : a well-nested tree spans all its nodes
    pairwise_children      : of two siblings, the earlier one ends before the later one starts
-/

namespace CallAlign

instance : PartialOrder Position where
  le p q := p.le q = true
  le_refl := Position.le_refl
  le_trans := Position.le_trans
  le_antisymm := Position.le_antisymm

instance : DecidableLE Position := fun p q => inferInstanceAs (Decidable (p.le q = true))

theorem Position.line_mono {p q : Position} (h : p ≤ q) : p.line ≤ q.line := by
  have h := (Position.le_iff p q).1 h
  omega

namespace SyntaxTree

variable {α β : Type}

/-! ## Nodes -/

theorem preorderAll_eq_flatMap (skip : List String) (ts : List (SyntaxTree α)) :
    preorderAll skip ts = ts.flatMap (preorder skip) := by
  induction ts with
  | nil => rfl
  | cons t ts ih => rw [preorderAll, ih, List.flatMap_cons]

/-- What holds of a node whenever it holds of its children holds of every tree. -/
theorem induction_on_children {motive : SyntaxTree α → Prop}
    (node : ∀ t, (∀ c ∈ t.children, motive c) → motive t) (t : SyntaxTree α) : motive t := by
  refine @SyntaxTree.rec α motive (fun cs => ∀ c ∈ cs, motive c) ?_ ?_ ?_ t
  · intro k a fs cs ih
    exact node (.node k a fs cs) ih
  · intro c hc
    cases hc
  · intro c cs hc hcs
    exact List.forall_mem_cons.2 ⟨hc, hcs⟩

theorem preorder_eq (skip : List String) (t : SyntaxTree α) :
    t.preorder skip =
      if skip.contains t.kind then [] else t :: t.children.flatMap (preorder skip) := by
  cases t with
  | node k a fs cs => rw [preorder, preorderAll_eq_flatMap]; rfl

theorem mem_preorder_iff {skip : List String} {s t : SyntaxTree α} :
    s ∈ t.preorder skip ↔
      t.kind ∉ skip ∧ (s = t ∨ ∃ c ∈ t.children, s ∈ c.preorder skip) := by
  rw [preorder_eq]
  by_cases h : t.kind ∈ skip <;> simp [h]

theorem mem_preorder_trans {skip : List String} {r s t : SyntaxTree α}
    (hr : r ∈ s.preorder skip) (hs : s ∈ t.preorder skip) : r ∈ t.preorder skip := by
  induction t using induction_on_children with
  | node t ih =>
    obtain ⟨ht, rfl | ⟨c, hc, hs⟩⟩ := mem_preorder_iff.1 hs
    · exact hr
    · exact mem_preorder_iff.2 ⟨ht, .inr ⟨c, hc, ih c hc hs⟩⟩

/-- The nodes that a traversal reaches are nodes of the tree. -/
theorem mem_nodes_of_mem_preorder {skip : List String} {s t : SyntaxTree α}
    (h : s ∈ t.preorder skip) : s ∈ t.preorder [] := by
  induction t using induction_on_children with
  | node t ih =>
    obtain ⟨-, rfl | ⟨c, hc, hs⟩⟩ := mem_preorder_iff.1 h
    · exact mem_preorder_iff.2 ⟨by simp, .inl rfl⟩
    · exact mem_preorder_iff.2 ⟨by simp, .inr ⟨c, hc, ih c hc hs⟩⟩

theorem self_mem_nodes (t : SyntaxTree α) : t ∈ t.preorder [] :=
  mem_preorder_iff.2 ⟨by simp, .inl rfl⟩

theorem child_mem_nodes {c s t : SyntaxTree α} (hc : c ∈ s.children) (hs : s ∈ t.preorder []) :
    c ∈ t.preorder [] :=
  mem_preorder_trans (mem_preorder_iff.2 ⟨by simp, .inr ⟨c, hc, self_mem_nodes c⟩⟩) hs

theorem field?_mem_children {s t : SyntaxTree α} {name : String} (h : t.field? name = some s) :
    s ∈ t.children := by
  unfold field? at h
  obtain ⟨i, -, hi⟩ := Option.bind_eq_some_iff.1 h
  exact List.mem_of_getElem? hi

/-- A relation that holds from a node to all below it, and from all below a sibling to all below a
later one, holds along the traversal. -/
theorem pairwise_preorder {skip : List String} {R : SyntaxTree α → SyntaxTree α → Prop}
    (root : SyntaxTree α)
    (hdown : ∀ t ∈ root.preorder skip, ∀ c ∈ t.children, ∀ s ∈ c.preorder skip, R t s)
    (hacross : ∀ t ∈ root.preorder skip, t.children.Pairwise fun c d =>
      ∀ r ∈ c.preorder skip, ∀ s ∈ d.preorder skip, R r s) :
    (root.preorder skip).Pairwise R := by
  induction root using induction_on_children with
  | node t ih =>
    by_cases hskip : t.kind ∈ skip
    · simp [preorder_eq, hskip]
    have ht : t ∈ t.preorder skip := mem_preorder_iff.2 ⟨hskip, .inl rfl⟩
    have hbelow : ∀ c ∈ t.children, ∀ s ∈ c.preorder skip, s ∈ t.preorder skip :=
      fun c hc s hs => mem_preorder_iff.2 ⟨hskip, .inr ⟨c, hc, hs⟩⟩
    rw [preorder_eq, if_neg (by simpa using hskip), List.pairwise_cons, List.pairwise_flatMap]
    refine ⟨fun s hs => ?_, fun c hc => ?_, hacross t ht⟩
    · obtain ⟨c, hc, hs⟩ := List.mem_flatMap.1 hs
      exact hdown t ht c hc s hs
    · exact ih c hc (fun s hs => hdown s (hbelow c hc s hs))
        (fun s hs => hacross s (hbelow c hc s hs))

/-! ## Nesting -/

section

variable [LE β] (start stop : α → β)

/-- The spans of a node and of its children fit together. -/
structure Fits (t : SyntaxTree α) : Prop where
  ordered : start t.label ≤ stop t.label
  start_le : ∀ c ∈ t.children, start t.label ≤ start c.label
  stop_le : ∀ c ∈ t.children, stop c.label ≤ stop t.label
  inTurn : t.children.IsChain fun c d => stop c.label ≤ start d.label

instance [DecidableLE β] (t : SyntaxTree α) : Decidable (t.Fits start stop) :=
  decidable_of_iff
    (start t.label ≤ stop t.label ∧ (∀ c ∈ t.children, start t.label ≤ start c.label) ∧
      (∀ c ∈ t.children, stop c.label ≤ stop t.label) ∧
      t.children.IsChain fun c d => stop c.label ≤ start d.label)
    ⟨fun h => ⟨h.1, h.2.1, h.2.2.1, h.2.2.2⟩, fun h => ⟨h.1, h.2, h.3, h.4⟩⟩

/-- The spans of all nodes of a tree fit together. -/
def WellNested (root : SyntaxTree α) : Prop := ∀ t ∈ root.preorder [], t.Fits start stop

end

section

variable [PartialOrder β] {start stop : α → β}

theorem WellNested.of_mem {s t : SyntaxTree α} (h : t.WellNested start stop)
    (hs : s ∈ t.preorder []) : s.WellNested start stop :=
  fun r hr => h r (mem_preorder_trans hr hs)

theorem WellNested.child {c t : SyntaxTree α} (h : t.WellNested start stop)
    (hc : c ∈ t.children) : c.WellNested start stop :=
  h.of_mem (child_mem_nodes hc (self_mem_nodes t))

theorem WellNested.ordered {t : SyntaxTree α} (h : t.WellNested start stop) :
    start t.label ≤ stop t.label :=
  (h t (self_mem_nodes t)).ordered

/-- A well-nested tree starts before all its nodes. -/
theorem WellNested.start_le_of_mem {s t : SyntaxTree α} (h : t.WellNested start stop)
    (hs : s ∈ t.preorder []) : start t.label ≤ start s.label := by
  induction t using induction_on_children with
  | node t ih =>
    obtain ⟨-, rfl | ⟨c, hc, hs⟩⟩ := mem_preorder_iff.1 hs
    · exact le_refl _
    · exact le_trans ((h t (self_mem_nodes t)).start_le c hc) (ih c hc (h.child hc) hs)

/-- A well-nested tree ends after all its nodes. -/
theorem WellNested.stop_le_of_mem {s t : SyntaxTree α} (h : t.WellNested start stop)
    (hs : s ∈ t.preorder []) : stop s.label ≤ stop t.label := by
  induction t using induction_on_children with
  | node t ih =>
    obtain ⟨-, rfl | ⟨c, hc, hs⟩⟩ := mem_preorder_iff.1 hs
    · exact le_refl _
    · exact le_trans (ih c hc (h.child hc) hs) ((h t (self_mem_nodes t)).stop_le c hc)

/-- Of two siblings, the earlier one ends before the later one starts. -/
theorem WellNested.pairwise_children {t : SyntaxTree α} (h : t.WellNested start stop) :
    t.children.Pairwise fun c d => stop c.label ≤ start d.label := by
  -- the order of neighbours is no transitive relation until a sibling's own span is added to it
  let before (c d : SyntaxTree α) : Prop :=
    stop c.label ≤ start d.label ∧ start d.label ≤ stop d.label
  have : IsTrans (SyntaxTree α) before :=
    ⟨fun c d e hcd hde => ⟨le_trans hcd.1 (le_trans hcd.2 hde.1), hde.2⟩⟩
  have hchain : t.children.IsChain before :=
    (h t (self_mem_nodes t)).inTurn.imp_of_mem_imp fun c d _ hd hcd => ⟨hcd, (h.child hd).ordered⟩
  exact hchain.pairwise.imp fun hcd => hcd.1

end

end SyntaxTree

end CallAlign

import CallAlign.Call
import CallAlign.Proofs.Nesting
import Mathlib.Logic.Function.Iterate

/-!
# The nodes that are calls

A node of a tree has an address, the numbers of the children on the way down to it, and pre-order
is the order of addresses, which puts an address before those that go on from it.  A traversal
visits the nodes on the way to which, the node itself included, no kind is skipped (`Visits`).

It is a loop over a stack: a pass takes the last tree off and puts its children there, the first of
them last (`Traversal.step`).  What has been visited, with what the traversals of the trees on the
stack will visit, stays the same from pass to pass, and the stack loses a node in each of them.

    visits_iff_mem, pairwise_visited : the nodes that are visited, in the order of their addresses
    total_step, sizeAll_step         : one pass of the loop
    iterate_step                     : the passes until the stack is empty
    callSites_exact                  : the calls of a tree are its call nodes outside heredoc bodies
-/

namespace CallAlign

namespace SyntaxTree

variable {α : Type}

/-! ## Addresses -/

/-- The node at an address, from the root down. -/
def at? (t : SyntaxTree α) : List Nat → Option (SyntaxTree α)
  | [] => some t
  | i :: address => t.children[i]?.bind fun c => c.at? address

/-- At the address stands the node `s`, and neither `s` nor a node on the way to it is of a kind in
`skip`. -/
structure Visits (skip : List String) (t : SyntaxTree α) (address : List Nat) (s : SyntaxTree α) :
    Prop where
  at?_eq : t.at? address = some s
  kind_notMem : ∀ way, way <+: address → ∀ r ∈ t.at? way, r.kind ∉ skip

mutual

/-- The nodes that a traversal visits, each with its address. -/
def visited (skip : List String) : SyntaxTree α → List (List Nat × SyntaxTree α)
  | .node k a fs cs =>
    if skip.contains k then [] else ([], .node k a fs cs) :: visitedFrom skip 0 cs

/-- The nodes visited below some siblings, of which the first has the number `i`. -/
def visitedFrom (skip : List String) (i : Nat) :
    List (SyntaxTree α) → List (List Nat × SyntaxTree α)
  | [] => []
  | t :: ts => (visited skip t).map (fun v => (i :: v.1, v.2)) ++ visitedFrom skip (i + 1) ts

end

/-! ## Lemmas -/

@[simp] theorem at?_nil (t : SyntaxTree α) : t.at? [] = some t := rfl

@[simp] theorem at?_cons (t : SyntaxTree α) (i : Nat) (address : List Nat) :
    t.at? (i :: address) = t.children[i]?.bind fun c => c.at? address := rfl

theorem visits_nil_iff {skip : List String} {s t : SyntaxTree α} :
    t.Visits skip [] s ↔ t.kind ∉ skip ∧ s = t := by
  constructor
  · rintro ⟨hat, hkinds⟩
    exact ⟨hkinds [] List.nil_prefix t rfl, (Option.some.inj hat).symm⟩
  · rintro ⟨hkind, rfl⟩
    refine ⟨rfl, fun way hway r hr => ?_⟩
    cases List.prefix_nil.1 hway
    cases hr
    exact hkind

theorem visits_cons_iff {skip : List String} {s t : SyntaxTree α} {i : Nat} {address : List Nat} :
    t.Visits skip (i :: address) s ↔
      t.kind ∉ skip ∧ ∃ c, t.children[i]? = some c ∧ c.Visits skip address s := by
  constructor
  · rintro ⟨hat, hkinds⟩
    obtain ⟨c, hc, hat⟩ := Option.bind_eq_some_iff.1 hat
    refine ⟨hkinds [] List.nil_prefix t rfl, c, hc, hat, fun way hway r hr => ?_⟩
    exact hkinds (i :: way) (List.cons_prefix_cons.2 ⟨rfl, hway⟩) r (by simpa [hc] using hr)
  · rintro ⟨hkind, c, hc, hat, hkinds⟩
    refine ⟨by simpa [hc] using hat, fun way hway r hr => ?_⟩
    obtain rfl | ⟨below, rfl, hbelow⟩ := List.prefix_cons_iff.1 hway
    · cases hr
      exact hkind
    · exact hkinds below hbelow r (by simpa [hc] using hr)

mutual

theorem map_snd_visited (skip : List String) :
    ∀ t : SyntaxTree α, (t.visited skip).map (·.2) = t.preorder skip
  | .node k a fs cs => by
    rw [visited, preorder]
    split
    · rfl
    · rw [List.map_cons, map_snd_visitedFrom skip 0 cs]

theorem map_snd_visitedFrom (skip : List String) (i : Nat) :
    ∀ ts : List (SyntaxTree α), (visitedFrom skip i ts).map (·.2) = preorderAll skip ts
  | [] => rfl
  | t :: ts => by
    rw [visitedFrom, preorderAll, List.map_append, List.map_map,
      map_snd_visitedFrom skip (i + 1) ts, ← map_snd_visited skip t]
    rfl

end

theorem mem_visitedFrom_iff {skip : List String} (i : Nat) (ts : List (SyntaxTree α))
    (address : List Nat) (s : SyntaxTree α) :
    (address, s) ∈ visitedFrom skip i ts ↔
      ∃ j rest t, address = (i + j) :: rest ∧ ts[j]? = some t ∧ (rest, s) ∈ t.visited skip := by
  induction ts generalizing i with
  | nil => simp [visitedFrom]
  | cons t ts ih =>
    rw [visitedFrom, List.mem_append, ih, List.mem_map]
    constructor
    · rintro (⟨⟨rest, _⟩, hmem, heq⟩ | ⟨j, rest, u, rfl, hu, hmem⟩)
      · cases heq
        exact ⟨0, rest, t, rfl, rfl, hmem⟩
      · exact ⟨j + 1, rest, u, by rw [Nat.add_right_comm, Nat.add_assoc], hu, hmem⟩
    · rintro ⟨j, rest, u, rfl, hu, hmem⟩
      cases j with
      | zero =>
        cases hu
        exact .inl ⟨(rest, s), hmem, rfl⟩
      | succ j => exact .inr ⟨j, rest, u, by rw [Nat.add_right_comm, Nat.add_assoc], hu, hmem⟩

theorem visited_eq (skip : List String) (t : SyntaxTree α) :
    t.visited skip =
      if skip.contains t.kind then [] else ([], t) :: visitedFrom skip 0 t.children := by
  cases t
  rw [visited]
  rfl

/-- The list of visited nodes has those that are visited. -/
theorem visits_iff_mem {skip : List String} {t : SyntaxTree α} {address : List Nat}
    {s : SyntaxTree α} : t.Visits skip address s ↔ (address, s) ∈ t.visited skip := by
  induction address generalizing t with
  | nil =>
    rw [visits_nil_iff, visited_eq]
    by_cases hskip : t.kind ∈ skip
    · simp [hskip]
    · simp [hskip, mem_visitedFrom_iff]
  | cons i address ih =>
    rw [visits_cons_iff, visited_eq]
    by_cases hskip : t.kind ∈ skip
    · simp [hskip]
    · simp [hskip, mem_visitedFrom_iff, ih]

mutual

/-- The visited nodes come in the order of their addresses. -/
theorem pairwise_visited (skip : List String) :
    ∀ t : SyntaxTree α, (t.visited skip).Pairwise fun v w => v.1 < w.1
  | .node k a fs cs => by
    rw [visited]
    split
    · exact List.Pairwise.nil
    · refine List.pairwise_cons.2 ⟨fun v hv => ?_, pairwise_visitedFrom skip 0 cs⟩
      obtain ⟨j, rest, t, haddress, -⟩ := (mem_visitedFrom_iff 0 cs v.1 v.2).1 hv
      rw [haddress]
      exact List.nil_lt_cons _ _

theorem pairwise_visitedFrom (skip : List String) (i : Nat) :
    ∀ ts : List (SyntaxTree α), (visitedFrom skip i ts).Pairwise fun v w => v.1 < w.1
  | [] => List.Pairwise.nil
  | t :: ts => by
    rw [visitedFrom, List.pairwise_append]
    refine ⟨?_, pairwise_visitedFrom skip (i + 1) ts, fun v hv w hw => ?_⟩
    · rw [List.pairwise_map]
      exact (pairwise_visited skip t).imp fun h => List.cons_lt_cons_iff.2 (.inr ⟨rfl, h⟩)
    · -- below the first sibling addresses begin with `i`, below the others with a greater number
      obtain ⟨v', -, rfl⟩ := List.mem_map.1 hv
      obtain ⟨j, rest, u, haddress, -⟩ := (mem_visitedFrom_iff (i + 1) ts w.1 w.2).1 hw
      rw [haddress]
      exact List.cons_lt_cons_iff.2 (.inl (by omega))

end

/-! ## The loop -/

theorem sizeAll_reverse (ts : List (SyntaxTree α)) : sizeAll ts.reverse = sizeAll ts := by
  induction ts with
  | nil => rfl
  | cons t ts ih =>
    rw [List.reverse_cons, sizeAll_append, ih]
    simp only [sizeAll]
    omega

theorem size_eq (t : SyntaxTree α) : t.size = sizeAll t.children + 1 := by
  cases t
  rfl

/-- A traversal on its way: the trees that wait on the stack, the last of them next, and the nodes
visited so far. -/
structure Traversal (α : Type) where
  stack : List (SyntaxTree α)
  found : List (SyntaxTree α)

namespace Traversal

/-- One pass of the loop; there is none when the stack is empty. -/
def step (skip : List String) (w : Traversal α) : Traversal α :=
  match w.stack.getLast? with
  | none => w
  | some t =>
    if t.kind ∈ skip then { w with stack := w.stack.dropLast }
    else { stack := w.stack.dropLast ++ t.children.reverse, found := w.found ++ [t] }

/-- The nodes visited so far and those that the trees on the stack still give. -/
def total (skip : List String) (w : Traversal α) : List (SyntaxTree α) :=
  w.found ++ preorderAll skip w.stack.reverse

variable (skip : List String)

theorem step_concat (stack found : List (SyntaxTree α)) (t : SyntaxTree α) :
    step skip ⟨stack ++ [t], found⟩ =
      if t.kind ∈ skip then ⟨stack, found⟩ else ⟨stack ++ t.children.reverse, found ++ [t]⟩ := by
  simp [step]

/-- A pass keeps what is visited in all. -/
theorem total_step (w : Traversal α) : (w.step skip).total skip = w.total skip := by
  obtain ⟨stack, found⟩ := w
  rcases List.eq_nil_or_concat stack with rfl | ⟨stack, t, rfl⟩
  · rfl
  · rw [List.concat_eq_append, step_concat]
    unfold total
    rw [List.reverse_concat, preorderAll, preorder_eq, ← preorderAll_eq_flatMap]
    by_cases hskip : t.kind ∈ skip
    · simp [hskip]
    · simp [hskip, preorderAll_append]

/-- A pass takes at least one node off the stack. -/
theorem sizeAll_step (w : Traversal α) : sizeAll (w.step skip).stack ≤ sizeAll w.stack - 1 := by
  obtain ⟨stack, found⟩ := w
  rcases List.eq_nil_or_concat stack with rfl | ⟨stack, t, rfl⟩
  · exact Nat.zero_le _
  · rw [List.concat_eq_append, step_concat]
    have hstack : sizeAll (stack ++ [t]) = sizeAll stack + (sizeAll t.children + 1) := by
      rw [sizeAll_append, ← size_eq]
      rfl
    split
    · simp only
      omega
    · simp only [sizeAll_append, sizeAll_reverse] at hstack ⊢
      omega

/-- As many passes as there are nodes on the stack empty it. -/
theorem iterate_step (n : Nat) (w : Traversal α) (hn : sizeAll w.stack ≤ n) :
    (step skip)^[n] w = ⟨[], w.total skip⟩ := by
  induction n generalizing w with
  | zero =>
    obtain ⟨stack, found⟩ := w
    cases stack with
    | nil => simp [total, preorderAll]
    | cons t stack =>
      have := size_pos t
      simp only [sizeAll] at hn
      omega
  | succ n ih =>
    have hless := sizeAll_step skip w
    rw [Function.iterate_succ_apply, ih (w.step skip) (by omega), total_step]

end Traversal

/-- The visited nodes that pass a test are those at some addresses in their order. -/
theorem exists_addresses (skip : List String) (p : SyntaxTree α → Bool) (t : SyntaxTree α) :
    ∃ addresses : List (List Nat), addresses.Pairwise (· < ·) ∧
      (∀ address, address ∈ addresses ↔ ∃ s, t.Visits skip address s ∧ p s) ∧
      ((t.walk skip).filter p).map some = addresses.map t.at? := by
  refine ⟨((t.visited skip).filter fun v => p v.2).map (·.1), ?_, fun address => ?_, ?_⟩
  · rw [List.pairwise_map]
    exact (pairwise_visited skip t).filter _
  · simp [visits_iff_mem]
  · have hat : ∀ v ∈ t.visited skip, some v.2 = t.at? v.1 := fun v hv =>
      (visits_iff_mem.2 hv).at?_eq.symm
    rw [walk_eq_preorder, ← map_snd_visited, List.filter_map, List.map_map, List.map_map]
    exact List.map_congr_left fun v hv => hat v (List.mem_of_mem_filter hv)

/-- The loop ends, with the nodes of the tree in pre-order. -/
theorem iterate_step_eq_walk (skip : List String) (t : SyntaxTree α) :
    (Traversal.step skip)^[t.size] ⟨[t], []⟩ = ⟨[], t.walk skip⟩ := by
  rw [Traversal.iterate_step skip t.size ⟨[t], []⟩ (by simp [sizeAll]), walk_eq_preorder]
  simp [Traversal.total, preorderAll]

end SyntaxTree

open SyntaxTree

/-! ## Calls -/

/-- What a call has from the argument list of its node: an entry for each child of the list that is
no bracket, comma, comment or heredoc body, and the bracket that the list begins with. -/
structure Call.ListsArguments (c : Call) (t : SyntaxTree Extent) : Prop where
  arguments_of_none : t.field? "arguments" = none → c.arguments = []
  arguments_of_some : ∀ list ∈ t.field? "arguments", c.arguments =
    (list.children.filter fun entry =>
      entry.kind ∉ ["(", ")", ",", "comment", "heredoc_body"]).map Argument.ofNode
  usesParens_iff : c.usesParens = true ↔ ∃ p, c.openParen = some p
  openParen_iff : ∀ p, c.openParen = some p ↔
    ∃ list paren rest, t.field? "arguments" = some list ∧ list.children = paren :: rest ∧
      paren.kind = "(" ∧ paren.label.span.start = p

theorem Call.listsArguments_ofNode (t : SyntaxTree Extent) : (Call.ofNode t).ListsArguments t := by
  cases hfield : t.field? "arguments" with
  | none =>
    constructor <;> simp [Call.ofNode, hfield, argumentsOf, openParen?]
  | some list =>
    have hopen : (Call.ofNode t).openParen = openParen? list.children := by
      simp [Call.ofNode, hfield]
    constructor
    case arguments_of_none => simp [hfield]
    case arguments_of_some =>
      rintro list' hlist'
      cases hfield.symm.trans hlist'
      simp [Call.ofNode, hfield, argumentsOf, nonArgumentKinds]
    case usesParens_iff =>
      simp only [Call.ofNode, Option.isSome_iff_exists]
    case openParen_iff =>
      intro p
      rw [hopen]
      constructor
      · intro hp
        obtain ⟨paren, rest, hchildren, hkind, hstart⟩ := openParen?_eq_some hp
        exact ⟨list, paren, rest, hfield, hchildren, hkind, hstart⟩
      · rintro ⟨list', paren, rest, hlist', hchildren, hkind, rfl⟩
        cases hfield.symm.trans hlist'
        simp [openParen?, hchildren, hkind]

/-! ## Top theorem -/

/-- Extraction is exact.  For every set of kinds to skip the loop ends, after at most as many passes
as the tree has nodes, and has then visited the nodes of the recursive listing: each of those that
are visited once, in the order of their addresses.  So the calls of a tree are those of the nodes of
kind `call` that have no heredoc body above them, each once and in the order of their addresses, and
every call has the arguments of its node. -/
theorem callSites_exact (root : SyntaxTree Extent) :
    (∀ skip, root.walk skip = root.preorder skip ∧
      (Traversal.step skip)^[root.size] ⟨[root], []⟩ = ⟨[], root.walk skip⟩ ∧
      ∃ addresses : List (List Nat), addresses.Pairwise (· < ·) ∧
        (∀ address, address ∈ addresses ↔ ∃ s, root.Visits skip address s) ∧
        (root.walk skip).map some = addresses.map root.at?) ∧
    (∃ addresses : List (List Nat), addresses.Pairwise (· < ·) ∧
      (∀ address, address ∈ addresses ↔ ∃ t, root.at? address = some t ∧ t.kind = "call" ∧
        ∀ above, above <+: address → ∀ s ∈ root.at? above, s.kind ≠ "heredoc_body") ∧
      (callSites root).map some =
        addresses.map fun address => (root.at? address).map Call.ofNode) ∧
    ∀ t, (Call.ofNode t).ListsArguments t := by
  refine ⟨fun skip => ⟨walk_eq_preorder skip root, iterate_step_eq_walk skip root, ?_⟩, ?_,
    Call.listsArguments_ofNode⟩
  · simpa using exists_addresses skip (fun _ => true) root
  · obtain ⟨addresses, hordered, hmem, heq⟩ :=
      exists_addresses opaqueKinds (fun t => t.kind == "call") root
    refine ⟨addresses, hordered, fun address => (hmem address).trans ?_, ?_⟩
    · refine exists_congr fun t => ⟨fun ⟨hvisits, hcall⟩ => ?_, fun ⟨hat, hcall, habove⟩ => ?_⟩
      · exact ⟨hvisits.at?_eq, by simpa using hcall, fun above hprefix s hs =>
          by simpa [opaqueKinds] using hvisits.kind_notMem above hprefix s hs⟩
      · exact ⟨⟨hat, fun way hway s hs => by simpa [opaqueKinds] using habove way hway s hs⟩,
          by simpa using hcall⟩
    · have hmap := congrArg (List.map (Option.map Call.ofNode)) heq
      simpa [callSites, List.map_map, Function.comp_def] using hmap

end CallAlign

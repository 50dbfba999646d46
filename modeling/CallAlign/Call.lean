import CallAlign.Source

/-!
# Call sites

A call as the alignment check sees it: its name, where it begins, and its arguments in order.
`callSites` reads the calls off a tree in pre-order.  What stands in the body of a heredoc is
text, so no call is looked for there, and in an argument list the brackets, commas, comments and
heredoc bodies are no arguments.

    callSites_map : which nodes of a tree are calls does not depend on their labels
-/

namespace CallAlign

/-! ## Arguments and calls -/

/-- The shape of one entry of an argument list. -/
inductive ArgumentKind where
  | value
  | pair
  | splat
  | doubleSplat
  | blockPass
  deriving DecidableEq, Repr

namespace ArgumentKind

def name : ArgumentKind → String
  | value => "value"
  | pair => "pair"
  | splat => "splat"
  | doubleSplat => "double_splat"
  | blockPass => "block_pass"

def ofName? : String → Option ArgumentKind
  | "value" => some value
  | "pair" => some pair
  | "splat" => some splat
  | "double_splat" => some doubleSplat
  | "block_pass" => some blockPass
  | _ => none

/-- The shape of an argument whose node has this kind. -/
def ofNodeKind : String → ArgumentKind
  | "pair" => pair
  | "splat_argument" => splat
  | "hash_splat_argument" => doubleSplat
  | "block_argument" => blockPass
  | _ => value

theorem ofName?_name (k : ArgumentKind) : ofName? k.name = some k := by
  cases k <;> rfl

end ArgumentKind

structure Argument where
  kind : ArgumentKind
  start : Position
  stop : Position
  deriving DecidableEq, Repr

/-- A call expression.  `calleeStart` is where its own text begins, receiver included; `openParen`
is set when the arguments stand in brackets. -/
structure Call where
  methodName : String
  calleeStart : Position
  span : Span
  usesParens : Bool
  openParen : Option Position
  arguments : List Argument
  deriving DecidableEq, Repr

/-- Two arguments of the call begin on different lines. -/
def Call.isMultiline (c : Call) : Bool :=
  match c.arguments with
  | [] => false
  | first :: _ => c.arguments.any (·.start.line != first.start.line)

/-! ## Reading calls off a tree -/

/-- Text, not code: calls inside are not looked for. -/
def opaqueKinds : List String := ["heredoc_body"]

/-- What an argument list holds besides arguments. -/
def nonArgumentKinds : List String := ["(", ")", ",", "comment", "heredoc_body"]

def Argument.ofNode (node : SyntaxTree Extent) : Argument :=
  { kind := .ofNodeKind node.kind, start := node.label.span.start, stop := node.label.span.stop }

/-- The arguments that an argument list holds. -/
def argumentsOf (entries : List (SyntaxTree Extent)) : List Argument :=
  (entries.filter fun entry => !nonArgumentKinds.contains entry.kind).map .ofNode

/-- The opening bracket, when the argument list begins with one. -/
def openParen? (entries : List (SyntaxTree Extent)) : Option Position :=
  match entries with
  | entry :: _ => if entry.kind = "(" then some entry.label.span.start else none
  | [] => none

/-- The call that a node stands for.  A call without a name, as in `f.(x)`, is named `call`. -/
def Call.ofNode (node : SyntaxTree Extent) : Call :=
  let entries := (node.field? "arguments").elim [] (·.children)
  { methodName := (node.field? "method").elim "call" (·.label.text)
    calleeStart := node.label.span.start
    span := node.label.span
    usesParens := (openParen? entries).isSome
    openParen := openParen? entries
    arguments := argumentsOf entries }

/-- All calls of a tree, an outer call before the calls inside it. -/
def callSites (root : SyntaxTree Extent) : List Call :=
  ((root.walk opaqueKinds).filter (·.kind == "call")).map .ofNode

/-! ## Lemmas -/

theorem mem_argumentsOf {a : Argument} {entries : List (SyntaxTree Extent)} :
    a ∈ argumentsOf entries ↔
      ∃ entry ∈ entries, entry.kind ∉ nonArgumentKinds ∧ Argument.ofNode entry = a := by
  simp [argumentsOf, and_assoc]

/-- The opening bracket is the first entry of its list, and no argument. -/
theorem openParen?_eq_some {entries : List (SyntaxTree Extent)} {p : Position}
    (h : openParen? entries = some p) :
    ∃ paren rest, entries = paren :: rest ∧ paren.kind = "(" ∧ paren.label.span.start = p := by
  cases entries with
  | nil => cases h
  | cons paren rest =>
    simp only [openParen?, Option.ite_none_right_eq_some, Option.some.injEq] at h
    exact ⟨paren, rest, rfl, h.1, h.2⟩

/-- The calls of a relabelled tree are read off the nodes that are calls without the labels. -/
theorem callSites_map {α : Type} (f : α → Extent) (tree : SyntaxTree α) :
    callSites (tree.map f) =
      ((tree.walk opaqueKinds).filter (·.kind == "call")).map fun t => .ofNode (t.map f) := by
  have hkind : (fun t : SyntaxTree Extent => t.kind == "call") ∘ SyntaxTree.map f =
      fun t => t.kind == "call" := funext fun t => by simp [SyntaxTree.kind_map]
  rw [callSites, SyntaxTree.walk_eq_preorder, SyntaxTree.walk_eq_preorder, SyntaxTree.preorder_map,
    List.filter_map, hkind, List.map_map]
  rfl

end CallAlign

/-!
# Syntax trees

A tree of named nodes in which every node carries a label of one type: a range of bytes as a
parser counts it, or the characters and the text a checker reads.  A node finds some of its
children by the name of a field.

    walk_eq_preorder : t.walk skip = t.preorder skip
    preorder_map     : (t.map f).preorder skip = (t.preorder skip).map (·.map f)

`walk` keeps its pending nodes on a stack; `preorder` is the plain recursion it agrees with.
-/

namespace CallAlign

/-- A node: its kind, its label, the index of the child each field names, and its children. -/
inductive SyntaxTree (α : Type) where
  | node (kind : String) (label : α) (fields : List (String × Nat))
      (children : List (SyntaxTree α))

namespace SyntaxTree

variable {α β : Type}

/-! ## Views -/

def kind : SyntaxTree α → String
  | .node k _ _ _ => k

def label : SyntaxTree α → α
  | .node _ a _ _ => a

def fields : SyntaxTree α → List (String × Nat)
  | .node _ _ fs _ => fs

def children : SyntaxTree α → List (SyntaxTree α)
  | .node _ _ _ cs => cs

/-- The child that a field names, if the field is set. -/
def field? (t : SyntaxTree α) (name : String) : Option (SyntaxTree α) :=
  (t.fields.lookup name).bind (t.children[·]?)

mutual

/-- The tree with every label replaced by its image. -/
def map (f : α → β) : SyntaxTree α → SyntaxTree β
  | .node k a fs cs => .node k (f a) fs (mapAll f cs)

def mapAll (f : α → β) : List (SyntaxTree α) → List (SyntaxTree β)
  | [] => []
  | t :: ts => map f t :: mapAll f ts

end

/-! ## Traversal -/

mutual

/-- The node, then its descendants, parents before children and siblings in order.  A node whose
kind is in `skip` is left out with all below it. -/
def preorder (skip : List String) : SyntaxTree α → List (SyntaxTree α)
  | .node k a fs cs =>
    if skip.contains k then [] else .node k a fs cs :: preorderAll skip cs

def preorderAll (skip : List String) : List (SyntaxTree α) → List (SyntaxTree α)
  | [] => []
  | t :: ts => preorder skip t ++ preorderAll skip ts

end

mutual

/-- The number of nodes. -/
def size : SyntaxTree α → Nat
  | .node _ _ _ cs => sizeAll cs + 1

def sizeAll : List (SyntaxTree α) → Nat
  | [] => 0
  | t :: ts => size t + sizeAll ts

end

theorem sizeAll_append (ts us : List (SyntaxTree α)) :
    sizeAll (ts ++ us) = sizeAll ts + sizeAll us := by
  induction ts with
  | nil => simp [sizeAll]
  | cons t ts ih => simp only [List.cons_append, sizeAll, ih]; omega

theorem size_pos (t : SyntaxTree α) : 0 < t.size := by
  cases t; simp [size]

/-- Takes the nodes off a stack one by one; each leaves its children on it in its place. -/
def walkFrom (skip : List String) : List (SyntaxTree α) → List (SyntaxTree α)
  | [] => []
  | .node k a fs cs :: stack =>
    if skip.contains k then walkFrom skip stack
    else .node k a fs cs :: walkFrom skip (cs ++ stack)
termination_by stack => sizeAll stack
decreasing_by
  · simp only [sizeAll, size]; omega
  · simp only [sizeAll, size, sizeAll_append]; omega

/-- All nodes in pre-order, with an explicit stack; see `preorder` for `skip`. -/
def walk (skip : List String) (t : SyntaxTree α) : List (SyntaxTree α) := walkFrom skip [t]

/-! ## Listings -/

/-- One line of a tree written in pre-order: the depth of a node, the field that names it in its
parent, its kind and its label. -/
structure Row (α : Type) where
  depth : Nat
  field : Option String
  kind : String
  label : α

/-- The field table of a node, read off the names its children bear. -/
def fieldTable (names : List (Option String)) : List (String × Nat) :=
  names.zipIdx.filterMap fun entry => entry.1.map (·, entry.2)

/-- Puts a row in front of the trees that follow it: those deeper than the row are its
children. -/
def adopt (row : Row α) (later : List (Row (SyntaxTree α))) : List (Row (SyntaxTree α)) :=
  let (mine, rest) := later.span (row.depth < ·.depth)
  let tree := .node row.kind row.label (fieldTable (mine.map (·.field))) (mine.map (·.label))
  { depth := row.depth, field := row.field, kind := row.kind, label := tree } :: rest

/-- The tree that rows in pre-order list, `none` when there is no row. -/
def ofRows? (rows : List (Row α)) : Option (SyntaxTree α) :=
  (rows.foldr adopt []).head?.map (·.label)

/-! ## Lemmas -/

theorem preorderAll_append (skip : List String) (ts us : List (SyntaxTree α)) :
    preorderAll skip (ts ++ us) = preorderAll skip ts ++ preorderAll skip us := by
  induction ts with
  | nil => simp [preorderAll]
  | cons t ts ih => simp [preorderAll, ih]

theorem walkFrom_eq_preorderAll (skip : List String) (stack : List (SyntaxTree α)) :
    walkFrom skip stack = preorderAll skip stack := by
  fun_induction walkFrom skip stack with
  | case1 => simp [preorderAll]
  | case2 k a fs cs stack hskip ih =>
    rw [preorderAll, preorder, if_pos hskip, ih, List.nil_append]
  | case3 k a fs cs stack hskip ih =>
    rw [preorderAll, preorder, if_neg hskip, ih, preorderAll_append, List.cons_append]

theorem walk_eq_preorder (skip : List String) (t : SyntaxTree α) :
    t.walk skip = t.preorder skip := by
  simp [walk, walkFrom_eq_preorderAll, preorderAll]

theorem kind_map (f : α → β) (t : SyntaxTree α) : (t.map f).kind = t.kind := by
  cases t; simp [map, kind]

theorem label_map (f : α → β) (t : SyntaxTree α) : (t.map f).label = f t.label := by
  cases t; simp [map, label]

theorem mapAll_eq_map (f : α → β) (ts : List (SyntaxTree α)) : mapAll f ts = ts.map (map f) := by
  induction ts with
  | nil => simp [mapAll]
  | cons t ts ih => simp [mapAll, ih]

theorem children_map (f : α → β) (t : SyntaxTree α) :
    (t.map f).children = t.children.map (map f) := by
  cases t; simp [map, children, mapAll_eq_map]

theorem field?_map (f : α → β) (t : SyntaxTree α) (name : String) :
    (t.map f).field? name = (t.field? name).map (map f) := by
  cases t with
  | node k a fs cs =>
    simp only [field?, map, fields, children, mapAll_eq_map]
    cases fs.lookup name <;> simp

mutual

theorem preorder_map (f : α → β) (skip : List String) :
    ∀ t : SyntaxTree α, (t.map f).preorder skip = (t.preorder skip).map (map f)
  | .node k a fs cs => by
    rw [map, preorder, preorder, preorderAll_mapAll f skip cs]
    split <;> simp [map]

theorem preorderAll_mapAll (f : α → β) (skip : List String) :
    ∀ ts : List (SyntaxTree α),
      preorderAll skip (mapAll f ts) = (preorderAll skip ts).map (map f)
  | [] => rfl
  | t :: ts => by
    rw [mapAll, preorderAll, preorderAll, preorder_map f skip t, preorderAll_mapAll f skip ts,
      List.map_append]

end

end SyntaxTree

end CallAlign

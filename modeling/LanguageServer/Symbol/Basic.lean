import LanguageServer.Position

/-! Symbols of a document and the forests that they form. -/
namespace LanguageServer

/-- What encloses other symbols. -/
inductive Scope where
  /-- An external function is only declared here. -/
  | function (signature : Option String) (isExternal : Bool)
  | method (signature : Option String)
  | classScope
  | moduleScope
  | enumScope
  deriving DecidableEq, Inhabited

/-- What encloses nothing. -/
inductive Leaf where
  | variable (typeName : Option String)
  | constant (typeName : Option String)
  | typedef (typeName : Option String)
  | inheritance (target : String)
  deriving DecidableEq, Inhabited

/-- The name of a symbol, all that defines it, and where an editor shows it. -/
structure Heading where
  name : String
  range : Range
  selection : Range
  deriving DecidableEq, Inhabited

/-- A heading whose selection lies inside its range; one that does not shrinks to the start. -/
def Heading.normalize (h : Heading) : Heading :=
  if h.range.containsRange h.selection then h else { h with selection := ⟨h.range.start, h.range.start⟩ }

/-- A symbol with the symbols inside it, in source order. -/
inductive Symbol where
  | scope (heading : Heading) (kind : Scope) (children : List Symbol)
  | leaf (heading : Heading) (kind : Leaf)
  deriving Inhabited

namespace Symbol

def heading : Symbol → Heading
  | .scope h _ _ => h
  | .leaf h _ => h

def name (s : Symbol) : String := s.heading.name
def range (s : Symbol) : Range := s.heading.range
def selection (s : Symbol) : Range := s.heading.selection

def children : Symbol → List Symbol
  | .scope _ _ cs => cs
  | .leaf _ _ => []

def label : Symbol → String
  | .scope _ (.function _ _) _ => "function"
  | .scope _ (.method _) _ => "method"
  | .scope _ .classScope _ => "class"
  | .scope _ .moduleScope _ => "module"
  | .scope _ .enumScope _ => "enum"
  | .leaf _ (.variable _) => "variable"
  | .leaf _ (.constant _) => "constant"
  | .leaf _ (.typedef _) => "typedef"
  | .leaf _ (.inheritance _) => "inherit"

def isCallable : Symbol → Bool
  | .scope _ (.function _ _) _ => true
  | .scope _ (.method _) _ => true
  | _ => false

def isType : Symbol → Bool
  | .scope _ .classScope _ => true
  | .scope _ .moduleScope _ => true
  | _ => false

/-- What an inherit symbol inherits. -/
def inherited? : Symbol → Option String
  | .leaf _ (.inheritance target) => some target
  | _ => none

/-- Whether a symbol makes a name known without defining it. -/
def isDeclarationOnly : Symbol → Bool
  | .scope _ (.function _ isExternal) _ => isExternal
  | .leaf _ (.inheritance _) => true
  | _ => false

mutual

def size : Symbol → Nat
  | .scope _ _ cs => 1 + sizes cs
  | .leaf _ _ => 1

def sizes : List Symbol → Nat
  | [] => 0
  | s :: rest => size s + sizes rest

end

theorem size_eq (s : Symbol) : s.size = 1 + sizes s.children := by
  cases s <;> simp [size, sizes, children]

theorem sizes_append (xs ys : List Symbol) : sizes (xs ++ ys) = sizes xs + sizes ys := by
  induction xs with
  | nil => simp [sizes]
  | cons x xs ih => simp [sizes, ih, Nat.add_assoc]

/-- All symbols of a forest, each before those inside it: what is still to be visited is kept on a
stack. -/
def walk : List Symbol → List Symbol
  | [] => []
  | s :: rest => s :: walk (s.children ++ rest)
termination_by stack => sizes stack
decreasing_by simp [sizes, sizes_append, size_eq]

/-- The inherit symbols of a forest with the classes and modules they stand in, in the order of the
walk; what is still to be visited is kept on a stack, each with what encloses it. -/
def inheritEdges : List (Option Symbol × Symbol) → List (Option Symbol × String)
  | [] => []
  | (owner, s) :: rest =>
    match s.inherited? with
    | some target => (owner, target) :: inheritEdges rest
    | none =>
      let owner := if s.isType then some s else owner
      inheritEdges (s.children.map (owner, ·) ++ rest)
termination_by stack => sizes (stack.map (·.2))
decreasing_by
  all_goals
    simp only [List.map_cons, List.map_append, List.map_map, Function.comp_def, List.map_id',
      sizes, sizes_append, size_eq]
    omega

mutual

def preorder : Symbol → List Symbol
  | .scope h k cs => .scope h k cs :: preorders cs
  | .leaf h k => [.leaf h k]

def preorders : List Symbol → List Symbol
  | [] => []
  | s :: rest => preorder s ++ preorders rest

end

/-- The innermost accepted symbol on the way down: at every level the first symbol that holds the
position is entered, and the last one accepted is the answer. -/
def innermost (accept : Symbol → Bool) (p : Position) (best : Option Symbol) :
    List Symbol → Option Symbol
  | [] => best
  | s :: rest =>
    if s.range.contains p then
      innermost accept p (if accept s then some s else best) s.children
    else innermost accept p best rest
termination_by level => sizes level
decreasing_by
  all_goals
    simp only [sizes, size_eq]
    omega

mutual

/-- The tree with every selection inside its range. -/
def normalize : Symbol → Symbol
  | .scope h k cs => .scope h.normalize k (normalizeAll cs)
  | .leaf h k => .leaf h.normalize k

def normalizeAll : List Symbol → List Symbol
  | [] => []
  | s :: rest => normalize s :: normalizeAll rest

end

end Symbol
end LanguageServer

/-! File paths: text split at slashes. Two paths with the same components name the same place. -/
namespace LanguageServer

structure Path where
  text : String
  deriving DecidableEq, Inhabited, Hashable

namespace Path

inductive Component where
  | root
  | here
  | parent
  | name (text : String)
  deriving DecidableEq, Inhabited

/-- The text between slashes. -/
def splitSlashes (cs : List Char) : List (List Char) :=
  cs.foldr (fun c parts => if c = '/' then [] :: parts else
    match parts with
    | [] => [[c]]
    | p :: rest => (c :: p) :: rest) [[]]

theorem splitSlashes_cons (c : Char) (rest : List Char) :
    splitSlashes (c :: rest) = if c = '/' then [] :: splitSlashes rest else
      match splitSlashes rest with
      | [] => [[c]]
      | p :: more => (c :: p) :: more := rfl

theorem splitSlashes_ne_nil (cs : List Char) : splitSlashes cs ≠ [] := by
  cases cs with
  | nil => simp [splitSlashes]
  | cons c rest =>
    rw [splitSlashes_cons]
    by_cases h : c = '/'
    · simp [h]
    · simp only [h, if_false]
      split <;> simp

/-- The pieces of a text with slashes put between them are the text. -/
theorem intercalate_splitSlashes (cs : List Char) : ['/'].intercalate (splitSlashes cs) = cs := by
  induction cs with
  | nil => rfl
  | cons c rest ih =>
    rw [splitSlashes_cons]
    match h : splitSlashes rest with
    | [] => exact absurd h (splitSlashes_ne_nil rest)
    | [p] => by_cases hc : c = '/' <;> simp_all [List.intercalate]
    | p :: q :: more => by_cases hc : c = '/' <;> simp_all [List.intercalate]

def isAbsolute (p : Path) : Bool := p.text.toList.head? = some '/'

/-- What a piece between slashes stands for; a dot counts only where the path begins. -/
def component? (first : Bool) (piece : List Char) : Option Component :=
  match piece with
  | [] => none
  | ['.'] => if first then some .here else none
  | ['.', '.'] => some .parent
  | piece => some (.name (String.ofList piece))

/-- The components of a path, empty pieces left out. -/
def components (p : Path) : List Component :=
  match splitSlashes p.text.toList with
  | [] => []
  | first :: rest =>
    let tail := rest.filterMap (component? false)
    if p.isAbsolute then .root :: tail
    else match component? true first with
      | some c => c :: tail
      | none => tail

def names (p : Path) : List String :=
  p.components.filterMap fun
    | .name n => some n
    | _ => none

/-- A path and one below it; an absolute path stands for itself. -/
def join (base p : Path) : Path :=
  if p.isAbsolute then p
  else if base.text.isEmpty ∨ base.text.toList.getLast? = some '/' then ⟨base.text ++ p.text⟩
  else ⟨base.text ++ "/" ++ p.text⟩

/-- Drops what names nothing at the end of a path, given from its end: slashes, and dots between
slashes. The slash and the dot that begin a path stay. -/
def trimReversed : List Char → List Char
  | ['/'] => ['/']
  | '/' :: rest => trimReversed rest
  | '.' :: '/' :: rest => trimReversed ('/' :: rest)
  | cs => cs

/-- The path above the last component; none above the root and above nothing. -/
def parent (p : Path) : Option Path :=
  match p.components.getLast? with
  | none => none
  | some .root => none
  | some _ =>
    let rest := (trimReversed p.text.toList.reverse).dropWhile (· ≠ '/')
    some ⟨String.ofList (trimReversed rest).reverse⟩

def fileName (p : Path) : Option String :=
  match p.components.getLast? with
  | some (.name n) => some n
  | _ => none

/-- A name cut at its last dot, unless it begins with that dot. -/
def splitName (name : String) : String × Option String :=
  let cs := name.toList.reverse
  match cs.dropWhile (· ≠ '.') with
  | [] => (name, none)
  | [_] => (name, none)
  | _ :: stem =>
    (String.ofList stem.reverse, some (String.ofList (cs.takeWhile (· ≠ '.')).reverse))

/-- What follows the last dot of the file name. -/
def extension (p : Path) : Option String := p.fileName.bind fun n => (splitName n).2

/-- Whether the components of `p` begin with those of `base`. -/
def startsWith (p base : Path) : Bool := base.components.isPrefixOf p.components

/-- The text of components: names between slashes. -/
def ofComponents (cs : List Component) : Path :=
  cs.foldl (fun p c => p.join ⟨match c with
    | .root => "/"
    | .here => "."
    | .parent => ".."
    | .name n => n⟩) ⟨""⟩

/-- Components without dots: a pair of dots takes away the name before it. -/
def fold (cs : List Component) : List Component :=
  (cs.foldl (fun done c => match c, done with
    | .here, done => done
    | .parent, .name _ :: done => done
    | .parent, done => done
    | c, done => c :: done) []).reverse

/-- The path with dots folded by its text alone. -/
def normalize (p : Path) : Path := ofComponents (fold p.components)

/-- Components in order: the root, then dots, then names. -/
def Component.key : Component → Nat × String
  | .root => (0, "")
  | .here => (1, "")
  | .parent => (2, "")
  | .name n => (3, n)

def Component.le (a b : Component) : Bool :=
  a.key.1 < b.key.1 || (a.key.1 = b.key.1 && !(b.key.2 < a.key.2))

def le (p q : Path) : Bool := go p.components q.components
where
  go : List Component → List Component → Bool
    | [], _ => true
    | _ :: _, [] => false
    | a :: as, b :: bs => if a = b then go as bs else a.le b

def same (p q : Path) : Bool := p.components = q.components

end Path
end LanguageServer

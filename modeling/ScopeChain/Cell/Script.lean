/-
ScopeChain.Cell.Script — scripts that make, share and write cells.

The cells hold integers and are known by names only. Sharing gives a cell
a second name; a name that is used again forgets what it stood for, and
the cell lives on under its other names. So the names fall into classes
that denote one cell each, and every step can be told by what it does to
those classes and to the content of one of them.
-/
import Std.Data.ExtTreeMap
import ScopeChain.Cell.Text

namespace ScopeChain

/-- A step of a script on cells. -/
inductive CellStep where
  /-- A new cell. -/
  | new (content : Int) (name : String)
  /-- Another name for the cell of `c`. -/
  | share (c name : String)
  /-- Writes the cell of `c`. -/
  | put (c : String) (content : Int)
  /-- Reads the cell of `c`. -/
  | get (c : String)
  /-- Whether two names stand for one cell. -/
  | same (a b : String)
  /-- The debug text of the handle that `c` stands for. -/
  | describe (c : String)

/-- What a step on cells answers. -/
inductive CellAnswer where
  /-- After a step that changes something: the contents, in the order of names. -/
  | contents (all : List Int)
  | content (i : Int)
  | flag (b : Bool)
  | text (s : String)
  /-- The step uses a name that stands for nothing. -/
  | unknown
deriving DecidableEq

/-- Cells and what they are called. -/
structure CellTable where
  store : Store Int
  names : Std.ExtTreeMap String Handle

namespace CellTable

/-- No cells. -/
def empty : CellTable := ⟨Store.empty, ∅⟩

/-- The content of the cell that a name stands for. -/
def read? (t : CellTable) (name : String) : Option Int :=
  t.names[name]?.bind t.store.read?

/-- The contents of all named cells, in the order of names. -/
def contents (t : CellTable) : List Int := t.names.values.filterMap t.store.read?

/-- The state after a step. A step that uses an unknown name changes nothing. -/
def step (t : CellTable) : CellStep → CellTable
  | .new content name =>
    let (store, i) := t.store.alloc content
    ⟨store, t.names.insert name i⟩
  | .share c name => match t.names[c]? with
    | some i => { t with names := t.names.insert name i }
    | none => t
  | .put c content => match t.names[c]? with
    | some i => { t with store := t.store.write i content }
    | none => t
  | _ => t

/-- Whether two names stand for one cell, if both stand for one. -/
def same? (t : CellTable) (a b : String) : Option Bool :=
  t.names[a]?.bind fun i => t.names[b]?.map fun j => i == j

/-- The answer of a step, read off the state after it. -/
def answer (t : CellTable) : CellStep → CellAnswer
  | .new _ _ => .contents t.contents
  | .share c _ | .put c _ => if t.names.contains c then .contents t.contents else .unknown
  | .get c => match t.read? c with
    | some i => .content i
    | none => .unknown
  | .same a b => match t.same? a b with
    | some b => .flag b
    | none => .unknown
  | .describe c => match t.read? c with
    | some i => .text (Handle.debug i.repr)
    | none => .unknown

/-- The answers of a script. -/
def run (t : CellTable) : List CellStep → List CellAnswer
  | [] => []
  | s :: rest => (t.step s).answer s :: (t.step s).run rest

end CellTable

end ScopeChain

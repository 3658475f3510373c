import Relink.Source.Edit
import Relink.Source.Node
import Relink.Specifier

namespace Relink

namespace Source

inductive Site
  | literal (start stop : Nat)
  | badImport (start stop : Nat)
  deriving DecidableEq

end Source

namespace Node

open Source

def literalSite (node : Node) : Site := .literal node.start node.stop

/-- What a node on the stack comes to: sites, and nodes to go on with, the first on top.
`inArgument` says that it belongs to the argument of a dynamic import. -/
def visit (source : Bytes) (inArgument : Bool) (node : Node) : List Site × List (Node × Bool) :=
  match node.shape with
  | .importDeclaration | .exportFrom =>
    (if node.isTypeOnly source then [] else ((node.child? .source).map literalSite).toList, [])
  | .dynamicImport =>
    match node.argument? with
    | none => ([.badImport node.start node.stop], [])
    | some argument =>
      if argument.kind = .string then ([argument.literalSite], []) else ([], [(argument, true)])
  | .other =>
    if inArgument && node.kind == .string then ([node.literalSite], [])
    else ([], node.children.map (·, inArgument))

noncomputable def stackSize : List (Node × Bool) → Nat
  | [] => 0
  | (node, _) :: stack => sizeOf node + stackSize stack

theorem stackSize_append (front stack : List (Node × Bool)) :
    stackSize (front ++ stack) = stackSize front + stackSize stack := by
  induction front with
  | nil => simp [stackSize]
  | cons entry front ih => simp [stackSize, ih, Nat.add_assoc]

theorem stackSize_children_le (inArgument : Bool) (children : List Node) :
    stackSize (children.map (·, inArgument)) ≤ sizeOf children := by
  induction children with
  | nil => simp [stackSize]
  | cons child children ih =>
    simp only [List.map_cons, stackSize, List.cons.sizeOf_spec]
    omega

theorem stackSize_visit_lt (source : Bytes) (inArgument : Bool) (node : Node) :
    stackSize (node.visit source inArgument).2 < sizeOf node := by
  have hpos : 0 < sizeOf node := by
    cases node
    simp only [mk.sizeOf_spec]
    omega
  unfold visit
  split
  · exact hpos
  · exact hpos
  · split
    · exact hpos
    · next argument hargument =>
      have hlt := sizeOf_argument? hargument
      split
      · exact hpos
      · simpa [stackSize] using hlt
  · split
    · exact hpos
    · have hlt : sizeOf node.children < sizeOf node := by
        cases node
        simp only [mk.sizeOf_spec]
        omega
      exact Nat.lt_of_le_of_lt (stackSize_children_le inArgument node.children) hlt

end Node

namespace Source

/-- The sites of the nodes on a stack and below them, in order. -/
def walk (source : Bytes) : List (Node × Bool) → List Site
  | [] => []
  | (node, inArgument) :: stack =>
    (node.visit source inArgument).1 ++ walk source ((node.visit source inArgument).2 ++ stack)
termination_by stack => Node.stackSize stack
decreasing_by
  rw [Node.stackSize_append, Node.stackSize]
  exact Nat.add_lt_add_right (node.stackSize_visit_lt source inArgument) _

inductive Fault
  | badImport (file : Text) (line column : Nat) (snippet : Text)
  | malformed (malformed : Utf8.Malformed)
  deriving DecidableEq

def badImportMessage (file : Text) (line column : Nat) (snippet : Text) : Text :=
  "Dynamic import must have exactly one argument at " ++ file ++ ":" ++ Text.ofNat line ++ ":" ++
    Text.ofNat column ++ ": " ++ snippet

def literals (source : Bytes) (file : Text) : List Site → List (Nat × Nat × Chars) × Option Fault
  | [] => ([], none)
  | .literal start stop :: rest =>
    match Utf8.decode (Node.slice source start stop) with
    | .error malformed => ([], some (.malformed malformed))
    | .ok raw =>
      let (found, fault) := literals source file rest
      ((start, stop, raw) :: found, fault)
  | .badImport start stop :: _ =>
    let (row, column) := Node.place source start
    ([], some (.badImport file (row + 1) (column + 1)
      ((Utf8.decodeLossy (Node.slice source start stop)).map .char)))

structure Rewriting where
  edits : List Edit
  misses : List Miss
  log : Log
  fault : Option Fault

def rewriteTree (setting : Setting) (context : FileContext) (source : Bytes) (root : Node) :
    Rewriting :=
  let (found, fault) := literals source context.file (walk source [(root, false)])
  { edits := found.filterMap fun (start, stop, raw) =>
      let text := Specifier.rewrite setting context (raw.map .char)
      if text = raw.map .char then none else some ⟨start, stop, text⟩
    misses := found.foldl (fun misses (_, _, raw) =>
      Specifier.record setting context misses (raw.map .char)) []
    log := found.flatMap fun (_, _, raw) => Specifier.log setting context (raw.map .char)
    fault }

end Source

end Relink

import Relink.Text.Utf8

/-!
The tree of a source file: nodes over ranges of octets. Only the kinds that tell imports and exports
apart have names of their own.
-/

namespace Relink

namespace Source

inductive Kind
  | importStatement
  | exportStatement
  | callExpression
  | importWord
  | arguments
  | string
  | comment
  | typeWord
  | typeofWord
  | error
  | other (name : Text)
  deriving DecidableEq

inductive Field
  | source
  | function
  | arguments
  | other (name : Text)
  deriving DecidableEq

def Kind.ofName (name : Text) : Kind :=
  if name = "import_statement" then .importStatement
  else if name = "export_statement" then .exportStatement
  else if name = "call_expression" then .callExpression
  else if name = "import" then .importWord
  else if name = "arguments" then .arguments
  else if name = "string" then .string
  else if name = "comment" then .comment
  else if name = "type" then .typeWord
  else if name = "typeof" then .typeofWord
  else if name = "ERROR" then .error
  else .other name

def Field.ofName (name : Text) : Field :=
  if name = "source" then .source
  else if name = "function" then .function
  else if name = "arguments" then .arguments
  else .other name

end Source

structure Node where
  kind : Source.Kind
  named : Bool
  field : Option Source.Field
  start : Nat
  stop : Nat
  children : List Node

namespace Node

theorem sizeOf_lt_of_mem {child node : Node} (h : child ∈ node.children) :
    sizeOf child < sizeOf node := by
  cases node with
  | mk kind named field start stop children =>
    have : sizeOf child < sizeOf children := List.sizeOf_lt_of_mem h
    simp only [mk.sizeOf_spec]
    omega

def child? (node : Node) (field : Source.Field) : Option Node :=
  node.children.find? (·.field == some field)

def slice (source : Bytes) (start stop : Nat) : Bytes := (source.drop start).take (stop - start)

def octets (node : Node) (source : Bytes) : Bytes := slice source node.start node.stop

def preorder (node : Node) : List Node :=
  node :: node.children.attach.flatMap fun child => child.1.preorder
termination_by sizeOf node
decreasing_by exact sizeOf_lt_of_mem child.2

inductive Shape
  | importDeclaration
  | exportFrom
  | dynamicImport
  | other
  deriving DecidableEq

def Shape.name : Shape → Text
  | .importDeclaration => "import_decl"
  | .exportFrom => "export_from_decl"
  | .dynamicImport => "dynamic_import"
  | .other => "other"

def shape (node : Node) : Shape :=
  match node.kind with
  | .importStatement => if (node.child? .source).isSome then .importDeclaration else .other
  | .exportStatement => if (node.child? .source).isSome then .exportFrom else .other
  | .callExpression =>
    match node.child? .function with
    | some function => if function.kind = .importWord then .dynamicImport else .other
    | none => .other
  | _ => .other

def isWordOctet (b : UInt8) : Bool :=
  (0x30 ≤ b && b < 0x3a) || (0x41 ≤ b && b < 0x5b) || b == 0x5f || (0x61 ≤ b && b < 0x7b)

def startsWithWord (word : Chars) (octets : Bytes) : Bool :=
  word.utf8.isPrefixOf octets && !(octets.drop word.utf8.length).head?.any isWordOctet

/-- Whether an import or export concerns types alone. Besides a keyword of its own, the keyword may
be all that an unreadable second child begins with. -/
def isTypeOnly (node : Node) (source : Bytes) : Bool :=
  node.children.any (fun child =>
    !child.named && (child.kind == .typeWord || child.kind == .typeofWord)) ||
  match node.children with
  | _ :: child :: _ =>
    child.kind == .error &&
      (startsWithWord "typeof" (child.octets source) || startsWithWord "type" (child.octets source))
  | _ => false

def argument? (node : Node) : Option Node :=
  match node.child? .arguments with
  | none => none
  | some list =>
    if list.kind = .arguments then
      match list.children.filter fun child => child.named && child.kind != .comment with
      | [argument] => some argument
      | _ => none
    else none

theorem sizeOf_child? {node child : Node} {field : Source.Field}
    (h : node.child? field = some child) : sizeOf child < sizeOf node :=
  sizeOf_lt_of_mem (List.mem_of_find?_eq_some h)

theorem sizeOf_argument? {node argument : Node} (h : node.argument? = some argument) :
    sizeOf argument < sizeOf node := by
  unfold argument? at h
  split at h
  · simp at h
  · next list hlist =>
    split at h
    · split at h
      · next only heq =>
        have hmem : only ∈ list.children := by
          have : only ∈ list.children.filter _ := heq ▸ List.mem_singleton_self only
          exact (List.mem_filter.1 this).1
        have h₁ := sizeOf_lt_of_mem hmem
        have h₂ := sizeOf_child? hlist
        simp only [Option.some.injEq] at h
        subst h
        omega
      · simp at h
    · simp at h

def place (source : Bytes) (offset : Nat) : Nat × Nat :=
  let before := source.take offset
  (before.count 0x0a, (before.reverse.takeWhile (· != 0x0a)).length)

end Node

end Relink

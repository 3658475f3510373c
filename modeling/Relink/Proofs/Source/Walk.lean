import Relink.Source.Site

namespace Relink

namespace Node

open Source

def sites (source : Bytes) (inArgument : Bool) (node : Node) : List Site :=
  match node.shape with
  | .importDeclaration | .exportFrom =>
    if node.isTypeOnly source then [] else ((node.child? .source).map literalSite).toList
  | .dynamicImport =>
    match _h : node.argument? with
    | none => [.badImport node.start node.stop]
    | some argument =>
      if argument.kind = .string then [argument.literalSite] else argument.sites source true
  | .other =>
    if inArgument && node.kind == .string then [node.literalSite]
    else node.children.attach.flatMap fun child => child.1.sites source inArgument
termination_by sizeOf node
decreasing_by
  · exact sizeOf_argument? _h
  · exact sizeOf_lt_of_mem child.2

theorem flatMap_attach_sites (source : Bytes) (inArgument : Bool) (children : List Node) :
    (children.attach.flatMap fun child => child.1.sites source inArgument) =
      children.flatMap (sites source inArgument) := by
  rw [← List.flatMap_map Subtype.val (sites source inArgument), List.attach_map_subtype_val]

theorem sites_eq_visit (source : Bytes) (inArgument : Bool) (node : Node) :
    node.sites source inArgument = (node.visit source inArgument).1 ++
      (node.visit source inArgument).2.flatMap fun (next, inArgument) =>
        next.sites source inArgument := by
  rw [sites]
  cases hshape : node.shape with
  | importDeclaration | exportFrom => simp [visit, hshape]
  | dynamicImport =>
    simp only [visit, hshape]
    split
    · next hnone => simp [hnone]
    · next argument hsome =>
      simp only [hsome]
      split <;> simp
  | other =>
    simp only [visit, hshape, flatMap_attach_sites]
    split
    · simp
    · simp [List.flatMap_map]

end Node

namespace Source

/-- The loop yields what the nodes on its stack yield, one after the other. -/
theorem walk_eq (source : Bytes) (stack : List (Node × Bool)) :
    walk source stack = stack.flatMap fun (node, inArgument) => node.sites source inArgument := by
  fun_induction walk source stack with
  | case1 => rfl
  | case2 node inArgument stack ih =>
    rw [ih, List.flatMap_append, List.flatMap_cons, ← List.append_assoc, ← node.sites_eq_visit]

theorem walk_root (source : Bytes) (root : Node) :
    walk source [(root, false)] = root.sites source false := by
  rw [walk_eq, List.flatMap_singleton]

theorem foldl_record (setting : Setting) (context : FileContext) (found : List (Nat × Nat × Chars))
    (misses : List Miss) :
    found.foldl (fun misses (_, _, raw) =>
        Specifier.record setting context misses (raw.map .char)) misses =
      misses ++ found.filterMap fun (_, _, raw) =>
        Specifier.miss? setting context (raw.map .char) := by
  induction found generalizing misses with
  | nil => simp
  | cons literal found ih =>
    obtain ⟨start, stop, raw⟩ := literal
    rw [List.foldl_cons, ih]
    cases h : Specifier.miss? setting context (raw.map .char) <;> simp [Specifier.record, h]

theorem misses_rewriteTree (setting : Setting) (context : FileContext) (source : Bytes)
    (root : Node) :
    (rewriteTree setting context source root).misses =
      (literals source context.file (root.sites source false)).1.filterMap fun (_, _, raw) =>
        Specifier.miss? setting context (raw.map .char) := by
  simp only [rewriteTree, walk_root, foldl_record, List.nil_append]

end Source

end Relink

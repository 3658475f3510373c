import Relink.Proofs.Source.Shape
import Relink.Proofs.Text.Utf8

/-!
Which literals of a tree are rewritten, said by their addresses. An address is the list of places
among the children on the way down from the root; addresses in lexicographic order are the nodes in
preorder.
-/

namespace Relink.Node

open Source

/-- One step of the walk, from a node to one below it at an address. The flags say whether the nodes
are inside the argument of a dynamic import. -/
inductive Step : Bool → Node → List Nat → Bool → Node → Prop
  | child {inside : Bool} {node child : Node} {i : Nat} :
      ¬node.IsDeclaration → ¬node.IsDynamicImport → ¬(inside = true ∧ node.kind = .string) →
      node.children[i]? = some child → Step inside node [i] inside child
  | argument {inside : Bool} {call argument : Node} {i j : Nat} :
      call.IsDynamicImport → call.ArgumentAt i j argument → argument.kind ≠ .string →
      Step inside call [i, j] true argument

inductive Reached (start : Bool) (root : Node) : List Nat → Bool → Node → Prop
  | root : Reached start root [] start root
  | step {p q : List Nat} {inside inside' : Bool} {node next : Node} :
      Reached start root p inside node → Step inside node q inside' next →
      Reached start root (p ++ q) inside' next

/-- A literal that counts once the walk has come to a node, with its address below the node. -/
inductive Holds (source : Bytes) : Bool → Node → List Nat → Node → Prop
  | declaration {inside : Bool} {node literal : Node} {i : Nat} :
      node.IsDeclaration → node.isTypeOnly source = false → node.FieldAt .source i literal →
      Holds source inside node [i] literal
  | argument {inside : Bool} {call literal : Node} {i j : Nat} :
      call.IsDynamicImport → call.ArgumentAt i j literal → literal.kind = .string →
      Holds source inside call [i, j] literal
  | string {node : Node} : node.kind = .string → Holds source true node [] node

def LiteralAt (source : Bytes) (start : Bool) (root : Node) (p : List Nat)
    (literal : Node) : Prop :=
  ∃ q r inside node, Reached start root q inside node ∧ Holds source inside node r literal ∧
    p = q ++ r

def SingleArguments (start : Bool) (root : Node) : Prop :=
  ∀ p inside call, Reached start root p inside call → call.IsDynamicImport →
    ∃ i j argument, call.ArgumentAt i j argument

section Below

variable {source : Bytes} {start mid inside : Bool} {root next node literal : Node}
variable {p q r : List Nat}

theorem Reached.of_step (h : Step start root q mid next) (h' : Reached mid next r inside node) :
    Reached start root (q ++ r) inside node := by
  induction h' with
  | root => simpa using Reached.root.step h
  | step _ hstep ih => simpa using ih.step hstep

theorem Reached.root_or_below (h : Reached start root p inside node) :
    (p = [] ∧ inside = start ∧ node = root) ∨ ∃ q mid next r,
      Step start root q mid next ∧ Reached mid next r inside node ∧ p = q ++ r := by
  -- A walk grows at its far end, and the step that is taken off here is its first.
  induction h with
  | root => exact Or.inl ⟨rfl, rfl, rfl⟩
  | step _ hstep ih =>
    obtain ⟨rfl, rfl, rfl⟩ | ⟨q, mid, next, r, hfirst, hrest, rfl⟩ := ih
    · exact Or.inr ⟨_, _, _, [], hstep, .root, by simp⟩
    · exact Or.inr ⟨q, mid, next, _, hfirst, hrest.step hstep, List.append_assoc ..⟩

theorem literalAt_iff : LiteralAt source start root p literal ↔
    Holds source start root p literal ∨
      ∃ q mid next r, Step start root q mid next ∧ LiteralAt source mid next r literal ∧
        p = q ++ r := by
  constructor
  · rintro ⟨q, r, inside, node, hreached, hholds, rfl⟩
    obtain ⟨rfl, rfl, rfl⟩ | ⟨q, mid, next, s, hfirst, hrest, rfl⟩ := hreached.root_or_below
    · exact Or.inl hholds
    · refine Or.inr ⟨q, mid, next, s ++ r, hfirst, ?_, List.append_assoc ..⟩
      exact ⟨s, r, inside, node, hrest, hholds, rfl⟩
  · rintro (hholds | ⟨q, mid, next, r, hfirst, ⟨s, t, inside, node, hrest, hholds, rfl⟩, rfl⟩)
    · exact ⟨[], p, start, root, .root, hholds, rfl⟩
    · exact ⟨q ++ s, t, inside, node, .of_step hfirst hrest, hholds, (List.append_assoc ..).symm⟩

theorem SingleArguments.of_step (h : SingleArguments start root)
    (hstep : Step start root q mid next) :
    SingleArguments mid next :=
  fun _ inside call hreached => h _ inside call (.of_step hstep hreached)

end Below

theorem preorder_eq (node : Node) :
    node.preorder = node :: node.children.flatMap preorder := by
  rw [preorder, ← List.flatMap_map Subtype.val preorder, List.attach_map_subtype_val]

theorem child_mem_preorder {root node child : Node} (h : node ∈ root.preorder)
    (hchild : child ∈ node.children) : child ∈ root.preorder := by
  rw [preorder_eq, List.mem_cons, List.mem_flatMap] at h ⊢
  obtain rfl | ⟨next, hnext, hnode⟩ := h
  · refine Or.inr ⟨child, hchild, ?_⟩
    rw [preorder_eq]
    exact List.mem_cons_self
  · exact Or.inr ⟨next, hnext, child_mem_preorder hnode hchild⟩
termination_by sizeOf root
decreasing_by exact sizeOf_lt_of_mem hnext

theorem FieldAt.mem_preorder {root node child : Node} {field : Field} {i : Nat}
    (h : node.FieldAt field i child) (hnode : node ∈ root.preorder) : child ∈ root.preorder :=
  child_mem_preorder hnode (List.mem_of_getElem? h.1)

theorem ArgumentAt.mem_preorder {root call argument : Node} {i j : Nat}
    (h : call.ArgumentAt i j argument) (hcall : call ∈ root.preorder) :
    argument ∈ root.preorder := by
  obtain ⟨list, hlist, -, hargument, -⟩ := h
  exact child_mem_preorder (hlist.mem_preorder hcall) (List.mem_of_getElem? hargument)

theorem Reached.mem_preorder {start inside : Bool} {root node : Node} {p : List Nat}
    (h : Reached start root p inside node) : node ∈ root.preorder := by
  induction h with
  | root =>
    rw [preorder_eq]
    exact List.mem_cons_self
  | step _ hstep ih =>
    cases hstep with
    | child _ _ _ hchild => exact child_mem_preorder ih (List.mem_of_getElem? hchild)
    | argument _ hargument => exact hargument.mem_preorder ih

theorem LiteralAt.mem_preorder {source : Bytes} {start : Bool} {root literal : Node} {p : List Nat}
    (h : LiteralAt source start root p literal) : literal ∈ root.preorder := by
  obtain ⟨q, r, inside, node, hreached, hholds, rfl⟩ := h
  cases hholds with
  | declaration _ _ hfield => exact hfield.mem_preorder hreached.mem_preorder
  | argument _ hargument => exact hargument.mem_preorder hreached.mem_preorder
  | string => exact hreached.mem_preorder

theorem singleArguments_of_preorder {start : Bool} {root : Node}
    (h : ∀ call ∈ root.preorder, call.shape = .dynamicImport → call.argument?.isSome = true) :
    SingleArguments start root := by
  intro p inside call hreached himport
  obtain ⟨argument, hargument⟩ := Option.isSome_iff_exists.1
    (h call hreached.mem_preorder (isDynamicImport_iff.1 himport))
  obtain ⟨i, j, hat⟩ := argument?_eq_some_iff.1 hargument
  exact ⟨i, j, argument, hat⟩

section Shapes

variable {source : Bytes} {inside : Bool} {node literal : Node} {p : List Nat}

theorem literalAt_of_isDeclaration (h : node.IsDeclaration) :
    LiteralAt source inside node p literal ↔
    node.isTypeOnly source = false ∧ ∃ i, node.FieldAt .source i literal ∧ p = [i] := by
  rw [literalAt_iff]
  constructor
  · rintro (hholds | ⟨q, mid, next, r, hstep, -, -⟩)
    · cases hholds with
      | declaration _ htype hfield => exact ⟨htype, _, hfield, rfl⟩
      | argument himport => exact absurd himport (not_isDynamicImport_of_isDeclaration h)
      | string hkind => exact absurd h (not_isDeclaration_of_string hkind)
    · cases hstep with
      | child hdeclaration => exact absurd h hdeclaration
      | argument himport => exact absurd himport (not_isDynamicImport_of_isDeclaration h)
  · rintro ⟨htype, i, hfield, rfl⟩
    exact Or.inl (.declaration h htype hfield)

theorem literalAt_of_string_argument {i j : Nat} {argument : Node} (h : node.IsDynamicImport)
    (hargument : node.ArgumentAt i j argument) (hkind : argument.kind = .string) :
    LiteralAt source inside node p literal ↔ p = [i, j] ∧ literal = argument := by
  rw [literalAt_iff]
  constructor
  · rintro (hholds | ⟨q, mid, next, r, hstep, -, -⟩)
    · cases hholds with
      | declaration hdeclaration =>
        exact absurd h (not_isDynamicImport_of_isDeclaration hdeclaration)
      | argument _ hother =>
        obtain ⟨rfl, rfl, rfl⟩ := hargument.unique hother
        exact ⟨rfl, rfl⟩
      | string hstring => exact absurd h (not_isDynamicImport_of_string hstring)
    · cases hstep with
      | child _ himport => exact absurd h himport
      | argument _ hother hne =>
        obtain ⟨rfl, rfl, rfl⟩ := hargument.unique hother
        exact absurd hkind hne
  · rintro ⟨rfl, rfl⟩
    exact Or.inl (.argument h hargument hkind)

theorem literalAt_of_argument {i j : Nat} {argument : Node} (h : node.IsDynamicImport)
    (hargument : node.ArgumentAt i j argument) (hkind : argument.kind ≠ .string) :
    LiteralAt source inside node p literal ↔
      ∃ r, LiteralAt source true argument r literal ∧ p = [i, j] ++ r := by
  rw [literalAt_iff]
  constructor
  · rintro (hholds | ⟨q, mid, next, r, hstep, hliteral, rfl⟩)
    · cases hholds with
      | declaration hdeclaration =>
        exact absurd h (not_isDynamicImport_of_isDeclaration hdeclaration)
      | argument _ hother hstring =>
        obtain ⟨rfl, rfl, rfl⟩ := hargument.unique hother
        exact absurd hstring hkind
      | string hstring => exact absurd h (not_isDynamicImport_of_string hstring)
    · cases hstep with
      | child _ himport => exact absurd h himport
      | argument _ hother =>
        obtain ⟨rfl, rfl, rfl⟩ := hargument.unique hother
        exact ⟨r, hliteral, rfl⟩
  · rintro ⟨r, hliteral, rfl⟩
    exact Or.inr ⟨_, _, _, r, .argument h hargument hkind, hliteral, rfl⟩

theorem literalAt_of_string (hkind : node.kind = .string) :
    LiteralAt source true node p literal ↔ p = [] ∧ literal = node := by
  rw [literalAt_iff]
  constructor
  · rintro (hholds | ⟨q, mid, next, r, hstep, -, -⟩)
    · cases hholds with
      | declaration hdeclaration => exact absurd hdeclaration (not_isDeclaration_of_string hkind)
      | argument himport => exact absurd himport (not_isDynamicImport_of_string hkind)
      | string => exact ⟨rfl, rfl⟩
    · cases hstep with
      | child _ _ hstring => exact absurd ⟨rfl, hkind⟩ hstring
      | argument himport => exact absurd himport (not_isDynamicImport_of_string hkind)
  · rintro ⟨rfl, rfl⟩
    exact Or.inl (.string hkind)

theorem literalAt_of_other (hdeclaration : ¬node.IsDeclaration) (himport : ¬node.IsDynamicImport)
    (hstring : ¬(inside = true ∧ node.kind = .string)) :
    LiteralAt source inside node p literal ↔ ∃ (i : Nat) (child : Node) (r : List Nat),
      node.children[i]? = some child ∧ LiteralAt source inside child r literal ∧ p = i :: r := by
  rw [literalAt_iff]
  constructor
  · rintro (hholds | ⟨q, mid, next, r, hstep, hliteral, rfl⟩)
    · cases hholds with
      | declaration h => exact absurd h hdeclaration
      | argument h => exact absurd h himport
      | string h => exact absurd ⟨rfl, h⟩ hstring
    · cases hstep with
      | child _ _ _ hchild => exact ⟨_, _, r, hchild, hliteral, rfl⟩
      | argument h => exact absurd h himport
  · rintro ⟨i, child, r, hchild, hliteral, rfl⟩
    exact Or.inr ⟨_, _, _, r, .child hdeclaration himport hstring hchild, hliteral, rfl⟩

end Shapes

end Relink.Node

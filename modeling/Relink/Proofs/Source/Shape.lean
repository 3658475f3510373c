import Mathlib.Tactic.SplitIfs
import Relink.Proofs.Source.Walk

namespace Relink.Node

open Source

def FieldAt (node : Node) (field : Field) (i : Nat) (child : Node) : Prop :=
  node.children[i]? = some child ∧ child.field = some field ∧
    ∀ j < i, ∀ other, node.children[j]? = some other → other.field ≠ some field

def IsArgument (child : Node) : Prop := child.named = true ∧ child.kind ≠ .comment

def ArgumentAt (call : Node) (i j : Nat) (argument : Node) : Prop :=
  ∃ list, call.FieldAt .arguments i list ∧ list.kind = .arguments ∧
    list.children[j]? = some argument ∧ argument.IsArgument ∧
      ∀ k other, list.children[k]? = some other → other.IsArgument → k = j

def IsDeclaration (node : Node) : Prop :=
  (node.kind = .importStatement ∨ node.kind = .exportStatement) ∧
    ∃ i source, node.FieldAt .source i source

def IsDynamicImport (node : Node) : Prop :=
  node.kind = .callExpression ∧ ∃ i function, node.FieldAt .function i function ∧
    function.kind = .importWord

theorem child?_eq_some_iff {node child : Node} {field : Field} :
    node.child? field = some child ↔ ∃ i, node.FieldAt field i child := by
  rw [child?, List.find?_eq_some_iff_getElem]
  constructor
  · rintro ⟨hfield, i, hi, rfl, before⟩
    refine ⟨i, List.getElem?_eq_getElem hi, by simpa using hfield, ?_⟩
    intro j hj other hother
    have hne := before j hj
    rw [List.getElem?_eq_getElem (Nat.lt_trans hj hi), Option.some.injEq] at hother
    subst hother
    simpa using hne
  · rintro ⟨i, hchild, hfield, before⟩
    obtain ⟨hi, rfl⟩ := List.getElem?_eq_some_iff.1 hchild
    refine ⟨by simpa using hfield, i, hi, rfl, ?_⟩
    intro j hj
    simpa using before j hj _ (List.getElem?_eq_getElem (Nat.lt_trans hj hi))

theorem FieldAt.unique {node a b : Node} {field : Field} {i j : Nat} (ha : node.FieldAt field i a)
    (hb : node.FieldAt field j b) : i = j ∧ a = b := by
  obtain hij | rfl | hji := Nat.lt_trichotomy i j
  · exact absurd ha.2.1 (hb.2.2 i hij a ha.1)
  · exact ⟨rfl, Option.some.inj (ha.1.symm.trans hb.1)⟩
  · exact absurd hb.2.1 (ha.2.2 j hji b hb.1)

theorem filter_eq_singleton_of_only {α : Type} {p : α → Bool} {l : List α} {a : α} {j : Nat}
    (ha : l[j]? = some a) (hpa : p a = true)
    (only : ∀ k b, l[k]? = some b → p b = true → k = j) : l.filter p = [a] := by
  induction l generalizing j with
  | nil => cases ha
  | cons x l ih =>
    cases j with
    | zero =>
      obtain rfl : x = a := by simpa using ha
      rw [List.filter_cons_of_pos hpa, List.filter_eq_nil_iff.2]
      intro b hb hpb
      obtain ⟨k, hk⟩ := List.getElem?_of_mem hb
      cases only (k + 1) b (by simpa using hk) hpb
    | succ j =>
      have hpx : ¬p x = true := fun hpx => by cases only 0 x rfl hpx
      rw [List.filter_cons_of_neg hpx]
      refine ih (by simpa using ha) ?_
      intro k b hb hpb
      exact Nat.succ.inj (only (k + 1) b (by simpa using hb) hpb)

theorem only_of_filter_eq_singleton {α : Type} {p : α → Bool} {l : List α} {a : α}
    (h : l.filter p = [a]) : ∃ j : Nat, l[j]? = some a ∧ p a = true ∧
      ∀ k b, l[k]? = some b → p b = true → k = j := by
  obtain ⟨before, after, rfl, hbefore, hpa, hafter⟩ := List.filter_eq_cons_iff.1 h
  refine ⟨before.length, by simp, hpa, ?_⟩
  intro k b hb hpb
  obtain hk | rfl | hk := Nat.lt_trichotomy k before.length
  · rw [List.getElem?_append_left hk] at hb
    exact absurd hpb (hbefore b (List.mem_of_getElem? hb))
  · rfl
  · rw [List.getElem?_append_right (Nat.le_of_lt hk)] at hb
    obtain ⟨n, hn⟩ : ∃ n, k - before.length = n + 1 := ⟨k - before.length - 1, by omega⟩
    rw [hn, List.getElem?_cons_succ] at hb
    exact absurd hpb (List.filter_eq_nil_iff.1 hafter b (List.mem_of_getElem? hb))

theorem argument?_eq_some_iff {call argument : Node} :
    call.argument? = some argument ↔ ∃ i j, call.ArgumentAt i j argument := by
  have isArgument (child : Node) :
      (child.named && child.kind != .comment) = true ↔ child.IsArgument := by
    simp [IsArgument]
  constructor
  · intro h
    unfold argument? at h
    split at h
    · cases h
    · next list hlist =>
      split_ifs at h with hkind
      split at h
      · next only hfilter =>
        cases h
        obtain ⟨i, hi⟩ := child?_eq_some_iff.1 hlist
        obtain ⟨j, hj, hargument, honly⟩ := only_of_filter_eq_singleton hfilter
        refine ⟨i, j, list, hi, hkind, hj, (isArgument _).1 hargument, ?_⟩
        intro k other hk hother
        exact honly k other hk ((isArgument _).2 hother)
      · cases h
  · rintro ⟨i, j, list, hi, hkind, hj, hargument, only⟩
    have hfilter : list.children.filter (fun child => child.named && child.kind != .comment) =
        [argument] := by
      refine filter_eq_singleton_of_only hj ((isArgument _).2 hargument) ?_
      intro k other hk hother
      exact only k other hk ((isArgument _).1 hother)
    simp [argument?, child?_eq_some_iff.2 ⟨i, hi⟩, hkind, hfilter]

theorem ArgumentAt.unique {call a b : Node} {i j i' j' : Nat} (ha : call.ArgumentAt i j a)
    (hb : call.ArgumentAt i' j' b) : i = i' ∧ j = j' ∧ a = b := by
  obtain ⟨list, hlist, -, hj, hargument, -⟩ := ha
  obtain ⟨list', hlist', -, hj', -, only⟩ := hb
  obtain ⟨rfl, rfl⟩ := hlist.unique hlist'
  obtain rfl := only j a hj hargument
  exact ⟨rfl, rfl, Option.some.inj (hj.symm.trans hj')⟩

theorem isDeclaration_iff {node : Node} :
    node.IsDeclaration ↔ node.shape = .importDeclaration ∨ node.shape = .exportFrom := by
  have hsource : (∃ i source, node.FieldAt .source i source) ↔
      (node.child? .source).isSome = true := by
    rw [exists_comm, Option.isSome_iff_exists]
    exact exists_congr fun _ => child?_eq_some_iff.symm
  rw [IsDeclaration, hsource]
  cases hkind : node.kind with
  | importStatement | exportStatement =>
    simp only [shape, hkind]
    split_ifs <;> simp [*]
  | callExpression =>
    simp only [shape, hkind]
    split <;> simp
    split <;> simp
  | _ => simp [shape, hkind]

theorem isDynamicImport_iff {node : Node} :
    node.IsDynamicImport ↔ node.shape = .dynamicImport := by
  have hfunction : (∃ i function, node.FieldAt .function i function ∧
      function.kind = .importWord) ↔
        ∃ function, node.child? .function = some function ∧ function.kind = .importWord := by
    rw [exists_comm]
    exact exists_congr fun _ => by rw [exists_and_right, child?_eq_some_iff]
  rw [IsDynamicImport, hfunction]
  cases hkind : node.kind with
  | callExpression =>
    cases hchild : node.child? .function with
    | none => simp [shape, hkind, hchild]
    | some function => simp [shape, hkind, hchild]
  | importStatement | exportStatement =>
    simp only [shape, hkind]
    split <;> simp
  | _ => simp [shape, hkind]

theorem shape_eq_other {node : Node} (hdeclaration : ¬node.IsDeclaration)
    (himport : ¬node.IsDynamicImport) : node.shape = .other := by
  rw [isDeclaration_iff] at hdeclaration
  rw [isDynamicImport_iff] at himport
  cases h : node.shape <;> simp_all

theorem not_isDynamicImport_of_isDeclaration {node : Node} (h : node.IsDeclaration) :
    ¬node.IsDynamicImport := by
  intro h'
  obtain hkind | hkind := h.1 <;> cases hkind.symm.trans h'.1

theorem not_isDeclaration_of_string {node : Node} (h : node.kind = .string) :
    ¬node.IsDeclaration := by
  intro h'
  obtain hkind | hkind := h'.1 <;> cases hkind.symm.trans h

theorem not_isDynamicImport_of_string {node : Node} (h : node.kind = .string) :
    ¬node.IsDynamicImport := fun h' => by cases h'.1.symm.trans h

section Sites

variable {source : Bytes} {inside : Bool} {node : Node}

theorem sites_of_isDeclaration (h : node.IsDeclaration) : node.sites source inside =
    if node.isTypeOnly source then [] else ((node.child? .source).map literalSite).toList := by
  rw [sites]
  obtain hshape | hshape := isDeclaration_iff.1 h <;> simp only [hshape]

theorem sites_of_argument {argument : Node} (h : node.IsDynamicImport)
    (hargument : node.argument? = some argument) : node.sites source inside =
      if argument.kind = .string then [argument.literalSite] else argument.sites source true := by
  rw [sites]
  simp only [isDynamicImport_iff.1 h]
  split
  · next hnone => cases hnone.symm.trans hargument
  · next hsome =>
    cases hsome.symm.trans hargument
    rfl

theorem sites_of_no_argument (h : node.IsDynamicImport) (hargument : node.argument? = none) :
    node.sites source inside = [.badImport node.start node.stop] := by
  rw [sites]
  simp only [isDynamicImport_iff.1 h]
  split
  · rfl
  · next hsome => cases hsome.symm.trans hargument

theorem sites_of_other (hdeclaration : ¬node.IsDeclaration) (himport : ¬node.IsDynamicImport) :
    node.sites source inside =
      if inside = true ∧ node.kind = .string then [node.literalSite]
      else node.children.flatMap (sites source inside) := by
  rw [sites]
  simp only [shape_eq_other hdeclaration himport, Bool.and_eq_true, beq_iff_eq,
    flatMap_attach_sites]

end Sites

/-- The walk to the sites as an induction: it goes from a dynamic import to its argument, from
other nodes to their children, and not below declarations. -/
theorem walk_induction {motive : Bool → Node → Prop}
    (declaration : ∀ inside node, node.IsDeclaration → motive inside node)
    (dynamicImport : ∀ inside node, node.IsDynamicImport →
      (∀ argument, node.argument? = some argument → motive true argument) → motive inside node)
    (other : ∀ inside node, ¬node.IsDeclaration → ¬node.IsDynamicImport →
      (∀ child ∈ node.children, motive inside child) → motive inside node)
    (inside : Bool) (node : Node) : motive inside node := by
  by_cases hdeclaration : node.IsDeclaration
  · exact declaration inside node hdeclaration
  by_cases himport : node.IsDynamicImport
  · refine dynamicImport inside node himport ?_
    intro argument hargument
    exact walk_induction declaration dynamicImport other true argument
  · refine other inside node hdeclaration himport ?_
    intro child hchild
    exact walk_induction declaration dynamicImport other inside child
termination_by sizeOf node
decreasing_by
  · exact sizeOf_argument? hargument
  · exact sizeOf_lt_of_mem hchild

end Relink.Node

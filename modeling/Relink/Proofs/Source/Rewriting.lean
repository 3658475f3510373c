import Mathlib.Tactic.Common
import Relink.Proofs.Source.Reach

namespace Relink.Node

open Source

structure Enumerates (P : List Nat → Node → Prop) (sites : List Site)
    (spots : List (List Nat × Node)) : Prop where
  ordered : spots.Pairwise (·.1 < ·.1)
  mem_iff : ∀ p literal, (p, literal) ∈ spots ↔ P p literal
  sites_eq : sites = spots.map (·.2.literalSite)

namespace Enumerates

variable {P Q : List Nat → Node → Prop} {sites sites' : List Site}
variable {spots spots' : List (List Nat × Node)}

theorem congr (h : ∀ p literal, P p literal ↔ Q p literal) (e : Enumerates P sites spots) :
    Enumerates Q sites spots where
  ordered := e.ordered
  mem_iff p literal := (e.mem_iff p literal).trans (h p literal)
  sites_eq := e.sites_eq

theorem nil (h : ∀ p literal, ¬P p literal) : Enumerates P [] [] where
  ordered := .nil
  mem_iff p literal := by simp [h p literal]
  sites_eq := rfl

theorem singleton {q : List Nat} {node : Node}
    (h : ∀ p literal, P p literal ↔ p = q ∧ literal = node) :
    Enumerates P [node.literalSite] [(q, node)] where
  ordered := List.pairwise_singleton ..
  mem_iff p literal := by simp [h p literal]
  sites_eq := rfl

theorem under (q : List Nat) (e : Enumerates P sites spots) :
    Enumerates (fun p literal => ∃ r, P r literal ∧ p = q ++ r) sites
      (spots.map fun spot => (q ++ spot.1, spot.2)) where
  ordered := by
    rw [List.pairwise_map]
    refine e.ordered.imp ?_
    intro a b hab
    induction q with
    | nil => exact hab
    | cons i q ih => exact List.cons_lt_cons_iff.2 (Or.inr ⟨rfl, ih⟩)
  mem_iff p literal := by
    constructor
    · intro h
      obtain ⟨⟨r, node⟩, hspot, heq⟩ := List.mem_map.1 h
      obtain ⟨rfl, rfl⟩ := Prod.mk.injEq .. ▸ heq
      exact ⟨r, (e.mem_iff r _).1 hspot, rfl⟩
    · rintro ⟨r, hr, rfl⟩
      exact List.mem_map.2 ⟨(r, literal), (e.mem_iff r literal).2 hr, rfl⟩
  sites_eq := by
    rw [e.sites_eq, List.map_map]
    rfl

theorem append (e : Enumerates P sites spots) (e' : Enumerates Q sites' spots')
    (h : ∀ p q literal literal', P p literal → Q q literal' → p < q) :
    Enumerates (fun p literal => P p literal ∨ Q p literal) (sites ++ sites')
      (spots ++ spots') where
  ordered := by
    refine List.pairwise_append.2 ⟨e.ordered, e'.ordered, ?_⟩
    intro a ha b hb
    exact h _ _ _ _ ((e.mem_iff _ _).1 ha) ((e'.mem_iff _ _).1 hb)
  mem_iff p literal := by rw [List.mem_append, e.mem_iff, e'.mem_iff]
  sites_eq := by rw [List.map_append, e.sites_eq, e'.sites_eq]

end Enumerates

theorem exists_enumeration_children {source : Bytes} {inside : Bool} (children : List Node)
    (k : Nat) (ih : ∀ child ∈ children, ∃ spots,
      Enumerates (LiteralAt source inside child) (child.sites source inside) spots) :
    ∃ spots, Enumerates (fun p literal => ∃ (i : Nat) (child : Node) (r : List Nat),
      children[i]? = some child ∧ LiteralAt source inside child r literal ∧ p = (k + i) :: r)
      (children.flatMap (sites source inside)) spots := by
  induction children generalizing k with
  | nil =>
    refine ⟨[], .nil ?_⟩
    rintro p literal ⟨i, child, r, hchild, -⟩
    cases hchild
  | cons child children ihRest =>
    obtain ⟨⟨first, hfirst⟩, hrest⟩ := List.forall_mem_cons.1 ih
    obtain ⟨rest, hrest⟩ := ihRest (k + 1) hrest
    -- Below this child an address begins with `k`, below the others with a greater place.
    refine ⟨_, ((hfirst.under [k]).append hrest ?_).congr ?_⟩
    · rintro p q literal literal' ⟨r, -, rfl⟩ ⟨i, next, s, -, -, rfl⟩
      exact List.cons_lt_cons_iff.2 (Or.inl (by omega))
    · intro p literal
      constructor
      · rintro (⟨r, hr, rfl⟩ | ⟨i, next, r, hnext, hr, rfl⟩)
        · exact ⟨0, child, r, rfl, hr, rfl⟩
        · exact ⟨i + 1, next, r, hnext, hr, by rw [Nat.add_right_comm, Nat.add_assoc]⟩
      · rintro ⟨i, next, r, hnext, hr, rfl⟩
        cases i with
        | zero =>
          obtain rfl : child = next := by simpa using hnext
          exact Or.inl ⟨r, hr, rfl⟩
        | succ i =>
          exact Or.inr ⟨i, next, r, by simpa using hnext, hr, by rw [Nat.add_right_comm,
            Nat.add_assoc]⟩

theorem exists_enumeration (source : Bytes) {start : Bool} {root : Node}
    (single : SingleArguments start root) :
    ∃ spots, Enumerates (LiteralAt source start root) (root.sites source start) spots := by
  induction start, root using walk_induction with
  | declaration inside node h =>
    obtain ⟨i, literal, hliteral⟩ := h.2
    rw [sites_of_isDeclaration h, child?_eq_some_iff.2 ⟨i, hliteral⟩]
    by_cases htype : node.isTypeOnly source = true
    · refine ⟨[], ?_⟩
      rw [if_pos htype]
      refine .nil ?_
      intro p other hother
      exact absurd ((literalAt_of_isDeclaration h).1 hother).1 (by simp [htype])
    · refine ⟨[([i], literal)], ?_⟩
      rw [if_neg htype]
      refine .singleton ?_
      intro p other
      rw [literalAt_of_isDeclaration h]
      constructor
      · rintro ⟨-, j, hj, rfl⟩
        obtain ⟨rfl, rfl⟩ := hliteral.unique hj
        exact ⟨rfl, rfl⟩
      · rintro ⟨rfl, rfl⟩
        exact ⟨by simpa using htype, i, hliteral, rfl⟩
  | dynamicImport inside call h ih =>
    obtain ⟨i, j, argument, hargument⟩ := single [] inside call .root h
    have hsome := argument?_eq_some_iff.2 ⟨i, j, hargument⟩
    rw [sites_of_argument h hsome]
    by_cases hkind : argument.kind = .string
    · refine ⟨[([i, j], argument)], ?_⟩
      rw [if_pos hkind]
      exact .singleton fun p literal => literalAt_of_string_argument h hargument hkind
    · obtain ⟨spots, hspots⟩ := ih argument hsome (single.of_step (.argument h hargument hkind))
      rw [if_neg hkind]
      exact ⟨_, (hspots.under [i, j]).congr fun p literal =>
        (literalAt_of_argument h hargument hkind).symm⟩
  | other inside node hdeclaration himport ih =>
    rw [sites_of_other hdeclaration himport]
    by_cases hstring : inside = true ∧ node.kind = .string
    · obtain ⟨rfl, hkind⟩ := hstring
      refine ⟨[([], node)], ?_⟩
      rw [if_pos ⟨rfl, hkind⟩]
      exact .singleton fun p literal => literalAt_of_string hkind
    · have hchildren : ∀ child ∈ node.children, ∃ spots,
          Enumerates (LiteralAt source inside child) (child.sites source inside) spots := by
        intro child hchild
        obtain ⟨i, hi⟩ := List.getElem?_of_mem hchild
        exact ih child hchild (single.of_step (.child hdeclaration himport hstring hi))
      obtain ⟨spots, hspots⟩ := exists_enumeration_children node.children 0 hchildren
      refine ⟨spots, ?_⟩
      rw [if_neg hstring]
      refine hspots.congr ?_
      intro p literal
      rw [literalAt_of_other hdeclaration himport hstring]
      simp

end Relink.Node

namespace Relink.Source

structure Occurrence where
  address : List Nat
  node : Node
  raw : Chars

def Occurrence.edit? (setting : Setting) (context : FileContext) (occurrence : Occurrence) :
    Option Edit :=
  let text := Specifier.rewrite setting context (occurrence.raw.map .char)
  if text = occurrence.raw.map .char then none
  else some ⟨occurrence.node.start, occurrence.node.stop, text⟩

theorem literals_of_occurrences (source : Bytes) (file : Text) (found : List Occurrence)
    (spelled : ∀ o ∈ found, o.node.octets source = o.raw.utf8) :
    literals source file (found.map (·.node.literalSite)) =
      (found.map fun o => (o.node.start, o.node.stop, o.raw), none) := by
  induction found with
  | nil => rfl
  | cons o found ih =>
    obtain ⟨hfirst, hrest⟩ := List.forall_mem_cons.1 spelled
    have hdecode : Utf8.decode (Node.slice source o.node.start o.node.stop) = .ok o.raw := by
      rw [← Utf8.decode_utf8, ← hfirst]
      rfl
    rw [List.map_cons, Node.literalSite, literals]
    simp only [hdecode]
    rw [ih hrest, List.map_cons]

theorem exists_occurrences {source : Bytes} (spots : List (List Nat × Node))
    (spelled : ∀ spot ∈ spots, ∃ raw : Chars, spot.2.octets source = raw.utf8) :
    ∃ found : List Occurrence, found.map (fun o => (o.address, o.node)) = spots ∧
      ∀ o ∈ found, o.node.octets source = o.raw.utf8 := by
  induction spots with
  | nil => exact ⟨[], rfl, by simp⟩
  | cons spot spots ih =>
    obtain ⟨⟨raw, hraw⟩, hrest⟩ := List.forall_mem_cons.1 spelled
    obtain ⟨found, rfl, hfound⟩ := ih hrest
    exact ⟨⟨spot.1, spot.2, raw⟩ :: found, rfl, List.forall_mem_cons.2 ⟨hraw, hfound⟩⟩

/-- The rewriting of a tree, when every dynamic import that the walk comes to has one argument and
every literal that counts is well formed: one edit for each such literal whose text changes, one
miss for each that was not found, in the order of the addresses. -/
theorem rewriteTree_eq_occurrences (setting : Setting) (context : FileContext) (source : Bytes)
    (root : Node) (single : root.SingleArguments false)
    (spelled : ∀ p literal, root.LiteralAt source false p literal →
      ∃ raw : Chars, literal.octets source = raw.utf8) :
    ∃ found : List Occurrence,
      found.Pairwise (·.address < ·.address) ∧
      (∀ o, o ∈ found ↔
        root.LiteralAt source false o.address o.node ∧ o.node.octets source = o.raw.utf8) ∧
      (rewriteTree setting context source root).fault = none ∧
      (rewriteTree setting context source root).edits = found.filterMap (·.edit? setting context) ∧
      (rewriteTree setting context source root).misses =
        found.filterMap fun o => Specifier.miss? setting context (o.raw.map .char) := by
  obtain ⟨spots, hspots⟩ := Node.exists_enumeration source single
  obtain ⟨found, rfl, hfound⟩ := exists_occurrences spots fun spot hspot =>
    spelled _ _ ((hspots.mem_iff _ _).1 hspot)
  have hliterals : literals source context.file (root.sites source false) =
      (found.map fun o => (o.node.start, o.node.stop, o.raw), none) := by
    rw [hspots.sites_eq, List.map_map]
    exact literals_of_occurrences source context.file found hfound
  have ordered := hspots.ordered
  rw [List.pairwise_map] at ordered
  refine ⟨found, ordered, ?_, ?_, ?_, ?_⟩
  · intro o
    rw [← hspots.mem_iff]
    constructor
    · intro ho
      exact ⟨List.mem_map_of_mem ho, hfound o ho⟩
    · rintro ⟨ho, hraw⟩
      obtain ⟨⟨address, node, raw⟩, hmem, heq⟩ := List.mem_map.1 ho
      cases heq
      obtain rfl : o.raw = raw := Utf8.utf8_injective (hraw.symm.trans (hfound _ hmem))
      exact hmem
  · rw [rewriteTree, walk_root, hliterals]
  · rw [rewriteTree, walk_root, hliterals]
    exact List.filterMap_map
  · rw [misses_rewriteTree, hliterals]
    exact List.filterMap_map

def nestedChars : Chars := "import a from './a';import(c?'./b':import('./d'))"

def nestedTree : Node :=
  ⟨.other "program", true, none, 0, 49,
    [⟨.importStatement, true, none, 0, 20, [⟨.string, true, some .source, 14, 19, []⟩]⟩,
      ⟨.callExpression, true, none, 20, 49,
        [⟨.importWord, true, some .function, 20, 26, []⟩,
          ⟨.arguments, true, some .arguments, 26, 49,
            [⟨.other "ternary_expression", true, none, 27, 48,
              [⟨.other "identifier", true, none, 27, 28, []⟩, ⟨.string, true, none, 29, 34, []⟩,
                ⟨.callExpression, true, none, 35, 48,
                  [⟨.importWord, true, some .function, 35, 41, []⟩,
                    ⟨.arguments, true, some .arguments, 41, 48,
                      [⟨.string, true, none, 42, 47, []⟩]⟩]⟩]⟩]⟩]⟩]⟩

def bareSetting : Setting :=
  ⟨.posix, ⟨fun _ => .ok none, fun path => .error (.fault ⟨.notFound, path⟩)⟩, "/"⟩

def bareContext : FileContext := ⟨"/p/x.ts", "/p", ⟨[]⟩, .js⟩

theorem nestedTree_singleArguments : nestedTree.SingleArguments false := by
  apply Node.singleArguments_of_preorder
  simp only [nestedTree, Node.preorder_eq, List.flatMap_cons, List.flatMap_nil, List.append_nil,
    List.cons_append, List.nil_append]
  decide

theorem nestedTree_spelled (node : Node) (h : node ∈ nestedTree.preorder) :
    ∃ raw : Chars, node.octets nestedChars.utf8 = raw.utf8 := by
  refine ⟨(node.octets nestedChars.utf8).map fun b => Char.ofNat b.toNat, ?_⟩
  revert node
  simp only [nestedTree, Node.preorder_eq, List.flatMap_cons, List.flatMap_nil, List.append_nil,
    List.cons_append, List.nil_append]
  decide

theorem rewriteTree_eq_occurrences_nested :
    nestedTree.SingleArguments false ∧
    (∀ p literal, nestedTree.LiteralAt nestedChars.utf8 false p literal →
      ∃ raw : Chars, literal.octets nestedChars.utf8 = raw.utf8) ∧
    ∃ found : List Occurrence,
      found.Pairwise (·.address < ·.address) ∧
      (∀ o, o ∈ found ↔ nestedTree.LiteralAt nestedChars.utf8 false o.address o.node ∧
        o.node.octets nestedChars.utf8 = o.raw.utf8) ∧
      (rewriteTree bareSetting bareContext nestedChars.utf8 nestedTree).fault = none ∧
      (rewriteTree bareSetting bareContext nestedChars.utf8 nestedTree).edits =
        found.filterMap (·.edit? bareSetting bareContext) ∧
      (rewriteTree bareSetting bareContext nestedChars.utf8 nestedTree).misses =
        found.filterMap fun o => Specifier.miss? bareSetting bareContext (o.raw.map .char) :=
  have spelled p literal (h : nestedTree.LiteralAt nestedChars.utf8 false p literal) :=
    nestedTree_spelled literal h.mem_preorder
  ⟨nestedTree_singleArguments, spelled, rewriteTree_eq_occurrences bareSetting bareContext
    nestedChars.utf8 nestedTree nestedTree_singleArguments spelled⟩

end Relink.Source

import Mathlib.Data.List.Basic
import Mathlib.Data.List.Find
import Relink.Proofs.Source.Reach
import Relink.Storage.Memory

namespace Relink.Node

open Source

mutual

def withoutComments : Node → Node
  | ⟨kind, named, field, start, stop, children⟩ =>
    ⟨kind, named, field, start, stop, dropComments children⟩

def dropComments : List Node → List Node
  | [] => []
  | child :: rest =>
    if child.kind = .comment then dropComments rest
    else child.withoutComments :: dropComments rest

end

def isCode (node : Node) : Bool := node.kind != .comment

theorem dropComments_eq (children : List Node) :
    dropComments children = (children.filter isCode).map withoutComments := by
  induction children with
  | nil => rfl
  | cons child rest ih =>
    rw [dropComments, ih]
    by_cases h : child.kind = .comment
    · rw [if_pos h, List.filter_cons_of_neg (by simp [isCode, h])]
    · rw [if_neg h, List.filter_cons_of_pos (by simp [isCode, h]), List.map_cons]

section Fields

variable (node : Node)

@[simp] theorem kind_withoutComments : node.withoutComments.kind = node.kind := by
  cases node
  rfl

@[simp] theorem named_withoutComments : node.withoutComments.named = node.named := by
  cases node
  rfl

@[simp] theorem field_withoutComments : node.withoutComments.field = node.field := by
  cases node
  rfl

@[simp] theorem start_withoutComments : node.withoutComments.start = node.start := by
  cases node
  rfl

@[simp] theorem stop_withoutComments : node.withoutComments.stop = node.stop := by
  cases node
  rfl

@[simp] theorem octets_withoutComments (source : Bytes) :
    node.withoutComments.octets source = node.octets source := by
  cases node
  rfl

@[simp] theorem literalSite_withoutComments :
    node.withoutComments.literalSite = node.literalSite := by
  cases node
  rfl

theorem children_withoutComments :
    node.withoutComments.children = (node.children.filter isCode).map withoutComments := by
  cases node
  exact dropComments_eq _

end Fields

/-- The comments of a tree are leaves, and no field of their parents. -/
def HasBareComments (root : Node) : Prop :=
  ∀ node ∈ root.preorder, ∀ comment ∈ node.children, comment.kind = .comment →
    comment.field = none ∧ comment.children = []

theorem HasBareComments.of_mem {node child : Node} (h : node.HasBareComments)
    (hchild : child ∈ node.children) : child.HasBareComments := by
  intro below hbelow
  refine h below ?_
  rw [preorder_eq]
  exact List.mem_cons_of_mem _ (List.mem_flatMap.2 ⟨child, hchild, hbelow⟩)

theorem HasBareComments.of_argument {call argument : Node} {i j : Nat} (h : call.HasBareComments)
    (hargument : call.ArgumentAt i j argument) : argument.HasBareComments := by
  obtain ⟨list, hlist, -, hj, -⟩ := hargument
  exact (h.of_mem (List.mem_of_getElem? hlist.1)).of_mem (List.mem_of_getElem? hj)

theorem HasBareComments.root {node : Node} (h : node.HasBareComments) :
    ∀ comment ∈ node.children, comment.kind = .comment → comment.field = none ∧
      comment.children = [] :=
  h node (preorder_eq node ▸ List.mem_cons_self)

variable {source : Bytes} {inside : Bool} {node : Node}

theorem child?_withoutComments (h : node.HasBareComments) (field : Field) :
    node.withoutComments.child? field = (node.child? field).map withoutComments := by
  rw [child?, child?, children_withoutComments, List.find?_map, List.find?_filter]
  congr 1
  apply List.find?_congr
  intro child hchild
  by_cases hkind : child.kind = .comment
  · simp [isCode, hkind, (h.root child hchild hkind).1]
  · rw [Bool.eq_iff_iff]
    simp [isCode, hkind]

theorem shape_withoutComments (h : node.HasBareComments) :
    node.withoutComments.shape = node.shape := by
  simp only [shape, kind_withoutComments, child?_withoutComments h, Option.isSome_map]
  cases node.child? .function <;> simp

theorem isDeclaration_withoutComments (h : node.HasBareComments) :
    node.withoutComments.IsDeclaration ↔ node.IsDeclaration := by
  rw [isDeclaration_iff, isDeclaration_iff, shape_withoutComments h]

theorem isDynamicImport_withoutComments (h : node.HasBareComments) :
    node.withoutComments.IsDynamicImport ↔ node.IsDynamicImport := by
  rw [isDynamicImport_iff, isDynamicImport_iff, shape_withoutComments h]

theorem argument?_withoutComments (h : node.HasBareComments) :
    node.withoutComments.argument? = node.argument?.map withoutComments := by
  have hfilter (list : Node) : list.withoutComments.children.filter
        (fun child => child.named && child.kind != .comment) =
      (list.children.filter fun child => child.named && child.kind != .comment).map
        withoutComments := by
    rw [children_withoutComments, List.filter_map, List.filter_filter]
    congr 2
    funext child
    simp [isCode]
  simp only [argument?, child?_withoutComments h]
  cases node.child? .arguments with
  | none => rfl
  | some list =>
    simp only [Option.map_some, kind_withoutComments, hfilter]
    cases list.children.filter fun child => child.named && child.kind != .comment with
    | nil => split <;> rfl
    | cons first rest => cases rest <;> split <;> rfl

def HasKeyword (node : Node) : Prop :=
  ∃ child ∈ node.children, child.named = false ∧ (child.kind = .typeWord ∨ child.kind = .typeofWord)

/-- The second of some nodes could not be read and begins with the keyword of types. -/
def Misread (source : Bytes) (nodes : List Node) : Prop :=
  ∃ first second rest, nodes = first :: second :: rest ∧ second.kind = .error ∧
    (startsWithWord "typeof" (second.octets source) = true ∨
      startsWithWord "type" (second.octets source) = true)

theorem isTypeOnly_iff : node.isTypeOnly source = true ↔
    node.HasKeyword ∨ Misread source node.children := by
  rw [isTypeOnly, Bool.or_eq_true]
  apply or_congr
  · simp [HasKeyword]
  · cases node.children with
    | nil => simp [Misread]
    | cons first rest =>
      cases rest with
      | nil => simp [Misread]
      | cons second rest => simp [Misread]

theorem hasKeyword_withoutComments : node.withoutComments.HasKeyword ↔ node.HasKeyword := by
  unfold HasKeyword
  rw [children_withoutComments]
  constructor
  · rintro ⟨child, hchild, hnamed, hkind⟩
    obtain ⟨child, hmem, rfl⟩ := List.mem_map.1 hchild
    rw [named_withoutComments] at hnamed
    rw [kind_withoutComments] at hkind
    exact ⟨child, (List.mem_filter.1 hmem).1, hnamed, hkind⟩
  · rintro ⟨child, hchild, hnamed, hkind⟩
    have hcode : child.isCode = true := by
      obtain hkind | hkind := hkind <;> simp [isCode, hkind]
    refine ⟨child.withoutComments, List.mem_map_of_mem (List.mem_filter.2 ⟨hchild, hcode⟩), ?_⟩
    simpa using ⟨hnamed, hkind⟩

theorem misread_map (nodes : List Node) :
    Misread source (nodes.map withoutComments) ↔ Misread source nodes := by
  match nodes with
  | [] | [_] => simp [Misread]
  | _ :: _ :: _ => simp [Misread]

/-- Without its comments, a declaration has a keyword of its own if and only if it has one with
them, and otherwise one is misread in both cases or in neither. -/
def KeepsKeyword (source : Bytes) (node : Node) : Prop :=
  node.HasKeyword ∨ (Misread source (node.children.filter isCode) ↔ Misread source node.children)

theorem isTypeOnly_withoutComments_iff :
    node.withoutComments.isTypeOnly source = node.isTypeOnly source ↔ node.KeepsKeyword source := by
  rw [Bool.eq_iff_iff, isTypeOnly_iff, isTypeOnly_iff, hasKeyword_withoutComments,
    children_withoutComments, misread_map, KeepsKeyword]
  by_cases h : node.HasKeyword <;> simp [h]

theorem keepsKeyword_of_take (h : ∀ child ∈ node.children.take 2, child.isCode = true) :
    node.KeepsKeyword source := by
  right
  generalize node.children = children at h
  match children with
  | [] => rfl
  | [first] => simp_all [Misread]
  | first :: second :: rest =>
    obtain ⟨hfirst, hsecond, -⟩ : first.isCode = true ∧ second.isCode = true ∧ True := by
      simpa using h
    rw [List.filter_cons_of_pos hfirst, List.filter_cons_of_pos hsecond]
    simp [Misread]

def KeepsKeywords (source : Bytes) (start : Bool) (root : Node) : Prop :=
  ∀ p inside node, Reached start root p inside node → node.IsDeclaration → node.KeepsKeyword source

theorem KeepsKeywords.of_step {start mid : Bool} {root next : Node} {q : List Nat}
    (h : KeepsKeywords source start root) (hstep : Step start root q mid next) :
    KeepsKeywords source mid next :=
  fun _ inside node hreached => h _ inside node (.of_step hstep hreached)

theorem keepsKeywords_of_preorder {start : Bool} {root : Node}
    (h : ∀ node ∈ root.preorder, node.kind = .importStatement ∨ node.kind = .exportStatement →
      ∀ child ∈ node.children.take 2, child.isCode = true) : KeepsKeywords source start root :=
  fun _ _ node hreached hdeclaration =>
    keepsKeyword_of_take (h node hreached.mem_preorder hdeclaration.1)

theorem sites_of_comment (hkind : node.kind = .comment) (hleaf : node.children = []) :
    node.sites source inside = [] := by
  have hdeclaration : ¬node.IsDeclaration := by
    rintro ⟨h | h, -⟩ <;> cases hkind.symm.trans h
  have himport : ¬node.IsDynamicImport := fun h => by cases hkind.symm.trans h.1
  rw [sites_of_other hdeclaration himport, if_neg (by simp [hkind]), hleaf, List.flatMap_nil]

theorem flatMap_sites_withoutComments {children : List Node}
    (hcode : ∀ child ∈ children, child.isCode = true →
      child.withoutComments.sites source inside = child.sites source inside)
    (hcomment : ∀ child ∈ children, child.kind = .comment → child.children = []) :
    ((children.filter isCode).map withoutComments).flatMap (sites source inside) =
      children.flatMap (sites source inside) := by
  induction children with
  | nil => rfl
  | cons child children ih =>
    obtain ⟨hfirst, hrest⟩ := List.forall_mem_cons.1 hcode
    obtain ⟨hleaf, hleaves⟩ := List.forall_mem_cons.1 hcomment
    rw [List.flatMap_cons, ← ih hrest hleaves]
    by_cases hkind : child.kind = .comment
    · rw [List.filter_cons_of_neg (by simp [isCode, hkind]), sites_of_comment hkind (hleaf hkind),
        List.nil_append]
    · have hcode : child.isCode = true := by simp [isCode, hkind]
      rw [List.filter_cons_of_pos hcode, List.map_cons, List.flatMap_cons, hfirst hcode]

theorem sites_withoutComments {root : Node} (bare : root.HasBareComments)
    (keeps : KeepsKeywords source inside root) :
    root.withoutComments.sites source inside = root.sites source inside := by
  induction inside, root using walk_induction with
  | declaration inside node h =>
    have htype := isTypeOnly_withoutComments_iff.2 (keeps [] inside node .root h)
    rw [sites_of_isDeclaration h, sites_of_isDeclaration ((isDeclaration_withoutComments bare).2 h),
      htype, child?_withoutComments bare, Option.map_map]
    cases node.child? .source <;> simp
  | dynamicImport inside call h ih =>
    have himport := (isDynamicImport_withoutComments bare).2 h
    cases hargument : call.argument? with
    | none =>
      rw [sites_of_no_argument h hargument, sites_of_no_argument himport
        (by rw [argument?_withoutComments bare, hargument]; rfl), start_withoutComments,
        stop_withoutComments]
    | some argument =>
      have hwithout : call.withoutComments.argument? = some argument.withoutComments := by
        rw [argument?_withoutComments bare, hargument]
        rfl
      rw [sites_of_argument h hargument, sites_of_argument himport hwithout, kind_withoutComments,
        literalSite_withoutComments]
      split
      · rfl
      · next hkind =>
        obtain ⟨i, j, hat⟩ := argument?_eq_some_iff.1 hargument
        exact ih argument hargument (bare.of_argument hat) (keeps.of_step (.argument h hat hkind))
  | other inside node hdeclaration himport ih =>
    have hdeclaration' := (isDeclaration_withoutComments bare).not.2 hdeclaration
    have himport' := (isDynamicImport_withoutComments bare).not.2 himport
    rw [sites_of_other hdeclaration himport, sites_of_other hdeclaration' himport',
      kind_withoutComments, literalSite_withoutComments]
    split
    · rfl
    · next hstring =>
      rw [children_withoutComments]
      apply flatMap_sites_withoutComments
      · intro child hchild _
        obtain ⟨i, hi⟩ := List.getElem?_of_mem hchild
        exact ih child hchild (bare.of_mem hchild)
          (keeps.of_step (.child hdeclaration himport hstring hi))
      · exact fun child hchild hkind => (bare.root child hchild hkind).2

end Relink.Node

namespace Relink.Source

/-- A tree is rewritten without its comments as it is with them, log and fault and all, if every
declaration that the walk comes to keeps its keyword; and it is known of each node whether it
does. -/
theorem rewriteTree_withoutComments (setting : Setting) (context : FileContext) (source : Bytes)
    {root : Node} (bare : root.HasBareComments) :
    (∀ node : Node, node.withoutComments.isTypeOnly source = node.isTypeOnly source ↔
      node.KeepsKeyword source) ∧
    (root.KeepsKeywords source false →
      rewriteTree setting context source root.withoutComments =
        rewriteTree setting context source root) := by
  refine ⟨fun node => Node.isTypeOnly_withoutComments_iff, fun keeps => ?_⟩
  rw [rewriteTree, rewriteTree, walk_root, walk_root, Node.sites_withoutComments bare keeps]

def starLiteral : Node := ⟨.string, true, some .source, 22, 27, []⟩

def starStatement (nodes : List Node) : Node :=
  ⟨.exportStatement, true, none, 0, 28,
    ⟨.other "export", false, none, 0, 6, []⟩ :: nodes ++
      [⟨.other "*", false, none, 15, 16, []⟩, ⟨.other "from", false, none, 17, 21, []⟩, starLiteral,
        ⟨.other ";", false, none, 27, 28, []⟩]⟩

def starExport (nodes : List Node) : Node :=
  ⟨.other "program", true, none, 0, 28, [starStatement nodes]⟩

theorem preorder_starExport {nodes : List Node}
    (h : ∀ node ∈ (starStatement nodes).children, node.children = []) :
    (starExport nodes).preorder =
      starExport nodes :: starStatement nodes :: (starStatement nodes).children := by
  have hleaf : ∀ node ∈ (starStatement nodes).children, node.preorder = [node] := by
    intro node hnode
    rw [Node.preorder_eq, h node hnode, List.flatMap_nil]
  rw [Node.preorder_eq]
  simp only [starExport, List.flatMap_cons, List.flatMap_nil, List.append_nil]
  rw [Node.preorder_eq, List.flatMap_congr hleaf, List.flatMap_singleton']

theorem sites_starExport (source : Bytes) {nodes : List Node}
    (h : (starStatement nodes).child? .source = some starLiteral) :
    (starExport nodes).sites source false =
      if (starStatement nodes).isTypeOnly source then [] else [starLiteral.literalSite] := by
  have hdeclaration : (starStatement nodes).IsDeclaration := by
    obtain ⟨i, hi⟩ := Node.child?_eq_some_iff.1 h
    exact ⟨.inr rfl, i, starLiteral, hi⟩
  have hprogram : ¬(starExport nodes).IsDeclaration := by
    rintro ⟨hkind | hkind, -⟩ <;> cases hkind
  have hcall : ¬(starExport nodes).IsDynamicImport := by
    rintro ⟨hkind, -⟩
    cases hkind
  rw [Node.sites_of_other hprogram hcall, if_neg (by simp)]
  simp only [starExport, List.flatMap_cons, List.flatMap_nil, List.append_nil]
  rw [Node.sites_of_isDeclaration hdeclaration, h]
  rfl

def trailedChars : Chars := "export type/**/* from './a';"

def trailedExport : Node :=
  starExport [⟨.error, true, none, 7, 11, []⟩, ⟨.comment, true, none, 11, 15, []⟩]

def coveredChars : Chars := "export /**/type* from './a';"

def coveredExport : Node :=
  starExport [⟨.comment, true, none, 7, 11, []⟩, ⟨.error, true, none, 11, 15, []⟩]

theorem coveredExport_withoutComments :
    coveredExport.withoutComments = starExport [⟨.error, true, none, 11, 15, []⟩] := rfl

def starSetting : Setting := ⟨.posix, (⟨[("/p/a.ts", "")], [], [], []⟩ : Memory).storage, "/p"⟩

def starContext : FileContext := ⟨"/p/x.ts", "/p", ⟨[]⟩, .js⟩

theorem starExport_bare : trailedExport.HasBareComments ∧ coveredExport.HasBareComments := by
  rw [Node.HasBareComments, Node.HasBareComments, trailedExport, coveredExport,
    preorder_starExport (by decide), preorder_starExport (by decide)]
  decide

theorem trailedExport_keeps : trailedExport.KeepsKeywords trailedChars.utf8 false := by
  apply Node.keepsKeywords_of_preorder
  rw [trailedExport, preorder_starExport (by decide)]
  decide

theorem rewriteTree_withoutComments_trailed :
    trailedExport.HasBareComments ∧ trailedExport.KeepsKeywords trailedChars.utf8 false ∧
    rewriteTree starSetting starContext trailedChars.utf8 trailedExport.withoutComments =
      rewriteTree starSetting starContext trailedChars.utf8 trailedExport :=
  ⟨starExport_bare.1, trailedExport_keeps,
    (rewriteTree_withoutComments starSetting starContext trailedChars.utf8 starExport_bare.1).2
      trailedExport_keeps⟩

/-- A comment in front of the misread keyword hides it, and the export of types is rewritten. -/
theorem rewriteTree_ne_withoutComments_covered :
    coveredExport.HasBareComments ∧
    (rewriteTree starSetting starContext coveredChars.utf8 coveredExport).edits =
      [⟨22, 27, "'./a.js'"⟩] ∧
    (rewriteTree starSetting starContext coveredChars.utf8 coveredExport.withoutComments).edits =
      [] :=
  ⟨starExport_bare.2, by rw [rewriteTree, walk_root, coveredExport, sites_starExport _ rfl]; decide,
    by rw [coveredExport_withoutComments, rewriteTree, walk_root, sites_starExport _ rfl]; decide⟩

end Relink.Source

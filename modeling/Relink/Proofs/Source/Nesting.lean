import Relink.Proofs.Source.Replacement
import Relink.Proofs.Source.Rewriting

/-!
Trees whose ranges are nested as their nodes are. Their sites lie one behind the other, so the edits
of a rewriting can be spliced, and what comes out differs from the source in the literals alone.
-/

namespace Relink.Source.Site

def start : Site → Nat
  | .literal start _ | .badImport start _ => start

def stop : Site → Nat
  | .literal _ stop | .badImport _ stop => stop

end Relink.Source.Site

namespace Relink.Node

open Source Utf8

/-- A node whose range lies in the source between characters, with the ranges of its children in it,
one behind the other. -/
structure Placed (source : Bytes) (node : Node) : Prop where
  order : node.start ≤ node.stop
  size : node.stop ≤ source.length
  startBoundary : IsBoundary source node.start
  stopBoundary : IsBoundary source node.stop
  bounds : ∀ child ∈ node.children, node.start ≤ child.start ∧ child.stop ≤ node.stop
  behind : node.children.IsChain (·.stop ≤ ·.start)

def WellFormed (source : Bytes) (root : Node) : Prop := ∀ node ∈ root.preorder, node.Placed source

structure Covers (source : Bytes) (node : Node) (site : Site) : Prop where
  start : node.start ≤ site.start
  order : site.start ≤ site.stop
  stop : site.stop ≤ node.stop
  startBoundary : IsBoundary source site.start
  stopBoundary : IsBoundary source site.stop

theorem Covers.mono {source : Bytes} {inner outer : Node} {site : Site}
    (h : inner.Covers source site)
    (hbounds : outer.start ≤ inner.start ∧ inner.stop ≤ outer.stop) : outer.Covers source site where
  start := Nat.le_trans hbounds.1 h.start
  order := h.order
  stop := Nat.le_trans h.stop hbounds.2
  startBoundary := h.startBoundary
  stopBoundary := h.stopBoundary

namespace WellFormed

variable {source : Bytes} {node : Node}

theorem placed (h : WellFormed source node) : node.Placed source :=
  h node (by rw [preorder_eq]; exact List.mem_cons_self)

theorem covers_self {site : Site} (h : WellFormed source node) (hstart : site.start = node.start)
    (hstop : site.stop = node.stop) : node.Covers source site where
  start := Nat.le_of_eq hstart.symm
  order := hstart ▸ hstop ▸ h.placed.order
  stop := Nat.le_of_eq hstop
  startBoundary := hstart ▸ h.placed.startBoundary
  stopBoundary := hstop ▸ h.placed.stopBoundary

theorem child {child : Node} (h : WellFormed source node) (hchild : child ∈ node.children) :
    WellFormed source child ∧ node.start ≤ child.start ∧ child.stop ≤ node.stop := by
  refine ⟨?_, h.placed.bounds child hchild⟩
  intro next hnext
  refine h next ?_
  rw [preorder_eq]
  exact List.mem_cons_of_mem _ (List.mem_flatMap.2 ⟨child, hchild, hnext⟩)

theorem child? {child : Node} {field : Field} (h : WellFormed source node)
    (hchild : node.child? field = some child) :
    WellFormed source child ∧ node.start ≤ child.start ∧ child.stop ≤ node.stop :=
  h.child (List.mem_of_find?_eq_some hchild)

theorem argument? {argument : Node} (h : WellFormed source node)
    (hargument : node.argument? = some argument) :
    WellFormed source argument ∧ node.start ≤ argument.start ∧ argument.stop ≤ node.stop := by
  obtain ⟨i, j, list, hlist, -, hmem, -⟩ := argument?_eq_some_iff.1 hargument
  obtain ⟨hwf, hstart, hstop⟩ := h.child (List.mem_of_getElem? hlist.1)
  obtain ⟨hwf', hstart', hstop'⟩ := hwf.child (List.mem_of_getElem? hmem)
  exact ⟨hwf', Nat.le_trans hstart hstart', Nat.le_trans hstop' hstop⟩

theorem children_pairwise (h : WellFormed source node) :
    node.children.Pairwise (·.stop ≤ ·.start) := by
  have hchain := h.placed.behind
  have horder : ∀ child ∈ node.children, child.start ≤ child.stop :=
    fun child hchild => (h.child hchild).1.placed.order
  generalize node.children = children at hchain horder
  induction hchain with
  | nil => exact .nil
  | singleton => exact List.pairwise_singleton ..
  | @cons_cons c d rest hcd _ ih =>
    obtain ⟨_, hrest⟩ := List.forall_mem_cons.1 horder
    have hpairs := ih hrest
    refine .cons ?_ hpairs
    intro e he
    obtain rfl | he := List.mem_cons.1 he
    · exact hcd
    · calc
        c.stop ≤ d.start := hcd
        _ ≤ d.stop := hrest d List.mem_cons_self
        _ ≤ e.start := List.rel_of_pairwise_cons hpairs he

end WellFormed

theorem sites_covered {source : Bytes} {inside : Bool} {node : Node} (h : WellFormed source node) :
    ∀ site ∈ node.sites source inside, node.Covers source site := by
  induction inside, node using walk_induction with
  | declaration inside node hdeclaration =>
    rw [sites_of_isDeclaration hdeclaration]
    split_ifs
    · simp
    · intro site hsite
      obtain ⟨literal, hliteral, rfl⟩ : ∃ literal, node.child? .source = some literal ∧
          literal.literalSite = site := by simpa using hsite
      obtain ⟨hwf, hbounds⟩ := h.child? hliteral
      exact (hwf.covers_self rfl rfl).mono hbounds
  | dynamicImport inside call himport ih =>
    cases hargument : call.argument? with
    | none =>
      rw [sites_of_no_argument himport hargument, List.forall_mem_singleton]
      exact h.covers_self rfl rfl
    | some argument =>
      obtain ⟨hwf, hbounds⟩ := h.argument? hargument
      rw [sites_of_argument himport hargument]
      split_ifs
      · rw [List.forall_mem_singleton]
        exact (hwf.covers_self rfl rfl).mono hbounds
      · intro site hsite
        exact (ih argument hargument hwf site hsite).mono hbounds
  | other inside node hdeclaration himport ih =>
    rw [sites_of_other hdeclaration himport]
    split_ifs
    · rw [List.forall_mem_singleton]
      exact h.covers_self rfl rfl
    · intro site hsite
      obtain ⟨child, hchild, hsite⟩ := List.mem_flatMap.1 hsite
      obtain ⟨hwf, hbounds⟩ := h.child hchild
      exact (ih child hchild hwf site hsite).mono hbounds

theorem sites_pairwise {source : Bytes} {inside : Bool} {node : Node} (h : WellFormed source node) :
    (node.sites source inside).Pairwise (·.stop ≤ ·.start) := by
  induction inside, node using walk_induction with
  | declaration inside node hdeclaration =>
    rw [sites_of_isDeclaration hdeclaration]
    split_ifs
    · exact .nil
    · cases node.child? .source with
      | none => exact .nil
      | some literal => exact List.pairwise_singleton ..
  | dynamicImport inside call himport ih =>
    cases hargument : call.argument? with
    | none =>
      rw [sites_of_no_argument himport hargument]
      exact List.pairwise_singleton ..
    | some argument =>
      rw [sites_of_argument himport hargument]
      split_ifs
      · exact List.pairwise_singleton ..
      · exact ih argument hargument (h.argument? hargument).1
  | other inside node hdeclaration himport ih =>
    rw [sites_of_other hdeclaration himport]
    split_ifs
    · exact List.pairwise_singleton ..
    · refine List.pairwise_flatMap.2 ⟨fun child hchild => ih child hchild (h.child hchild).1, ?_⟩
      -- the sites of two children lie within them, and the children lie one behind the other
      refine h.children_pairwise.imp_of_mem ?_
      intro c d hc hd hcd a ha b hb
      calc
        a.stop ≤ c.stop := (sites_covered (h.child hc).1 a ha).stop
        _ ≤ d.start := hcd
        _ ≤ b.start := (sites_covered (h.child hd).1 b hb).start

theorem exists_literalAt_of_literal {source : Bytes} {inside : Bool} {node : Node}
    {start stop : Nat} (h : .literal start stop ∈ node.sites source inside) :
    ∃ p literal, LiteralAt source inside node p literal ∧ literal.start = start ∧
      literal.stop = stop := by
  induction inside, node using walk_induction with
  | declaration inside node hdeclaration =>
    rw [sites_of_isDeclaration hdeclaration] at h
    split_ifs at h with htype
    · cases h
    · obtain ⟨literal, hliteral, hsite⟩ : ∃ literal, node.child? .source = some literal ∧
          literal.literalSite = .literal start stop := by simpa using h
      obtain ⟨i, hfield⟩ := child?_eq_some_iff.1 hliteral
      cases hsite
      exact ⟨[i], literal, (literalAt_of_isDeclaration hdeclaration).2
        ⟨by simpa using htype, i, hfield, rfl⟩, rfl, rfl⟩
  | dynamicImport inside call himport ih =>
    cases hargument : call.argument? with
    | none =>
      rw [sites_of_no_argument himport hargument] at h
      cases List.mem_singleton.1 h
    | some argument =>
      obtain ⟨i, j, hat⟩ := argument?_eq_some_iff.1 hargument
      rw [sites_of_argument himport hargument] at h
      split_ifs at h with hkind
      · cases List.mem_singleton.1 h
        exact ⟨[i, j], argument, (literalAt_of_string_argument himport hat hkind).2 ⟨rfl, rfl⟩,
          rfl, rfl⟩
      · obtain ⟨p, literal, hliteral, hrange⟩ := ih argument hargument h
        exact ⟨_, literal, (literalAt_of_argument himport hat hkind).2 ⟨p, hliteral, rfl⟩, hrange⟩
  | other inside node hdeclaration himport ih =>
    rw [sites_of_other hdeclaration himport] at h
    split_ifs at h with hstring
    · obtain ⟨rfl, hkind⟩ := hstring
      cases List.mem_singleton.1 h
      exact ⟨[], node, (literalAt_of_string hkind).2 ⟨rfl, rfl⟩, rfl, rfl⟩
    · obtain ⟨child, hchild, h⟩ := List.mem_flatMap.1 h
      obtain ⟨i, hi⟩ := List.getElem?_of_mem hchild
      obtain ⟨p, literal, hliteral, hrange⟩ := ih child hchild h
      exact ⟨_, literal, (literalAt_of_other hdeclaration himport hstring).2
        ⟨i, child, p, hi, hliteral, rfl⟩, hrange⟩

theorem exists_reached_of_badImport {source : Bytes} {inside : Bool} {node : Node}
    {start stop : Nat} (h : .badImport start stop ∈ node.sites source inside) :
    ∃ p flag call, Reached inside node p flag call ∧ call.IsDynamicImport ∧
      ¬∃ i j argument, call.ArgumentAt i j argument := by
  induction inside, node using walk_induction with
  | declaration inside node hdeclaration =>
    rw [sites_of_isDeclaration hdeclaration] at h
    split_ifs at h
    · cases h
    · simp [literalSite] at h
  | dynamicImport inside call himport ih =>
    cases hargument : call.argument? with
    | none =>
      refine ⟨[], inside, call, .root, himport, ?_⟩
      rintro ⟨i, j, argument, hat⟩
      cases hargument.symm.trans (argument?_eq_some_iff.2 ⟨i, j, hat⟩)
    | some argument =>
      rw [sites_of_argument himport hargument] at h
      split_ifs at h with hkind
      · cases List.mem_singleton.1 h
      · obtain ⟨i, j, hat⟩ := argument?_eq_some_iff.1 hargument
        obtain ⟨p, flag, bad, hreached, hbad⟩ := ih argument hargument h
        exact ⟨_, flag, bad, .of_step (.argument himport hat hkind) hreached, hbad⟩
  | other inside node hdeclaration himport ih =>
    rw [sites_of_other hdeclaration himport] at h
    split_ifs at h with hstring
    · cases List.mem_singleton.1 h
    · obtain ⟨child, hchild, h⟩ := List.mem_flatMap.1 h
      obtain ⟨i, hi⟩ := List.getElem?_of_mem hchild
      obtain ⟨p, flag, bad, hreached, hbad⟩ := ih child hchild h
      exact ⟨_, flag, bad, .of_step (.child hdeclaration himport hstring hi) hreached, hbad⟩

end Relink.Node

namespace Relink.Source

open Node Utf8

theorem literals_of_spelled {source : Bytes} (file : Text) {sites : List Site}
    (spelled : ∀ site ∈ sites, ∃ raw : Chars, slice source site.start site.stop = raw.utf8) :
    ((literals source file sites).1.map fun entry => Site.literal entry.1 entry.2.1) <+: sites ∧
    (∀ entry ∈ (literals source file sites).1, slice source entry.1 entry.2.1 = entry.2.2.utf8) ∧
    ((literals source file sites).2 = none ∨ ∃ start stop line column snippet,
      .badImport start stop ∈ sites ∧
        (literals source file sites).2 = some (.badImport file line column snippet)) := by
  induction sites with
  | nil => simp [literals]
  | cons site sites ih =>
    obtain ⟨⟨raw, hraw⟩, hrest⟩ := List.forall_mem_cons.1 spelled
    obtain ⟨hfront, htexts, hfault⟩ := ih hrest
    cases site with
    | literal start stop =>
      have hdecode : decode (slice source start stop) = .ok raw := by
        rw [← decode_utf8, ← hraw]
        rfl
      simp only [literals, hdecode]
      refine ⟨?_, List.forall_mem_cons.2 ⟨hraw, htexts⟩, ?_⟩
      · rw [List.map_cons, List.prefix_cons_inj]
        exact hfront
      · obtain hfault | ⟨start, stop, line, column, snippet, hmem, hfault⟩ := hfault
        · exact Or.inl hfault
        · exact Or.inr ⟨start, stop, line, column, snippet, List.mem_cons_of_mem _ hmem, hfault⟩
    | badImport start stop =>
      simp only [literals]
      refine ⟨List.nil_prefix, by simp, Or.inr ⟨start, stop, _, _, _, List.mem_cons_self, rfl⟩⟩

section Rewriting

variable (setting : Setting) (context : FileContext) {text : Chars} {root : Node}

theorem rewrite_nil : Specifier.rewrite setting context [] = [] := rfl

theorem exists_literal_of_edit {source : Bytes} {edit : Edit}
    (h : edit ∈ (rewriteTree setting context source root).edits) :
    ∃ entry ∈ (literals source context.file (root.sites source false)).1,
      Specifier.rewrite setting context (entry.2.2.map .char) ≠ entry.2.2.map .char ∧
        edit = ⟨entry.1, entry.2.1, Specifier.rewrite setting context (entry.2.2.map .char)⟩ := by
  rw [← walk_root]
  obtain ⟨entry, hentry, hedit⟩ := List.mem_filterMap.1 h
  refine ⟨entry, hentry, ?_⟩
  dsimp only at hedit
  split_ifs at hedit with hsame
  exact ⟨hsame, (Option.some.inj hedit).symm⟩

theorem spelled_of_wellFormed (h : root.WellFormed text.utf8) :
    ∀ site ∈ root.sites text.utf8 false,
      ∃ raw : Chars, slice text.utf8 site.start site.stop = raw.utf8 := by
  intro site hsite
  have covers := sites_covered h site hsite
  exact covers.startBoundary.slice covers.stopBoundary covers.order

theorem edit_range (h : root.WellFormed text.utf8) {edit : Edit}
    (hedit : edit ∈ (rewriteTree setting context text.utf8 root).edits) :
    ∃ start stop : Nat, edit.start = start ∧ edit.stop = stop ∧ start < stop ∧
      IsBoundary text.utf8 start ∧ IsBoundary text.utf8 stop ∧
        edit.text.utf8? ≠ .ok (slice text.utf8 start stop) := by
  obtain ⟨⟨start, stop, raw⟩, hentry, hchange, rfl⟩ := exists_literal_of_edit setting context hedit
  obtain ⟨hfront, htexts, -⟩ := literals_of_spelled context.file (spelled_of_wellFormed h)
  have covers := sites_covered h (.literal start stop) (hfront.subset (List.mem_map_of_mem hentry))
  have htext : slice text.utf8 start stop = raw.utf8 := htexts _ hentry
  refine ⟨start, stop, rfl, rfl, ?_, covers.startBoundary, covers.stopBoundary, ?_⟩
  · -- an empty literal is bare, so it is not changed
    refine Nat.lt_of_le_of_ne covers.order ?_
    rintro (rfl : start = stop)
    have hempty : raw.utf8 = [] := by rw [← htext, slice, Nat.sub_self, List.take_zero]
    rw [utf8_eq_nil.1 hempty] at hchange
    exact hchange (rewrite_nil setting context)
  · rw [htext]
    intro heq
    obtain ⟨chars, hchars, hutf8⟩ := Text.utf8?_eq_ok_iff.1 heq
    exact hchange (hchars.trans (congrArg _ (utf8_injective hutf8)))

theorem edits_inOrder (h : root.WellFormed text.utf8) :
    Edit.InOrder text.utf8.length 0 (rewriteTree setting context text.utf8 root).edits where
  inside edit hedit := by
    obtain ⟨start, stop, hstart, hstop, hlt, -, hboundary, -⟩ := edit_range setting context h hedit
    have := hboundary.le_length
    omega
  behind := by
    obtain ⟨hfront, -, -⟩ := literals_of_spelled context.file (spelled_of_wellFormed h)
    have hsites := (sites_pairwise h).sublist hfront.sublist
    rw [List.pairwise_map, ← walk_root] at hsites
    refine List.pairwise_filterMap.2 (hsites.imp ?_)
    intro a b hab edit hedit next hnext
    dsimp only at hedit hnext
    split_ifs at hedit hnext
    obtain rfl := Option.some.inj hedit
    obtain rfl := Option.some.inj hnext
    exact Int.ofNat_le.2 hab

theorem applyAll_edits_cases (h : root.WellFormed text.utf8) :
    (∃ result : Chars,
      Edit.applyAll text.utf8 (rewriteTree setting context text.utf8 root).edits = .ok result ∧
      Edit.Replaces 0 text.utf8 (rewriteTree setting context text.utf8 root).edits result.utf8) ∨
    ∃ unencodable,
      Edit.FirstUnencodable (rewriteTree setting context text.utf8 root).edits unencodable ∧
      Edit.applyAll text.utf8 (rewriteTree setting context text.utf8 root).edits =
        .error (.unencodable unencodable) := by
  refine (edits_inOrder setting context h).applyAll_cases ?_
  intro edit hedit
  obtain ⟨start, stop, hstart, hstop, -, hs, he, -⟩ := edit_range setting context h hedit
  rw [Edit.Aligned, hstart, hstop]
  exact ⟨hs, he⟩

end Rewriting

/-- The rewriting of a well-formed tree, spliced into its source. It fails at a dynamic import that
the walk comes to and that has no single argument, and at the first edit whose text has no encoding.
The ranges of the edits are not empty and stand one behind the other, each edit changes what it
replaces, and nothing but the ranges changes. -/
theorem rewriteTree_splices (setting : Setting) (context : FileContext) (text : Chars) (root : Node)
    (h : root.WellFormed text.utf8) :
    (∃ p inside call line column snippet, Reached false root p inside call ∧
      call.IsDynamicImport ∧ (¬∃ i j argument, call.ArgumentAt i j argument) ∧
      (rewriteTree setting context text.utf8 root).fault =
        some (.badImport context.file line column snippet)) ∨
    ((rewriteTree setting context text.utf8 root).fault = none ∧
      (rewriteTree setting context text.utf8 root).edits.Pairwise
        (fun a b => a.start < b.start ∧ a.stop ≤ b.start) ∧
      (∀ edit ∈ (rewriteTree setting context text.utf8 root).edits, edit.start < edit.stop ∧
        edit.text.utf8? ≠ .ok (Edit.slice text.utf8 edit.start edit.stop)) ∧
      (((∀ edit ∈ (rewriteTree setting context text.utf8 root).edits, edit.text.IsEncodable) ∧
        ∃ result : Chars,
          Edit.applyAll text.utf8 (rewriteTree setting context text.utf8 root).edits = .ok result ∧
          Edit.Replaces 0 text.utf8 (rewriteTree setting context text.utf8 root).edits
            result.utf8) ∨
      ∃ unencodable,
        Edit.FirstUnencodable (rewriteTree setting context text.utf8 root).edits unencodable ∧
        Edit.applyAll text.utf8 (rewriteTree setting context text.utf8 root).edits =
          .error (.unencodable unencodable))) := by
  obtain ⟨-, -, hfault⟩ := literals_of_spelled context.file (spelled_of_wellFormed h)
  obtain hfault | ⟨start, stop, line, column, snippet, hmem, hfault⟩ := hfault
  · right
    refine ⟨by rwa [rewriteTree, walk_root], ?_, ?_, ?_⟩
    · refine (edits_inOrder setting context h).behind.imp_of_mem ?_
      intro a b ha _ hab
      obtain ⟨start, stop, hstart, hstop, hlt, -⟩ := edit_range setting context h ha
      omega
    · intro edit hedit
      obtain ⟨start, stop, hstart, hstop, hlt, hs, he, hne⟩ := edit_range setting context h hedit
      rw [hstart, hstop, Edit.slice_natCast hs.le_length he.le_length]
      exact ⟨Int.ofNat_lt.2 hlt, hne⟩
    · obtain ⟨result, hresult, replaces⟩ | hstop := applyAll_edits_cases setting context h
      · exact .inl ⟨replaces.isEncodable, result, hresult, replaces⟩
      · exact .inr hstop
  · left
    obtain ⟨p, inside, call, hreached, himport, hbad⟩ := exists_reached_of_badImport hmem
    exact ⟨p, inside, call, line, column, snippet, hreached, himport,
      hbad, by rwa [rewriteTree, walk_root]⟩

theorem wellFormed_of_ranges {text : Chars} {root : Node}
    (single : ∀ n ≤ text.utf8.length, (Chars.utf8 (text.take n)).length = n)
    (ranges : ∀ node ∈ root.preorder, node.start ≤ node.stop ∧ node.stop ≤ text.utf8.length ∧
      (∀ child ∈ node.children, node.start ≤ child.start ∧ child.stop ≤ node.stop) ∧
        node.children.IsChain (·.stop ≤ ·.start)) : root.WellFormed text.utf8 := by
  have boundary {n : Nat} (h : n ≤ text.utf8.length) : IsBoundary text.utf8 n := by
    refine ⟨text.take n, text.drop n, ?_, (single n h).symm⟩
    rw [← utf8_append, List.take_append_drop]
  intro node hnode
  obtain ⟨order, size, bounds, behind⟩ := ranges node hnode
  exact ⟨order, size, boundary (Nat.le_trans order size), boundary size, bounds, behind⟩

theorem nestedTree_wellFormed : nestedTree.WellFormed nestedChars.utf8 := by
  apply wellFormed_of_ranges
  · decide
  · simp only [nestedTree, preorder_eq, List.flatMap_cons, List.flatMap_nil, List.append_nil,
      List.cons_append, List.nil_append]
    decide

theorem rewriteTree_splices_nested :
    nestedTree.WellFormed nestedChars.utf8 ∧
    ((∃ p inside call line column snippet, Reached false nestedTree p inside call ∧
      call.IsDynamicImport ∧ (¬∃ i j argument, call.ArgumentAt i j argument) ∧
      (rewriteTree bareSetting bareContext nestedChars.utf8 nestedTree).fault =
        some (.badImport bareContext.file line column snippet)) ∨
    ((rewriteTree bareSetting bareContext nestedChars.utf8 nestedTree).fault = none ∧
      (rewriteTree bareSetting bareContext nestedChars.utf8 nestedTree).edits.Pairwise
        (fun a b => a.start < b.start ∧ a.stop ≤ b.start) ∧
      (∀ edit ∈ (rewriteTree bareSetting bareContext nestedChars.utf8 nestedTree).edits,
        edit.start < edit.stop ∧
          edit.text.utf8? ≠ .ok (Edit.slice nestedChars.utf8 edit.start edit.stop)) ∧
      (((∀ edit ∈ (rewriteTree bareSetting bareContext nestedChars.utf8 nestedTree).edits,
          edit.text.IsEncodable) ∧
        ∃ result : Chars,
          Edit.applyAll nestedChars.utf8
            (rewriteTree bareSetting bareContext nestedChars.utf8 nestedTree).edits = .ok result ∧
          Edit.Replaces 0 nestedChars.utf8
            (rewriteTree bareSetting bareContext nestedChars.utf8 nestedTree).edits result.utf8) ∨
      ∃ unencodable,
        Edit.FirstUnencodable
          (rewriteTree bareSetting bareContext nestedChars.utf8 nestedTree).edits unencodable ∧
        Edit.applyAll nestedChars.utf8
          (rewriteTree bareSetting bareContext nestedChars.utf8 nestedTree).edits =
            .error (.unencodable unencodable)))) :=
  ⟨nestedTree_wellFormed,
    rewriteTree_splices bareSetting bareContext nestedChars nestedTree nestedTree_wellFormed⟩

def importTree (size : Nat) : Node :=
  ⟨.other "program", true, none, 0, size,
    [⟨.importStatement, true, none, 0, 20,
      [⟨.importWord, false, none, 0, 6, []⟩, ⟨.string, true, some .source, 14, 19, []⟩]⟩]⟩

theorem importTree_wellFormed {words : Chars}
    (single : ∀ n ≤ 20, (Chars.utf8 (words.take n)).length = n) (rest : Chars) :
    (importTree (words ++ rest).utf8.length).WellFormed (words ++ rest).utf8 := by
  have boundary {n : Nat} (h : n ≤ 20) : IsBoundary (words ++ rest).utf8 n := by
    refine ⟨words.take n, words.drop n ++ rest, ?_, (single n h).symm⟩
    rw [← utf8_append, ← List.append_assoc, List.take_append_drop]
  have size : 20 ≤ (words ++ rest).utf8.length := (boundary (Nat.le_refl 20)).le_length
  intro node hnode
  simp only [importTree, preorder_eq, List.flatMap_cons, List.flatMap_nil, List.append_nil,
    List.cons_append, List.nil_append, List.mem_cons, List.not_mem_nil, or_false] at hnode
  obtain rfl | rfl | rfl | rfl := hnode
  · exact ⟨Nat.zero_le _, Nat.le_refl _, boundary (Nat.zero_le _),
      ⟨words ++ rest, [], by simp, rfl⟩, by simpa using size, .singleton _⟩
  · exact ⟨Nat.zero_le _, size, boundary (Nat.zero_le _),
      boundary (Nat.le_refl _), by simp, by simp⟩
  · exact ⟨Nat.zero_le _, Nat.le_trans (by decide) size, boundary (Nat.zero_le _),
      boundary (by decide), by simp, .nil⟩
  · exact ⟨by decide, Nat.le_trans (by decide) size, boundary (by decide), boundary (by decide),
      by simp, .nil⟩

def aliasedChars : Chars := "import a from '@xy';"

def halvedContext : FileContext := ⟨"/p/x.ts", "/p", ⟨[⟨"@xy", [.char '/', .ofNat 0xd800]⟩]⟩, .js⟩

/-- The text of the one edit cannot be written, so a well-formed tree is rewritten and not
spliced. -/
theorem applyAll_edits_halved :
    (importTree 20).WellFormed aliasedChars.utf8 ∧
    (rewriteTree bareSetting halvedContext aliasedChars.utf8 (importTree 20)).fault = none ∧
    Edit.applyAll aliasedChars.utf8
      (rewriteTree bareSetting halvedContext aliasedChars.utf8 (importTree 20)).edits =
        .error (.unencodable ⟨.ofNat 0xd800, 4, 1⟩) := by
  have single : ∀ n ≤ 20, (Chars.utf8 (aliasedChars.take n)).length = n := by decide
  refine ⟨importTree_wellFormed single [], ?_, ?_⟩ <;> decide +kernel

end Relink.Source

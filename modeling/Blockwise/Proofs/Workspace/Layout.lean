import Blockwise.Proofs.Program.Ancestry
import Blockwise.Proofs.Workspace.Matching

/-!
# Indentation and the tree

In a sequence that can be read as a program, a block is indented as deep as its
node has ancestors. `outline` takes from a sequence the blocks that become nodes,
each with its indentation, and this list is the list of the nodes with their
ancestors, as far as their number goes (`Node.WellFormed.isOutlined`). A closer
becomes no node; it is indented like its opener.
-/

namespace Blockwise

/-- The blocks of a sequence that are no closers, as reading takes notice of them,
each with its indentation. -/
def outline (depth : Nat) : List Block → List (Nat × Instruction)
  | [] => []
  | block :: rest =>
    if block.role = .closer then outline (depthAfter depth block) rest
    else (drawnDepth depth block, block.essential) :: outline (depthAfter depth block) rest

@[simp] theorem outline_nil (depth : Nat) : outline depth [] = [] := rfl

theorem outline_closer {block : Block} (h : block.role = .closer) (depth : Nat)
    (rest : List Block) : outline depth (block :: rest) = outline (depthAfter depth block) rest :=
  if_pos h

theorem outline_of_ne_closer {block : Block} (h : block.role ≠ .closer) (depth : Nat)
    (rest : List Block) :
    outline depth (block :: rest) =
      (drawnDepth depth block, block.essential) :: outline (depthAfter depth block) rest :=
  if_neg h

theorem outline_append (depth : Nat) (p q : List Block) :
    outline depth (p ++ q) = outline depth p ++ outline (depthBehind depth p) q := by
  induction p generalizing depth with
  | nil => rfl
  | cons block p ih =>
    by_cases h : block.role = .closer
    · rw [List.cons_append, outline_closer h, outline_closer h, ih, depthBehind_cons]
    · rw [List.cons_append, outline_of_ne_closer h, outline_of_ne_closer h, ih, depthBehind_cons,
        List.cons_append]

theorem length_outline (depth : Nat) (blocks : List Block) :
    (outline depth blocks).length = blocks.countP fun block => block.role ≠ .closer := by
  induction blocks generalizing depth with
  | nil => rfl
  | cons block rest ih =>
    by_cases h : block.role = .closer
    · rw [outline_closer h, ih, List.countP_cons_of_neg (by simpa using h)]
    · rw [outline_of_ne_closer h, List.length_cons, ih, List.countP_cons_of_pos (by simpa using h)]

/-- A block that is no closer stands in the outline behind those before it. -/
theorem getElem?_outline {block : Block} (h : block.role ≠ .closer) (depth : Nat)
    (before after : List Block) :
    (outline depth (before ++ block :: after))[before.countP fun b => b.role ≠ .closer]? =
      some (drawnDepth (depthBehind depth before) block, block.essential) := by
  rw [outline_append, ← length_outline depth before, List.getElem?_append_right (Nat.le_refl _),
    Nat.sub_self, outline_of_ne_closer h, List.getElem?_cons_zero]

/-! ## The outline of a program -/

theorem Program.WellFormed.balanced {program : Program} (h : program.WellFormed)
    {blocks : List Block} (hblocks : Says blocks program.flatten) : Balanced (roles blocks) :=
  (nests_iff_balanced _).1 ⟨program, h.ofBlocks_eq hblocks⟩

theorem Node.WellFormed.balanced {node : Node} (h : node.WellFormed) {blocks : List Block}
    (hblocks : Says blocks node.flatten) : Balanced (roles blocks) := by
  refine Program.WellFormed.balanced ((Program.wellFormed_cons node []).2
    ⟨h, Program.wellFormed_nil⟩) ?_
  rwa [Program.flatten_cons, Program.flatten_nil, List.append_nil]

/-- What an outline shows of a node with its ancestors. -/
def outlineEntry (lineage : List Node × Node) : Nat × Instruction :=
  (lineage.1.length, lineage.2.instruction)

/-- In every sequence of a node, its nodes are indented as deep as they have
ancestors, whatever stands around the sequence. -/
def Node.IsOutlined (node : Node) : Prop :=
  ∀ blocks, Says blocks node.flatten → ∀ ancestors : List Node,
    outline ancestors.length blocks = (node.lineages ancestors).map outlineEntry

theorem Program.outline_of_isOutlined {program : Program} (hprogram : program.WellFormed)
    (h : ∀ node ∈ program, node.IsOutlined) {blocks : List Block}
    (hblocks : Says blocks program.flatten) (ancestors : List Node) :
    outline ancestors.length blocks = (program.lineages ancestors).map outlineEntry := by
  induction program generalizing blocks with
  | nil =>
    rw [flatten_nil, says_nil_iff] at hblocks
    rw [hblocks, outline_nil, lineages_nil, List.map_nil]
  | cons node rest ih =>
    obtain ⟨hnode, hrest⟩ := (wellFormed_cons ..).1 hprogram
    rw [flatten_cons, says_append_iff] at hblocks
    obtain ⟨b, c, rfl, hb, hc⟩ := hblocks
    rw [outline_append, depthBehind_of_balanced (hnode.balanced hb),
      h node List.mem_cons_self b hb, ih hrest (fun n hn => h n (List.mem_cons_of_mem _ hn)) hc,
      lineages_cons, List.map_append]

theorem Node.WellFormed.isOutlined {node : Node} (h : node.WellFormed) : node.IsOutlined := by
  induction h with
  | @scope instruction children isOpener hchildren ih =>
    intro blocks hblocks ancestors
    obtain ⟨opener, inside, closer, rfl, rfl, hinside, hcloser⟩ :=
      exists_of_says_scope isOpener hblocks
    have hne : opener.role ≠ .closer := by
      rw [isOpener]
      decide
    -- The body lies one deeper, and its nodes have one more ancestor.
    have hbody := Program.outline_of_isOutlined hchildren ih hinside
      (⟨opener.toInstruction, children⟩ :: ancestors)
    rw [List.cons_append, outline_of_ne_closer hne, drawnDepth_of_ne_closer hne,
      depthAfter_opener isOpener, outline_append, outline_closer hcloser, outline_nil,
      List.append_nil, ← List.length_cons, hbody, Node.lineages_eq, List.map_cons,
      Instruction.essential_of_opener isOpener]
    rfl
  | @statement tag not_opener not_closer =>
    intro blocks hblocks ancestors
    obtain ⟨block, rfl, rfl⟩ := exists_of_says_leaf not_opener hblocks
    rw [outline_of_ne_closer not_closer, drawnDepth_of_ne_closer not_closer, outline_nil,
      Instruction.essential_of_not_opener not_opener, Node.lineages_eq, Program.lineages_nil]
    rfl

theorem outline_of_ofBlocks {blocks : List Block} {program : Program}
    (h : Program.ofBlocks blocks = .ok program) :
    outline 0 blocks = (program.lineages []).map outlineEntry := by
  obtain ⟨hprogram, hsays⟩ := (Program.ofBlocks_eq_ok_iff ..).1 h
  exact Program.outline_of_isOutlined hprogram
    (fun node hnode => (hprogram node hnode).isOutlined) hsays []

/-- In a sequence that is read as a program, a block that is no closer becomes the
node that stands behind those of the blocks before it, and is indented as deep as
that node has ancestors. -/
theorem exists_lineage_of_ofBlocks {before after : List Block} {block : Block}
    {program : Program} (h : Program.ofBlocks (before ++ block :: after) = .ok program)
    (hblock : block.role ≠ .closer) :
    ∃ ancestors node,
      (program.lineages [])[before.countP fun b => b.role ≠ .closer]? = some (ancestors, node) ∧
      node.instruction = block.essential ∧
      ancestors.length = drawnDepth (depthBehind 0 before) block := by
  have hentry := getElem?_outline hblock 0 before after
  rw [outline_of_ofBlocks h, List.getElem?_map, Option.map_eq_some_iff] at hentry
  obtain ⟨⟨ancestors, node⟩, hlineage, heq⟩ := hentry
  obtain ⟨hlength, hinstruction⟩ := Prod.mk.inj heq
  exact ⟨ancestors, node, hlineage, hinstruction, hlength⟩

/-! ## Closers -/

/-- In a balanced sequence a closer ends the body of an opener, and the body is
balanced. -/
theorem exists_opener_of_closer {before after : List Block} {closer : Block}
    (h : Balanced (roles (before ++ closer :: after))) (hcloser : closer.role = .closer) :
    ∃ outer opener inside, before = outer ++ opener :: inside ∧ opener.role = .opener ∧
      Balanced (roles inside) := by
  have hlevel := (balanced_iff_level? _).1 h
  rw [roles_append, level?_append, Option.bind_eq_some_iff] at hlevel
  obtain ⟨e, hbefore, hlevel⟩ := hlevel
  have hpos : 0 < e := by
    refine Nat.pos_of_ne_zero fun hzero => ?_
    rw [roles_cons, level?_cons, (Role.level?_eq_none_iff ..).2 ⟨hcloser, hzero⟩] at hlevel
    cases hlevel
  obtain ⟨p, q, hroles, hq, -⟩ := exists_of_lt_level? hbefore hpos
  obtain ⟨outer, opener, inside, rfl, -, hopener, rfl⟩ := exists_of_roles_eq hroles
  exact ⟨outer, opener, inside, rfl, hopener, hq⟩

/-- A sequence has at most one opener that a closer matches. -/
theorem eq_of_matchingCloser_eq {blocks : List Block} {i i' j : Nat} {opener opener' : Block}
    (hopener : blocks[i]? = some opener) (hrole : opener.role = .opener)
    (hopener' : blocks[i']? = some opener') (hrole' : opener'.role = .opener)
    (h : matchingCloser blocks i = some j) (h' : matchingCloser blocks i' = some j) : i = i' := by
  obtain ⟨before, after, rfl, rfl⟩ := exists_split_of_getElem? hopener
  obtain ⟨before', after', hblocks, rfl⟩ := exists_split_of_getElem? hopener'
  rw [hblocks] at h'
  obtain ⟨inside, closer, rest, rfl, -, hinside, hj⟩ := matchingCloser_eq_some_iff.1 h
  obtain ⟨inside', closer', rest', rfl, -, hinside', hj'⟩ := matchingCloser_eq_some_iff.1 h'
  -- Both bodies end in front of the same closer.
  refine length_eq_of_balanced_behind hrole hrole' hinside hinside' ?_
  have hsplit : (before ++ opener :: inside) ++ closer :: rest =
      (before' ++ opener' :: inside') ++ closer' :: rest' := by
    simpa using hblocks
  refine (List.append_inj hsplit ?_).1
  rw [List.length_append, List.length_append, List.length_cons, List.length_cons]
  omega

/-- In a balanced sequence whose blocks have different identities, a closer matches
exactly one opener, and is indented like it. -/
theorem exists_opener_of_matchingCloser {blocks : List Block}
    (hids : (blocks.map Block.id).Nodup) (h : Balanced (roles blocks)) {j : Nat}
    {closer : Block} (hblock : blocks[j]? = some closer) (hcloser : closer.role = .closer) :
    ∃ i opener depth, blocks[i]? = some opener ∧ opener.role = .opener ∧
      matchingCloser blocks i = some j ∧
      depthOf? blocks opener.id = some depth ∧ depthOf? blocks closer.id = some depth ∧
      ∀ i' opener', blocks[i']? = some opener' → opener'.role = .opener →
        matchingCloser blocks i' = some j → i' = i := by
  obtain ⟨before, after, rfl, rfl⟩ := exists_split_of_getElem? hblock
  obtain ⟨outer, opener, inside, rfl, hopener, hinside⟩ := exists_opener_of_closer h hcloser
  have hne : opener.role ≠ .closer := by
    rw [hopener]
    decide
  have hfirst : (outer ++ opener :: inside ++ closer :: after)[outer.length]? = some opener := by
    simp
  have hmatch : matchingCloser (outer ++ opener :: inside ++ closer :: after) outer.length =
      some (outer ++ opener :: inside).length := matchingCloser_of_balanced hinside hcloser
  refine ⟨outer.length, opener, depthBehind 0 outer, hfirst, hopener, hmatch,
    depthOf?_first hne hids, depthOf?_closer hopener hinside hcloser hids,
    fun i' opener' hblock' hopener' hmatch' => ?_⟩
  exact eq_of_matchingCloser_eq hblock' hopener' hfirst hopener hmatch' hmatch

/-! ## Three views of one nesting -/

/-- Indentation, matching closers and the tree describe the same nesting. In every
sequence, the closer of an opener is the first block behind which the sequence is
not deeper than in front of the opener. In a sequence that is read as a program, a
block is indented as deep as its node has ancestors, and a closer is indented like
the one opener that it matches. -/
theorem guides_agree_with_nesting :
    (∀ (blocks : List Block) (i : Nat) (opener : Block), blocks[i]? = some opener →
      opener.role = .opener →
      (∀ j, matchingCloser blocks i = some j ↔ IsLeast {j | ComesBack blocks i j} j) ∧
      (matchingCloser blocks i = none ↔ ∀ j, ¬ ComesBack blocks i j)) ∧
    ∀ (blocks : List Block) (program : Program), (blocks.map Block.id).Nodup →
      Program.ofBlocks blocks = .ok program →
      (∀ before block after, blocks = before ++ block :: after → block.role ≠ .closer →
        ∃ ancestors node,
          program.preorder[before.countP fun b => b.role ≠ .closer]? = some node ∧
          (program.lineages [])[before.countP fun b => b.role ≠ .closer]? =
            some (ancestors, node) ∧
          node.instruction = block.essential ∧
          depthOf? blocks block.id = some ancestors.length) ∧
      ∀ j closer, blocks[j]? = some closer → closer.role = .closer →
        ∃ i opener depth, blocks[i]? = some opener ∧ opener.role = .opener ∧
          matchingCloser blocks i = some j ∧
          depthOf? blocks opener.id = some depth ∧ depthOf? blocks closer.id = some depth ∧
          ∀ i' opener', blocks[i']? = some opener' → opener'.role = .opener →
            matchingCloser blocks i' = some j → i' = i := by
  refine ⟨fun _ _ _ => isLeast_matchingCloser_iff, fun blocks program hids hread => ⟨?_, ?_⟩⟩
  · rintro before block after rfl hblock
    obtain ⟨ancestors, node, hlineage, hinstruction, hlength⟩ :=
      exists_lineage_of_ofBlocks hread hblock
    refine ⟨ancestors, node, ?_, hlineage, hinstruction, ?_⟩
    · rw [← Program.map_snd_lineages [], List.getElem?_map, hlineage]
      rfl
    · rw [depthOf?_of_nodup hids, hlength]
  · intro j closer hblock hcloser
    exact exists_opener_of_matchingCloser hids ((nests_iff_balanced _).1 ⟨program, hread⟩) hblock
      hcloser

/-- A sequence that begins with a closer and leaves a body open, and the same
without that closer and with one more at the end. -/
theorem guides_agree_with_nesting_stray_closer :
    let stray : Block := { tag := .known .close, id := "a" }
    let inner : List Block :=
      [{ tag := .known .loop, id := "b" },
        { tag := .known .branch, condition := some (.known .goalReached), id := "c" },
        { tag := .unknown "turn", id := "d" }, { tag := .known .close, id := "e" }]
    let program : Program :=
      [⟨{ tag := .known .loop },
        [⟨{ tag := .known .branch, condition := some (.known .goalReached) },
          [.leaf (.unknown "turn")]⟩]⟩]
    let broken := stray :: inner
    let nesting := inner ++ [stray]
    matchingCloser broken 1 = none ∧ (∀ j, ¬ ComesBack broken 1 j) ∧
      IsLeast {j | ComesBack broken 2 j} 4 ∧
      (nesting.map Block.id).Nodup ∧ Program.ofBlocks nesting = .ok program ∧
      (∃ ancestors node, program.preorder[2]? = some node ∧
        (program.lineages [])[2]? = some (ancestors, node) ∧
        node.instruction = .bare (.unknown "turn") ∧
        depthOf? nesting "d" = some ancestors.length) ∧
      ∃ i opener depth, nesting[i]? = some opener ∧ opener.role = .opener ∧
        matchingCloser nesting i = some 4 ∧
        depthOf? nesting opener.id = some depth ∧ depthOf? nesting "a" = some depth ∧
        ∀ i' opener', nesting[i']? = some opener' → opener'.role = .opener →
          matchingCloser nesting i' = some 4 → i' = i := by
  intro stray inner program broken nesting
  have hids : (nesting.map Block.id).Nodup := by decide
  have hread : Program.ofBlocks nesting = .ok program := rfl
  obtain ⟨hmatching, hguides⟩ := guides_agree_with_nesting
  obtain ⟨hnodes, hclosers⟩ := hguides nesting program hids hread
  have hloop := (hmatching broken 1 { tag := .known .loop, id := "b" } rfl rfl).2
  have hbranch := (hmatching broken 2
    { tag := .known .branch, condition := some (.known .goalReached), id := "c" } rfl rfl).1
  exact ⟨rfl, hloop.1 rfl, (hbranch 4).1 rfl, hids, hread,
    hnodes (inner.take 2) { tag := .unknown "turn", id := "d" }
      [{ tag := .known .close, id := "e" }, stray] rfl (by decide),
    hclosers 4 stray rfl rfl⟩

end Blockwise

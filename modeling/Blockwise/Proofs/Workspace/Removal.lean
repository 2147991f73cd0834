import Blockwise.Proofs.Program.Deletion
import Blockwise.Proofs.Workspace.Landing
import Blockwise.Proofs.Workspace.Layout

/-!
# Removals

In a sequence that is read as a program, what moves along with a block is what its node
is written as (`Node.WellFormed.exists_isSegment`). So the removal of a block deletes
its node from the program, and nothing else (`exists_cut_of_ofBlocks`). What an
insertion has put into a sequence, nesting or not, is one segment, and the removal of
its first block takes it out again.
-/

namespace Blockwise

/-! ## The segment of a node -/

theorem Node.WellFormed.exists_isSegment {node : Node} (h : node.WellFormed)
    {blocks : List Block} (hblocks : Says blocks node.flatten) :
    ∃ block scope, blocks = block :: scope ∧ IsSegment block scope := by
  cases h with
  | scope isOpener children_wellFormed =>
    obtain ⟨opener, inside, closer, rfl, rfl, hinside, hcloser⟩ :=
      exists_of_says_scope isOpener hblocks
    exact ⟨opener, inside ++ [closer], rfl,
      isSegment_scope isOpener (Program.WellFormed.balanced children_wellFormed hinside) hcloser⟩
  | statement not_opener not_closer =>
    obtain ⟨block, rfl, rfl⟩ := exists_of_says_leaf not_opener hblocks
    exact ⟨block, [], rfl, isSegment_nil ((Role.weight_eq_zero_iff _).2 ⟨not_opener, not_closer⟩)⟩

/-- Two places of a list are one, if both hold something of a kind and there is equally
much of it before them. -/
theorem append_cons_inj_of_countP_eq {α : Type} {P : α → Bool} {p p' q q' : List α} {a a' : α}
    (ha : P a) (ha' : P a') (hcount : p.countP P = p'.countP P)
    (h : p ++ a :: q = p' ++ a' :: q') : p = p' ∧ a = a' ∧ q = q' := by
  induction p generalizing p' with
  | nil =>
    cases p' with
    | nil => exact ⟨rfl, List.cons_eq_cons.1 h⟩
    | cons b p' =>
      obtain ⟨rfl, -⟩ := List.cons_eq_cons.1 h
      rw [List.countP_nil, List.countP_cons_of_pos ha] at hcount
      cases hcount
  | cons b p ih =>
    cases p' with
    | nil =>
      obtain ⟨rfl, -⟩ := List.cons_eq_cons.1 h
      rw [List.countP_nil, List.countP_cons_of_pos ha'] at hcount
      cases hcount
    | cons b' p' =>
      obtain ⟨rfl, htail⟩ := List.cons_eq_cons.1 h
      rw [List.countP_cons, List.countP_cons, Nat.add_right_cancel_iff] at hcount
      obtain ⟨rfl, hrest⟩ := ih hcount htail
      exact ⟨rfl, hrest⟩

theorem Says.countP_eq {blocks : List Block} {instructions : List Instruction}
    (h : Says blocks instructions) :
    (instructions.countP fun i => i.role ≠ .closer) =
      blocks.countP fun b => b.role ≠ .closer := by
  rw [← h, List.countP_map]
  refine List.countP_congr fun block _ => ?_
  have : block.essential.role = block.role := (Instruction.role_eq_of_essential_eq rfl).symm
  simp [this]

/-- A block that becomes a node is the first of a segment, which is all that the node is
read from. Without that segment, the sequence is read as the program without the node. -/
theorem exists_cut_of_ofBlocks {before after : List Block} {block : Block} {program : Program}
    (h : Program.ofBlocks (before ++ block :: after) = .ok program)
    (hblock : block.role ≠ .closer) :
    ∃ scope rest node, after = scope ++ rest ∧ IsSegment block scope ∧ node.WellFormed ∧
      program.preorder[before.countP fun b => b.role ≠ .closer]? = some node ∧
      Says (block :: scope) node.flatten ∧
      Program.ofBlocks (before ++ rest) =
        .ok (program.delete (before.countP fun b => b.role ≠ .closer)) := by
  obtain ⟨hprogram, hsays⟩ := (Program.ofBlocks_eq_ok_iff ..).1 h
  have hrank : (before.countP fun b => b.role ≠ .closer) < program.preorder.length := by
    obtain ⟨ancestors, node, hlineage, -, -⟩ := exists_lineage_of_ofBlocks h hblock
    rw [← Program.map_snd_lineages [], List.length_map]
    exact (List.getElem?_eq_some_iff.1 hlineage).1
  obtain ⟨node, p, q, hcut⟩ := hprogram.exists_isCut hrank
  have hnode : node.WellFormed :=
    hprogram.of_mem_preorder node (List.mem_of_getElem? hcut.getElem?_preorder)
  -- The sequence is split where its program is.
  rw [hcut.flatten, says_append_iff] at hsays
  obtain ⟨x, rest, hblocks, hx, hrest⟩ := hsays
  obtain ⟨before', segment, rfl, hbefore, hsegment⟩ := (says_append_iff ..).1 hx
  obtain ⟨block', scope, rfl, hscope⟩ := hnode.exists_isSegment hsegment
  rw [List.append_assoc, List.cons_append] at hblocks
  have hcount : (before.countP fun b => b.role ≠ .closer) =
      before'.countP fun b => b.role ≠ .closer := by
    rw [← hbefore.countP_eq, hcut.rank]
  obtain ⟨rfl, rfl, rfl⟩ := append_cons_inj_of_countP_eq (by simpa using hblock)
    (by simpa using hscope.role_ne_closer) hcount hblocks
  refine ⟨scope, rest, node, rfl, hscope, hnode, hcut.getElem?_preorder, hsegment, ?_⟩
  refine hcut.wellFormed_delete.ofBlocks_eq ?_
  rw [hcut.flatten_delete, says_append_iff]
  exact ⟨before, rest, rfl, hbefore, hrest⟩

/-! ## Removing a node -/

/-- The nodes of a program in pre-order, each as its depth and its instruction. -/
def Program.layout (program : Program) : List (Nat × Instruction) :=
  (program.lineages []).map outlineEntry

theorem layout_of_isSegment {before scope rest : List Block} {block : Block}
    {program program' : Program} (hscope : IsSegment block scope)
    (h : Program.ofBlocks (before ++ block :: (scope ++ rest)) = .ok program)
    (h' : Program.ofBlocks (before ++ rest) = .ok program') :
    let rank := before.countP fun b => b.role ≠ .closer
    let size := (block :: scope).countP fun b => b.role ≠ .closer
    program'.layout = program.layout.take rank ++ program.layout.drop (rank + size) := by
  intro rank size
  have hrank : (outline 0 before).length = rank := length_outline 0 before
  have hsize : (outline (depthBehind 0 before) (block :: scope)).length = size :=
    length_outline _ (block :: scope)
  have hblocks : before ++ block :: (scope ++ rest) = before ++ (block :: scope ++ rest) := rfl
  rw [Program.layout, Program.layout, ← outline_of_ofBlocks h, ← outline_of_ofBlocks h', hblocks,
    outline_append, outline_append, outline_append, depthBehind_of_balanced hscope.balanced,
    ← hrank, ← hsize, List.take_left, ← List.append_assoc, ← List.length_append, List.drop_left]

namespace Workspace

theorem remove_of_notMem {w : Workspace} {id : BlockId} (h : id ∉ w.blockIds) :
    w.remove id = (false, w) := by
  rw [remove, splitAt?_eq_none h]

theorem remove_of_closer {w : Workspace} {before after : List Block} {closer : Block}
    (hblocks : w.blocks = before ++ closer :: after) (hid : closer.id ∉ before.map Block.id)
    (hcloser : closer.role = .closer) : w.remove closer.id = (false, w) := by
  have htag : closer.tag.isCloser = true := beq_iff_eq.2 hcloser
  rw [remove, hblocks, splitAt?_append hid]
  exact if_pos htag

/-- The removal of a block deletes its node from the program, with the body of that node;
every other node keeps its instruction, its depth and its place in the order. A closer,
and what the sequence does not have, is not removed. -/
theorem remove_deletes (w : Workspace) :
    (∀ program before block after, Program.ofBlocks w.blocks = .ok program →
      w.blocks = before ++ block :: after → block.id ∉ before.map Block.id →
      block.role ≠ .closer →
      let rank := before.countP fun b => b.role ≠ .closer
      ∃ w' node, w.remove block.id = (true, w') ∧ w'.ids = w.ids ∧
        program.preorder[rank]? = some node ∧ node.instruction = block.essential ∧
        Program.ofBlocks w'.blocks = .ok (program.delete rank) ∧
        (program.delete rank).layout =
          program.layout.take rank ++ program.layout.drop (rank + node.preorder.length)) ∧
    ∀ id, (id ∉ w.blockIds ∨ ∃ before closer after, w.blocks = before ++ closer :: after ∧
        closer.id = id ∧ id ∉ before.map Block.id ∧ closer.role = .closer) →
      w.remove id = (false, w) := by
  constructor
  · intro program before block after hprogram hblocks hid hblock rank
    rw [hblocks] at hprogram
    obtain ⟨scope, rest, node, rfl, hscope, hwell, hnode, hsays, hread⟩ :=
      exists_cut_of_ofBlocks hprogram hblock
    have hsplit : w.blocks = before ++ block :: scope ++ rest := by
      rw [hblocks, List.append_assoc, List.cons_append]
    refine ⟨⟨before ++ rest, w.ids⟩, node, remove_of_isSegment hid hscope hsplit, rfl, hnode, ?_,
      hread, ?_⟩
    · obtain ⟨others, hflatten⟩ := node.exists_flatten_eq_cons
      rw [hflatten, says_cons_iff] at hsays
      obtain ⟨_, _, heq, hfirst, -⟩ := hsays
      obtain ⟨rfl, -⟩ := List.cons_eq_cons.1 heq
      exact hfirst.symm
    · have := layout_of_isSegment hscope hprogram hread
      rwa [← hsays.countP_eq, hwell.countP_flatten] at this
  · intro id hid
    rcases hid with hid | ⟨before, closer, after, hblocks, rfl, hid, hcloser⟩
    · exact remove_of_notMem hid
    · exact remove_of_closer hblocks hid hcloser

/-- A branch is removed from the body of a loop, although a later statement has the same
identity; the closer that is found first is not removed. -/
theorem remove_deletes_branch_in_loop :
    let loop : Instruction := { tag := .known .loop, loopCount := some 3 }
    let branch : Instruction := { tag := .known .branch, condition := some (.known .goalReached) }
    let turn : Block := { tag := .unknown "turn", id := "d" }
    let w : Workspace :=
      { blocks :=
          [⟨loop, "a"⟩, ⟨branch, "b"⟩, { tag := .known .move, id := "a" },
            { tag := .known .close, id := "c" }, { tag := .known .jump, id := "b" },
            { tag := .known .close, id := "c" }, turn] }
    let w' : Workspace :=
      { blocks :=
          [⟨loop, "a"⟩, { tag := .known .jump, id := "b" }, { tag := .known .close, id := "c" },
            turn] }
    let program : Program :=
      [⟨loop, [⟨branch, [.leaf (.known .move)]⟩, .leaf (.known .jump)]⟩, .leaf turn.tag]
    let program' : Program := [⟨loop, [.leaf (.known .jump)]⟩, .leaf turn.tag]
    Program.ofBlocks w.blocks = .ok program ∧ w.remove "b" = (true, w') ∧
      program.delete 1 = program' ∧ Program.ofBlocks w'.blocks = .ok program' ∧
      program'.layout = program.layout.take 1 ++ program.layout.drop 3 ∧
      w.remove "c" = (false, w) ∧ w.remove "e" = (false, w) := by
  intro loop branch turn w w' program program'
  have hprogram : Program.ofBlocks w.blocks = .ok program := rfl
  obtain ⟨hdelete, hkeep⟩ := remove_deletes w
  obtain ⟨v, node, hremove, -, hnode, -, hread, hlayout⟩ :=
    hdelete program [⟨loop, "a"⟩] ⟨branch, "b"⟩ (w.blocks.drop 2) hprogram rfl (by decide)
      (by decide)
  obtain rfl : w' = v := congrArg Prod.snd hremove
  obtain rfl : ⟨branch, [.leaf (.known .move)]⟩ = node := Option.some.inj hnode
  have hclose := hkeep "c" (.inr ⟨w.blocks.take 3, { tag := .known .close, id := "c" },
    w.blocks.drop 4, rfl, rfl, by decide, rfl⟩)
  exact ⟨hprogram, hremove, rfl, hread, hlayout, hclose, hkeep "e" (.inl (by decide))⟩

/-! ## Removing an insertion -/

/-- What is inserted is a segment that begins with the block that is told. -/
theorem exists_isSegment_number_insertion (ids : IdSupply) {kind : Kind} (hkind : kind ≠ .close) :
    ∃ first scope, ids.number (insertion kind) = first :: scope ∧ first.id = ids.next ∧
      IsSegment first scope := by
  obtain ⟨first, rest, hnumber, hid, hrole, hcloser⟩ := number_insertion ids kind
  refine ⟨first, rest, hnumber, hid, ?_⟩
  by_cases hopener : kind.role = .opener
  · obtain ⟨closer, rfl, hcloses⟩ := hcloser hopener
    have hempty : Balanced (roles []) := balanced_nil
    exact isSegment_scope (hrole.trans hopener) hempty hcloses
  · have hlength : (first :: rest).length = 1 := by
      rw [← hnumber, IdSupply.length_number, length_insertion, if_neg hopener]
    obtain rfl : rest = [] := List.eq_nil_of_length_eq_zero (Nat.succ.inj hlength)
    refine isSegment_nil ((Role.weight_eq_zero_iff _).2 ?_)
    rw [hrole]
    exact ⟨hopener, Kind.role_ne_closer hkind⟩

/-- The removal of what has just been inserted gives back the sequence from before the
insertion, whether or not it nests. The identities that were issued stay issued. -/
theorem remove_insert (w : Workspace) (index : Nat) {kind : Kind} (hkind : kind ≠ .close)
    (hnew : w.ids.next ∉ w.blockIds) :
    let inserted := w.insert index kind
    inserted.2.remove inserted.1 = (true, { w with ids := inserted.2.ids }) ∧
      inserted.2.ids = w.ids.skip (if kind.role = .opener then 2 else 1) := by
  intro inserted
  obtain ⟨first, scope, hnumber, hid, hscope⟩ := exists_isSegment_number_insertion w.ids hkind
  constructor
  · have hblocks : inserted.2.blocks =
        w.blocks.take index ++ first :: scope ++ w.blocks.drop index := by
      rw [← hnumber]
      rfl
    have hfirst : first.id ∉ (w.blocks.take index).map Block.id := by
      rw [hid]
      exact fun hmem => hnew (List.map_subset _ (List.take_subset ..) hmem)
    have hremove : inserted.2.remove first.id =
        (true, { blocks := w.blocks.take index ++ w.blocks.drop index, ids := inserted.2.ids }) :=
      remove_of_isSegment hfirst hscope hblocks
    rwa [List.take_append_drop, hid] at hremove
  · rw [← length_insertion, ← IdSupply.length_number w.ids]
    rfl

/-- A branch is put between a closer that ends nothing and a loop that nothing ends, and
removed again. -/
theorem remove_insert_stray_closer :
    let w : Workspace :=
      { blocks := [{ tag := .known .close, id := "a" }, { tag := .known .loop, id := "b" }]
        ids := ⟨4⟩ }
    let inserted := w.insert 1 .branch
    Kind.branch ≠ .close ∧ w.ids.next ∉ w.blockIds ∧ inserted.1 = "block-5" ∧
      inserted.2.blockIds = ["a", "block-5", "block-6", "b"] ∧
      inserted.2.remove inserted.1 = (true, { w with ids := inserted.2.ids }) ∧
      inserted.2.ids = ⟨6⟩ := by
  intro w inserted
  have hkind : Kind.branch ≠ .close := by decide
  have hnew : w.ids.next ∉ w.blockIds := by decide
  exact ⟨hkind, hnew, by decide, by decide, remove_insert w 1 hkind hnew⟩

end Workspace

end Blockwise

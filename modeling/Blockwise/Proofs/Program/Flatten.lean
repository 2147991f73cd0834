import Blockwise.Proofs.Program.Reading

/-!
# Writing a program as a sequence

`Program.flatten` writes a program as a sequence of instructions: a statement as
itself, and a node with a body as its opener, the body and a closer. The forests
that can be written without loss are the `WellFormed` ones.

Reading and writing are inverse to each other (`ofBlocks_eq_ok_iff`). A sequence
may hold more than a program does, namely conditions and counts of blocks that
have no use for them; `Instruction.essential` leaves them out.
-/

namespace Blockwise

/-- An instruction without what reading forgets: only an opener keeps its
condition and its count. -/
def Instruction.essential (instruction : Instruction) : Instruction :=
  if instruction.role = .opener then instruction else .bare instruction.tag

/-- A node with a body has the tag of an opener. Every other node is a statement,
with neither a body nor a condition or a count. -/
inductive Node.WellFormed : Node → Prop
  | scope {instruction : Instruction} {children : List Node}
      (isOpener : instruction.role = .opener)
      (children_wellFormed : ∀ child ∈ children, child.WellFormed) :
      WellFormed ⟨instruction, children⟩
  | statement {tag : Tag} (not_opener : tag.role ≠ .opener) (not_closer : tag.role ≠ .closer) :
      WellFormed ⟨{ tag, condition := none, loopCount := none }, []⟩

def Program.WellFormed (program : Program) : Prop :=
  ∀ node ∈ program, node.WellFormed

mutual

/-- The sequence of a node: an opener, its body and a closer, or a statement. -/
def Node.flatten : Node → List Instruction
  | ⟨instruction, children⟩ =>
    if instruction.role = .opener then
      instruction :: (Program.flatten children ++ [.bare (.known .close)])
    else [instruction]

def Program.flatten : Program → List Instruction
  | [] => []
  | node :: rest => node.flatten ++ Program.flatten rest

end

theorem Tag.eq_close_of_role_eq_closer {tag : Tag} (h : tag.role = .closer) :
    tag = .known .close := by
  cases tag with
  | unknown text => cases h
  | known kind =>
    cases kind with
    | close => rfl
    | _ => cases h

namespace Instruction

@[simp] theorem essential_tag (instruction : Instruction) :
    instruction.essential.tag = instruction.tag := by
  unfold essential
  split <;> rfl

@[simp] theorem essential_bare (tag : Tag) : (bare tag).essential = bare tag := by
  unfold essential
  split <;> rfl

theorem essential_of_opener {instruction : Instruction} (h : instruction.role = .opener) :
    instruction.essential = instruction :=
  if_pos h

theorem essential_of_not_opener {instruction : Instruction} (h : instruction.role ≠ .opener) :
    instruction.essential = .bare instruction.tag :=
  if_neg h

/-- There is only one tag for closers. -/
theorem essential_of_closer {instruction : Instruction} (h : instruction.role = .closer) :
    instruction.essential = .bare (.known .close) := by
  have hopener : instruction.role ≠ .opener := by
    rw [h]
    decide
  rw [essential_of_not_opener hopener, Tag.eq_close_of_role_eq_closer h]

theorem role_eq_of_essential_eq {a b : Instruction} (h : a.essential = b) :
    a.role = b.role := by
  unfold role
  rw [← h, essential_tag]

end Instruction

namespace Node

theorem flatten_scope {instruction : Instruction} (h : instruction.role = .opener)
    (children : List Node) :
    Node.flatten ⟨instruction, children⟩ =
      instruction :: (Program.flatten children ++ [.bare (.known .close)]) := by
  rw [Node.flatten, if_pos h]

theorem flatten_leaf {tag : Tag} (h : tag.role ≠ .opener) :
    (Node.leaf tag).flatten = [.bare tag] := by
  rw [Node.leaf, Node.flatten]
  exact if_neg h

theorem exists_flatten_eq_cons (node : Node) : ∃ rest, node.flatten = node.instruction :: rest := by
  obtain ⟨instruction, children⟩ := node
  rw [Node.flatten]
  split
  · exact ⟨_, rfl⟩
  · exact ⟨[], rfl⟩

end Node

namespace Program

@[simp] theorem flatten_nil : flatten [] = [] := by
  rw [flatten]

@[simp] theorem flatten_cons (node : Node) (rest : Program) :
    flatten (node :: rest) = node.flatten ++ flatten rest := by
  rw [flatten]

@[simp] theorem flatten_append (p q : Program) :
    flatten (p ++ q) = flatten p ++ flatten q := by
  induction p with
  | nil => simp
  | cons node rest ih => simp [ih]

theorem mem_flatten {program : Program} {instruction : Instruction} :
    instruction ∈ flatten program ↔ ∃ node ∈ program, instruction ∈ node.flatten := by
  induction program with
  | nil => simp
  | cons node rest ih => simp [ih]

theorem wellFormed_nil : WellFormed [] := by
  intro node h
  cases h

theorem wellFormed_cons (node : Node) (rest : Program) :
    WellFormed (node :: rest) ↔ node.WellFormed ∧ WellFormed rest :=
  List.forall_mem_cons

end Program

/-! ## What is written is read -/

/-- The blocks of a sequence say what a list of instructions says, as far as
reading takes notice of it. -/
def Says (blocks : List Block) (instructions : List Instruction) : Prop :=
  blocks.map (fun block => block.essential) = instructions

theorem says_append_iff (blocks : List Block) (p q : List Instruction) :
    Says blocks (p ++ q) ↔ ∃ b c, blocks = b ++ c ∧ Says b p ∧ Says c q :=
  List.map_eq_append_iff

theorem says_cons_iff (blocks : List Block) (instruction : Instruction)
    (rest : List Instruction) :
    Says blocks (instruction :: rest) ↔
      ∃ block c, blocks = block :: c ∧ block.essential = instruction ∧ Says c rest :=
  List.map_eq_cons_iff

theorem says_nil_iff (blocks : List Block) : Says blocks [] ↔ blocks = [] :=
  List.map_eq_nil_iff

/-- A sequence of a node with a body is its opener, a sequence of the body, and a
closer. -/
theorem exists_of_says_scope {instruction : Instruction} {children : List Node}
    (isOpener : instruction.role = .opener) {blocks : List Block}
    (h : Says blocks (Node.flatten ⟨instruction, children⟩)) :
    ∃ opener inside closer, blocks = opener :: inside ++ [closer] ∧
      opener.toInstruction = instruction ∧ Says inside (Program.flatten children) ∧
      closer.role = .closer := by
  rw [Node.flatten_scope isOpener, says_cons_iff] at h
  obtain ⟨opener, others, rfl, hopener, hothers⟩ := h
  obtain ⟨inside, last, rfl, hinside, hlast⟩ := (says_append_iff ..).1 hothers
  obtain ⟨closer, none, rfl, hcloser, hnone⟩ := (says_cons_iff ..).1 hlast
  obtain rfl := (says_nil_iff _).1 hnone
  have hopens : opener.role = .opener := by
    rw [Instruction.role_eq_of_essential_eq hopener, isOpener]
  rw [Instruction.essential_of_opener hopens] at hopener
  exact ⟨opener, inside, closer, rfl, hopener, hinside, Instruction.role_eq_of_essential_eq hcloser⟩

theorem exists_of_says_leaf {tag : Tag} (not_opener : tag.role ≠ .opener) {blocks : List Block}
    (h : Says blocks (Node.leaf tag).flatten) : ∃ block, blocks = [block] ∧ block.tag = tag := by
  rw [Node.flatten_leaf not_opener, says_cons_iff] at h
  obtain ⟨block, none, rfl, hblock, hnone⟩ := h
  obtain rfl := (says_nil_iff _).1 hnone
  refine ⟨block, rfl, ?_⟩
  rw [← block.essential_tag, hblock]
  rfl

/-- Every sequence of a node is read as that node, whatever is open around it and
whatever follows. -/
def Node.IsReadBack (node : Node) : Prop :=
  ∀ blocks, Says blocks node.flatten → ∀ outer body rest,
    Program.read outer body (blocks ++ rest) = Program.read outer (node :: body) rest

/-- If the nodes of a forest are read back, so is the forest. -/
theorem Program.read_of_isReadBack {program : Program}
    (h : ∀ node ∈ program, node.IsReadBack) {blocks : List Block}
    (hblocks : Says blocks program.flatten) (outer : List OpenBody) (body : List Node)
    (rest : List Block) :
    read outer body (blocks ++ rest) = read outer (program.reverse ++ body) rest := by
  induction program generalizing blocks body with
  | nil =>
    rw [flatten_nil, says_nil_iff] at hblocks
    rw [hblocks]
    rfl
  | cons node program ih =>
    rw [flatten_cons, says_append_iff] at hblocks
    obtain ⟨b, c, rfl, hb, hc⟩ := hblocks
    rw [List.append_assoc, h node List.mem_cons_self b hb, ih _ hc, List.reverse_cons,
      List.append_assoc, List.singleton_append]
    exact fun n hn => h n (List.mem_cons_of_mem _ hn)

theorem Node.WellFormed.isReadBack {node : Node} (h : node.WellFormed) :
    node.IsReadBack := by
  induction h with
  | @scope instruction children isOpener _ ih =>
    intro blocks hblocks outer body rest
    obtain ⟨opener, inside, closer, rfl, rfl, hinside, hcloser⟩ :=
      exists_of_says_scope isOpener hblocks
    rw [List.cons_append, List.cons_append, List.append_assoc, Program.read_opener isOpener,
      Program.read_of_isReadBack ih hinside, List.singleton_append,
      Program.read_closer_cons hcloser, List.append_nil, List.reverse_reverse]
  | @statement tag not_opener not_closer =>
    intro blocks hblocks outer body rest
    obtain ⟨block, rfl, rfl⟩ := exists_of_says_leaf not_opener hblocks
    have hleaf : block.role.weight = 0 :=
      (Role.weight_eq_zero_iff _).2 ⟨not_opener, not_closer⟩
    rw [List.singleton_append, Program.read_statement hleaf]
    rfl

theorem Program.WellFormed.ofBlocks_eq {program : Program} (h : program.WellFormed)
    {blocks : List Block} (hblocks : Says blocks program.flatten) :
    Program.ofBlocks blocks = .ok program := by
  have hread := read_of_isReadBack (fun node hnode => (h node hnode).isReadBack) hblocks [] [] []
  rw [List.append_nil, List.append_nil] at hread
  rw [ofBlocks, hread, read, List.reverse_reverse]

/-! ## What is read was written -/

/-- The instructions that were read so far: those in front of each open body, its
opener, and those of the current body. -/
def written : List OpenBody → List Node → List Instruction
  | [], body => Program.flatten body.reverse
  | innermost :: outer, body =>
    written outer innermost.before ++
      innermost.opener.toInstruction :: Program.flatten body.reverse

structure OpenBody.WellFormed (openBody : OpenBody) : Prop where
  isOpener : openBody.opener.role = .opener
  before : Program.WellFormed openBody.before

theorem written_cons_node (outer : List OpenBody) (node : Node) (body : List Node) :
    written outer (node :: body) = written outer body ++ node.flatten := by
  cases outer <;> simp [written]

theorem written_cons_openBody (innermost : OpenBody) (outer : List OpenBody)
    (body : List Node) :
    written (innermost :: outer) body =
      written outer innermost.before ++
        innermost.opener.toInstruction :: Program.flatten body.reverse := rfl

/-- A program that was read is well-formed, and its sequence is what was read
before, followed by what was still to be read. -/
theorem Program.flatten_of_read {outer : List OpenBody} {body : List Node}
    {blocks : List Block} {program : Program} (h : read outer body blocks = .ok program)
    (houter : ∀ openBody ∈ outer, openBody.WellFormed) (hbody : WellFormed body) :
    program.WellFormed ∧
      program.flatten = written outer body ++ blocks.map fun block => block.essential := by
  -- What is written and what is still to be read stay the same sequence throughout.
  induction blocks generalizing outer body with
  | nil =>
    cases outer with
    | cons innermost outer => cases h
    | nil =>
      cases h
      refine ⟨fun node hnode => hbody node (List.mem_reverse.1 hnode), ?_⟩
      rw [List.map_nil, List.append_nil, written]
  | cons block blocks ih =>
    rw [List.map_cons]
    rcases block.role.opener_or_closer_or_weight_eq_zero with hopener | hcloser | hleaf
    · rw [read_opener hopener] at h
      obtain ⟨hprogram, hflatten⟩ := ih h
        (List.forall_mem_cons.2 ⟨⟨hopener, hbody⟩, houter⟩) wellFormed_nil
      refine ⟨hprogram, ?_⟩
      rw [hflatten, written_cons_openBody, Instruction.essential_of_opener hopener]
      simp
    · cases outer with
      | nil => rw [read_closer_nil hcloser] at h; cases h
      | cons innermost outer =>
        rw [read_closer_cons hcloser] at h
        obtain ⟨hinnermost, houter⟩ := List.forall_mem_cons.1 houter
        have hnode : Node.WellFormed ⟨innermost.opener.toInstruction, body.reverse⟩ :=
          .scope hinnermost.isOpener fun node hnode => hbody node (List.mem_reverse.1 hnode)
        obtain ⟨hprogram, hflatten⟩ := ih h houter
          ((wellFormed_cons ..).2 ⟨hnode, hinnermost.before⟩)
        refine ⟨hprogram, ?_⟩
        rw [hflatten, written_cons_node, written_cons_openBody,
          Node.flatten_scope hinnermost.isOpener]
        rw [Instruction.essential_of_closer hcloser]
        simp
    · rw [read_statement hleaf] at h
      obtain ⟨hnotOpener, hnotCloser⟩ := (Role.weight_eq_zero_iff _).1 hleaf
      obtain ⟨hprogram, hflatten⟩ := ih h houter
        ((wellFormed_cons ..).2 ⟨.statement hnotOpener hnotCloser, hbody⟩)
      refine ⟨hprogram, ?_⟩
      rw [hflatten, written_cons_node, Node.flatten_leaf hnotOpener,
        Instruction.essential_of_not_opener hnotOpener]
      simp

/-- Reading and writing are inverse to each other: a sequence is read as a
program exactly when the program is well-formed and its sequence is, as far as
reading takes notice of it, that sequence. -/
theorem Program.ofBlocks_eq_ok_iff (blocks : List Block) (program : Program) :
    ofBlocks blocks = .ok program ↔ program.WellFormed ∧ Says blocks program.flatten := by
  constructor
  · intro h
    obtain ⟨hprogram, hflatten⟩ := flatten_of_read h (List.forall_mem_nil _) wellFormed_nil
    exact ⟨hprogram, hflatten.symm⟩
  · rintro ⟨hprogram, hblocks⟩
    exact hprogram.ofBlocks_eq hblocks

/-- If the sequences of the nodes hold only what reading takes notice of, so does
the sequence of the forest. -/
theorem Program.map_essential_flatten {program : Program}
    (h : ∀ node ∈ program, node.flatten.map Instruction.essential = node.flatten) :
    program.flatten.map Instruction.essential = program.flatten := by
  induction program with
  | nil => rw [flatten_nil, List.map_nil]
  | cons node rest ih =>
    obtain ⟨hnode, hrest⟩ := List.forall_mem_cons.1 h
    rw [flatten_cons, List.map_append, hnode, ih hrest]

theorem Node.WellFormed.map_essential_flatten {node : Node} (h : node.WellFormed) :
    node.flatten.map Instruction.essential = node.flatten := by
  induction h with
  | @scope instruction children isOpener _ ih =>
    rw [Node.flatten_scope isOpener, List.map_cons, List.map_append,
      Program.map_essential_flatten ih, Instruction.essential_of_opener isOpener]
    rfl
  | @statement tag not_opener _ =>
    have hflatten : (Node.leaf tag).flatten = [.bare tag] := Node.flatten_leaf not_opener
    change (Node.leaf tag).flatten.map Instruction.essential = (Node.leaf tag).flatten
    rw [hflatten, List.map_singleton, Instruction.essential_bare]

/-- A sequence that holds the instructions of a well-formed forest, under any
identities, says what the forest says. -/
theorem Program.WellFormed.says_flatten {program : Program} (h : program.WellFormed)
    {blocks : List Block} (hblocks : blocks.map Block.toInstruction = program.flatten) :
    Says blocks program.flatten := by
  rw [← Program.map_essential_flatten fun node hnode => (h node hnode).map_essential_flatten,
    ← hblocks, List.map_map]
  rfl

/-- Tree building and flattening are inverse. The sequence of a well-formed
forest is read as that forest, whatever identities its blocks have. A program
that was read is well-formed, and its sequence is the one it was read from,
block by block, except for the conditions and the counts of blocks that are not
openers. -/
theorem flatten_ofBlocks_inverse :
    (∀ (program : Program) (blocks : List Block), program.WellFormed →
      blocks.map Block.toInstruction = program.flatten →
      Program.ofBlocks blocks = .ok program) ∧
    (∀ (blocks : List Block) (program : Program), Program.ofBlocks blocks = .ok program →
      program.WellFormed ∧
        program.flatten = blocks.map fun block =>
          if block.role = .opener then block.toInstruction else .bare block.tag) := by
  constructor
  · intro program blocks hprogram hblocks
    exact hprogram.ofBlocks_eq (hprogram.says_flatten hblocks)
  · intro blocks program h
    obtain ⟨hprogram, hblocks⟩ := (Program.ofBlocks_eq_ok_iff ..).1 h
    exact ⟨hprogram, hblocks.symm⟩

/-- A branch inside of a loop, before a statement that is not in the catalog. -/
theorem flatten_ofBlocks_inverse_branch_in_loop :
    let program : Program :=
      [⟨{ tag := .known .loop, loopCount := some 2.5 },
        [⟨{ tag := .known .branch, condition := some (.known .goalReached) },
          [.leaf (.known .move)]⟩]⟩,
        .leaf (.unknown "turn")]
    let blocks : List Block :=
      [{ tag := .known .loop, loopCount := some 2.5, id := "a" },
        { tag := .known .branch, condition := some (.known .goalReached), id := "b" },
        { tag := .known .move, id := "a" },
        { tag := .known .close, id := "c" },
        { tag := .known .close, id := "d" },
        { tag := .unknown "turn", id := "e" }]
    program.WellFormed ∧ blocks.map Block.toInstruction = program.flatten ∧
      Program.ofBlocks blocks = .ok program ∧
      program.flatten = blocks.map fun block =>
        if block.role = .opener then block.toInstruction else .bare block.tag := by
  intro program blocks
  have hbranch : Node.WellFormed
      ⟨{ tag := .known .branch, condition := some (.known .goalReached) },
        [.leaf (.known .move)]⟩ :=
    .scope rfl ((Program.wellFormed_cons ..).2
      ⟨.statement (by decide) (by decide), Program.wellFormed_nil⟩)
  have hprogram : program.WellFormed := by
    refine (Program.wellFormed_cons ..).2 ⟨.scope rfl ?_, ?_⟩
    · exact (Program.wellFormed_cons ..).2 ⟨hbranch, Program.wellFormed_nil⟩
    · exact (Program.wellFormed_cons ..).2
        ⟨.statement (by decide) (by decide), Program.wellFormed_nil⟩
  have hblocks : blocks.map Block.toInstruction = program.flatten := rfl
  have hread := flatten_ofBlocks_inverse.1 program blocks hprogram hblocks
  exact ⟨hprogram, hblocks, hread, (flatten_ofBlocks_inverse.2 blocks program hread).2⟩

end Blockwise

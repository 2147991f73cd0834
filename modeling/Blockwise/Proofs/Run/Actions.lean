import Blockwise.Run.Basic

/-!
# The actions of a program

What a program does can be told without a walk: `Node.actions` and
`Program.actions` say which actions a node or a list of nodes performs from a
given state, or which rule it breaks. Only a branch looks at the state, and only
at the place along the ground.

The actions of two lists of nodes, one behind the other, are those of the first
followed by those of the second (`Program.actions_append`). The rounds of a loop
are its body, written out as often as it runs (`repeatActions_eq_actions`). So a
loop acts like a list of nodes (`Node.actions_loop`), and so does a branch whose
condition is met.
-/

namespace Blockwise

/-- The actions of `rounds` rounds of a body, each from the state in which the
one before left the character. -/
def repeatActions (height : Int64)
    (body : Character → Except RunError (List Action)) :
    Nat → Character → Except RunError (List Action)
  | 0, _ => .ok []
  | rounds + 1, c => do
    let first ← body c
    let others ← repeatActions height body rounds (c.after height first)
    .ok (first ++ others)

mutual

/-- The actions that a node performs once the start block has been met. -/
def Node.actions (config : Config) : Node → Character → Except RunError (List Action)
  | ⟨instruction, children⟩, c =>
    match instruction.tag with
    | .known .start => .error .duplicateStart
    | .known .move => .ok [.move]
    | .known .jump => .ok [.jump]
    | .known (.say message) => .ok [.say message]
    | .known .loop =>
      if children.isEmpty then .error .emptyLoop
      else repeatActions config.jumpHeight (Program.actions config children) instruction.count c
    | .known .branch =>
      match instruction.condition with
      | none => .error .conditionUnset
      | some (.known .goalReached) =>
        if c.x < config.goalX then .ok []
        else if children.isEmpty then .ok [.say .arrived]
        else Program.actions config children c
      | some condition => .error (.unknownCondition condition)
    | .known .close => .ok []
    | .known .goalReached => .error (.unsupportedBlock instruction.tag)
    | .unknown _ => .error (.unsupportedBlock instruction.tag)

/-- The actions that a list of nodes performs, one node after the other. -/
def Program.actions (config : Config) : Program → Character → Except RunError (List Action)
  | [], _ => .ok []
  | node :: rest, c => do
    let first ← node.actions config c
    let others ← Program.actions config rest (c.after config.jumpHeight first)
    .ok (first ++ others)

end

namespace Program

@[simp] theorem actions_nil (config : Config) (c : Character) :
    Program.actions config [] c = .ok [] := by
  rw [Program.actions]

theorem actions_cons (config : Config) (node : Node) (rest : Program) (c : Character) :
    Program.actions config (node :: rest) c = (node.actions config c).bind fun first =>
      (Program.actions config rest (c.after config.jumpHeight first)).map (first ++ ·) := by
  rw [Program.actions]
  cases node.actions config c with
  | error e => rfl
  | ok first =>
    change (Program.actions config rest _ >>= _) = Except.map _ _
    cases Program.actions config rest (c.after config.jumpHeight first) <;> rfl

/-- The second part of a program acts from the state in which the first part left
the character; a rule that the first part breaks is the one that is reported. -/
theorem actions_append (config : Config) (p q : Program) (c : Character) :
    Program.actions config (p ++ q) c = (Program.actions config p c).bind fun first =>
      (Program.actions config q (c.after config.jumpHeight first)).map (first ++ ·) := by
  induction p generalizing c with
  | nil =>
    change _ = Except.map _ _
    cases h : Program.actions config q c <;> simp [Except.map, h]
  | cons node rest ih =>
    rw [List.cons_append, actions_cons, actions_cons]
    cases node.actions config c with
    | error e => rfl
    | ok first =>
      simp only [Except.bind, ih]
      cases Program.actions config rest (c.after config.jumpHeight first) with
      | error e => rfl
      | ok others =>
        simp only [Except.map, Character.after_append]
        cases Program.actions config q
          ((c.after config.jumpHeight first).after config.jumpHeight others) <;> simp

end Program

variable {config : Config} {instruction : Instruction} {children : List Node}

/-! ## Bodies -/

/-- A loop runs at least once. -/
theorem Instruction.exists_count_eq_succ (instruction : Instruction) :
    ∃ rounds, instruction.count = rounds + 1 :=
  Nat.exists_eq_succ_of_ne_zero (Nat.pos_iff_ne_zero.1 (LoopCount.normalize_pos _))

theorem mem_of_mem_flatten_replicate {α : Type} {n : Nat} {body : List α} {a : α}
    (h : a ∈ (List.replicate n body).flatten) : a ∈ body := by
  obtain ⟨copy, hcopy, hmem⟩ := List.mem_flatten.1 h
  rwa [List.eq_of_mem_replicate hcopy] at hmem

theorem repeatActions_succ (height : Int64) (body : Character → Except RunError (List Action))
    (rounds : Nat) (c : Character) :
    repeatActions height body (rounds + 1) c = (body c).bind fun first =>
      (repeatActions height body rounds (c.after height first)).map (first ++ ·) := by
  rw [repeatActions]
  cases body c with
  | error e => rfl
  | ok first =>
    change (repeatActions height body rounds _ >>= _) = Except.map _ _
    cases repeatActions height body rounds (c.after height first) <;> rfl

/-- The rounds of a body are the nodes of the body, one copy after the other. -/
theorem repeatActions_eq_actions (config : Config) (body : Program) (rounds : Nat)
    (c : Character) :
    repeatActions config.jumpHeight (Program.actions config body) rounds c =
      Program.actions config (List.replicate rounds body).flatten c := by
  induction rounds generalizing c with
  | zero =>
    rw [List.replicate_zero, List.flatten_nil, Program.actions_nil]
    rfl
  | succ rounds ih =>
    rw [repeatActions_succ, List.replicate_succ, List.flatten_cons, Program.actions_append]
    simp only [ih]

namespace Node

theorem actions_loop_nil (htag : instruction.tag = .known .loop) (c : Character) :
    Node.actions config ⟨instruction, []⟩ c = .error .emptyLoop := by
  rw [Node.actions]
  simp only [htag, List.isEmpty_nil, if_true]

/-- A loop acts as its body does, written out as often as it runs. -/
theorem actions_loop (htag : instruction.tag = .known .loop) (hchildren : children ≠ [])
    (c : Character) :
    Node.actions config ⟨instruction, children⟩ c =
      Program.actions config (List.replicate instruction.count children).flatten c := by
  have hempty : ¬ children.isEmpty := by rwa [List.isEmpty_iff]
  rw [Node.actions]
  simp only [htag, if_neg hempty, repeatActions_eq_actions]

/-- A branch with the condition of the catalog looks at the place of the
character only. -/
theorem actions_branch (htag : instruction.tag = .known .branch)
    (hcondition : instruction.condition = some (.known .goalReached)) (c : Character) :
    Node.actions config ⟨instruction, children⟩ c =
      if c.x < config.goalX then .ok []
      else if children.isEmpty then .ok [.say .arrived]
      else Program.actions config children c := by
  rw [Node.actions]
  simp only [htag, hcondition]

/-- A branch that can be run has the condition of the catalog. -/
theorem condition_of_branch_eq_ok (htag : instruction.tag = .known .branch) {c : Character}
    {actions : List Action} (h : Node.actions config ⟨instruction, children⟩ c = .ok actions) :
    instruction.condition = some (.known .goalReached) := by
  rw [Node.actions] at h
  simp only [htag] at h
  split at h
  · cases h
  · assumption
  · cases h

/-- A node that is no loop and no branch acts in the same way under all settings
and from every state. -/
theorem actions_eq_of_ne (hloop : instruction.tag ≠ .known .loop)
    (hbranch : instruction.tag ≠ .known .branch) (config' : Config) (c c' : Character) :
    Node.actions config ⟨instruction, children⟩ c =
      Node.actions config' ⟨instruction, children⟩ c' := by
  rw [Node.actions, Node.actions]
  cases htag : instruction.tag with
  | unknown text => rfl
  | known kind =>
    cases kind with
    | loop => exact absurd htag hloop
    | branch => exact absurd htag hbranch
    | start | move | jump | say | close | goalReached => rfl

end Node

/-! ## One behind the other -/

/-- Two lists of actions, one behind the other, can be had when each of them can. -/
theorem bind_map_append_eq_ok_iff {x : Except RunError (List Action)}
    {f : List Action → Except RunError (List Action)} {actions : List Action} :
    (x.bind fun first => (f first).map (first ++ ·)) = .ok actions ↔
      ∃ first others, x = .ok first ∧ f first = .ok others ∧ actions = first ++ others := by
  cases x with
  | error e => exact ⟨fun h => (nomatch h), fun ⟨_, _, h, _⟩ => (nomatch h)⟩
  | ok first =>
    rw [Except.bind]
    constructor
    · intro h
      cases hf : f first with
      | error e =>
        rw [hf] at h
        cases h
      | ok others =>
        rw [hf] at h
        exact ⟨first, others, rfl, hf, (Except.ok.inj h).symm⟩
    · rintro ⟨_, others, hfirst, hothers, rfl⟩
      obtain rfl := Except.ok.inj hfirst
      rw [hothers, Except.map]

end Blockwise

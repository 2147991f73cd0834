import Mathlib.Data.List.Infix
import Blockwise.Proofs.Character.Tally
import Blockwise.Proofs.Program.Preorder
import Blockwise.Proofs.Run.Walk

/-!
# Head starts

One program is run twice, and the second run has a head start: it begins at least
as far along the ground, and its goal is no further. Then the first run does no
more than the second. It comes to a branch in a state that is no further, so it
enters no body that the second one passes by; and a body that it passes by itself
is one in which it performs no action and breaks no rule.

`DoesNoMore` says this of a node or of a list of nodes, with the actions of the
first run as a sublist of those of the second (`Node.doesNoMore`). What the
actions of a list add up to is known, so the final states can be compared
(`Tally.x_le` and the lemmas behind it).
-/

namespace Blockwise

/-! ## Fewer moves and jumps -/

/-- A counter that starts no higher and is raised no more often ends no higher. -/
theorem le_of_toInt_eq_min {start₁ start₂ final₁ final₂ : Int64} {n₁ n₂ : Nat}
    (h₁ : final₁.toInt = min (start₁.toInt + n₁) Int64.maxValue.toInt)
    (h₂ : final₂.toInt = min (start₂.toInt + n₂) Int64.maxValue.toInt)
    (hstart : start₁ ≤ start₂) (hn : n₁ ≤ n₂) : final₁ ≤ final₂ := by
  rw [Int64.le_iff_toInt_le] at hstart ⊢
  omega

theorem le_foldl_max (heights : List Int64) (start : Int64) : start ≤ heights.foldl max start := by
  induction heights generalizing start with
  | nil => exact Int64.le_refl start
  | cons height rest ih => exact Int64.le_trans Std.left_le_max (ih (max start height))

theorem foldl_min_le (heights : List Int64) (start : Int64) : heights.foldl min start ≤ start := by
  induction heights generalizing start with
  | nil => exact Int64.le_refl start
  | cons height rest ih => exact Int64.le_trans (ih (min start height)) Std.min_le_left

/-- More jumps show all the heights that fewer jumps show. -/
theorem Character.jumpHeights_isPrefix (height : Int64) (c : Character) {jumps₁ jumps₂ : Nat}
    (h : jumps₁ ≤ jumps₂) : c.jumpHeights height jumps₁ <+: c.jumpHeights height jumps₂ := by
  match jumps₁, jumps₂ with
  | 0, _ => exact List.nil_prefix
  | 1, 1 => exact List.prefix_rfl
  | 1, _ + 2 => exact ⟨[height], rfl⟩
  | _ + 2, _ + 2 => exact List.prefix_rfl

namespace Tally

variable {height : Int64} {first₁ first₂ final₁ final₂ : Character}
  {moves₁ moves₂ jumps₁ jumps₂ : Nat} {texts₁ texts₂ : List String}

theorem x_le (h₁ : Tally height first₁ moves₁ jumps₁ texts₁ final₁)
    (h₂ : Tally height first₂ moves₂ jumps₂ texts₂ final₂) (hfirst : first₁.x ≤ first₂.x)
    (hmoves : moves₁ ≤ moves₂) : final₁.x ≤ final₂.x :=
  le_of_toInt_eq_min h₁.x h₂.x hfirst hmoves

theorem moveTotal_le (h₁ : Tally height first₁ moves₁ jumps₁ texts₁ final₁)
    (h₂ : Tally height first₂ moves₂ jumps₂ texts₂ final₂)
    (hfirst : first₁.moveTotal ≤ first₂.moveTotal) (hmoves : moves₁ ≤ moves₂) :
    final₁.moveTotal ≤ final₂.moveTotal :=
  le_of_toInt_eq_min h₁.moveTotal h₂.moveTotal hfirst hmoves

theorem jumpCount_le (h₁ : Tally height first₁ moves₁ jumps₁ texts₁ final₁)
    (h₂ : Tally height first₂ moves₂ jumps₂ texts₂ final₂)
    (hfirst : first₁.jumpCount ≤ first₂.jumpCount) (hjumps : jumps₁ ≤ jumps₂) :
    final₁.jumpCount ≤ final₂.jumpCount :=
  le_of_toInt_eq_min h₁.jumpCount h₂.jumpCount hfirst hjumps

theorem maxY_le (h₁ : Tally height first₁ moves₁ jumps₁ texts₁ final₁)
    (h₂ : Tally height first₂ moves₂ jumps₂ texts₂ final₂)
    (hheights : first₁.jumpHeights height = first₂.jumpHeights height)
    (hfirst : first₁.maxY = first₂.maxY) (hjumps : jumps₁ ≤ jumps₂) :
    final₁.maxY ≤ final₂.maxY := by
  obtain ⟨more, hmore⟩ := first₂.jumpHeights_isPrefix height hjumps
  rw [h₁.maxY, h₂.maxY, hheights, hfirst, ← hmore, List.foldl_append]
  exact le_foldl_max more _

theorem minY_le (h₁ : Tally height first₁ moves₁ jumps₁ texts₁ final₁)
    (h₂ : Tally height first₂ moves₂ jumps₂ texts₂ final₂)
    (hheights : first₁.jumpHeights height = first₂.jumpHeights height)
    (hfirst : first₁.minY = first₂.minY) (hjumps : jumps₁ ≤ jumps₂) :
    final₂.minY ≤ final₁.minY := by
  obtain ⟨more, hmore⟩ := first₂.jumpHeights_isPrefix height hjumps
  rw [h₁.minY, h₂.minY, hheights, hfirst, ← hmore, List.foldl_append]
  exact foldl_min_le more _

end Tally

/-! ## Fewer actions -/

/-- From a state that is no further, the first of two ways to act breaks no rule
unless the second does, and performs a part of its actions. -/
def DoesNoMore (act₁ act₂ : Character → Except RunError (List Action)) : Prop :=
  ∀ ⦃c₁ c₂ : Character⦄ ⦃actions₂ : List Action⦄, c₁.x ≤ c₂.x → act₂ c₂ = .ok actions₂ →
    ∃ actions₁, act₁ c₁ = .ok actions₁ ∧ actions₁.Sublist actions₂

section

variable {config₁ config₂ : Config}

/-- A list of nodes does no more if each of its nodes does no more. -/
theorem Program.doesNoMore_of_forall (hheight : config₁.jumpHeight = config₂.jumpHeight)
    {program : Program}
    (hnodes : ∀ node ∈ program, DoesNoMore (node.actions config₁) (node.actions config₂)) :
    DoesNoMore (Program.actions config₁ program) (Program.actions config₂ program) := by
  intro c₁ c₂ actions₂ hx hactions₂
  induction program generalizing c₁ c₂ actions₂ with
  | nil =>
    rw [actions_nil] at hactions₂
    exact ⟨[], actions_nil config₁ c₁, List.nil_sublist actions₂⟩
  | cons node rest ih =>
    obtain ⟨hnode, hrest⟩ := List.forall_mem_cons.1 hnodes
    rw [actions_cons] at hactions₂
    obtain ⟨first₂, others₂, hfirst₂, hothers₂, rfl⟩ := bind_map_append_eq_ok_iff.1 hactions₂
    obtain ⟨first₁, hfirst₁, hfirst⟩ := hnode hx hfirst₂
    -- Behind the node, the first run is still no further.
    have hx' : (c₁.after config₁.jumpHeight first₁).x ≤ (c₂.after config₂.jumpHeight first₂).x := by
      rw [hheight]
      exact (Character.tally_after _ c₁ first₁).x_le (Character.tally_after _ c₂ first₂) hx
        (hfirst.count_le .move)
    obtain ⟨others₁, hothers₁, hothers⟩ := ih hrest hx' hothers₂
    refine ⟨first₁ ++ others₁, ?_, hfirst.append hothers⟩
    rw [actions_cons]
    exact bind_map_append_eq_ok_iff.2 ⟨first₁, others₁, hfirst₁, hothers₁, rfl⟩

/-- If its body does no more, neither does a branch whose goal is no nearer. -/
theorem Node.doesNoMore_branch {instruction : Instruction} {children : List Node}
    (htag : instruction.tag = .known .branch) (hgoal : config₂.goalX ≤ config₁.goalX)
    (hbody : DoesNoMore (Program.actions config₁ children) (Program.actions config₂ children)) :
    DoesNoMore (Node.actions config₁ ⟨instruction, children⟩)
      (Node.actions config₂ ⟨instruction, children⟩) := by
  intro c₁ c₂ actions₂ hx hactions₂
  have hcondition := condition_of_branch_eq_ok htag hactions₂
  rw [actions_branch htag hcondition] at hactions₂ ⊢
  by_cases hreached₁ : c₁.x < config₁.goalX
  · exact ⟨[], if_pos hreached₁, List.nil_sublist actions₂⟩
  · have hreached₂ : ¬ c₂.x < config₂.goalX := fun hlt =>
      hreached₁ (Int64.lt_of_le_of_lt hx (Int64.lt_of_lt_of_le hlt hgoal))
    rw [if_neg hreached₂] at hactions₂
    rw [if_neg hreached₁]
    by_cases hempty : children.isEmpty
    · rw [if_pos hempty] at hactions₂ ⊢
      exact ⟨actions₂, hactions₂, List.Sublist.refl actions₂⟩
    · rw [if_neg hempty] at hactions₂ ⊢
      exact hbody hx hactions₂

theorem Node.doesNoMore (hheight : config₁.jumpHeight = config₂.jumpHeight)
    (hgoal : config₂.goalX ≤ config₁.goalX) (node : Node) :
    DoesNoMore (node.actions config₁) (node.actions config₂) := by
  induction node using Node.induction with
  | mk instruction children ih =>
    by_cases hloop : instruction.tag = .known .loop
    · by_cases hchildren : children = []
      · subst hchildren
        intro c₁ c₂ actions₂ hx hactions₂
        rw [actions_loop_nil hloop] at hactions₂
        cases hactions₂
      · -- The rounds of a loop are a list of nodes of its body.
        have hrounds := Program.doesNoMore_of_forall hheight fun child hchild =>
          ih child (mem_of_mem_flatten_replicate (n := instruction.count) hchild)
        intro c₁ c₂ actions₂ hx hactions₂
        rw [actions_loop hloop hchildren] at hactions₂ ⊢
        exact hrounds hx hactions₂
    · by_cases hbranch : instruction.tag = .known .branch
      · exact doesNoMore_branch hbranch hgoal (Program.doesNoMore_of_forall hheight ih)
      · intro c₁ c₂ actions₂ hx hactions₂
        exact ⟨actions₂, by rw [actions_eq_of_ne hloop hbranch config₂ c₁ c₂, hactions₂],
          List.Sublist.refl actions₂⟩

end

/-! ## Two runs -/

theorem spoken_sublist {actions₁ actions₂ : List Action} (h : actions₁.Sublist actions₂) :
    (spoken actions₁).Sublist (spoken actions₂) :=
  h.filterMap Action.text?

/-- A head start never loses anything. If a run succeeds, then so does one of the same
program with jumps of the same height that begins in the same state except that it is
further back, or as far, and has a goal that is further on, or as far. It ends no further
along the ground, with no greater counters and with extremes within those of the other
run, and what it has said is left of what the other run has said when some of it is left
out. -/
theorem run_headStart {config₁ config₂ : Config}
    (hheight : config₁.jumpHeight = config₂.jumpHeight) (hgoal : config₂.goalX ≤ config₁.goalX)
    {overrides : Overrides} {x₁ x₂ : Option Int64} (hx : x₁.getD 0 ≤ x₂.getD 0)
    {program : Program} {second : Execution}
    (hsecond :
      Program.run config₂ { overrides with x := x₂ }.character program = .ok second) :
    ∃ first, Program.run config₁ { overrides with x := x₁ }.character program = .ok first ∧
      first.final.x ≤ second.final.x ∧ first.final.moveTotal ≤ second.final.moveTotal ∧
      first.final.jumpCount ≤ second.final.jumpCount ∧ first.final.maxY ≤ second.final.maxY ∧
      second.final.minY ≤ first.final.minY ∧
      ∃ said₁ said₂, first.final.messages = overrides.messages.getD [] ++ said₁ ∧
        second.final.messages = overrides.messages.getD [] ++ said₂ ∧ said₁.Sublist said₂ := by
  obtain ⟨start, rest, actions₂, rfl, hstart, hactions₂, rfl⟩ :=
    Program.exists_actions_of_run_eq_ok hsecond
  have hbehind : ({ overrides with x := x₁ } : Overrides).character.x ≤
      ({ overrides with x := x₂ } : Overrides).character.x := hx
  obtain ⟨actions₁, hactions₁, hsublist⟩ := Program.doesNoMore_of_forall hheight
    (fun node _ => node.doesNoMore hheight hgoal) hbehind hactions₂
  have htally₁ := Character.tally_after config₁.jumpHeight
    { overrides with x := x₁ }.character actions₁
  have htally₂ := Character.tally_after config₂.jumpHeight
    { overrides with x := x₂ }.character actions₂
  rw [hheight] at htally₁
  have hmoves := hsublist.count_le .move
  have hjumps := hsublist.count_le .jump
  refine ⟨_, (Program.run_start_eq_ok_iff hstart).2 ⟨actions₁, hactions₁, rfl⟩, ?_⟩
  rw [Execution.ofActions, Execution.ofActions, hheight]
  exact ⟨htally₁.x_le htally₂ hbehind hmoves,
    htally₁.moveTotal_le htally₂ (Int64.le_of_eq rfl) hmoves,
    htally₁.jumpCount_le htally₂ (Int64.le_of_eq rfl) hjumps,
    htally₁.maxY_le htally₂ rfl rfl hjumps, htally₁.minY_le htally₂ rfl rfl hjumps,
    _, _, htally₁.messages, htally₂.messages, spoken_sublist hsublist⟩

/-- In the second round of the loop, only the run with the head start has reached its goal,
from where it jumps downwards. -/
theorem run_headStart_second_round :
    let config₁ : Config := { jumpHeight := -5 }
    let config₂ : Config := { goalX := 3, jumpHeight := -5 }
    let overrides : Overrides := { y := some 3, minY := some 8, messages := some ["Hi!"] }
    let x₁ : Option Int64 := none
    let x₂ : Option Int64 := some 1
    let program : Program :=
      [.leaf (.known .start),
        ⟨{ tag := .known .loop, loopCount := some 2 },
          [.leaf (.known .move),
            ⟨{ tag := .known .branch, condition := some (.known .goalReached) },
              [.leaf (.known .jump), .leaf (.known (.say .madeIt))]⟩]⟩]
    let final₁ : Character :=
      { x := 2, y := 3, moveTotal := 2, maxY := 3, minY := 3, messages := ["Hi!"] }
    let final₂ : Character :=
      { x := 3, moveTotal := 2, maxY := 3, minY := -2, jumpCount := 1,
        messages := ["Hi!", "I made it!"] }
    config₁.jumpHeight = config₂.jumpHeight ∧ config₂.goalX ≤ config₁.goalX ∧
      x₁.getD 0 ≤ x₂.getD 0 ∧
      Program.run config₂ { overrides with x := x₂ }.character program =
        .ok { final := final₂, trace := none } ∧
      Program.run config₁ { overrides with x := x₁ }.character program =
        .ok { final := final₁, trace := none } ∧
      final₁.x ≤ final₂.x ∧ final₁.moveTotal ≤ final₂.moveTotal ∧
      final₁.jumpCount ≤ final₂.jumpCount ∧ final₁.maxY ≤ final₂.maxY ∧
      final₂.minY ≤ final₁.minY ∧
      ∃ said₁ said₂, final₁.messages = ["Hi!"] ++ said₁ ∧ final₂.messages = ["Hi!"] ++ said₂ ∧
        said₁.Sublist said₂ := by
  intro config₁ config₂ overrides x₁ x₂ program final₁ final₂
  have hgoal : config₂.goalX ≤ config₁.goalX := by decide
  have hx : x₁.getD 0 ≤ x₂.getD 0 := by decide
  have hfirst : Program.run config₁ { overrides with x := x₁ }.character program =
      .ok { final := final₁, trace := none } := by
    decide
  have hsecond : Program.run config₂ { overrides with x := x₂ }.character program =
      .ok { final := final₂, trace := none } := by
    decide
  obtain ⟨first, hrun, hbehind⟩ :=
    @run_headStart config₁ config₂ rfl hgoal overrides x₁ x₂ hx program _ hsecond
  obtain rfl := Except.ok.inj (hfirst.symm.trans hrun)
  exact ⟨rfl, hgoal, hx, hsecond, hfirst, hbehind⟩

end Blockwise

import Mathlib.Data.List.Chain
import Blockwise.Proofs.Character.Growth

/-!
# Legal paths

A `PrimitiveStep` says, field by field, in which frames one step shows the
character: one frame for a move or a message, two for a jump. A `LegalPath` is a
list of frames that falls into groups, each of which is a primitive step from
the frame just before it. The trail of any list of actions is one
(`legalPath_trail`).

What holds of all recorded frames is read off the path and not off the actions:
if the first height lies between the extremes, each frame `Follows` the one
before it (`LegalPath.isChain_follows`).
-/

namespace Blockwise

/-- One step from a state, and the frames in which it shows the character. -/
inductive PrimitiveStep (height : Int64) : Character → List Character → Prop
  | move (c : Character) :
      PrimitiveStep height c
        [{ c with x := saturatingAdd c.x 1, moveTotal := saturatingAdd c.moveTotal 1 }]
  | jump {c rise landing : Character}
      (rise_eq : rise = { c with
        jumpCount := saturatingAdd c.jumpCount 1
        y := saturatingAdd c.y height
        maxY := max c.maxY (saturatingAdd c.y height)
        minY := min c.minY (saturatingAdd c.y height) })
      (landing_eq : landing = { rise with
        y := 0, maxY := max rise.maxY 0, minY := min rise.minY 0 }) :
      PrimitiveStep height c [rise, landing]
  | message (c : Character) {text : String}
      (fixed : text ∈ ["Hello!", "I made it!", "Jump success!", "Goal reached!"]) :
      PrimitiveStep height c [{ c with messages := c.messages ++ [text] }]

/-- Frames that fall into groups. Each group is a primitive step from the frame
just before it. -/
inductive LegalPath (height : Int64) : Character → List Character → Prop
  | nil (c : Character) : LegalPath height c []
  | step {c last : Character} {group rest : List Character}
      (primitive : PrimitiveStep height c group) (isLast : group.getLast? = some last)
      (path : LegalPath height last rest) : LegalPath height c (group ++ rest)

theorem Message.text_mem (message : Message) :
    message.text ∈ ["Hello!", "I made it!", "Jump success!", "Goal reached!"] := by
  cases message <;> decide

theorem Action.primitiveStep_frames (height : Int64) (c : Character) (action : Action) :
    PrimitiveStep height c (action.frames height c) := by
  cases action with
  | move => exact .move c
  | jump => exact .jump rfl rfl
  | say message => exact .message c message.text_mem

theorem legalPath_trail (height : Int64) (c : Character) (actions : List Action) :
    LegalPath height c (c.trail height actions) := by
  induction actions generalizing c with
  | nil => exact .nil c
  | cons action rest ih =>
    exact .step (action.primitiveStep_frames height c) (action.getLast?_frames height c) (ih _)

/-- A list of actions leaves the character as the last frame shows it. -/
theorem getLast?_cons_trail (height : Int64) (c : Character) (actions : List Action) :
    (c :: c.trail height actions).getLast? = some (c.after height actions) := by
  induction actions generalizing c with
  | nil => rfl
  | cons action rest ih =>
    obtain ⟨before, hframes⟩ := List.getLast?_eq_some_iff.1 (action.getLast?_frames height c)
    rw [Character.trail, Character.after_cons, hframes, List.append_assoc, ← List.cons_append,
      List.singleton_append, List.getLast?_append_of_ne_nil _ (List.cons_ne_nil _ _), ih]

/-! ## From one frame to the next -/

/-- The frame `b` comes next after the frame `a`: nothing is lost, and the
extremes are widened by the new height and by nothing else. -/
structure Character.Follows (a b : Character) : Prop extends a.Precedes b where
  maxY_eq : b.maxY = max a.maxY b.y
  minY_eq : b.minY = min a.minY b.y

namespace Character

variable {a b c : Character} {height : Int64}

theorem Follows.withinExtremes (h : a.Follows b) : b.WithinExtremes where
  minY_le := by
    rw [h.minY_eq]
    exact Std.min_le_right
  le_maxY := by
    rw [h.maxY_eq]
    exact Std.right_le_max

/-- A frame with the height and the extremes of the one before it follows that
one. -/
theorem WithinExtremes.follows (h : a.WithinExtremes) (hab : a.Precedes b) (hy : b.y = a.y)
    (hmax : b.maxY = a.maxY) (hmin : b.minY = a.minY) : a.Follows b :=
  { hab with
    maxY_eq := by rw [hmax, hy, h.max_maxY_y]
    minY_eq := by rw [hmin, hy, h.min_minY_y] }

theorem WithinExtremes.follows_self (h : c.WithinExtremes) : c.Follows c :=
  h.follows (Precedes.refl c) rfl rfl rfl

end Character

open Character (Follows WithinExtremes)

theorem PrimitiveStep.isChain_follows {height : Int64} {c : Character} {group : List Character}
    (h : PrimitiveStep height c group) (hc : c.WithinExtremes) :
    (c :: group).IsChain Follows := by
  cases h with
  | move =>
    have hmoved : c.Follows c.moved := hc.follows (Character.precedes_moved c) rfl rfl rfl
    exact List.isChain_pair.2 hmoved
  | jump rise_eq landing_eq =>
    subst rise_eq landing_eq
    have hrise : c.Follows (c.risen height) := ⟨Character.precedes_risen height c, rfl, rfl⟩
    have hlanding : (c.risen height).Follows (c.risen height).landed :=
      ⟨Character.precedes_landed _, rfl, rfl⟩
    exact List.isChain_cons_cons.2 ⟨hrise, List.isChain_pair.2 hlanding⟩
  | @message text =>
    have hsaid : c.Precedes { c with messages := c.messages ++ [text] } :=
      { Character.Precedes.refl c with messages := List.prefix_append .. }
    exact List.isChain_pair.2 (hc.follows hsaid rfl rfl rfl)

/-- Along a chain, the height stays between the extremes. -/
theorem Character.WithinExtremes.of_isChain {c : Character} {frames : List Character}
    (hc : c.WithinExtremes) (h : (c :: frames).IsChain Follows) :
    ∀ frame ∈ c :: frames, frame.WithinExtremes :=
  List.forall_mem_cons.2 ⟨hc, h.cons_induction _ _ (fun _ _ hnext _ => hnext.withinExtremes) hc⟩

theorem LegalPath.isChain_follows {height : Int64} {c : Character} {frames : List Character}
    (h : LegalPath height c frames) (hc : c.WithinExtremes) : (c :: frames).IsChain Follows := by
  induction h with
  | nil c => exact List.isChain_singleton c
  | @step c last group rest primitive isLast _ ih =>
    have hgroup := primitive.isChain_follows hc
    obtain ⟨before, rfl⟩ := List.getLast?_eq_some_iff.1 isLast
    have hlast : last.WithinExtremes := hc.of_isChain hgroup last (by simp)
    -- The last frame of the group is the first one of the chain that is left.
    rw [List.append_assoc, List.singleton_append]
    exact List.isChain_cons_split.2 ⟨hgroup, ih hlast⟩

/-- Along a chain in which each value is found from the one before it and from
what is seen next, every value is found from the first one and from all that has
been seen so far. -/
theorem eq_foldl_of_isChain {α β : Type} {R : α → α → Prop} {value seen : α → β}
    {op : β → β → β} (hR : ∀ a b, R a b → value b = op (value a) (seen b)) {start : β}
    {a : α} {l : List α} (h : (a :: l).IsChain R) (ha : value a = op start (seen a))
    {before after : List α} {b : α} (hsplit : a :: l = before ++ b :: after) :
    value b = ((before ++ [b]).map seen).foldl op start := by
  induction before generalizing a l start with
  | nil =>
    obtain ⟨rfl, -⟩ := List.cons.inj hsplit
    exact ha
  | cons c before ih =>
    rw [List.cons_append] at hsplit
    obtain ⟨rfl, hl⟩ := List.cons.inj hsplit
    rw [List.cons_append, List.map_cons, List.foldl_cons, ← ha]
    cases l with
    | nil => exact absurd hl.symm (List.append_ne_nil_of_right_ne_nil _ (List.cons_ne_nil _ _))
    | cons next rest =>
      obtain ⟨hnext, hchain⟩ := List.isChain_cons_cons.1 h
      exact ih hchain (hR _ _ hnext) hl

end Blockwise

import Blockwise.Block.Kind

/-!
# Tags

A stored block names its kind by a tag. A tag outside the catalog is kept as it
was written, so that a sequence made with a larger catalog can still be loaded,
shown and saved; it nests like a statement.

`Tag.ofText` reads a tag and `Tag.text` writes it. Writing gives back what was
read (`text_ofText`); reading gives back what was written as soon as the tag is
not an unknown one spelled like a kind (`ofText_text_iff`).
-/

namespace Blockwise

/-- The kind of a stored block: one of the catalog, or a text that is none. -/
inductive Tag where
  | known (kind : Kind)
  | unknown (text : String)
deriving DecidableEq

namespace Tag

/-- The kind a tag names, if the catalog has it. -/
def kind? : Tag → Option Kind
  | .known kind => some kind
  | .unknown _ => none

def text : Tag → String
  | .known kind => kind.tag
  | .unknown text => text

def ofText (text : String) : Tag :=
  match Kind.ofTag? text with
  | some kind => .known kind
  | none => .unknown text

/-- What is written on a block with this tag; an unknown tag is shown as it is. -/
def label : Tag → String
  | .known kind => kind.label
  | .unknown text => text

/-- The part a block with this tag plays in nesting. -/
def role : Tag → Role
  | .known kind => kind.role
  | .unknown _ => .ordinary

def isOpener (tag : Tag) : Bool := tag.role == .opener

def isCloser (tag : Tag) : Bool := tag.role == .closer

def isCondition (tag : Tag) : Bool := tag.role == .condition

/-- A tag is canonical when it is not an unknown tag spelled like a kind. Tags
that were read are canonical. -/
def Canonical (tag : Tag) : Prop :=
  ∀ text, tag = .unknown text → ∀ kind : Kind, text ≠ kind.tag

@[simp] theorem text_ofText (s : String) : (ofText s).text = s := by
  unfold ofText
  cases h : Kind.ofTag? s with
  | none => rfl
  | some kind => exact Kind.tag_of_ofTag? h

@[simp] theorem ofText_tag (kind : Kind) : ofText kind.tag = .known kind := by
  simp [ofText]

/-- Only an unknown tag spelled like a kind is read back as another tag. -/
theorem ofText_text_iff (tag : Tag) : ofText tag.text = tag ↔ tag.Canonical := by
  cases tag with
  | known kind => simp [text, Canonical]
  | unknown s =>
    constructor
    · rintro h t ht kind rfl
      injection ht with hs
      subst hs
      simp [text] at h
    · intro h
      unfold ofText text
      cases hk : Kind.ofTag? s with
      | none => rfl
      | some kind => exact absurd (Kind.tag_of_ofTag? hk).symm (h s rfl kind)

instance (tag : Tag) : Decidable tag.Canonical :=
  decidable_of_iff _ tag.ofText_text_iff

theorem canonical_known (kind : Kind) : (Tag.known kind).Canonical :=
  nofun

theorem canonical_ofText (s : String) : (ofText s).Canonical := by
  rw [← ofText_text_iff, text_ofText]

end Tag

end Blockwise

set_option autoImplicit false

/-! Sets of variants. A set is kept as its members in ascending order, so that equal sets are
equal as data, whatever the order in which a node names its variants and however often. -/

namespace Cascade

structure VariantSet where
  members : List String
  ascending : members.Pairwise (· < ·)
deriving DecidableEq

namespace VariantSet

def empty : VariantSet := ⟨[], .nil⟩

instance : EmptyCollection VariantSet := ⟨empty⟩

instance : Inhabited VariantSet := ⟨empty⟩

/-- Puts a string in its place among ascending ones, unless it is there already. -/
def place (variant : String) : List String → List String
  | [] => [variant]
  | least :: rest =>
      if variant < least then variant :: least :: rest
      else if variant = least then least :: rest
      else least :: place variant rest

theorem mem_place (variant other : String) (members : List String) :
    other ∈ place variant members ↔ other = variant ∨ other ∈ members := by
  induction members with
  | nil => simp [place]
  | cons least rest ih =>
      simp only [place]
      split
      · simp
      · split
        · next same => simp [same]
        · simp only [List.mem_cons, ih]
          constructor
          · rintro (same | same | inside)
            · exact .inr (.inl same)
            · exact .inl same
            · exact .inr (.inr inside)
          · rintro (same | same | inside)
            · exact .inr (.inl same)
            · exact .inl same
            · exact .inr (.inr inside)

theorem ascending_place (variant : String) (members : List String)
    (ascending : members.Pairwise (· < ·)) : (place variant members).Pairwise (· < ·) := by
  induction members with
  | nil => simp [place]
  | cons least rest ih =>
      obtain ⟨below, sorted⟩ := List.pairwise_cons.mp ascending
      simp only [place]
      split
      · next before =>
          refine List.pairwise_cons.mpr ⟨fun other inside => ?_, ascending⟩
          rcases List.mem_cons.mp inside with same | later
          · exact same ▸ before
          · exact String.lt_trans before (below other later)
      · next notBefore =>
          split
          · exact ascending
          · next different =>
              refine List.pairwise_cons.mpr ⟨fun other inside => ?_, ih sorted⟩
              rcases (mem_place variant other rest).mp inside with same | later
              · subst same
                have atMost : least ≤ other := String.not_lt.mp notBefore
                exact Decidable.byContradiction fun notAfter =>
                  different (String.le_antisymm (String.not_lt.mp notAfter) atMost)
              · exact below other later

def insert (variants : VariantSet) (variant : String) : VariantSet :=
  ⟨place variant variants.members, ascending_place variant variants.members variants.ascending⟩

def insertMany (variants : VariantSet) (added : List String) : VariantSet :=
  added.foldl insert variants

def ofList (variants : List String) : VariantSet := empty.insertMany variants

def contains (variants : VariantSet) (variant : String) : Bool :=
  variants.members.contains variant

def isEmpty (variants : VariantSet) : Bool := variants.members.isEmpty

end VariantSet

end Cascade

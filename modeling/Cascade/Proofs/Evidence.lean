import Cascade.Proofs.Failure
import Cascade.Proofs.Insertions
set_option autoImplicit false

/-! What the errors of a resolution give evidence of. The path is a trail of references: it leads
from the name under resolution to the current mixin and repeats nothing. Main statement: a reported
circle is one, and where the limit is reported, as many mixins as it allows are under expansion. -/

namespace Cascade

namespace Resolution

variable {store : RuleStore} {limit room : Nat} {origin : String} {path : List String}
  {context : Context} {payload : ResolvedPayload} {problem : StyleError}

/-! ### Trails -/

/-- The path holds different names. Each refers to the next one, the origin to the first, and the
last is that of the context. -/
structure Trail (store : RuleStore) (origin : String) (path : List String) (context : Context) :
    Prop where
  distinct : path.Nodup
  links : (origin :: path).IsChain (store.Refers context)
  current : (origin :: path).getLast? = some context.name

theorem trail_nil : Trail store context.name [] context where
  distinct := .nil
  links := List.isChain_singleton context.name
  current := rfl

theorem Trail.links_append (trail : Trail store origin path context) {name : String}
    (refers : store.Refers context context.name name) :
    (origin :: (path ++ [name])).IsChain (store.Refers context) := by
  refine List.IsChain.append trail.links (List.isChain_singleton name) ?_
  intro last isLast next isNext
  rw [trail.current] at isLast
  cases isLast
  cases isNext
  exact refers

theorem Trail.forMixin (trail : Trail store origin path context) {name : String}
    (refers : store.Refers context context.name name) (fresh : name ∉ path) :
    Trail store origin (path ++ [name]) (context.forMixin name) where
  distinct := List.concat_eq_append ▸ trail.distinct.concat fresh
  links := trail.links_append refers
  current := List.getLast?_concat (l := origin :: path)

/-! ### Errors -/

/-- References that lead from the origin to what the error reports: the first name that is met
again, or the first one for which there is no room. -/
inductive Explains (refers : String → String → Prop) (origin : String) (limit : Nat) :
    StyleError → Prop where
  | cyclicMixin {path : List String} {name : String} (distinct : path.Nodup)
      (links : (origin :: (path ++ [name])).IsChain refers) (again : name ∈ path)
      (within : path.length ≤ limit) :
      Explains refers origin limit (.cyclicMixin (path ++ [name]))
  | mixinDepthExceeded {path : List String} {name : String} (distinct : path.Nodup)
      (links : (origin :: (path ++ [name])).IsChain refers) (fresh : name ∉ path)
      (full : path.length = limit) :
      Explains refers origin limit (.mixinDepthExceeded name limit)

theorem enter_of_visit_error
    (failed : visit store limit room path context payload = .error problem) :
    ∃ name, store.Refers context context.name name ∧
      ∃ before, enter store limit room path context name before = .error problem := by
  rw [visit_eq] at failed
  obtain ⟨rule, matching, expansionFailed⟩ := Expansion.mergeRules_error failed
  obtain ⟨name, listed, before, refused⟩ := Expansion.expandRule_error expansionFailed
  exact ⟨name, (RuleStore.refers_name_iff name).mpr ⟨rule, matching, listed⟩, before, refused⟩

theorem explains_of_visit (trail : Trail store origin path context)
    (roomLeft : path.length + room = limit)
    (failed : visit store limit room path context payload = .error problem) :
    Explains (store.Refers context) origin limit problem := by
  induction room using Nat.strongRecOn generalizing path context payload with
  | ind room ih =>
      obtain ⟨name, refers, before, refused⟩ := enter_of_visit_error failed
      have links := trail.links_append refers
      rcases (enter_eq_error_iff name before).mp refused with
        ⟨again, rfl⟩ | ⟨fresh, ⟨noRoom, rfl⟩ | ⟨left, isLeft, nestedFailed⟩⟩
      · exact .cyclicMixin trail.distinct links again (by omega)
      · exact .mixinDepthExceeded trail.distinct links fresh (by omega)
      · have longer : (path ++ [name]).length + left = limit := by
          rw [List.length_append, List.length_singleton]
          omega
        have explained := ih left (by omega) (trail.forMixin refers fresh) longer nestedFailed
        rw [RuleStore.refers_forMixin] at explained
        exact explained

end Resolution

namespace RuleStore

variable {store : RuleStore} {limit : Nat} {context : Context} {problem : StyleError}

theorem resolve_eq_error_iff : store.resolve limit context = .error problem ↔
    Resolution.visit store limit limit [] context ∅ = .error problem :=
  Expansion.map_eq_error _ _ _

theorem explains_of_resolve (failed : store.resolve limit context = .error problem) :
    Resolution.Explains (store.Refers context) context.name limit problem :=
  Resolution.explains_of_visit Resolution.trail_nil (Nat.zero_add limit)
    (resolve_eq_error_iff.mp failed)

/-- An error gives true evidence. The chain of a circle consists of references that start at the
name under resolution, and only its last name occurs before. Where the limit is exceeded, as many
different names as it allows lead to the one that is refused. There are no other errors. -/
theorem errors_give_evidence (store : RuleStore) (limit : Nat) (context : Context) :
    (∀ chain, store.resolve limit context = .error (.cyclicMixin chain) →
      2 ≤ chain.length ∧ chain.length ≤ limit + 1 ∧
        (context.name :: chain).IsChain (store.Refers context) ∧
        chain.dropLast.Nodup ∧ ∃ last, chain.getLast? = some last ∧ last ∈ chain.dropLast) ∧
    (∀ name bound, store.resolve limit context = .error (.mixinDepthExceeded name bound) →
      bound = limit ∧ ∃ names : List String, names.length = limit ∧ names.Nodup ∧ name ∉ names ∧
        (context.name :: (names ++ [name])).IsChain (store.Refers context)) ∧
    ∀ problem, store.resolve limit context = .error problem →
      (∃ chain, problem = .cyclicMixin chain) ∨
        ∃ name, problem = .mixinDepthExceeded name limit := by
  refine ⟨?_, ?_, ?_⟩
  · intro chain failed
    cases explains_of_resolve failed with
    | cyclicMixin distinct links again within =>
        have nonempty := List.length_pos_of_mem again
        rw [List.length_append, List.length_singleton, List.dropLast_concat, List.getLast?_concat]
        exact ⟨by omega, by omega, links, distinct, _, rfl, again⟩
  · intro name bound failed
    cases explains_of_resolve failed with
    | mixinDepthExceeded distinct links fresh full =>
        exact ⟨rfl, _, full, distinct, fresh, links⟩
  · intro problem failed
    cases explains_of_resolve failed with
    | cyclicMixin => exact .inl ⟨_, rfl⟩
    | mixinDepthExceeded => exact .inr ⟨_, rfl⟩

end RuleStore

/-! Headings are bold, and bold texts and large ones refer to each other. -/

namespace Sample

def refersTo (name : String) (mixins : List String) : Insertion :=
  ⟨⟨[], ⟨name, []⟩⟩, ⟨none, none, mixins⟩, .explicit⟩

def circle : RuleStore := .ofInsertions
  [refersTo "Heading" ["bold"], refersTo "bold" ["large"], refersTo "large" ["bold"]]

def heading : Context := .ofRoot (.ofName "Heading")

end Sample

namespace RuleStore

open Sample (circle heading)

/-- With room for two names the circle is closed, with room for one the second name is too many. -/
theorem heading_goes_round :
    circle.resolve 2 heading = .error (.cyclicMixin ["bold", "large", "bold"]) ∧
      ["Heading", "bold", "large", "bold"].IsChain (circle.Refers heading) ∧
      circle.resolve 1 heading = .error (.mixinDepthExceeded "large" 1) ∧
      ∃ names : List String, names.length = 1 ∧ names.Nodup ∧ "large" ∉ names ∧
        ("Heading" :: (names ++ ["large"])).IsChain (circle.Refers heading) := by
  have roundTrip : circle.resolve 2 heading = .error (.cyclicMixin ["bold", "large", "bold"]) := by
    cbv
  have tooDeep : circle.resolve 1 heading = .error (.mixinDepthExceeded "large" 1) := by cbv
  obtain ⟨_, _, links, _⟩ := (errors_give_evidence circle 2 heading).1 _ roundTrip
  obtain ⟨_, evidence⟩ := (errors_give_evidence circle 1 heading).2.1 _ _ tooDeep
  exact ⟨roundTrip, links, tooDeep, evidence⟩

end RuleStore

end Cascade

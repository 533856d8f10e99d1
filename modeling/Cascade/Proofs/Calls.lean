import Cascade.Stylesheet
set_option autoImplicit false

/-! Calls on a stylesheet and what they answer, and the same calls on a bare rule store, which
resolves anew each time. Main statement: two states that answer alike, and stay related, answer
alike over any run of calls. -/

namespace Cascade

inductive Call where
  | insertRule (text : String) (payload : RulePayload) (rank : Rank)
  | insertRules (rules : List (String × RulePayload)) (rank : Rank)
  | resolve (context : Context)
  | getProps (context : Context) (own : Option PropMap)

/-- What a call tells its caller. Which object a payload comes in is not part of it. -/
inductive Answer where
  | inserted (result : Except StyleError InsertOutcome)
  | insertedAll (result : Except StyleError Unit)
  | resolved (result : Except StyleError ResolvedPayload)
  | props (result : Except StyleError PropMap)

namespace Call

variable {σ τ : Type}

/-- The answers to calls that are made one after the other, and the last state. -/
def run (step : σ → Call → Answer × σ) (state : σ) : List Call → List Answer × σ
  | [] => ([], state)
  | call :: rest =>
      let (answer, next) := step state call
      let (answers, last) := run step next rest
      (answer :: answers, last)

/-- What one call keeps, any run of calls keeps. -/
theorem run_of_step {first : σ → Call → Answer × σ} {second : τ → Call → Answer × τ}
    {Related : σ → τ → Prop}
    (stepAlike : ∀ left right, Related left right → ∀ call,
      (first left call).1 = (second right call).1 ∧
        Related (first left call).2 (second right call).2)
    {left : σ} {right : τ} (related : Related left right) (calls : List Call) :
    (run first left calls).1 = (run second right calls).1 ∧
      Related (run first left calls).2 (run second right calls).2 := by
  induction calls generalizing left right with
  | nil => exact ⟨rfl, related⟩
  | cons call rest ih =>
      obtain ⟨sameAnswer, relatedNext⟩ := stepAlike left right related call
      obtain ⟨sameAnswers, relatedLast⟩ := ih relatedNext
      refine ⟨?_, relatedLast⟩
      change (first left call).1 :: _ = (second right call).1 :: _
      rw [sameAnswer, sameAnswers]

/-- The calls, each with its answer. -/
def record (step : σ → Call → Answer × σ) (state : σ) (calls : List Call) : List (Call × Answer) :=
  calls.zip (run step state calls).1

theorem record_append (step : σ → Call → Answer × σ) (state : σ) (front back : List Call) :
    record step state (front ++ back) =
      record step state front ++ record step (run step state front).2 back := by
  induction front generalizing state with
  | nil => rfl
  | cons call rest ih => exact congrArg (_ :: ·) (ih (step state call).2)

/-! ### Changes of the rules -/

/-- A rule was added, for itself. -/
def addsRule : Call × Answer → Bool
  | (.insertRule .., .inserted (.ok _)) => true
  | _ => false

/-- Rules were added together, one at least. -/
def addsBatch : Call × Answer → Bool
  | (.insertRules rules _, .insertedAll (.ok _)) => !rules.isEmpty
  | _ => false

def changesRules (entry : Call × Answer) : Bool := addsRule entry || addsBatch entry

/-- A rule is added in one way only. -/
theorem countP_changesRules (entries : List (Call × Answer)) :
    entries.countP changesRules = entries.countP addsRule + entries.countP addsBatch := by
  induction entries with
  | nil => rfl
  | cons entry rest ih =>
      have once : (addsRule entry && addsBatch entry) = false := by
        obtain ⟨call, answer⟩ := entry
        cases call <;> simp [addsRule, addsBatch]
      rw [List.countP_cons, List.countP_cons, List.countP_cons, ih, changesRules]
      cases single : addsRule entry <;> cases joint : addsBatch entry <;>
        simp [single, joint] at once ⊢ <;> omega

/-- The context that was resolved, if one was, and with success. -/
def served? : Call × Answer → Option Context
  | (.resolve context, .resolved (.ok _)) => some context
  | (.getProps context _, .props (.ok _)) => some context
  | _ => none

end Call

namespace Stylesheet

def answer (sheet : Stylesheet) : Call → Answer × Stylesheet
  | .insertRule text payload rank =>
      let (result, sheet) := sheet.insertRule text payload rank
      (.inserted result, sheet)
  | .insertRules rules rank =>
      let (result, sheet) := sheet.insertRules rules rank
      (.insertedAll result, sheet)
  | .resolve context =>
      let (result, sheet) := sheet.resolve context
      (.resolved (result.map IssuedPayload.payload), sheet)
  | .getProps context own =>
      let (result, sheet) := sheet.getProps context own
      (.props result, sheet)

end Stylesheet

namespace RuleStore

/-- The answers where nothing is cached: a resolution is one of the rules as they are. -/
def answer (limit : Nat) (store : RuleStore) : Call → Answer × RuleStore
  | .insertRule text payload rank =>
      match Stylesheet.readSelector text with
      | .error problem => (.inserted (.error problem), store)
      | .ok selector =>
          let (outcome, store) := store.insert selector payload rank
          (.inserted (.ok outcome), store)
  | .insertRules rules rank =>
      match Stylesheet.readRules rules with
      | .error problem => (.insertedAll (.error problem), store)
      | .ok parsed =>
          (.insertedAll (.ok ()),
            parsed.foldl (fun store rule => (store.insert rule.1 rule.2 rank).2) store)
  | .resolve context => (.resolved (store.resolve limit context), store)
  | .getProps context own =>
      (.props ((store.resolve limit context).map fun payload => payload.mergeOwn own), store)

end RuleStore

end Cascade

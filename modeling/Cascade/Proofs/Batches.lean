import Cascade.Proofs.Effects
set_option autoImplicit false

/-! Insertions of several rules at once. Main statement: either all rules are inserted, as if one by
one but as one change, or none is, and the error is that of the first selector that is malformed. -/

namespace Cascade

namespace Stylesheet

/-! ### Reading the rules -/

theorem readSelector_eq_error_iff (text : String) (problem : StyleError) :
    readSelector text = .error problem ↔
      ∃ cause, Selector.parse text = .error cause ∧ problem = .selector text cause := by
  unfold readSelector
  cases Selector.parse text with
  | error cause =>
      constructor
      · intro failed
        cases failed
        exact ⟨cause, rfl, rfl⟩
      · rintro ⟨_, ⟨⟩, rfl⟩
        rfl
  | ok selector =>
      constructor
      · intro failed
        cases failed
      · rintro ⟨_, ⟨⟩, _⟩

theorem readSelector_eq_ok_iff (text : String) (selector : Selector) :
    readSelector text = .ok selector ↔ Selector.parse text = .ok selector := by
  unfold readSelector
  cases Selector.parse text with
  | error cause =>
      constructor
      · intro read
        cases read
      · intro parsed
        cases parsed
  | ok found =>
      constructor
      · intro read
        cases read
        rfl
      · intro parsed
        cases parsed
        rfl

theorem readRules_cons_eq_error_iff (text : String) (payload : RulePayload)
    (rest : List (String × RulePayload)) (problem : StyleError) :
    readRules ((text, payload) :: rest) = .error problem ↔
      readSelector text = .error problem ∨
        (∃ selector, readSelector text = .ok selector) ∧ readRules rest = .error problem := by
  rw [readRules]
  cases readSelector text with
  | error first => simp
  | ok selector => cases readRules rest <;> simp [Except.map]

/-- What is wrong with rules: the text of the first that is malformed, and why it is. -/
def FirstMalformed (rules : List (String × RulePayload)) (problem : StyleError) : Prop :=
  ∃ front text payload back, rules = front ++ (text, payload) :: back ∧
    (∀ rule ∈ front, ∃ selector, Selector.parse rule.1 = .ok selector) ∧
    ∃ cause, Selector.parse text = .error cause ∧ problem = .selector text cause

theorem firstMalformed_of_readRules {rules : List (String × RulePayload)} {problem : StyleError}
    (failed : readRules rules = .error problem) : FirstMalformed rules problem := by
  induction rules with
  | nil => cases failed
  | cons rule rest ih =>
      obtain ⟨text, payload⟩ := rule
      rcases (readRules_cons_eq_error_iff text payload rest problem).mp failed with
        here | ⟨⟨selector, read⟩, later⟩
      · exact ⟨[], text, payload, rest, rfl, fun _ inside => absurd inside List.not_mem_nil,
          (readSelector_eq_error_iff text problem).mp here⟩
      · obtain ⟨front, other, otherPayload, back, rfl, wellFormed, malformed⟩ := ih later
        refine ⟨(text, payload) :: front, other, otherPayload, back, rfl, ?_, malformed⟩
        intro earlier inside
        rcases List.mem_cons.mp inside with same | further
        · exact ⟨selector, same ▸ (readSelector_eq_ok_iff text selector).mp read⟩
        · exact wellFormed earlier further

theorem readSelector_of_readRules {rules : List (String × RulePayload)}
    {parsed : List (Selector × RulePayload)} (read : readRules rules = .ok parsed) :
    ∀ rule ∈ rules, ∃ selector, readSelector rule.1 = .ok selector := by
  induction rules generalizing parsed with
  | nil => exact fun _ inside => absurd inside List.not_mem_nil
  | cons rule rest ih =>
      obtain ⟨text, payload⟩ := rule
      obtain ⟨selector, first, others, readRest, _⟩ :=
        (readRules_cons_eq_ok_iff text payload rest parsed).mp read
      intro other inside
      rcases List.mem_cons.mp inside with same | later
      · exact ⟨selector, same ▸ first⟩
      · exact ih readRest other later

theorem readRules_fails_iff (rules : List (String × RulePayload)) :
    (∃ problem, readRules rules = .error problem) ↔
      ∃ rule ∈ rules, ∃ cause, Selector.parse rule.1 = .error cause := by
  constructor
  · rintro ⟨problem, failed⟩
    obtain ⟨front, text, payload, back, rfl, _, cause, malformed, _⟩ :=
      firstMalformed_of_readRules failed
    exact ⟨(text, payload), by simp, cause, malformed⟩
  · rintro ⟨rule, inside, cause, malformed⟩
    cases read : readRules rules with
    | error problem => exact ⟨problem, rfl⟩
    | ok parsed =>
        obtain ⟨selector, wellFormed⟩ := readSelector_of_readRules read rule inside
        rw [readSelector_eq_ok_iff, malformed] at wellFormed
        cases wellFormed

/-! ### One by one -/

/-- The same rules, with a call for each. -/
def oneByOne (rules : List (String × RulePayload)) (rank : Rank) : List Call :=
  rules.map fun rule => .insertRule rule.1 rule.2 rank

theorem store_run_oneByOne {rules : List (String × RulePayload)}
    {parsed : List (Selector × RulePayload)} (read : readRules rules = .ok parsed)
    (sheet : Stylesheet) (rank : Rank) :
    (Call.run answer sheet (oneByOne rules rank)).2.store =
      parsed.foldl (fun store rule => (store.insert rule.1 rule.2 rank).2) sheet.store := by
  induction rules generalizing parsed sheet with
  | nil =>
      cases read
      rfl
  | cons rule rest ih =>
      obtain ⟨text, payload⟩ := rule
      obtain ⟨selector, first, others, readRest, rfl⟩ :=
        (readRules_cons_eq_ok_iff text payload rest parsed).mp read
      have added : (sheet.answer (.insertRule text payload rank)).2 =
          sheet.withStore (sheet.store.insert selector payload rank).2 := by
        simp only [answer, insertRule, first]
      have continued := ih readRest (sheet.answer (.insertRule text payload rank)).2
      change (Call.run answer (sheet.answer (.insertRule text payload rank)).2
        (oneByOne rest rank)).2.store = _
      rw [continued, added]
      rfl

/-! ### At once -/

variable {sheet : Stylesheet} {rules : List (String × RulePayload)} {rank : Rank}

theorem insertRules_fails_iff :
    (∃ problem, (sheet.insertRules rules rank).1 = .error problem) ↔
      ∃ rule ∈ rules, ∃ cause, Selector.parse rule.1 = .error cause := by
  rw [← readRules_fails_iff]
  cases read : readRules rules with
  | error problem => simp [insertRules_of_error read]
  | ok parsed =>
      cases parsed with
      | nil => simp [insertRules_of_nil read]
      | cons first others => simp [insertRules_of_cons read]

theorem insertRules_of_failure {problem : StyleError}
    (failed : (sheet.insertRules rules rank).1 = .error problem) :
    FirstMalformed rules problem ∧ (sheet.insertRules rules rank).2 = sheet := by
  cases read : readRules rules with
  | error first =>
      rw [insertRules_of_error read] at failed ⊢
      cases failed
      exact ⟨firstMalformed_of_readRules read, rfl⟩
  | ok parsed =>
      cases parsed with
      | nil => rw [insertRules_of_nil read] at failed; cases failed
      | cons first others => rw [insertRules_of_cons read] at failed; cases failed

theorem insertRules_of_success (succeeded : (sheet.insertRules rules rank).1 = .ok ()) :
    (sheet.insertRules rules rank).2.store =
        (Call.run answer sheet (oneByOne rules rank)).2.store ∧
      (rules = [] → (sheet.insertRules rules rank).2 = sheet) ∧
      (rules ≠ [] → (sheet.insertRules rules rank).2.generation = sheet.generation + 1) := by
  cases read : readRules rules with
  | error problem => rw [insertRules_of_error read] at succeeded; cases succeeded
  | ok parsed =>
      rw [store_run_oneByOne read]
      cases parsed with
      | nil =>
          rw [insertRules_of_nil read]
          exact ⟨rfl, fun _ => rfl, fun nonempty => absurd (eq_nil_of_readRules read) nonempty⟩
      | cons first others =>
          rw [insertRules_of_cons read]
          refine ⟨rfl, fun empty => ?_, fun _ => rfl⟩
          rw [empty] at read
          cases read

/-- Rules are inserted all together or not at all. Over any calls, the generation of a new sheet
comes to the number of rules that were added for themselves, and of batches that were not empty. -/
theorem insertRules_all_or_nothing (sheet : Stylesheet) (rules : List (String × RulePayload))
    (rank : Rank) :
    ((∃ problem, (sheet.insertRules rules rank).1 = .error problem) ↔
      ∃ rule ∈ rules, ∃ cause, Selector.parse rule.1 = .error cause) ∧
    (∀ problem, (sheet.insertRules rules rank).1 = .error problem →
      FirstMalformed rules problem ∧ (sheet.insertRules rules rank).2 = sheet) ∧
    ((sheet.insertRules rules rank).1 = .ok () →
      (sheet.insertRules rules rank).2.store =
          (Call.run answer sheet (oneByOne rules rank)).2.store ∧
        (rules = [] → (sheet.insertRules rules rank).2 = sheet) ∧
        (rules ≠ [] → (sheet.insertRules rules rank).2.generation = sheet.generation + 1)) ∧
    ∀ config calls,
      (Call.run answer (ofConfig config) calls).2.generation =
        (Call.record answer (ofConfig config) calls).countP Call.addsRule +
          (Call.record answer (ofConfig config) calls).countP Call.addsBatch := by
  refine ⟨insertRules_fails_iff, fun _ => insertRules_of_failure, insertRules_of_success, ?_⟩
  intro config calls
  rw [generation_run, Call.countP_changesRules]
  exact Nat.zero_add _

end Stylesheet

end Cascade

import GateNet.Proofs.Answers
import GateNet.Proofs.Meaning

/-!
# Exactly the legal changes

A gate of a reachable network is redefined exactly when the change is legal; otherwise the refusal
is that of the first condition that fails.
-/

namespace GateNet

namespace Network

variable {net : Network}

/-- Redefining never faults.  It is carried out exactly for a legal change, and it is refused exactly
with the refusal of the first condition that does not hold. -/
theorem Reachable.redefine_verdict (reachable : net.Reachable) (id : NodeId) (gate : Gate)
    (s t : Signal) :
    ∃ outcome, net.redefine id gate s t = .ok outcome ∧
      ((∃ answer, outcome.answer = .ok answer) ↔ net.LegalChange id s t) ∧
      ∀ refusal, outcome.answer = .error refusal ↔
        ∃ before condition after, net.redefineConditions id s t = before ++ condition :: after ∧
          (∀ earlier ∈ before, earlier.holds) ∧ ¬ condition.holds ∧ condition.refusal = refusal := by
  have asks := reachable.sound.asks_checkRedefine id s t
  -- What is said of the conditions is said of the check, which decides alone.
  simp only [← holds_redefineConditions_iff, ← asks.eq_ok_iff, ← asks.eq_error_iff]
  rcases asks.ok_or_refused with passed | ⟨first, failed⟩
  · obtain ⟨outcome, made, _⟩ := safe_redefine reachable.sound id gate s t
    rcases guarded_eq_ok made with ⟨_, failed, _⟩ | ⟨answer, after, rfl⟩
    · cases passed.symm.trans failed
    · exact ⟨_, made, iff_of_true ⟨answer, rfl⟩ passed, fun refusal => by simp [Outcome.done, passed]⟩
  · refine ⟨.refused first net, by rw [redefine, failed, guarded_refused], ?_, fun refusal => ?_⟩
    · simp [Outcome.refused, failed]
    · simp [Outcome.refused, failed]

/-- A gate is not redefined over one that depends on it, which is noticed before the second operand
turns out not to exist; it is redefined over a younger gate that does not depend on it. -/
theorem redefine_verdict_layered :
    ∃ net, (withBuckets 0).runAll layeredCommands = .ok net ∧
      (∃ outcome, net.redefine 3 .or (.positive 6) (.positive 9) = .ok outcome ∧
        outcome.answer = .error (.unfitDriver 6) ∧
        ∃ before condition after,
          net.redefineConditions 3 (.positive 6) (.positive 9) = before ++ condition :: after ∧
            (∀ earlier ∈ before, earlier.holds) ∧ ¬ condition.holds ∧
            condition.refusal = .unfitDriver 6) ∧
      ∃ outcome answer, net.redefine 3 .and (.positive 0) (.negative 4) = .ok outcome ∧
        outcome.answer = .ok answer ∧ net.LegalChange 3 (.positive 0) (.negative 4) := by
  refine exists_runAll (fun net =>
      ((net.redefine 3 .or (.positive 6) (.positive 9)).toOption.map (·.answer),
        (net.redefine 3 .and (.positive 0) (.negative 4)).toOption.map (·.answer)))
    (some (.error (.unfitDriver 6)), some (.ok (.positive 3)))
    (by simp [layeredCommands]) (by decide +kernel) ?_
  intro net reached seen
  obtain ⟨one, made, _, first⟩ := reached.redefine_verdict 3 .or (.positive 6) (.positive 9)
  obtain ⟨two, made', legal, _⟩ := reached.redefine_verdict 3 .and (.positive 0) (.negative 4)
  rw [made, made'] at seen
  simp only [Except.toOption, Option.map_some, Prod.mk.injEq, Option.some.injEq] at seen
  obtain ⟨refused, answered⟩ := seen
  exact ⟨⟨one, made, refused, (first _).mp refused⟩, two, _, made', answered, legal.mp ⟨_, answered⟩⟩

end Network

end GateNet

/-!
# Replaying requests

A system answers requests one after another.  Two systems whose states are related answer a list
of requests alike when every single request is answered alike and leaves related states again.
-/

namespace GateNet

/-- The answers to a list of requests, and the state that they leave. -/
def replay {σ χ α : Type} (step : σ → χ → α × σ) : σ → List χ → List α × σ
  | state, [] => ([], state)
  | state, request :: rest =>
      let (answer, next) := step state request
      let (answers, last) := replay step next rest
      (answer :: answers, last)

/-- Two results with one answer and related states. -/
def Together {σ τ α : Type} (R : σ → τ → Prop) (one : α × σ) (two : α × τ) : Prop :=
  one.1 = two.1 ∧ R one.2 two.2

/-- Related states stay related, and every answer is the same, if that holds of one request. -/
theorem replay_together {σ τ χ α : Type} {R : σ → τ → Prop} {step : σ → χ → α × σ}
    {step' : τ → χ → α × τ} {requests : List χ}
    (steps : ∀ request ∈ requests, ∀ s t, R s t → Together R (step s request) (step' t request))
    {s : σ} {t : τ} (related : R s t) :
    Together R (replay step s requests) (replay step' t requests) := by
  induction requests generalizing s t with
  | nil => exact ⟨rfl, related⟩
  | cons request rest inductionHypothesis =>
    obtain ⟨answer, related⟩ := steps request (.head _) s t related
    obtain ⟨answers, related⟩ :=
      inductionHypothesis (fun later listed => steps later (.tail _ listed)) related
    refine ⟨?_, related⟩
    simp only [replay]
    rw [answer, answers]

end GateNet

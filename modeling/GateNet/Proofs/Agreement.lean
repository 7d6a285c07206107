import GateNet.Network.Basic
import GateNet.Proofs.Replay

/-!
# Computations that agree

Two computations agree along a relation when their results are related wherever both have one.
Nothing is said of faults: that neither faults is known apart from this, and what stands here only
follows two runs step by step.
-/

namespace GateNet

/-- Where both computations have a result, the results are related. -/
def Agree {ε α β : Type} (R : α → β → Prop) (one : Except ε α) (two : Except ε β) : Prop :=
  ∀ a b, one = .ok a → two = .ok b → R a b

section

variable {ε α β γ δ χ : Type} {R : α → β → Prop} {S : γ → δ → Prop}

theorem agree_ok {a : α} {b : β} (related : R a b) :
    Agree R (.ok a : Except ε α) (.ok b : Except ε β) := by
  intro a' b' one two
  cases one
  cases two
  exact related

theorem agree_error {fault : ε} {two : Except ε β} : Agree R (.error fault : Except ε α) two := by
  intro a b one
  cases one

theorem Agree.bind {one : Except ε α} {two : Except ε β} {next : α → Except ε γ}
    {next' : β → Except ε δ} (agree : Agree R one two)
    (agreeNext : ∀ a b, R a b → Agree S (next a) (next' b)) :
    Agree S (one >>= next) (two >>= next') := by
  intro c d first second
  obtain ⟨a, made, first⟩ := bind_eq_ok_iff.mp first
  obtain ⟨b, made', second⟩ := bind_eq_ok_iff.mp second
  exact agreeNext a b (agree a b made made') c d first second

/-- Both ask the same, and go on with the answer. -/
theorem agree_bind_same {asked : Except ε χ} {next : χ → Except ε γ} {next' : χ → Except ε δ}
    (agreeNext : ∀ answer, Agree S (next answer) (next' answer)) :
    Agree S (asked >>= next) (asked >>= next') := by
  intro c d first second
  obtain ⟨answer, made, first⟩ := bind_eq_ok_iff.mp first
  obtain ⟨answer', made', second⟩ := bind_eq_ok_iff.mp second
  obtain rfl := Except.ok.inj (made.symm.trans made')
  exact agreeNext answer c d first second

/-- A computation goes on with one answer and related states. -/
theorem Agree.bind_together {σ τ : Type} {R : σ → τ → Prop} {one : Except ε (χ × σ)}
    {two : Except ε (χ × τ)} {next : χ × σ → Except ε γ} {next' : χ × τ → Except ε δ}
    (agree : Agree (Together R) one two)
    (agreeNext : ∀ answer s t, R s t → Agree S (next (answer, s)) (next' (answer, t))) :
    Agree S (one >>= next) (two >>= next') := by
  refine agree.bind ?_
  rintro ⟨answer, s⟩ ⟨answer', t⟩ ⟨same, related⟩
  obtain rfl : answer = answer' := same
  exact agreeNext answer s t related

/-- A fold agrees when each step does, from the states that the items before it can leave. -/
theorem agree_foldlM_of_front {step : α → χ → Except ε α} {step' : β → χ → Except ε β}
    {items : List χ} {s : α} {t : β} (start : R s t)
    (steps : ∀ before item after, items = before ++ item :: after → ∀ s' t',
      before.foldlM step s = .ok s' → before.foldlM step' t = .ok t' → R s' t' →
      Agree R (step s' item) (step' t' item)) :
    Agree R (items.foldlM step s) (items.foldlM step' t) := by
  induction items generalizing s t with
  | nil => exact agree_ok start
  | cons item rest inductionHypothesis =>
    rw [List.foldlM_cons, List.foldlM_cons]
    intro a b first second
    obtain ⟨s', stepped, first⟩ := bind_eq_ok_iff.mp first
    obtain ⟨t', stepped', second⟩ := bind_eq_ok_iff.mp second
    have related := steps [] item rest rfl s t rfl rfl start s' t' stepped stepped'
    refine inductionHypothesis related ?_ a b first second
    intro before later after split s'' t'' ran ran'
    refine steps (item :: before) later after (by rw [split]; rfl) s'' t'' ?_ ?_
    · rw [List.foldlM_cons, stepped]
      exact ran
    · rw [List.foldlM_cons, stepped']
      exact ran'

theorem agree_foldlM {step : α → χ → Except ε α} {step' : β → χ → Except ε β} {s : α} {t : β}
    (start : R s t) (steps : ∀ item s t, R s t → Agree R (step s item) (step' t item))
    (items : List χ) : Agree R (items.foldlM step s) (items.foldlM step' t) :=
  agree_foldlM_of_front start fun _ item _ _ s' t' _ _ related => steps item s' t' related

end

/-- A question about the fate of a network agrees when the fate does. -/
theorem Agree.lift {α β : Type} {R : α → β → Prop} {one : Except Fault α} {two : Except Fault β}
    (agree : Agree R one two) :
    Agree R (liftM one : Except Failure α) (liftM two : Except Failure β) := by
  intro a b first second
  cases one with
  | error fault => cases first
  | ok answer =>
    cases two with
    | error fault => cases second
    | ok answer' =>
      cases first
      cases second
      exact agree a b rfl rfl

/-! ## Outcomes -/

namespace Outcome

/-- Two outcomes with one answer and related networks. -/
def Matches {α : Type} (R : Network → Network → Prop) (one two : Outcome α) : Prop :=
  one.answer = two.answer ∧ R one.network two.network

end Outcome

section

variable {α β : Type} {R : Network → Network → Prop} {net other : Network}

theorem Agree.map {one two : Except Fault (Outcome α)} (agree : Agree (Outcome.Matches R) one two)
    (change : α → β) :
    Agree (Outcome.Matches R) (one >>= fun outcome => pure (outcome.map change))
      (two >>= fun outcome => pure (outcome.map change)) :=
  agree.bind fun _ _ same => agree_ok ⟨congrArg (Except.map change) same.1, same.2⟩

theorem Agree.andThen {one two : Except Fault (Outcome α)}
    {next next' : α → Network → Except Fault (Outcome β)}
    (agree : Agree (Outcome.Matches R) one two)
    (agreeNext : ∀ answer net other, R net other →
      Agree (Outcome.Matches R) (next answer net) (next' answer other)) :
    Agree (Outcome.Matches R) (one >>= fun outcome => outcome.andThen next)
      (two >>= fun outcome => outcome.andThen next') := by
  refine agree.bind fun outcome outcome' same => ?_
  obtain ⟨answer, net⟩ := outcome
  obtain ⟨answer', other⟩ := outcome'
  obtain ⟨rfl, related⟩ : answer = answer' ∧ R net other := same
  cases answer with
  | ok answer => exact agreeNext answer net other related
  | error refusal => exact agree_ok ⟨rfl, related⟩

theorem agree_fold {step step' : β → α → Network → Except Fault (Outcome β)}
    (steps : ∀ state item net other, R net other →
      Agree (Outcome.Matches R) (step state item net) (step' state item other))
    (items : List α) (state : β) (related : R net other) :
    Agree (Outcome.Matches R) (Outcome.fold step items state net)
      (Outcome.fold step' items state other) := by
  induction items generalizing state net other with
  | nil => exact agree_ok ⟨rfl, related⟩
  | cons item rest inductionHypothesis =>
    exact (steps state item net other related).andThen fun state _ _ related =>
      inductionHypothesis state related

/-- Guarded actions agree when the checks are equal and the actions agree after them. -/
theorem agree_guarded {check check' : Except Failure β}
    {act act' : β → Except Fault (α × Network)} (related : R net other) (same : check = check')
    (acts : ∀ found, check = .ok found → Agree (Together R) (act found) (act' found)) :
    Agree (Outcome.Matches R) (net.guarded check act) (other.guarded check' act') := by
  subst same
  cases held : check with
  | ok found =>
    intro outcome outcome' made made'
    cases acted : act found with
    | error fault =>
      rw [Network.guarded, acted] at made
      cases made
    | ok result =>
      cases acted' : act' found with
      | error fault =>
        rw [Network.guarded, acted'] at made'
        cases made'
      | ok result' =>
        rw [Network.guarded, acted] at made
        rw [Network.guarded, acted'] at made'
        cases made
        cases made'
        obtain ⟨answer, related⟩ := acts found held _ _ acted acted'
        exact ⟨congrArg Except.ok answer, related⟩
  | error failure =>
    cases failure with
    | refused refusal => exact agree_ok ⟨rfl, related⟩
    | faulted fault => exact agree_error

end

end GateNet

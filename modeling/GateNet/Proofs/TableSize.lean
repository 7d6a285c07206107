import GateNet.Proofs.Twins

/-!
# Sizes of tables

A table is made with a power of two of buckets and only ever doubled, and each time the limit is set
to what belongs to the size.  So a new network that asks for as many buckets as a reachable one has
gets exactly that many, and the same limit.

A reachable network is its own twin for every relation between tables that lasts; an invariant of
size and limit is such a relation that looks at one side.
-/

namespace GateNet

/-- The recursion of `Nat.nextPowerOfTwo` has no public name, so its equation is stated of some
function. -/
theorem exists_nextPowerOfTwo_go : ∃ go : Nat → ∀ power, 0 < power → Nat,
    (∀ n, n.nextPowerOfTwo = go n 1 Nat.one_pos) ∧ ∀ n power positive, go n power positive =
      if power < n then go n (power * 2) (Nat.mul_pos positive Nat.two_pos) else power := by
  refine ⟨_, fun _ => rfl, fun n power positive => ?_⟩
  with_unfolding_all
    exact @WellFounded.Nat.fix_eq (PSigma fun power : Nat => power > 0) (fun _ => Nat) _ _
      ⟨power, positive⟩

theorem nextPowerOfTwo_eq_self {n : Nat} (power : n.isPowerOfTwo) : n.nextPowerOfTwo = n := by
  obtain ⟨k, rfl⟩ := power
  obtain ⟨go, start, step⟩ := exists_nextPowerOfTwo_go
  -- By induction on how many doublings are left.
  suffices doubles : ∀ d i positive, i + d = k → go (2 ^ k) (2 ^ i) positive = 2 ^ k by
    rw [start]
    exact doubles k 0 Nat.one_pos (Nat.zero_add k)
  intro d
  induction d with
  | zero =>
    intro i positive last
    obtain rfl : i = k := last
    rw [step, if_neg (Nat.lt_irrefl _)]
  | succ d inductionHypothesis =>
    intro i positive left
    rw [step, if_pos (Nat.pow_lt_pow_right (by decide) (by omega))]
    exact inductionHypothesis (i + 1) _ (by omega)

theorem le_nextPowerOfTwo (n : Nat) : n ≤ n.nextPowerOfTwo := by
  obtain ⟨go, start, step⟩ := exists_nextPowerOfTwo_go
  suffices reaches : ∀ power positive, n ≤ go n power positive by
    rw [start]
    exact reaches 1 Nat.one_pos
  intro power
  induction left : n - power using Nat.strong_induction_on generalizing power with
  | _ left inductionHypothesis =>
    intro positive
    rw [step]
    split
    · exact inductionHypothesis _ (by omega) (power * 2) rfl _
    · omega

namespace Sizing

theorem powers_new (buckets : Nat) :
    (Extent.new buckets).size.isPowerOfTwo ∧ Network.minBuckets ≤ (Extent.new buckets).size ∧
      (Extent.new buckets).limit = Network.limitFor (Extent.new buckets).size :=
  ⟨Nat.isPowerOfTwo_nextPowerOfTwo _, Nat.le_trans (Nat.le_max_right ..) (le_nextPowerOfTwo _), rfl⟩

/-- The first table has a power of two of buckets, no fewer than the least number, and the limit
that belongs to them. -/
def powers : Sizing where
  holds e _ := e.size.isPowerOfTwo ∧ Network.minBuckets ≤ e.size ∧ e.limit = Network.limitFor e.size
  created := powers_new
  copied _ := powers_new _
  grown {e _} gates powers := by
    obtain ⟨power, least, limit⟩ := powers
    unfold Extent.after
    split
    · refine ⟨?_, Nat.le_trans least (Nat.le_mul_of_pos_left e.size Nat.two_pos), rfl⟩
      show (2 * e.size).isPowerOfTwo
      rw [Nat.mul_comm]
      exact Nat.isPowerOfTwo_mul_two_of_isPowerOfTwo power
    · exact ⟨power, least, limit⟩

end Sizing

namespace Network

variable {net : Network}

/-- A reachable network is related to itself by whatever lasts. -/
theorem Reachable.sizes (reachable : net.Reachable) (sizing : Sizing) :
    sizing.holds net.extent net.extent := by
  induction reachable with
  | withBuckets buckets =>
    rw [extent_withBuckets]
    exact sizing.created buckets
  | run reachable sources ran holds _ =>
    have twins := reachable.sound.twins holds
    exact (twins.run (fun source same => (sources source same).sound) _ _ ran ran).2.alike.sizes
  | duplicate reachable made holds =>
    exact (Twins.duplicate (reachable.sound.twins holds) _ _ made made).alike.sizes

/-- A new table for as many buckets as a reachable network has is as large, with the same limit. -/
theorem Reachable.extent_new (reachable : net.Reachable) : .new net.buckets = net.extent := by
  obtain ⟨power, least, limit⟩ := reachable.sizes .powers
  show Extent.new net.extent.size = net.extent
  rw [Extent.new, Nat.max_eq_left least, nextPowerOfTwo_eq_self power, Extent.ofSize, ← limit]

end Network

end GateNet

import GateNet.Proofs.TableSize

/-!
# The table on its own

A network is hashed when its chains are in order: each ends, and holds gates with both drivers, with
different keys, each once and in the bucket of its key.  Nothing else is asked of the network, and
its other gates need not be chained.  On such networks finding, enrolling, withdrawing and widening
always succeed, give such networks again, and do to the set of the chained gates exactly what they
should.
-/

namespace GateNet

/-- The mask sees the low bits of a hash only, so a hash that is kept in 64 bits leads to the same
bucket. -/
theorem Key.hash_mod_and (key : Key) {size : Nat} (fits : size ≤ UInt64.size) :
    key.hash % UInt64.size &&& (size - 1) = key.bucket size := by
  have width : UInt64.size = 18446744073709551616 := rfl
  have mask : (size - 1) % UInt64.size = size - 1 := Nat.mod_eq_of_lt (by omega)
  have inside : key.bucket size < UInt64.size := Nat.and_le_right.trans_lt (by omega)
  calc key.hash % UInt64.size &&& (size - 1)
      = key.hash % UInt64.size &&& (size - 1) % UInt64.size := by rw [mask]
    _ = key.bucket size % UInt64.size := (Nat.and_mod_two_pow (n := 64)).symm
    _ = key.bucket size := Nat.mod_eq_of_lt inside

namespace Network

open Store (Rechained)

variable {net : Network} {member : NodeId → Prop}

/-- The id is on the chain of some bucket. -/
def Chained (net : Network) (id : NodeId) : Prop :=
  ∃ (b : Nat) (list : List NodeId), net.nodes.Chain (net.table[b]?).join list ∧ id ∈ list

/-- The chains are in order. -/
structure Hashed (net : Network) : Prop where
  power : net.table.size.isPowerOfTwo
  /-- Every chain ends, and holds gates once, in the bucket of their keys. -/
  chains : ∃ chain, net.nodes.Chains net.table chain
  /-- Chained gates have both drivers. -/
  keyed : ∀ {id}, net.Chained id → ∃ key, net.nodes.layout.key? id = some key
  /-- Different chained gates have different keys. -/
  unique : ∀ {x y key}, net.Chained x → net.Chained y → net.nodes.layout.key? x = some key →
    net.nodes.layout.key? y = some key → x = y

/-- What an operation on the table leaves: a hashed network with the given gates on its chains, in
which all else but links and the limit is as it was. -/
structure Holding (net : Network) (member : NodeId → Prop) (after : Network) : Prop where
  hashed : after.Hashed
  exact : ∀ x, after.Chained x ↔ member x
  nodes : net.nodes.Rechained after.nodes
  rest : after = { net with nodes := after.nodes, table := after.table, limit := after.limit }

/-! ## Chained gates -/

/-- The chains of a table hold the chained ids. -/
theorem chained_iff_of_chains {chain : Nat → List NodeId}
    (chains : net.nodes.Chains net.table chain) (id : NodeId) :
    net.Chained id ↔ ∃ b, id ∈ chain b := by
  constructor
  · rintro ⟨b, list, linked, listed⟩
    rw [linked.unique (chains.linked b)] at listed
    exact ⟨b, listed⟩
  · rintro ⟨b, listed⟩
    exact ⟨b, chain b, chains.linked b, listed⟩

theorem chained_iff_of_tabled (tabled : net.nodes.Tabled net.table member) (id : NodeId) :
    net.Chained id ↔ member id := by
  obtain ⟨chain, chains, exact⟩ := tabled.exists_chains
  rw [chained_iff_of_chains chains, exact]

theorem Hashed.tabled (hashed : net.Hashed) : net.nodes.Tabled net.table net.Chained where
  positive := by
    obtain ⟨k, size⟩ := hashed.power
    rw [size]
    exact Nat.two_pow_pos k
  exists_chains := hashed.chains.imp fun _ chains => ⟨chains, chained_iff_of_chains chains⟩

/-- A change of the table leaves a hashed network when the gates that it holds have different
keys. -/
theorem Rehashed.holding {nodes : Store Node} {table : Array (Option NodeId)} {limit : Nat}
    (rehashed : net.Rehashed nodes table member) (power : table.size.isPowerOfTwo)
    (keyed : ∀ {id}, member id → ∃ key, net.nodes.layout.key? id = some key)
    (unique : ∀ {x y key}, member x → member y → net.nodes.layout.key? x = some key →
      net.nodes.layout.key? y = some key → x = y) :
    net.Holding member { net with nodes, table, limit } := by
  have exact : ∀ x, Chained { net with nodes, table, limit } x ↔ member x :=
    chained_iff_of_tabled rehashed.tabled
  refine ⟨⟨power, ?_, fun chained => ?_, fun one two => ?_⟩, exact, rehashed.rechained, rfl⟩
  · exact rehashed.tabled.exists_chains.imp fun _ => And.left
  · rw [rehashed.rechained.layout_eq]
    exact keyed ((exact _).mp chained)
  · rw [rehashed.rechained.layout_eq]
    exact unique ((exact _).mp one) ((exact _).mp two)

/-! ## The operations -/

namespace Hashed

/-- Finding gives the chained gate with a key, and nothing exactly when there is none. -/
theorem find? (hashed : net.Hashed) (key : Key) :
    ∃ found, net.find? key = .ok found ∧
      (∀ id, found = some id ↔ net.Chained id ∧ net.nodes.layout.key? id = some key) ∧
      (found = none ↔ ∀ id, net.Chained id → net.nodes.layout.key? id ≠ some key) := by
  obtain ⟨found, searched, exact⟩ := net.exists_find? hashed.tabled hashed.unique key
  refine ⟨found, searched, exact, ?_⟩
  rw [Option.eq_none_iff_forall_ne_some]
  refine forall_congr' fun id => ?_
  rw [ne_eq, exact, not_and]

theorem enroll (hashed : net.Hashed) {id : NodeId} {key : Key}
    (held : net.nodes.layout.key? id = some key) (unchained : ¬ net.Chained id)
    (fresh : ∀ x, net.Chained x → net.nodes.layout.key? x ≠ some key) :
    ∃ after, net.enroll id = .ok after ∧ after.extent = net.extent ∧
      net.Holding (fun x => x = id ∨ net.Chained x) after := by
  obtain ⟨n, live, nodeKey⟩ := Layout.key?_eq_some_iff.mp held
  obtain ⟨m, found, rfl⟩ := Store.layout_eq_some_iff.mp live
  obtain ⟨nodes, table, enrolled, rehashed, size, _⟩ :=
    net.exists_enroll hashed.tabled found (Node.key?_eq_some_iff.mp nodeKey).1 unchained
  refine ⟨_, enrolled, congrArg (Extent.mk · net.limit) size,
    rehashed.holding (size ▸ hashed.power) ?_ ?_⟩
  · rintro x (rfl | chained)
    · exact ⟨key, held⟩
    · exact hashed.keyed chained
  · -- The key of the new gate is that of no chained one.
    rintro x y other (rfl | one) (rfl | two) keyed keyed'
    · rfl
    · rw [held, Option.some.injEq] at keyed
      exact absurd (keyed ▸ keyed') (fresh y two)
    · rw [held, Option.some.injEq] at keyed'
      exact absurd (keyed' ▸ keyed) (fresh x one)
    · exact hashed.unique one two keyed keyed'

theorem withdraw (hashed : net.Hashed) {id : NodeId} (chained : net.Chained id) :
    ∃ after, net.withdraw id = .ok after ∧ after.extent = net.extent ∧
      net.Holding (fun x => net.Chained x ∧ x ≠ id) after := by
  obtain ⟨nodes, table, withdrawn, rehashed, size⟩ := net.exists_withdraw hashed.tabled chained
  exact ⟨_, withdrawn, congrArg (Extent.mk · net.limit) size,
    rehashed.holding (size ▸ hashed.power) (fun inside => hashed.keyed inside.1)
      fun one two => hashed.unique one.1 two.1⟩

theorem widen (hashed : net.Hashed) {size : Nat} (power : size.isPowerOfTwo) :
    ∃ after, net.widen size = .ok after ∧ after.extent = .ofSize size ∧
      net.Holding net.Chained after := by
  have positive : 0 < size := by
    obtain ⟨k, rfl⟩ := power
    exact Nat.two_pow_pos k
  obtain ⟨nodes, table, widened, rehashed, rfl⟩ := net.exists_widen hashed.tabled positive
  exact ⟨_, widened, rfl, rehashed.holding power hashed.keyed hashed.unique⟩

/-- In a hashed network every key is found exactly when some chained gate has it; a gate that is not
chained, with a key that no chained gate has, can be enrolled; a chained gate can be withdrawn; and
the table can be made of any power of two.  Each of these ends without a fault, with a hashed
network that holds that gate besides, all but that gate, and the same gates, and in which all else
but links is as it was; only where the size is given, the limit becomes the one that belongs to
it. -/
theorem operations_exact (hashed : net.Hashed) :
    (∀ key, ∃ found, net.find? key = .ok found ∧
      (∀ id, found = some id ↔ net.Chained id ∧ net.nodes.layout.key? id = some key) ∧
      (found = none ↔ ∀ id, net.Chained id → net.nodes.layout.key? id ≠ some key)) ∧
    (∀ id key, net.nodes.layout.key? id = some key → ¬ net.Chained id →
      (∀ x, net.Chained x → net.nodes.layout.key? x ≠ some key) →
      ∃ after, net.enroll id = .ok after ∧ after.extent = net.extent ∧
        net.Holding (fun x => x = id ∨ net.Chained x) after) ∧
    (∀ id, net.Chained id →
      ∃ after, net.withdraw id = .ok after ∧ after.extent = net.extent ∧
        net.Holding (fun x => net.Chained x ∧ x ≠ id) after) ∧
    (∀ size : Nat, size.isPowerOfTwo →
      ∃ after, net.widen size = .ok after ∧ after.extent = .ofSize size ∧
        net.Holding net.Chained after) :=
  ⟨hashed.find?, fun _ _ => hashed.enroll, fun _ => hashed.withdraw, fun _ => hashed.widen⟩

end Hashed

/-! ## Reachable networks -/

/-- A reachable network is hashed, and all its gates are chained. -/
theorem Reachable.hashed (reachable : net.Reachable) :
    net.Hashed ∧ ∀ id, net.Chained id ↔ net.nodes.layout.HasGate id := by
  have woven := reachable.sound.woven
  have exact := chained_iff_of_tabled woven.tabled
  refine ⟨⟨(reachable.sizes .powers).1, ?_, fun chained => ?_, fun _ _ => woven.layout.unique⟩, exact⟩
  · exact woven.tabled.exists_chains.imp fun _ => And.left
  · exact woven.layout.hasGate_iff.mp ((exact _).mp chained)

/-- Three gates over the same two inputs. -/
def threeGates : List Command :=
  [.addPort "p" 2, .addInput 0 0, .addInput 0 1, .addGate .and (.positive 0) (.positive 1),
    .addGate .or (.positive 0) (.positive 1), .addGate .xor (.positive 0) (.positive 1)]

/-- The three gates are put on one chain, and then the one in the middle is taken out and put
back. -/
theorem operations_exact_narrow :
    ∃ net narrow short whole, (withBuckets 0).runAll threeGates = .ok net ∧ net.Hashed ∧
      net.widen 1 = .ok narrow ∧ narrow.Hashed ∧ narrow.table.size = 1 ∧
      narrow.withdraw 2 = .ok short ∧ short.Hashed ∧
      short.Chained 3 ∧ ¬ short.Chained 2 ∧ short.Chained 4 ∧
      short.enroll 2 = .ok whole ∧ whole.Hashed ∧ ∀ id ∈ [2, 3, 4], whole.Chained id := by
  have built : ∃ net, (withBuckets 0).runAll threeGates = .ok net ∧
      net.Hashed ∧ ∀ id ∈ [2, 3, 4], net.Chained id :=
    exists_runAll (fun net => [2, 3, 4].map fun id => (net.nodes.layout id).any Node.isGate)
      [true, true, true] (by simp [threeGates]) (by decide +kernel) fun net reached seen => by
        refine ⟨reached.hashed.1, fun id listed => (reached.hashed.2 id).mpr ?_⟩
        have gates : ∀ id ∈ [2, 3, 4], (net.nodes.layout id).any Node.isGate = true := by
          simpa using seen
        exact (Option.any_eq_true _ _).mp (gates id listed)
  obtain ⟨net, ran, hashed, chained⟩ := built
  obtain ⟨narrow, widened, size, held⟩ := hashed.operations_exact.2.2.2 1 ⟨0, rfl⟩
  have narrowed : ∀ id ∈ [2, 3, 4], narrow.Chained id := fun id listed =>
    (held.exact id).mpr (chained id listed)
  obtain ⟨short, withdrawn, _, left⟩ :=
    held.hashed.operations_exact.2.2.1 2 (narrowed 2 (by decide))
  have gone : ¬ short.Chained 2 := fun there => ((left.exact 2).mp there).2 rfl
  -- The gate keeps its key while it is not chained, and no other has it.
  obtain ⟨key, keyed⟩ := held.hashed.keyed (narrowed 2 (by decide))
  have free : ∀ x, short.Chained x → short.nodes.layout.key? x ≠ some key := by
    rw [left.nodes.layout_eq]
    exact fun x there same => ((left.exact x).mp there).2
      (held.hashed.unique ((left.exact x).mp there).1 (narrowed 2 (by decide)) same keyed)
  obtain ⟨whole, enrolled, _, back⟩ := left.hashed.operations_exact.2.1 2 key
    (left.nodes.layout_eq ▸ keyed) gone free
  refine ⟨net, narrow, short, whole, ran, hashed, widened, held.hashed,
    congrArg Extent.size size, withdrawn,
    left.hashed, (left.exact 3).mpr ⟨narrowed 3 (by decide), by decide⟩, gone,
    (left.exact 4).mpr ⟨narrowed 4 (by decide), by decide⟩, enrolled, back.hashed,
    fun id listed => (back.exact id).mpr ?_⟩
  exact or_iff_not_imp_left.mpr fun other => (left.exact id).mpr ⟨narrowed id listed, other⟩

end Network

end GateNet

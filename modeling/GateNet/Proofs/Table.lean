import GateNet.Proofs.Chain

/-!
# The table is exact

`enroll`, `withdraw` and `widen` add a gate to the table, remove one and move all of them; they
change links only.  `find?` finds exactly the gate of the table with a key.  All this holds in any
network whose chains are in order, whatever else is wrong with it; what is said of sound networks
follows.
-/

namespace GateNet

namespace Network

open Store (Tabled Relinked Rechained Chains Chain)

variable (net : Network) {member : NodeId → Prop}

/-! ## Finding -/

/-- A table with buckets has one for every key. -/
theorem head_eq (positive : 0 < net.table.size) (key : Key) :
    net.head key = .ok (net.table[key.bucket net.table.size]?).join := by
  rw [head, fetchAt_eq_ok_iff, Array.getElem?_eq_getElem (Key.bucket_lt positive key)]
  rfl

/-- The head of the chain of a key is replaced. -/
theorem storeAt_bucket (positive : 0 < net.table.size) (key : Key) (head : Option NodeId) :
    storeAt net.table (key.bucket net.table.size) head =
      .ok (net.table.setIfInBounds (key.bucket net.table.size) head) :=
  storeAt_eq (Key.bucket_lt positive key) head

theorem live_of_find? {nodes : Store Node} {test : Node → Bool} {list : List NodeId} {id : NodeId}
    (found : (list.find? fun x => (nodes.get? x).any test) = some id) :
    ∃ n, nodes.get? id = some n ∧ test n = true := by
  have passed := List.find?_some found
  simpa only [Option.any_eq_true] using passed

/-- A table whose gates have different keys finds a key exactly when one of them has it. -/
theorem exists_find? (tabled : net.nodes.Tabled net.table member)
    (unique : ∀ {x y key}, member x → member y → net.nodes.layout.key? x = some key →
      net.nodes.layout.key? y = some key → x = y) (key : Key) :
    ∃ found, net.find? key = .ok found ∧
      ∀ id, found = some id ↔ member id ∧ net.nodes.layout.key? id = some key := by
  obtain ⟨chain, chains, exact⟩ := tabled.exists_chains
  have searched : net.find? key = .ok ((chain (key.bucket net.table.size)).find? fun id =>
      (net.nodes.get? id).any (·.hasKey key)) := by
    rw [find?, head_eq net tabled.positive, ok_bind]
    exact Store.findOnChain_eq (chains.linked _) ((chains.linked _).length_le (chains.nodup _))
  -- What passes the test on a chain is a gate, and so it has the key.
  have passes : ∀ {id}, ((chain (key.bucket net.table.size)).find? fun id =>
      (net.nodes.get? id).any (·.hasKey key)) = some id →
      member id ∧ net.nodes.layout.key? id = some key := by
    intro id found
    have listed := List.mem_of_find?_eq_some found
    obtain ⟨m, held, passed⟩ := live_of_find? found
    obtain ⟨n, held', isGate, _⟩ := chains.keyed _ id listed
    obtain rfl := Option.some.inj ((Store.layout_of_get? held).symm.trans held')
    refine ⟨(exact id).mpr ⟨_, listed⟩, ?_⟩
    rw [Layout.key?_of_get? held, Node.key?_eq_some_iff]
    exact ⟨isGate, passed⟩
  refine ⟨_, searched, fun id => ⟨passes, fun ⟨inside, keyed⟩ => ?_⟩⟩
  -- A gate with the key stands on the chain that is searched.
  obtain ⟨b, listed⟩ := (exact id).mp inside
  obtain ⟨n, live, nodeKey⟩ := Layout.key?_eq_some_iff.mp keyed
  obtain rfl : key.bucket net.table.size = b := by
    rw [← Node.key_of_key? nodeKey]
    exact chains.bucket_eq listed live
  obtain ⟨m, held, rfl⟩ := Store.layout_eq_some_iff.mp live
  have passed : (net.nodes.get? id).any (·.hasKey key) = true := by
    rw [held, Option.any_some]
    exact (Node.key?_eq_some_iff.mp nodeKey).2
  cases found : (chain (key.bucket net.table.size)).find? fun id =>
      (net.nodes.get? id).any (·.hasKey key) with
  | none => exact absurd passed (List.find?_eq_none.mp found id listed)
  | some first =>
    -- The first gate that passes has the key too, and keys are unique.
    obtain ⟨inside', keyed'⟩ := passes found
    rw [unique inside' inside keyed' keyed]

/-- A table that holds all gates of a sound layout finds a key exactly when some gate has it. -/
theorem find?_spec (layout : net.nodes.layout.Sound)
    (tabled : net.nodes.Tabled net.table net.nodes.layout.HasGate) (key : Key) :
    ∃ found, net.find? key = .ok found ∧
      ∀ id, found = some id ↔ net.nodes.layout.key? id = some key := by
  obtain ⟨found, searched, exact⟩ :=
    net.exists_find? tabled (fun _ _ one two => layout.unique one two) key
  refine ⟨found, searched, fun id => (exact id).trans ?_⟩
  exact and_iff_right_of_imp Layout.hasGate_of_key?

/-! ## Adding and removing -/

/-- What a change of the table does: the nodes keep all but their links, and the table holds
another set of gates. -/
structure Retabled (net : Network) (nodes : Store Node) (table : Array (Option NodeId))
    (member : NodeId → Prop) : Prop where
  relinked : net.nodes.Relinked nodes
  tabled : nodes.Tabled table member

/-- What a change of the table does, whatever else is to be said of the nodes. -/
structure Rehashed (net : Network) (nodes : Store Node) (table : Array (Option NodeId))
    (member : NodeId → Prop) : Prop where
  rechained : net.nodes.Rechained nodes
  tabled : nodes.Tabled table member

variable {net} in
theorem Rehashed.retabled {nodes : Store Node} {table : Array (Option NodeId)}
    (rehashed : net.Rehashed nodes table member) (sound : net.nodes.Sound) :
    net.Retabled nodes table member :=
  ⟨rehashed.rechained.relinked sound, rehashed.tabled⟩

/-- A gate that is on no chain can be put on the chain of its key. -/
theorem exists_enroll (tabled : net.nodes.Tabled net.table member) {id : NodeId} {n : Node}
    (held : net.nodes.get? id = some n) (isGate : n.isGate = true) (outside : ¬ member id) :
    ∃ nodes table, net.enroll id = .ok { net with nodes, table } ∧
      net.Rehashed nodes table (fun x => x = id ∨ member x) ∧ table.size = net.table.size ∧
      ∀ x, x ≠ id → nodes.get? x = net.nodes.get? x := by
  obtain ⟨chain, chains, exact⟩ := tabled.exists_chains
  have small := Key.bucket_lt tabled.positive n.key
  have rechained := Rechained.modify net.nodes id (net.table[n.key.bucket net.table.size]?).join
  -- The gate is on no chain yet, so linking it breaks none.
  have fresh : ∀ {b x}, x ∈ chain b → x ≠ id := by
    rintro b x listed rfl
    exact outside ((exact x).mpr ⟨b, listed⟩)
  refine ⟨net.nodes.modify id ({ · with link := (net.table[n.key.bucket net.table.size]?).join }),
    net.table.setIfInBounds (n.key.bucket net.table.size) (some id),
    by simp only [enroll, Store.fetch_of_get? held, ok_bind, head_eq net tabled.positive,
      storeAt_bucket net tabled.positive, pure_eq_ok],
    ⟨rechained, ?_⟩, Array.size_setIfInBounds .., fun x different => by simp [different]⟩
  refine ⟨by rw [Array.size_setIfInBounds]; exact tabled.positive,
    Function.update chain (n.key.bucket net.table.size) (id :: chain (n.key.bucket net.table.size)),
    chains.update (Array.size_setIfInBounds ..) rechained.layout_eq
      (fun c different => Array.getElem?_setIfInBounds_ne different.symm)
      (fun c _ x listed => ?_) ?_ ?_ fun x listed => ?_, fun x => ?_⟩
  · rw [Store.get?_modify, if_neg (fresh listed)]
  · rw [Array.getElem?_setIfInBounds_self_of_lt small]
    refine ⟨rfl, { n with link := _ }, by rw [Store.get?_modify, if_pos rfl, held]; rfl, ?_⟩
    refine (chains.linked _).congr fun x listed => ?_
    rw [Store.get?_modify, if_neg (fresh listed)]
  · exact List.nodup_cons.mpr ⟨fun listed => fresh listed rfl, chains.nodup _⟩
  · rcases List.mem_cons.mp listed with rfl | listed
    · exact ⟨n.core, Store.layout_of_get? held, isGate, rfl⟩
    · exact chains.keyed _ x listed
  · rw [exact, Store.exists_mem_update, List.mem_cons]
    constructor
    · rintro (rfl | ⟨c, listed⟩)
      · exact .inl (.inl rfl)
      · by_cases here : c = n.key.bucket net.table.size
        · exact .inl (.inr (here ▸ listed))
        · exact .inr ⟨c, here, listed⟩
    · rintro ((rfl | listed) | ⟨c, _, listed⟩)
      · exact .inl rfl
      · exact .inr ⟨_, listed⟩
      · exact .inr ⟨c, listed⟩

theorem enroll_spec (sound : net.nodes.Sound) (tabled : net.nodes.Tabled net.table member)
    {id : NodeId} {n : Node} (held : net.nodes.get? id = some n) (isGate : n.isGate = true)
    (outside : ¬ member id) :
    ∃ nodes table, net.enroll id = .ok { net with nodes, table } ∧
      net.Retabled nodes table (fun x => x = id ∨ member x) := by
  obtain ⟨nodes, table, enrolled, rehashed, _⟩ := net.exists_enroll tabled held isGate outside
  exact ⟨nodes, table, enrolled, rehashed.retabled sound⟩

/-- Where a gate of the table stands: on the chain of its bucket, between two parts of it. -/
structure Located (net : Network) (member : NodeId → Prop) (id : NodeId) (n : Node) (b : Nat)
    (chain : Nat → List NodeId) (front back : List NodeId) : Prop where
  chains : net.nodes.Chains net.table chain
  exact : ∀ x, member x ↔ ∃ c, x ∈ chain c
  held : net.nodes.get? id = some n
  bucket : n.key.bucket net.table.size = b
  split : chain b = front ++ id :: back

theorem exists_located (tabled : net.nodes.Tabled net.table member) {id : NodeId}
    (inside : member id) : ∃ n b chain front back, net.Located member id n b chain front back := by
  obtain ⟨chain, chains, exact⟩ := tabled.exists_chains
  obtain ⟨b, listed⟩ := (exact id).mp inside
  obtain ⟨n, held⟩ := (chains.linked b).exists_get? id listed
  obtain ⟨front, back, split⟩ := List.append_of_mem listed
  refine ⟨n, b, chain, front, back, chains, exact, held, ?_, split⟩
  rw [← Node.core_key]
  exact chains.bucket_eq listed (Store.layout_of_get? held)

namespace Located

variable {net} {id before : NodeId} {n : Node} {b : Nat} {chain : Nat → List NodeId}
  {front init back : List NodeId}

theorem listed (located : net.Located member id n b chain front back) : id ∈ chain b := by
  rw [located.split]
  exact List.mem_append_right _ (.head _)

theorem linked (located : net.Located member id n b chain front back) :
    net.nodes.Chain (net.table[b]?).join (front ++ id :: back) :=
  located.split ▸ located.chains.linked b

theorem nodup (located : net.Located member id n b chain front back) :
    (front ++ id :: back).Nodup :=
  located.split ▸ located.chains.nodup b

theorem members (located : net.Located member id n b chain front back) (x : NodeId) :
    (member x ∧ x ≠ id) ↔ x ∈ front ++ back ∨ ∃ c, c ≠ b ∧ x ∈ chain c := by
  have nodup := located.nodup
  rw [located.exact]
  constructor
  · rintro ⟨⟨c, here⟩, different⟩
    by_cases same : c = b
    · rw [same, located.split] at here
      exact .inl (by simpa [different] using here)
    · exact .inr ⟨c, same, here⟩
  · rintro (here | ⟨c, different, here⟩)
    · refine ⟨⟨b, by rw [located.split]; simp at here ⊢; tauto⟩, ?_⟩
      rintro rfl
      simp [List.nodup_append] at nodup here
      grind
    · refine ⟨⟨c, here⟩, ?_⟩
      rintro rfl
      exact different (located.chains.apart here located.listed)

theorem keyed (located : net.Located member id n b chain front back) {x : NodeId}
    (here : x ∈ front ++ back) :
    ∃ n, net.nodes.layout x = some n ∧ n.isGate = true ∧ n.key.bucket net.table.size = b := by
  refine located.chains.keyed b x ?_
  rw [located.split]
  simp only [List.mem_append, List.mem_cons] at here ⊢
  tauto

theorem ne_of_mem (located : net.Located member id n b chain front back) {x : NodeId}
    (here : x ∈ front ++ back) : x ≠ id :=
  ((located.members x).mpr (.inl here)).2

theorem ne_elsewhere (located : net.Located member id n b chain front back) {c : Nat}
    (other : c ≠ b) {x : NodeId} (here : x ∈ chain c) : x ≠ id :=
  ((located.members x).mpr (.inr ⟨c, other, here⟩)).2

theorem withdraw_head (located : net.Located member id n b chain [] back)
    (tabled : net.nodes.Tabled net.table member) :
    ∃ nodes table, net.withdraw id = .ok { net with nodes, table } ∧
      net.Rehashed nodes table (fun x => member x ∧ x ≠ id) ∧ table.size = net.table.size := by
  have small : b < net.table.size := located.bucket ▸ Key.bucket_lt tabled.positive n.key
  have unlinked := Rechained.modify net.nodes id none
  obtain ⟨head, n', held', chained⟩ := located.linked
  obtain rfl := Option.some.inj (located.held.symm.trans held')
  refine ⟨net.nodes.modify id ({ · with link := none }), net.table.setIfInBounds b n.link,
    ?_, ⟨unlinked, ?_, ?_⟩, Array.size_setIfInBounds ..⟩
  · simp only [withdraw, Store.fetch_of_get? located.held, ok_bind, head_eq net tabled.positive,
      storeAt_bucket net tabled.positive, located.bucket, head, if_true, pure_eq_ok]
  · rw [Array.size_setIfInBounds]
    exact tabled.positive
  · refine ⟨Function.update chain b back,
      located.chains.update (Array.size_setIfInBounds ..) unlinked.layout_eq
        (fun c other => Array.getElem?_setIfInBounds_ne other.symm) (fun c other x here => ?_) ?_
        (List.nodup_cons.mp located.nodup).2 (fun x => located.keyed), fun x => ?_⟩
    · rw [Store.get?_modify, if_neg (located.ne_elsewhere other here)]
    · rw [Array.getElem?_setIfInBounds_self_of_lt small]
      refine chained.congr fun x here => ?_
      rw [Store.get?_modify, if_neg (located.ne_of_mem here)]
    · rw [Store.exists_mem_update]
      exact located.members x

theorem not_head (located : net.Located member id n b chain (init ++ [before]) back) :
    (net.table[b]?).join ≠ some id := by
  have linked := located.linked
  intro head
  rw [head] at linked
  cases init with
  | nil => exact located.ne_of_mem (x := before) (by simp) (Option.some.inj linked.1).symm
  | cons x init => exact located.ne_of_mem (x := x) (by simp) (Option.some.inj linked.1).symm

/-- Any other gate is taken out: the gate before it is found by its link, and leads past it. -/
theorem withdraw_later (located : net.Located member id n b chain (init ++ [before]) back)
    (tabled : net.nodes.Tabled net.table member) :
    ∃ nodes table, net.withdraw id = .ok { net with nodes, table } ∧
      net.Rehashed nodes table (fun x => member x ∧ x ≠ id) ∧ table.size = net.table.size := by
  have linked := located.linked
  have nodup := located.nodup
  have length := linked.length_le nodup
  rw [List.append_assoc, List.singleton_append] at linked nodup
  have found : findOnChain (net.nodes.modify id ({ · with link := none })) (·.link == some id)
      net.nodes.capacity (net.table[b]?).join = .ok (some before) := by
    refine Store.findOnChain_before linked nodup ?_ fun x other => by
      rw [Store.get?_modify, if_neg other]
    rw [List.length_append, List.length_append, List.length_singleton] at length
    omega
  have rechained := (Rechained.modify net.nodes id none).trans (.modify _ before n.link)
  -- Chains are disjoint, so relinking the gate before this one touches its own chain only.
  have notBefore : ∀ {c}, c ≠ b → ∀ {x}, x ∈ chain c → x ≠ before := by
    rintro c other x here rfl
    refine other (located.chains.apart here ?_)
    rw [located.split]
    simp
  refine ⟨(net.nodes.modify id ({ · with link := none })).modify before ({ · with link := n.link }),
    net.table, ?_, ⟨rechained, tabled.positive, Function.update chain b (init ++ before :: back),
      located.chains.update rfl rechained.layout_eq (fun c _ => rfl) (fun c other x here => ?_) ?_ ?_
        fun x here => located.keyed (by simpa using here), fun x => ?_⟩, rfl⟩
  · simp only [withdraw, Store.fetch_of_get? located.held, ok_bind, head_eq net tabled.positive,
      located.bucket, located.not_head, if_false, Store.capacity_modify, found, pure_eq_ok]
  · rw [Store.get?_modify, if_neg (notBefore other here), Store.get?_modify,
      if_neg (located.ne_elsewhere other here)]
  · refine (linked.splice nodup located.held).congr fun x here => ?_
    have other := located.ne_of_mem (x := x) (by simpa using here)
    simp only [Store.get?_modify, if_neg other]
  · refine nodup.sublist ?_
    exact (List.sublist_cons_self id back).cons_cons before |>.append_left init
  · rw [Store.exists_mem_update, located.members x]
    simp

end Located

/-- A gate of the table can be taken out. -/
theorem exists_withdraw (tabled : net.nodes.Tabled net.table member) {id : NodeId}
    (inside : member id) :
    ∃ nodes table, net.withdraw id = .ok { net with nodes, table } ∧
      net.Rehashed nodes table (fun x => member x ∧ x ≠ id) ∧ table.size = net.table.size := by
  obtain ⟨n, b, chain, front, back, located⟩ := net.exists_located tabled inside
  rcases List.eq_nil_or_concat front with rfl | ⟨init, before, rfl⟩
  · exact located.withdraw_head tabled
  · rw [List.concat_eq_append] at located
    exact located.withdraw_later tabled

theorem withdraw_spec (sound : net.nodes.Sound) (tabled : net.nodes.Tabled net.table member)
    {id : NodeId} (inside : member id) :
    ∃ nodes table, net.withdraw id = .ok { net with nodes, table } ∧
      net.Retabled nodes table (fun x => member x ∧ x ≠ id) := by
  obtain ⟨nodes, table, withdrawn, rehashed, _⟩ := net.exists_withdraw tabled inside
  exact ⟨nodes, table, withdrawn, rehashed.retabled sound⟩

/-! ## Widening -/

theorem exists_enrollChain {list : List NodeId} (net : Network) {member : NodeId → Prop} {steps : Nat}
    {head : Option NodeId} (tabled : net.nodes.Tabled net.table member)
    (chain : net.nodes.Chain head list) (enough : list.length ≤ steps) (nodup : list.Nodup)
    (gates : ∀ id ∈ list, net.nodes.layout.HasGate id) (outside : ∀ id ∈ list, ¬ member id) :
    ∃ nodes table, enrollChain steps head net = .ok { net with nodes, table } ∧
      net.Rehashed nodes table (fun x => x ∈ list ∨ member x) ∧ table.size = net.table.size ∧
      ∀ x, x ∉ list → nodes.get? x = net.nodes.get? x := by
  -- By induction on the chain: enrolling its first gate rewrites only the link of that gate, so
  -- the others still form a chain.
  induction list generalizing net member steps head with
  | nil =>
    obtain rfl : head = none := chain
    refine ⟨net.nodes, net.table, by cases steps <;> rfl, ⟨.refl _, ?_⟩, rfl, fun x _ => rfl⟩
    exact tabled.congr (by simp) (fun _ _ => rfl) fun _ _ => rfl
  | cons id rest inductionHypothesis =>
    obtain ⟨rfl, n, held, chain⟩ := chain
    obtain ⟨unlisted, nodup⟩ := List.nodup_cons.mp nodup
    obtain ⟨m, held', isGate⟩ := gates id (.head _)
    rw [Store.layout_of_get? held] at held'
    obtain rfl := Option.some.inj held'
    obtain ⟨nodes, table, enrolled, ⟨rechained, tabled⟩, size, others⟩ :=
      exists_enroll net tabled held isGate (outside id (.head _))
    cases steps with
    | zero => simp at enough
    | succ steps =>
      have apart : ∀ x ∈ rest, x ≠ id := by
        rintro x listed rfl
        exact unlisted listed
      obtain ⟨nodes', table', continued, ⟨rechained', tabled'⟩, size', others'⟩ :=
        inductionHypothesis { net with nodes, table } tabled
          (chain.congr fun x listed => by rw [others x (apart x listed)])
          (by simpa using enough) nodup
          (fun x listed => by
            show nodes.layout.HasGate x
            rw [rechained.layout_eq]
            exact gates x (.tail _ listed))
          (fun x listed => by
            rintro (rfl | inside)
            · exact unlisted listed
            · exact outside x (.tail _ listed) inside)
      refine ⟨nodes', table', ?_, ⟨rechained.trans rechained', ?_⟩, size'.trans size, fun x out => ?_⟩
      · simp only [enrollChain, Store.fetch_of_get? held, enrolled]
        exact continued
      · refine tabled'.congr (fun x => ?_) (fun _ _ => rfl) fun _ _ => rfl
        rw [List.mem_cons]
        tauto
      · rw [List.mem_cons, not_or] at out
        rw [others' x out.2, ← others x out.1]

theorem exists_enrollChains {heads : List (Option NodeId)} {lists : List (List NodeId)}
    (net : Network) {member : NodeId → Prop} (tabled : net.nodes.Tabled net.table member)
    (linked : List.Forall₂ net.nodes.Chain heads lists) (nodup : lists.flatten.Nodup)
    (gates : ∀ id ∈ lists.flatten, net.nodes.layout.HasGate id)
    (outside : ∀ id ∈ lists.flatten, ¬ member id) :
    ∃ nodes table, heads.foldlM
        (fun net head =>
          enrollChain ((net.nodes.capacity + 1) * (net.nodes.capacity + 1)) head net) net =
          .ok { net with nodes, table } ∧
      net.Rehashed nodes table (fun x => x ∈ lists.flatten ∨ member x) ∧
      table.size = net.table.size := by
  induction lists generalizing heads net member with
  | nil =>
    obtain rfl := List.forall₂_nil_right_iff.mp linked
    refine ⟨net.nodes, net.table, rfl, ⟨.refl _, ?_⟩, rfl⟩
    exact tabled.congr (by simp) (fun _ _ => rfl) fun _ _ => rfl
  | cons list lists inductionHypothesis =>
    obtain ⟨head, heads, chain, chains, rfl⟩ := List.forall₂_cons_right_iff.mp linked
    rw [List.flatten_cons, List.nodup_append] at nodup
    obtain ⟨nodupFirst, nodupRest, apart⟩ := nodup
    have enough : list.length ≤ (net.nodes.capacity + 1) * (net.nodes.capacity + 1) :=
      (chain.length_le nodupFirst).trans ((Nat.le_succ _).trans (Nat.le_mul_self _))
    obtain ⟨nodes, table, enrolled, ⟨rechained, tabled⟩, size, others⟩ :=
      exists_enrollChain net tabled chain enough nodupFirst
        (fun x listed => gates x (by simp [listed])) fun x listed => outside x (by simp [listed])
    have unlisted : ∀ x ∈ lists.flatten, x ∉ list := fun x later now => apart x now x later rfl
    -- No gate is in two chains, so enrolling the first chain leaves the links of the others.
    have chains' : List.Forall₂ nodes.Chain heads lists := by
      refine (List.forall₂_iff_get ..).mpr ⟨chains.length_eq, fun i small small' => ?_⟩
      refine (chains.get small small').congr fun x here => ?_
      rw [others x (unlisted x (List.mem_flatten.mpr ⟨_, List.get_mem .., here⟩))]
    obtain ⟨nodes', table', continued, ⟨rechained', tabled'⟩, size'⟩ :=
      inductionHypothesis { net with nodes, table } tabled chains' nodupRest
        (fun x listed => by
          show nodes.layout.HasGate x
          rw [rechained.layout_eq]
          exact gates x (by simp [listed]))
        (fun x listed => by
          rintro (now | inside)
          · exact unlisted x listed now
          · exact outside x (by simp [listed]) inside)
    refine ⟨nodes', table', ?_, ⟨rechained.trans rechained', ?_⟩, size'.trans size⟩
    · rw [List.foldlM_cons, enrolled, ok_bind]
      exact continued
    · refine tabled'.congr (fun x => ?_) (fun _ _ => rfl) fun _ _ => rfl
      rw [List.flatten_cons, List.mem_append]
      tauto

/-- The table can be made of any positive size and holds the same gates afterwards. -/
theorem exists_widen (tabled : net.nodes.Tabled net.table member) {size : Nat}
    (positive : 0 < size) :
    ∃ nodes table, net.widen size = .ok { net with nodes, table, limit := limitFor size } ∧
      net.Rehashed nodes table member ∧ table.size = size := by
  obtain ⟨lists, linked, nodup, listed⟩ := tabled.exists_lists
  obtain ⟨nodes, table, enrolled, ⟨rechained, tabled'⟩, size'⟩ :=
    exists_enrollChains { net with table := Array.replicate size none, limit := limitFor size }
      (Store.tabled_replicate net.nodes positive) linked nodup
      (fun id here => tabled.hasGate ((listed id).mp here)) fun _ _ => id
  refine ⟨nodes, table, enrolled, ⟨rechained, ?_⟩, by simpa using size'⟩
  exact tabled'.congr (fun x => by rw [listed, or_false]) (fun _ _ => rfl) fun _ _ => rfl

theorem widenIfFull_spec (sound : net.nodes.Sound) (tabled : net.nodes.Tabled net.table member) :
    ∃ nodes table limit, net.widenIfFull = .ok { net with nodes, table, limit } ∧
      net.Retabled nodes table member := by
  unfold widenIfFull
  split
  · have positive : 0 < 2 * net.table.size := Nat.mul_pos (by decide) tabled.positive
    obtain ⟨nodes, table, widened, rehashed, _⟩ := exists_widen net tabled positive
    exact ⟨nodes, table, _, widened, rehashed.retabled sound⟩
  · exact ⟨net.nodes, net.table, net.limit, rfl, Rehashed.retabled ⟨.refl _, tabled⟩ sound⟩

end Network

end GateNet

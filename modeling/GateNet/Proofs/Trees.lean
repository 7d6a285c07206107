import GateNet.Proofs.Confined
import GateNet.Proofs.Levels
import GateNet.Proofs.Sharing
import Mathlib.Data.Nat.Log

/-!
# Trees of gates

A tree joins the two halves of a list of signals, each of which is a tree again.  Whatever the
gates fold to and share, the word of a tree is that of the operator on all signals, it takes one
gate less than there are signals at most, and it lies above its signals by the logarithm of their
number at most.
-/

namespace GateNet

/-! ## Heights of signals -/

/-- The height of the node that a signal reads, 0 for a constant. -/
def Signal.height (h : NodeId → Nat) (s : Signal) : Nat :=
  s.node.elim 0 h

theorem Signal.height_le {h : NodeId → Nat} {s : Signal} {bound : Nat}
    (below : ∀ d, s.node = some d → h d ≤ bound) : s.height h ≤ bound := by
  unfold height
  cases read : s.node with
  | none => exact Nat.zero_le _
  | some d => exact below d read

theorem Signal.height_eq {h : NodeId → Nat} {s : Signal} {d : NodeId} (read : s.node = some d) :
    s.height h = h d := by
  rw [height, read]
  rfl

theorem Signal.height_congr {h h' : NodeId → Nat} {s : Signal}
    (same : ∀ d, s.node = some d → h d = h' d) : s.height h = s.height h' := by
  unfold height
  cases read : s.node with
  | none => rfl
  | some d => exact same d read

/-- One level more for two lists of almost one length. -/
theorem clog_length_append {m n : Nat} (positive : 0 < m) (balanced : n = m ∨ n = m + 1) :
    1 + max (Nat.clog 2 m) (Nat.clog 2 n) = Nat.clog 2 (m + n) := by
  have half : (m + n + 2 - 1) / 2 = n := by omega
  have above : Nat.clog 2 m ≤ Nat.clog 2 n := Nat.clog_mono_right 2 (by omega)
  rw [Nat.clog_of_two_le Nat.one_lt_two (by omega : 2 ≤ m + n), half, max_eq_right above,
    Nat.add_comm]

namespace Network

/-! ## Operators on words -/

/-- What an operator does to two words, and the word of no signals. -/
inductive Operator.Joins : Operator → (Word → Word → Word) → Word → Prop
  | conjunction : Joins .conjunction (· &&& ·) (BitVec.allOnes 64)
  | disjunction : Joins .disjunction (· ||| ·) 0
  | parity : Joins .parity (· ^^^ ·) 0

namespace Operator.Joins

variable {op : Operator} {join : Word → Word → Word} {neutral : Word}

theorem evalWords_eq (joins : op.Joins join neutral) (a b : Word) :
    op.gate.evalWords a b = join a b := by
  apply BitVec.eq_of_getLsbD_eq
  intro k small
  rw [Gate.getLsbD_evalWords _ _ _ _ small]
  cases joins <;> cases first : a.getLsbD k <;> cases second : b.getLsbD k <;>
    simp [first, second, Operator.conjunction, Operator.disjunction, Operator.parity, Gate.and,
      Gate.or, Gate.xor, Gate.eval]

theorem node_neutral (joins : op.Joins join neutral) : op.neutral.node = none := by
  cases joins <;> rfl

theorem word_neutral (joins : op.Joins join neutral) (v : NodeId → Word) :
    op.neutral.word v = neutral := by
  cases joins with
  | conjunction => exact (by decide : ~~~(0 : Word) = BitVec.allOnes 64)
  | disjunction | parity => rfl

theorem associative (joins : op.Joins join neutral) : Std.Associative join := by
  cases joins
  · exact ⟨BitVec.and_assoc⟩
  · exact ⟨BitVec.or_assoc⟩
  · exact ⟨BitVec.xor_assoc⟩

theorem neutral_join (joins : op.Joins join neutral) (word : Word) : join neutral word = word := by
  cases joins
  · exact BitVec.allOnes_and
  · exact BitVec.zero_or
  · exact BitVec.zero_xor

theorem join_neutral (joins : op.Joins join neutral) (word : Word) : join word neutral = word := by
  cases joins
  · exact BitVec.and_allOnes
  · exact BitVec.or_zero
  · exact BitVec.xor_zero

/-- Joining what the halves of a list give is what the list gives. -/
theorem foldr_append (joins : op.Joins join neutral) (front back : List Word) :
    (front ++ back).foldr join neutral =
      join (front.foldr join neutral) (back.foldr join neutral) := by
  have := joins.associative
  calc (front ++ back).foldr join neutral
      = front.foldr join (join neutral (back.foldr join neutral)) := by
        rw [List.foldr_append, joins.neutral_join]
    _ = join (front.foldr join neutral) (back.foldr join neutral) := List.foldr_assoc

end Operator.Joins

/-! ## Heights of parts -/

variable {net middle last after : Network} {h : NodeId → Nat} {gate : Gate} {s t r : Signal}

/-- Heights of the nodes that may drive; of other ids nothing is said. -/
def Graded (net : Network) (h : NodeId → Nat) : Prop :=
  ∀ id, net.nodes.layout.MayDrive id →
    net.nodes.layout.circuit.Solves heightAbove (fun _ => 0) h id

theorem Heights.graded (heights : Heights net.nodes.layout h) : net.Graded h :=
  fun id _ => heights id

theorem Graded.eq_of_key? (graded : net.Graded h) {id : NodeId} {key : Key}
    (keyed : net.nodes.layout.key? id = some key) : h id = 1 + max (h key.first) (h key.second) :=
  (Layout.solves_gate_iff keyed).mp (graded id (Layout.hasGate_of_key? keyed).mayDrive)

/-- Heights of the whole are heights of the part. -/
theorem PartOf.graded (inside : net.PartOf after) (graded : after.Graded h) : net.Graded h :=
  fun _ => inside.solves graded

theorem Graded.eq_of_heights (graded : net.Graded h) (sound : net.Sound) {h' : NodeId → Nat}
    (heights : Heights net.nodes.layout h') {id : NodeId} (drives : net.nodes.layout.MayDrive id) :
    h id = h' id :=
  Circuit.solution_unique sound.woven.layout.acyclic local_heightAbove
    (fun _ _ _ => sound.woven.layout.mayDrive_of_reads) (fun _ _ => rfl) (fun _ _ _ => rfl) graded
    (fun id _ => heights id) id drives

/-- What carries a request is one level above its operands at most. -/
theorem Realized.height_le {reuse : Option NodeId}
    (realized : net.Realized reuse (.ofRequest gate s t) r after) (graded : after.Graded h) :
    r.height h ≤ 1 + max (s.height h) (t.height h) := by
  refine Signal.height_le fun d read => ?_
  rcases Normal.ofRequest_cases gate s t with ⟨q, made, reads⟩ | ⟨key, inverted, made, _, operands⟩
  · rw [made] at realized
    cases realized
    rcases reads d read with read | read <;> rw [Signal.height_eq read] <;> omega
  · rw [made] at realized
    obtain ⟨x, rfl, keyed⟩ := realized.key?
    obtain rfl : x = d := Option.some.inj read
    rw [graded.eq_of_key? keyed]
    rcases operands with ⟨first, second⟩ | ⟨first, second⟩ <;>
      rw [Signal.height_eq first, Signal.height_eq second]
    rw [max_comm]

/-! ## Building a tree -/

/-- A tree over signals: the network has got the gates that it took, and else nothing is changed. -/
structure Planted (join : Word → Word → Word) (neutral : Word) (net : Network)
    (signals : List Signal) (r : Signal) (made : List NodeId) (after : Network) : Prop where
  sound : after.Sound
  confined : net.Confined (fun _ => False) made after
  few : made.length ≤ signals.length - 1
  fit : after.Fit r
  word : ∀ {words v}, after.Carries words v →
    r.word v = (signals.map fun s => s.word v).foldr join neutral
  height : ∀ {h bound}, after.Graded h → (∀ s ∈ signals, s.height h ≤ bound) →
    r.height h ≤ bound + Nat.clog 2 signals.length

namespace Planted

variable {op : Operator} {join : Word → Word → Word} {neutral : Word} {front back : List Signal}
  {a b : Signal} {made later : List NodeId}

theorem empty (sound : net.Sound) (joins : op.Joins join neutral) :
    Planted join neutral net [] op.neutral [] net where
  sound := sound
  confined := .refl net _
  few := Nat.le_refl _
  fit d read := by
    rw [joins.node_neutral] at read
    cases read
  word _ := joins.word_neutral _
  height _ _ := Signal.height_le fun d read => by
    rw [joins.node_neutral] at read
    cases read

theorem single (sound : net.Sound) (joins : op.Joins join neutral) (fit : net.Fit s) :
    Planted join neutral net [s] s [] net where
  sound := sound
  confined := .refl net _
  few := Nat.le_refl _
  fit := fit
  word _ := (joins.join_neutral _).symm
  height _ below := (below s (.head _)).trans (Nat.le_add_right _ _)

/-- Two trees over almost equally many signals are joined by a gate. -/
theorem joined (lower : Planted join neutral net front a made middle)
    (upper : Planted join neutral middle back b later last) (joins : op.Joins join neutral)
    (positive : 0 < front.length)
    (balanced : back.length = front.length ∨ back.length = front.length + 1) :
    ∃ r more after, last.addGate op.gate a b = .ok (.done r after) ∧
      Planted join neutral net (front ++ back) r more after := by
  have left : last.Fit a := upper.confined.partOf.fit lower.fit
  obtain ⟨r, after, added, realized⟩ :=
    upper.sound.addGate (q := ⟨op.gate, a, b⟩) left upper.fit
  obtain ⟨more, new, confined⟩ := realized.confined
  replace confined : last.Confined (fun _ => False) more after :=
    confined.widen fun _ reused => by cases reused
  refine ⟨r, made ++ later ++ more, after, added, realized.sound upper.sound,
    ((lower.confined.trans upper.confined).trans confined).widen fun _ here => by simp at here,
    ?_, realized.fit left upper.fit, fun carries => ?_, fun {h bound} graded below => ?_⟩
  · have few := lower.few
    have few' := upper.few
    have one : more.length ≤ 1 := by rcases new with rfl | ⟨x, rfl, _⟩ <;> simp
    simp only [List.length_append]
    omega
  · -- Words of the last network are words of those before, so both halves have theirs.
    have carriesLast := confined.partOf.carries carries
    have carriesMiddle := upper.confined.partOf.carries carriesLast
    rw [realized.word carries, joins.evalWords_eq, lower.word carriesMiddle, upper.word carriesLast,
      List.map_append, joins.foldr_append]
  · have gradedLast := confined.partOf.graded graded
    have gradedMiddle := upper.confined.partOf.graded gradedLast
    have high : r.height h ≤ 1 + max (a.height h) (b.height h) := realized.height_le graded
    have first := lower.height gradedMiddle fun s listed =>
      below s (List.mem_append.mpr (.inl listed))
    have second := upper.height gradedLast fun s listed =>
      below s (List.mem_append.mpr (.inr listed))
    rw [List.length_append, ← clog_length_append positive balanced]
    omega

end Planted

/-- Over signals that may be read a tree is built. -/
theorem combine_planted {op : Operator} {join : Word → Word → Word} {neutral : Word}
    (joins : op.Joins join neutral) (sound : net.Sound) {signals : List Signal}
    (fit : ∀ s ∈ signals, net.Fit s) :
    ∃ r made after, net.combine op signals = .ok (.done r after) ∧
      Planted join neutral net signals r made after := by
  induction net, signals using combine.induct with
  | case1 net =>
    rw [combine]
    exact ⟨_, _, _, rfl, .empty sound joins⟩
  | case2 net s =>
    have fit := fit s (.head _)
    rw [combine, checkDriver_eq_ok_iff.mpr fit]
    exact ⟨_, _, _, rfl, .single sound joins fit⟩
  | case3 net s t rest half lower upper =>
    have front : ((s :: t :: rest).take half).length = (rest.length + 2) / 2 := by
      simp only [List.length_take, List.length_cons, half]
      omega
    have back : ((s :: t :: rest).drop half).length = rest.length + 2 - (rest.length + 2) / 2 :=
      List.length_drop
    obtain ⟨a, made, middle, madeEq, lower⟩ :=
      lower sound fun s listed => fit s (List.mem_of_mem_take listed)
    obtain ⟨b, later, last, laterEq, upper⟩ := upper middle lower.sound fun s listed =>
      lower.confined.partOf.fit (fit s (List.mem_of_mem_drop listed))
    obtain ⟨r, more, after, added, planted⟩ := lower.joined upper joins (by omega) (by omega)
    rw [List.take_append_drop] at planted
    refine ⟨r, more, after, ?_, planted⟩
    rw [combine]
    simp only [half] at madeEq laterEq
    simp only [madeEq, laterEq, ok_bind, Outcome.andThen, Outcome.done, added]

/-! ## Levels -/

/-- The level of the node that a signal reads, 0 for a constant. -/
def levelIn (levels : Array Nat) (s : Signal) : Nat :=
  s.node.elim 0 fun id => levels[id]?.getD 0

theorem DepthsEntered.levelIn_eq {before : List NodeId} {levels : Array Nat}
    (entered : net.DepthsEntered h before levels) (fit : net.Fit s) :
    levelIn levels s = s.height h := by
  unfold levelIn Signal.height
  cases read : s.node with
  | none => rfl
  | some d => simp [entered.drivers d (fit d read)]

/-- A tree over signals that may be read is built, and it computes the operator on all of them.  On
every input it has the word of the operator on the words of the signals; signals that could be read
before keep their words; one gate less than there are signals is made at most; and the tree lies
above the highest signal by the logarithm of their number at most. -/
theorem Reachable.combine_computes (reachable : net.Reachable) {op : Operator}
    {join : Word → Word → Word} {neutral : Word} (joins : op.Joins join neutral)
    {signals : List Signal} (fit : ∀ s ∈ signals, net.Fit s) :
    ∃ r made after levels levels', net.combine op signals = .ok (.done r after) ∧
      net.Confined (fun _ => False) made after ∧ made.length ≤ signals.length - 1 ∧
      (∀ words : List Word, words.length = net.inputs.size →
        (∃ values, List.Forall₂ (net.Evaluates words) signals values ∧
          after.Evaluates words r (values.foldr join neutral)) ∧
        ∀ q, net.Fit q → ∃ word, net.Evaluates words q word ∧ after.Evaluates words q word) ∧
      net.depths = .ok levels ∧ after.depths = .ok levels' ∧
      levelIn levels' r ≤ (signals.map (levelIn levels)).foldl max 0 + Nat.clog 2 signals.length := by
  have sound := reachable.sound
  obtain ⟨r, made, after, built, planted⟩ := combine_planted joins sound fit
  have inside := planted.confined.partOf
  obtain ⟨h, heights⟩ := sound.exists_heights
  obtain ⟨levels, computed, entered⟩ := depths_spec sound heights
  obtain ⟨h', heights'⟩ := planted.sound.exists_heights
  obtain ⟨levels', computed', entered'⟩ := depths_spec planted.sound heights'
  refine ⟨r, made, after, levels, levels', built, planted.confined, planted.few,
    fun words length => ⟨?_, fun q fit => inside.exists_evaluates sound planted.sound length fit⟩,
    computed, computed', ?_⟩
  · obtain ⟨v, carries⟩ := planted.sound.exists_carries words
    refine ⟨signals.map fun s => s.word v, ?_, ?_⟩
    · rw [List.forall₂_map_right_iff, List.forall₂_same]
      exact fun s listed => sound.evaluates length (inside.carries carries) (fit s listed)
    · rw [← planted.word carries]
      exact planted.sound.evaluates (by rw [← inside.inputs, length]) carries planted.fit
  · rw [entered'.levelIn_eq planted.fit]
    refine planted.height heights'.graded fun s listed => ?_
    -- A signal that is there already has its level in both networks.
    have same : s.height h' = levelIn levels s := by
      rw [entered.levelIn_eq (fit s listed)]
      exact Signal.height_congr fun d read =>
        (inside.graded heights'.graded).eq_of_heights sound heights (fit s listed d read)
    rw [same]
    exact (isGreatest_foldl_max _ 0).2 (.inr (List.mem_map_of_mem listed))

/-- Two inputs and a gate, and signals of these with repetitions and complements. -/
def repeatedSignals : List Signal :=
  [.positive 0, .positive 1, .positive 3, .negative 0, .positive 1]

/-- A tree over an odd number of signals: its first gate is there already, and the gates above are
made. -/
theorem combine_computes_repeated :
    ∃ net, (withBuckets 0).runAll [.addPort "p" 2, .addInput 0 0, .addInput 0 1, .addOutput 0 0,
        .addGate .and (.positive 0) (.positive 1)] = .ok net ∧
      ∃ r after levels levels', ∃ values : List Word,
        net.combine .conjunction repeatedSignals = .ok (.done r after) ∧
        List.Forall₂ (net.Evaluates [5, 3]) repeatedSignals values ∧
        after.Evaluates [5, 3] r (values.foldr (· &&& ·) (BitVec.allOnes 64)) ∧
        net.depths = .ok levels ∧ after.depths = .ok levels' ∧
        levelIn levels' r ≤ (repeatedSignals.map (levelIn levels)).foldl max 0 + Nat.clog 2 5 := by
  refine exists_runAll (fun net => (repeatedSignals.forM net.checkDriver, net.inputs.size))
    (.ok (), 2) (by simp) (by decide +kernel) ?_
  intro net reached seen
  obtain ⟨passed, size⟩ := Prod.mk.inj seen
  have fit : ∀ s ∈ repeatedSignals, net.Fit s := fun s listed =>
    checkDriver_eq_ok_iff.mp (forM_eq_ok_iff.mp passed s listed)
  obtain ⟨r, _, after, levels, levels', built, _, _, words, computed, computed', low⟩ :=
    reached.combine_computes .conjunction fit
  obtain ⟨⟨values, each, joined⟩, _⟩ := words [5, 3] size.symm
  exact ⟨r, after, levels, levels', values, built, each, joined, computed, computed', low⟩

end Network

end GateNet

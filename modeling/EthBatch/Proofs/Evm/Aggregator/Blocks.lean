import EthBatch.Proofs.Evm.Aggregator.Calldata
import EthBatch.Proofs.Evm.Straight
import EthBatch.Proofs.Evm.Word

/-!
# The blocks of the aggregator

What each stretch of the program between two jumps does to the stack and the memory, given the
values of the variables that it reads. Such a stretch is run by evaluation, store by store, which
leaves terms of words; the work is to show which words they are.
-/

namespace EthBatch.Evm.Aggregator

open Machine Aggregate

variable {m : Machine} {labels : Labels} {memory : Memory} {result : Bytes}
  {history : List Event} {calls before after : List SubCall} {c : SubCall} {n i tail : Nat}
  {success : Bool}

/-! ## Before the loop -/

/-- A memory with the variables of a loop over so many calls, and the start of the response. -/
def opened (memory : Memory) (count : Nat) : Memory :=
  (((((memory.writeWord arraySlot (BitVec.ofNat 256 0x24)).writeWord countSlot
    (BitVec.ofNat 256 count)).writeWord output (BitVec.ofNat 256 0x20)).writeWord
    (output + 0x20) (BitVec.ofNat 256 count)).writeWord tailSlot
    (BitVec.ofNat 256 (content + 0x20 * count))).writeWord indexSlot (BitVec.ofNat 256 0)

theorem runs_start (given : m.calldata = calldata calls) :
    m.Runs labels start (⟨·, [], memory, result, history⟩)
      (⟨·, [], opened memory calls.length, result, history⟩) := by
  generalize first : memory.writeWord arraySlot (BitVec.ofNat 256 0x24) = m₁
  generalize second : m₁.writeWord countSlot (BitVec.ofNat 256 calls.length) = m₂
  generalize third : m₂.writeWord output (BitVec.ofNat 256 0x20) = m₃
  generalize fourth : m₃.writeWord (output + 0x20) (BitVec.ofNat 256 calls.length) = m₄
  generalize fifth : m₄.writeWord tailSlot (BitVec.ofNat 256 (content + 0x20 * calls.length)) = m₅
  have count : m₃.readWord countSlot = BitVec.ofNat 256 calls.length := by
    rw [← third, Memory.readWord_writeWord_of_disjoint _ (by decide), ← second,
      Memory.readWord_writeWord]
  rw [opened, first, second, third, fourth, fifth]
  refine Runs.append (t := (⟨·, [], m₅, result, history⟩)) (Runs.append
    (t := (⟨·, [], m₄, result, history⟩)) (Runs.append (t := (⟨·, [], m₃, result, history⟩))
      (Runs.append (t := (⟨·, [], m₂, result, history⟩)) (Runs.append
        (t := (⟨·, [], m₁, result, history⟩)) ?_ ?_) ?_) ?_) ?_) ?_
  · have array : wordAt m.calldata (BitVec.ofNat 256 4).toNat + BitVec.ofNat 256 4 =
        BitVec.ofNat 256 0x24 := by
      rw [Word.toNat_ofNat (by decide), given, wordAt_array, Word.ofNat_add]
    rw [← first, ← array]
    exact fun _ => ⟨_, rfl⟩
  · have length : wordAt m.calldata (m₁.readWord arraySlot).toNat =
        BitVec.ofNat 256 calls.length := by
      rw [← first, Memory.readWord_writeWord, Word.toNat_ofNat (by decide), given, wordAt_count]
    rw [← second, ← length]
    exact fun _ => ⟨_, rfl⟩
  · rw [← third]
    exact fun _ => ⟨_, rfl⟩
  · rw [← fourth, ← count]
    exact fun _ => ⟨_, rfl⟩
  · have tail : BitVec.ofNat 256 content + m₄.readWord countSlot * BitVec.ofNat 256 0x20 =
        BitVec.ofNat 256 (content + 0x20 * calls.length) := by
      rw [← fourth, Memory.readWord_writeWord_of_disjoint _ (by decide), count, Word.ofNat_mul,
        Word.ofNat_add, Nat.mul_comm]
    rw [← fifth, ← tail]
    exact fun _ => ⟨_, rfl⟩
  · exact fun _ => ⟨_, rfl⟩

/-! ## Finding a call -/

/-- A memory with the variables of the current call. -/
def located (memory : Memory) (call length : Nat) : Memory :=
  ((memory.writeWord callSlot (BitVec.ofNat 256 call)).writeWord dataSlot
    (BitVec.ofNat 256 (call + 0x60))).writeWord lengthSlot (BitVec.ofNat 256 length)

theorem runs_locate (split : calls = before ++ c :: after) (given : m.calldata = calldata calls)
    (small : (calldata calls).length < 2 ^ 256)
    (array : memory.readWord arraySlot = BitVec.ofNat 256 0x24)
    (index : memory.readWord indexSlot = BitVec.ofNat 256 before.length) :
    m.Runs labels locate (⟨·, [], memory, result, history⟩)
      (⟨·, [], located memory (0x24 + place calls before) c.data.length, result, history⟩) := by
  have inside := place_le calls before after c split
  have head : 0x44 + 0x20 * before.length ≤ 0x24 + place calls before := by
    rw [place, split, List.length_append]
    omega
  generalize found : memory.writeWord callSlot
    (BitVec.ofNat 256 (0x24 + place calls before)) = m₁
  generalize described : m₁.writeWord dataSlot
    (BitVec.ofNat 256 (0x24 + place calls before + 0x60)) = m₂
  have call : m₁.readWord callSlot = BitVec.ofNat 256 (0x24 + place calls before) := by
    rw [← found, Memory.readWord_writeWord]
  have data : m₂.readWord dataSlot = BitVec.ofNat 256 (0x24 + place calls before + 0x60) := by
    rw [← described, Memory.readWord_writeWord]
  rw [located, found, described]
  refine Runs.append (t := (⟨·, [], m₂, result, history⟩))
    (Runs.append (t := (⟨·, [], m₁, result, history⟩)) ?_ ?_) ?_
  · have here : memory.readWord arraySlot + (BitVec.ofNat 256 0x20 + wordAt m.calldata
        (memory.readWord arraySlot + (BitVec.ofNat 256 0x20 +
          memory.readWord indexSlot * BitVec.ofNat 256 0x20)).toNat) =
        BitVec.ofNat 256 (0x24 + place calls before) := by
      have entry : 0x24 + (0x20 + before.length * 0x20) = 0x44 + 0x20 * before.length := by omega
      rw [array, index, given, Word.ofNat_mul, Word.ofNat_add, Word.ofNat_add, entry,
        Word.toNat_ofNat (by omega), wordAt_place calls before after c split, Word.ofNat_add]
    rw [← found, ← here]
    exact fun _ => ⟨_, rfl⟩
  · have behind : m₁.readWord callSlot + wordAt m.calldata
        (BitVec.ofNat 256 0x40 + m₁.readWord callSlot).toNat =
        BitVec.ofNat 256 (0x24 + place calls before + 0x60) := by
      rw [call, given, Word.ofNat_add, Word.toNat_ofNat (by omega), Nat.add_comm 0x40,
        wordAt_call calls before after c split, SubCall.wordAt_offset, Word.ofNat_add]
    rw [← described, ← behind]
    exact fun _ => ⟨_, rfl⟩
  · have length : wordAt m.calldata (m₂.readWord dataSlot).toNat =
        BitVec.ofNat 256 c.data.length := by
      rw [data, given, Word.toNat_ofNat (by omega), wordAt_call calls before after c split,
        SubCall.wordAt_length]
    rw [← length]
    exact fun _ => ⟨_, rfl⟩

/-! ## Calling -/

/-- The call is made to the account that the calldata name, with the staged bytes. -/
theorem runs_invoke {account : Word} {input reply : Bytes}
    (target : (wordAt m.calldata (memory.readWord callSlot).toNat).account = account)
    (staged : memory.read (memory.readWord tailSlot + BitVec.ofNat 256 0x60).toNat
      (memory.readWord lengthSlot).toNat = input)
    (answered : m.oracle.call history account 0 input = (success, reply)) :
    m.Runs labels invoke (⟨·, [], memory, result, history⟩)
      (⟨·, [.ofBool success], memory, reply,
        history ++ [.call account 0 input success reply]⟩) := by
  obtain ⟨rfl, rfl⟩ := Prod.ext_iff.mp answered
  subst target staged
  have untouched (reply : Bytes) : memory.write 0 (reply.take 0) = memory := by
    rw [List.take_zero, Memory.write_nil]
  intro pc
  refine ⟨_, Eq.trans rfl (congrArg (fun memory => some (State.mk _ _ memory _ _))
    (untouched _))⟩

theorem runs_callTarget {reply : Bytes} (split : calls = before ++ c :: after)
    (given : m.calldata = calldata calls) (small : (calldata calls).length < 2 ^ 256)
    (call : memory.readWord callSlot = BitVec.ofNat 256 (0x24 + place calls before))
    (data : memory.readWord dataSlot = BitVec.ofNat 256 (0x24 + place calls before + 0x60))
    (length : memory.readWord lengthSlot = BitVec.ofNat 256 c.data.length)
    (tail : memory.readWord tailSlot = BitVec.ofNat 256 n) (above : content ≤ n)
    (room : n + 0x60 + c.data.length < 2 ^ 256)
    (answered : m.oracle.call history c.target.word 0 c.data = (success, reply)) :
    m.Runs labels callTarget (⟨·, [], memory, result, history⟩)
      (⟨·, [], (memory.write (n + 0x60) c.data).writeWord successSlot (.ofBool success), reply,
        history ++ [.call c.target.word 0 c.data success reply]⟩) := by
  have inside := place_le calls before after c split
  generalize staged : memory.write (n + 0x60) c.data = m₁
  have kept (slot : Nat) (h : slot + 32 ≤ content) : m₁.readWord slot = memory.readWord slot := by
    rw [← staged]
    exact memory.readWord_write_of_disjoint (.inl (by omega))
  refine Runs.append (t := (⟨·, [Word.ofBool success], m₁, reply,
    history ++ [.call c.target.word 0 c.data success reply]⟩))
    (Runs.append (t := (⟨·, [], m₁, result, history⟩)) ?_ ?_) ?_
  · have copied : memory.write (memory.readWord tailSlot + BitVec.ofNat 256 0x60).toNat
        (window m.calldata (memory.readWord dataSlot + BitVec.ofNat 256 0x20).toNat
          (memory.readWord lengthSlot).toNat) = m₁ := by
      have found := window_call calls before after c split
      rw [tail, data, length, Word.ofNat_add, Word.ofNat_add, Word.toNat_ofNat (by omega),
        Word.toNat_ofNat (by omega), Word.toNat_ofNat (by omega), given, Nat.add_assoc _ 0x60,
        found, staged]
    rw [← copied]
    exact fun _ => ⟨_, rfl⟩
  · apply runs_invoke _ _ answered
    · rw [kept _ (by decide), call, given, Word.toNat_ofNat (by omega),
        ← Nat.add_zero (0x24 + place calls before), wordAt_call calls before after c split,
        SubCall.wordAt_target, Address.account_word]
    · rw [kept _ (by decide), kept _ (by decide), tail, length, Word.ofNat_add,
        Word.toNat_ofNat (by omega), Word.toNat_ofNat (by omega), ← staged, Memory.read_write]
  · exact fun _ => ⟨_, rfl⟩

/-! ## Deciding -/

theorem runs_compare (count : memory.readWord countSlot = BitVec.ofNat 256 n)
    (index : memory.readWord indexSlot = BitVec.ofNat 256 i) (hi : i < 2 ^ 256)
    (hn : n < 2 ^ 256) :
    m.Runs labels compare (⟨·, [], memory, result, history⟩)
      (⟨·, [.ofBool !decide (i < n)], memory, result, history⟩) := by
  have past : Word.ofBool (Word.ofBool ((memory.readWord indexSlot).ult
      (memory.readWord countSlot)) == 0) = .ofBool !decide (i < n) := by
    rw [count, index, Word.ult_ofNat hi hn, Word.ofBool_beq_zero]
  rw [← past]
  exact fun _ => ⟨_, rfl⟩

theorem runs_judge (split : calls = before ++ c :: after) (given : m.calldata = calldata calls)
    (small : (calldata calls).length < 2 ^ 256)
    (call : memory.readWord callSlot = BitVec.ofNat 256 (0x24 + place calls before))
    (done : memory.readWord successSlot = .ofBool success) :
    m.Runs labels judge (⟨·, [], memory, result, history⟩)
      (⟨·, [.ofBool (success || c.allowFailure)], memory, result, history⟩) := by
  have inside := place_le calls before after c split
  have allowed : wordAt m.calldata (BitVec.ofNat 256 0x20 + memory.readWord callSlot).toNat =
      .ofBool c.allowFailure := by
    rw [call, given, Word.ofNat_add, Word.toNat_ofNat (by omega), Nat.add_comm 0x20,
      wordAt_call calls before after c split, SubCall.wordAt_allowFailure]
  have fine : Word.ofBool ((Word.ofBool (memory.readWord successSlot == 0) &&& Word.ofBool
      (wordAt m.calldata (BitVec.ofNat 256 0x20 + memory.readWord callSlot).toNat == 0)) == 0) =
      .ofBool (success || c.allowFailure) := by
    rw [allowed, done, Word.ofBool_beq_zero, Word.ofBool_beq_zero, Word.ofBool_and,
      Word.ofBool_beq_zero, Bool.not_and, Bool.not_not, Bool.not_not]
  rw [← fine]
  exact fun _ => ⟨_, rfl⟩

/-! ## The result data -/

theorem runs_copyResult {target : List Item} {w : Word} (small : result.length < 2 ^ 256)
    (h : m.Runs labels target
      (⟨·, [BitVec.ofNat 256 0, BitVec.ofNat 256 result.length], memory, result, history⟩)
      (⟨·, [w, BitVec.ofNat 256 0, BitVec.ofNat 256 result.length], memory, result, history⟩)) :
    m.Runs labels (copyResult target) (⟨·, [], memory, result, history⟩)
      (⟨·, [], memory.write w.toNat result, result, history⟩) := by
  refine Runs.append (Runs.append (Runs.append
    (t := (⟨·, [BitVec.ofNat 256 result.length], memory, result, history⟩)) ?_ ?_) h) ?_
  · exact fun _ => ⟨_, rfl⟩
  · exact fun _ => ⟨_, rfl⟩
  · intro pc
    refine ⟨pc + 1, ?_⟩
    have all := returned?_all ⟨pc, [w, BitVec.ofNat 256 0, BitVec.ofNat 256 result.length], memory,
      result, history⟩ small
    simp only [ops, List.map_cons, List.map_nil, perform, execute, State.copy, all]
    rfl

/-! ## Recording -/

/-- A memory with the record of a call, but for the data. -/
def described (memory : Memory) (i tail length : Nat) (success : Bool) : Memory :=
  (((memory.writeWord (content + 0x20 * i) (BitVec.ofNat 256 (tail - content))).writeWord tail
    (.ofBool success)).writeWord (tail + 0x20) (BitVec.ofNat 256 0x40)).writeWord (tail + 0x40)
    (BitVec.ofNat 256 length)

theorem runs_describe (index : memory.readWord indexSlot = BitVec.ofNat 256 i)
    (tail : memory.readWord tailSlot = BitVec.ofNat 256 n)
    (done : memory.readWord successSlot = .ofBool success) (above : content + 0x20 * i + 0x20 ≤ n)
    (room : n + 0x60 < 2 ^ 256) :
    m.Runs labels describe (⟨·, [], memory, result, history⟩)
      (⟨·, [], described memory i n result.length success, result, history⟩) := by
  generalize first : memory.writeWord (content + 0x20 * i) (BitVec.ofNat 256 (n - content)) = m₁
  generalize second : m₁.writeWord n (.ofBool success) = m₂
  generalize third : m₂.writeWord (n + 0x20) (BitVec.ofNat 256 0x40) = m₃
  have tail₁ : m₁.readWord tailSlot = BitVec.ofNat 256 n := by
    rw [← first, Memory.readWord_writeWord_of_disjoint _ (.inl ?_), tail]
    exact Nat.le_trans (by decide) (Nat.le_add_right content _)
  have tail₂ : m₂.readWord tailSlot = BitVec.ofNat 256 n := by
    rw [← second, Memory.readWord_writeWord_of_disjoint _ (.inl ?_), tail₁]
    exact Nat.le_trans (by decide) (by omega : content ≤ n)
  have tail₃ : m₃.readWord tailSlot = BitVec.ofNat 256 n := by
    rw [← third, Memory.readWord_writeWord_of_disjoint _ (.inl ?_), tail₂]
    exact Nat.le_trans (by decide) (by omega : content ≤ n + 0x20)
  rw [described, first, second, third]
  refine Runs.append (t := (⟨·, [], m₃, result, history⟩)) (Runs.append
    (t := (⟨·, [], m₂, result, history⟩)) (Runs.append (t := (⟨·, [], m₁, result, history⟩))
      ?_ ?_) ?_) ?_
  · have place : (BitVec.ofNat 256 content + memory.readWord indexSlot *
        BitVec.ofNat 256 0x20).toNat = content + 0x20 * i := by
      rw [index, Word.ofNat_mul, Word.ofNat_add, Word.toNat_ofNat (by omega), Nat.mul_comm]
    have offset : memory.readWord tailSlot - BitVec.ofNat 256 content =
        BitVec.ofNat 256 (n - content) := by
      rw [tail, Word.ofNat_sub (by omega)]
    rw [← first, ← place, ← offset]
    exact fun _ => ⟨_, rfl⟩
  · have here : (m₁.readWord tailSlot).toNat = n := by
      rw [tail₁, Word.toNat_ofNat (by omega)]
    have done : m₁.readWord successSlot = .ofBool success := by
      rw [← first, Memory.readWord_writeWord_of_disjoint _ (.inl ?_), done]
      exact Nat.le_trans (by decide) (Nat.le_add_right content _)
    rw [← second, ← done, ← here]
    exact fun _ => ⟨_, rfl⟩
  · have here : (m₂.readWord tailSlot + BitVec.ofNat 256 0x20).toNat = n + 0x20 := by
      rw [tail₂, Word.ofNat_add, Word.toNat_ofNat (by omega)]
    rw [← third, ← here]
    exact fun _ => ⟨_, rfl⟩
  · have here : (m₃.readWord tailSlot + BitVec.ofNat 256 0x40).toNat = n + 0x40 := by
      rw [tail₃, Word.ofNat_add, Word.toNat_ofNat (by omega)]
    rw [← here]
    exact fun _ => ⟨_, rfl⟩

theorem runs_pad (tail : memory.readWord tailSlot = BitVec.ofNat 256 n)
    (room : n + 0x60 + result.length < 2 ^ 256) :
    m.Runs labels pad (⟨·, [], memory, result, history⟩)
      (⟨·, [], memory.writeWord (n + 0x60 + result.length) 0, result, history⟩) := by
  have behind : (memory.readWord tailSlot + BitVec.ofNat 256 0x60 +
      BitVec.ofNat 256 result.length).toNat = n + 0x60 + result.length := by
    rw [tail, Word.ofNat_add, Word.ofNat_add, Word.toNat_ofNat room]
  rw [← behind]
  exact fun _ => ⟨_, rfl⟩

theorem runs_moveOn (index : memory.readWord indexSlot = BitVec.ofNat 256 i)
    (tail : memory.readWord tailSlot = BitVec.ofNat 256 n)
    (room : n + 0x60 + result.length + 31 < 2 ^ 256) :
    m.Runs labels moveOn (⟨·, [], memory, result, history⟩)
      (⟨·, [], (memory.writeWord tailSlot
        (BitVec.ofNat 256 (n + 0x60 + Bytes.ceil32 result.length))).writeWord indexSlot
        (BitVec.ofNat 256 (i + 1)), result, history⟩) := by
  generalize moved : memory.writeWord tailSlot
    (BitVec.ofNat 256 (n + 0x60 + Bytes.ceil32 result.length)) = m₁
  refine Runs.append (t := (⟨·, [], m₁, result, history⟩)) ?_ ?_
  · have tail : memory.readWord tailSlot + (BitVec.ofNat 256 0x60 +
        (BitVec.ofNat 256 result.length + BitVec.ofNat 256 0x1f &&& ~~~BitVec.ofNat 256 0x1f)) =
        BitVec.ofNat 256 (n + 0x60 + Bytes.ceil32 result.length) := by
      have mask := Word.mask_ofNat (by omega : result.length + 31 < 2 ^ 256)
      rw [tail, Word.ofNat_add]
      refine Eq.trans (congrArg (fun w => _ + (_ + w)) mask) ?_
      rw [Word.ofNat_add, Word.ofNat_add, Nat.add_assoc]
    rw [← moved, ← tail]
    exact fun _ => ⟨_, rfl⟩
  · have next : m₁.readWord indexSlot + BitVec.ofNat 256 1 = BitVec.ofNat 256 (i + 1) := by
      rw [← moved, Memory.readWord_writeWord_of_disjoint _ (by decide), index, Word.ofNat_add]
    rw [← next]
    exact fun _ => ⟨_, rfl⟩

theorem runs_extent (tail : memory.readWord tailSlot = BitVec.ofNat 256 n) (above : output ≤ n) :
    m.Runs labels extent (⟨·, [], memory, result, history⟩)
      (⟨·, [BitVec.ofNat 256 output, BitVec.ofNat 256 (n - output)], memory, result,
        history⟩) := by
  have length : memory.readWord tailSlot - BitVec.ofNat 256 output =
      BitVec.ofNat 256 (n - output) := by
    rw [tail, Word.ofNat_sub above]
  rw [← length]
  exact fun _ => ⟨_, rfl⟩

end EthBatch.Evm.Aggregator

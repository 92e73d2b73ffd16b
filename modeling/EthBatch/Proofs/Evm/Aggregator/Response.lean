import EthBatch.Proofs.Evm.Aggregator.Blocks

/-!
# The response in the memory

While the aggregator makes its calls, the memory holds the response as far as it is known: the
offset and the length of the array, the offsets of the records so far, and at the end of the
offsets the records. One turn of the loop adds an offset and a record. The staged calldata lie
behind the records, so that a record covers what they leave there.
-/

namespace EthBatch.Evm.Aggregator

open Abi Aggregate

/-- The records of answers. -/
def records (answers : List Answer) : Bytes := (answers.map answerBody).flatten

/-- Where the record behind those of some answers begins. -/
def tailOf (total : Nat) (done : List Answer) : Nat :=
  content + 0x20 * total + (records done).length

/-- The variables and the response when some of the calls are done. -/
structure Progressed (memory : Memory) (total : Nat) (done : List Answer) : Prop where
  array : memory.readWord arraySlot = BitVec.ofNat 256 0x24
  count : memory.readWord countSlot = BitVec.ofNat 256 total
  index : memory.readWord indexSlot = BitVec.ofNat 256 done.length
  tail : memory.readWord tailSlot = BitVec.ofNat 256 (tailOf total done)
  opening : memory.read output 0x40 = Bytes.word 0x20 ++ Bytes.word total
  heads : memory.read content (0x20 * done.length) =
    Layout.heads (0x20 * total) (done.map answerBody)
  bodies : memory.read (content + 0x20 * total) (records done).length = records done

/-- The places of the variables and of the response. -/
theorem places : arraySlot = 0 ∧ countSlot = 0x20 ∧ indexSlot = 0x40 ∧ tailSlot = 0x60 ∧
    callSlot = 0x80 ∧ dataSlot = 0xa0 ∧ lengthSlot = 0xc0 ∧ successSlot = 0xe0 ∧
    output = 0x100 ∧ content = 0x140 :=
  ⟨rfl, rfl, rfl, rfl, rfl, rfl, rfl, rfl, rfl, rfl⟩

theorem records_append (done : List Answer) (a : Answer) :
    records (done ++ [a]) = records done ++ answerBody a := by
  simp [records]

theorem tailOf_append (total : Nat) (done : List Answer) (a : Answer) :
    tailOf total (done ++ [a]) = tailOf total done + 0x60 + Bytes.ceil32 a.data.length := by
  rw [tailOf, tailOf, records_append, List.length_append, length_answerBody]
  omega

variable {memory : Memory} {total call i n start length : Nat} {done : List Answer}
  {c : SubCall} {a : Answer} {success : Bool}

/-! ## Before the first call -/

theorem progressed_opened (small : total < 2 ^ 256) :
    Progressed (opened memory total) total [] := by
  have := places
  have word : Bytes.word (BitVec.ofNat 256 total).toNat = Bytes.word total := by
    rw [Word.toNat_ofNat small]
  refine ⟨?_, ?_, ?_, ?_, ?_, rfl, rfl⟩
  · simp (disch := omega) only [opened, Memory.readWord_writeWord_of_disjoint,
      Memory.readWord_writeWord]
  · simp (disch := omega) only [opened, Memory.readWord_writeWord_of_disjoint,
      Memory.readWord_writeWord]
  · rw [opened, Memory.readWord_writeWord]
    rfl
  · simp (disch := omega) only [opened, Memory.readWord_writeWord_of_disjoint,
      Memory.readWord_writeWord]
    rfl
  · rw [show 0x40 = 0x20 + 0x20 from rfl, Memory.read_add]
    simp (disch := omega) only [opened, Memory.read_writeWord_of_disjoint, Memory.read_writeWord,
      word]
    rfl

/-! ## One turn -/

/-- The memory behind the call. -/
def called (memory : Memory) (call tail : Nat) (c : SubCall) (success : Bool) : Memory :=
  ((located memory call c.data.length).write (tail + 0x60) c.data).writeWord successSlot
    (.ofBool success)

/-- A memory with the record of a call and the variables for the next one. -/
def recorded (memory : Memory) (i tail : Nat) (a : Answer) : Memory :=
  ((((described memory i tail a.data.length a.success).write (tail + 0x60) a.data).writeWord
    (tail + 0x60 + a.data.length) 0).writeWord tailSlot
    (BitVec.ofNat 256 (tail + 0x60 + Bytes.ceil32 a.data.length))).writeWord indexSlot
    (BitVec.ofNat 256 (i + 1))

/-- The memory behind one turn of the loop. -/
def turned (memory : Memory) (call i tail : Nat) (c : SubCall) (a : Answer) : Memory :=
  recorded (called memory call tail c a.success) i tail a

/-- A call leaves the variables of the loop and the response alone. -/
theorem read_called (above : content ≤ n)
    (h : start + length ≤ callSlot ∨ output ≤ start ∧ start + length ≤ n) :
    (called memory call n c success).read start length = memory.read start length := by
  have := places
  simp (disch := omega) only [called, located, Memory.read_writeWord_of_disjoint,
    Memory.read_write_of_disjoint]

/-- A turn of the loop changes the response at the offset that it adds and behind the records. -/
theorem read_turned (above : content ≤ n)
    (h : start + length ≤ indexSlot ∨ output ≤ start ∧ start + length ≤ n ∧
      (start + length ≤ content + 0x20 * i ∨ content + 0x20 * i + 0x20 ≤ start)) :
    (turned memory call i n c a).read start length = memory.read start length := by
  have := places
  simp (disch := omega) only [turned, recorded, described, called, located,
    Memory.read_writeWord_of_disjoint, Memory.read_write_of_disjoint]

/-- The offset that a turn of the loop adds. -/
theorem read_turned_head (above : content + 0x20 * i + 0x20 ≤ n) (small : n < 2 ^ 256) :
    (turned memory call i n c a).read (content + 0x20 * i) 0x20 = Bytes.word (n - content) := by
  have := places
  have offset := Word.toNat_ofNat (by omega : n - content < 2 ^ 256)
  simp (disch := omega) only [turned, recorded, described, Memory.read_writeWord_of_disjoint,
    Memory.read_write_of_disjoint, Memory.read_writeWord, offset]

/-- The record that a turn of the loop adds. Nothing of what was staged is left in it. -/
theorem read_turned_record (above : content + 0x20 * i + 0x20 ≤ n)
    (small : a.data.length < 2 ^ 256) :
    (turned memory call i n c a).read n (answerBody a).length = answerBody a := by
  have := places
  have rounded := Bytes.le_ceil32 a.data.length
  have padding := Bytes.ceil32_lt a.data.length
  generalize after : turned memory call i n c a = m
  have success : m.read n 0x20 = Bytes.word (if a.success then 1 else 0) := by
    have bit : (Word.ofBool a.success).toNat = if a.success then 1 else 0 := by
      cases a.success <;> rfl
    rw [← after, ← bit]
    simp (disch := omega) only [turned, recorded, described, Memory.read_writeWord_of_disjoint,
      Memory.read_write_of_disjoint, Memory.read_writeWord]
  have offset : m.read (n + 0x20) 0x20 = Bytes.word 0x40 := by
    rw [← after]
    simp (disch := omega) only [turned, recorded, described, Memory.read_writeWord_of_disjoint,
      Memory.read_write_of_disjoint, Memory.read_writeWord]
    rfl
  have length : m.read (n + 0x40) 0x20 = Bytes.word a.data.length := by
    rw [← after]
    simp (disch := omega) only [turned, recorded, described, Memory.read_writeWord_of_disjoint,
      Memory.read_write_of_disjoint, Memory.read_writeWord, Word.toNat_ofNat]
  have data : m.read (n + 0x60) a.data.length = a.data := by
    rw [← after]
    simp (disch := omega) only [turned, recorded, Memory.read_writeWord_of_disjoint,
      Memory.read_write]
  have zeros : m.read (n + 0x60 + a.data.length) (Bytes.ceil32 a.data.length - a.data.length) =
      Bytes.zeros (Bytes.ceil32 a.data.length - a.data.length) := by
    rw [← after]
    simp (disch := omega) only [turned, recorded, Memory.read_writeWord_of_disjoint,
      Memory.read_writeWord_zero]
  have parts : (answerBody a).length = 0x20 + (0x20 + (0x20 + (a.data.length +
      (Bytes.ceil32 a.data.length - a.data.length)))) := by
    rw [length_answerBody]
    omega
  rw [parts, Memory.read_add, Memory.read_add, Memory.read_add, Memory.read_add, success, offset,
    length, data, zeros]
  rfl

/-- One more answer stands in the response behind a turn of the loop. -/
theorem progressed_turned (progress : Progressed memory total done) (more : done.length < total)
    (room : tailOf total done + 0x60 + Bytes.ceil32 a.data.length < 2 ^ 256) :
    Progressed (turned memory call done.length (tailOf total done) c a) total (done ++ [a]) := by
  have := places
  have rounded := Bytes.le_ceil32 a.data.length
  have above : content + 0x20 * done.length + 0x20 ≤ tailOf total done := by
    rw [tailOf]
    omega
  have tail : tailOf total done = content + 0x20 * total + (records done).length := rfl
  refine ⟨?_, ?_, ?_, ?_, ?_, ?_, ?_⟩
  · rw [Memory.readWord, read_turned (by omega) (.inl (by omega))]
    exact progress.array
  · rw [Memory.readWord, read_turned (by omega) (.inl (by omega))]
    exact progress.count
  · rw [turned, recorded, Memory.readWord_writeWord, List.length_append, List.length_singleton]
  · rw [turned, recorded, Memory.readWord_writeWord_of_disjoint _ (by omega),
      Memory.readWord_writeWord, tailOf_append]
  · rw [read_turned (by omega) (.inr (by omega))]
    exact progress.opening
  · have last : Layout.heads (0x20 * total + (records done).length) ([a].map answerBody) =
        Bytes.word (tailOf total done - content) := by
      have offset : tailOf total done - content = 0x20 * total + (records done).length := by
        omega
      rw [offset]
      exact List.append_nil _
    rw [List.length_append, List.length_singleton, Nat.mul_add, Memory.read_add,
      read_turned (by omega) (.inr (by omega)), progress.heads,
      read_turned_head above (by omega), List.map_append, Layout.heads_append, ← last, records]
  · rw [records_append, List.length_append, Memory.read_add,
      read_turned (by omega) (.inr (by omega)), progress.bodies, ← tail,
      read_turned_record above (by omega)]

/-- With all answers in it the response is complete. -/
theorem Progressed.response (progress : Progressed memory done.length done) :
    memory.read output (tailOf done.length done - output) = response done := by
  have := places
  have extent : tailOf done.length done - output =
      0x40 + (0x20 * done.length + (records done).length) := by
    rw [tailOf]
    omega
  have content : output + 0x40 = content := rfl
  rw [extent, Memory.read_add, progress.opening, content, Memory.read_add, progress.heads,
    progress.bodies, Aggregate.response, Layout.array_eq, List.length_map, List.append_assoc]
  rfl

end EthBatch.Evm.Aggregator

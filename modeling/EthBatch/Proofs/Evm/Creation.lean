import EthBatch.Proofs.Evm.Consistency
import EthBatch.Proofs.Evm.Memory
import EthBatch.Proofs.Evm.Straight
import EthBatch.Proofs.Evm.Word

/-!
# Creation code returns the runtime

Creation code is a program of thirteen bytes with the runtime behind it. The program knows the
length of the runtime, and a label at its end says where the runtime begins. It copies the runtime
to the start of the memory and returns it. The length has two bytes, so there is no creation code
for a longer runtime.
-/

namespace EthBatch.Evm.Creation

open Machine

variable {n : Nat} {runtime start : Bytes} {m : Machine} {labels : Labels}

/-- Pushes the length of the runtime, to copy it and to return it. -/
def measure (n : Nat) : List Item := (creationProgram n).take 2

/-- Copies the runtime to the start of the memory. -/
def copy : List Item := [push 0, .op .codeCopy, push 0]

theorem creationProgram_eq (n : Nat) : creationProgram n =
    measure n ++ ([pushLabel "runtime"] ++ (copy ++ ([.op .ret] ++ [.label "runtime"]))) := rfl

theorem consistent_creationProgram (short : n < 65536) : Consistent (creationProgram n) := by
  have offset : offset? "runtime" (creationProgram n) = some 13 := rfl
  have zero : (push 0).Fits (creationProgram n) := .push rfl rfl (by decide)
  constructor
  · exact List.nodup_singleton "runtime"
  · intro i mem
    simp only [creationProgram, List.mem_cons, List.not_mem_nil, or_false] at mem
    rcases mem with rfl | rfl | rfl | rfl | rfl | rfl | rfl | rfl
    · exact .push rfl rfl short
    · exact .op _
    · exact .push rfl offset (by decide)
    · exact zero
    · exact .op _
    · exact zero
    · exact .op _
    · exact .label _

theorem isRegular_of_mem {i : Item} (mem : i ∈ creationProgram n) : i.isRegular = true := by
  simp only [creationProgram, List.mem_cons, List.not_mem_nil, or_false] at mem
  rcases mem with rfl | rfl | rfl | rfl | rfl | rfl | rfl | rfl <;> rfl

/-- The program assembles, to thirteen bytes. -/
theorem exists_start (short : n < 65536) :
    ∃ start, assemble (creationProgram n) = .ok start ∧ start.length = 13 := by
  obtain ⟨start, h⟩ : ∃ start, assemble (creationProgram n) = .ok start :=
    assemble_isOk.mpr ⟨consistent_creationProgram short,
      fun i mem => i.hasByte_of_isRegular (isRegular_of_mem mem)⟩
  obtain ⟨labels, _, emitted, _⟩ := exists_placed_of_assemble h
  exact ⟨start, h, length_emit emitted fun _ => isRegular_of_mem⟩

theorem runs_copy (m : Machine) (labels : Labels) (offset length size : Word) : m.Runs labels copy
    (⟨·, [offset, length, size], .blank, [], []⟩)
    (⟨·, [BitVec.ofNat 256 0, size],
      Memory.blank.write 0 (window m.code offset.toNat length.toNat), [], []⟩) :=
  fun _ => ⟨_, rfl⟩

/-- The runtime is what is copied. -/
theorem window_runtime (whole : m.code = start ++ runtime) (length : start.length = 13)
    (short : runtime.length < 65536) :
    window m.code (BitVec.ofNat 256 13).toNat (BitVec.ofNat 256 runtime.length).toNat =
      runtime := by
  have all : window (runtime ++ []) 0 runtime.length = runtime := window_append_left
  rw [Word.toNat_ofNat (by decide), Word.toNat_ofNat (by omega), whole,
    window_append_right (by omega), length, Nat.sub_self]
  rwa [List.append_nil] at all

/-- A length of more than two bytes is refused. -/
theorem assemble_of_long (long : 65536 ≤ n) :
    assemble (creationProgram n) = .error .doesNotFit := by
  have laid : layout (creationProgram n) 0 [] = .ok [("runtime", 13)] := rfl
  have refused : pushBytes n 2 = .error .doesNotFit := by
    have full : Bytes.capacity (2 : Int).toNat ≤ (n : Int).toNat := long
    rw [pushBytes, if_neg (by decide),
      if_pos (by simp only [Bool.or_eq_true, decide_eq_true_eq]; exact .inr full)]
  rw [assemble, laid, Except.ok_bind]
  simp only [creationProgram, emit, Item.bytes, Operand.resolve, Item.pushWidth, Except.ok_bind,
    refused, Except.error_bind]

/-- A run returns what stands behind the program. -/
theorem ends_returned (assembled : assemble (creationProgram runtime.length) = .ok start)
    (length : start.length = 13) (short : runtime.length < 65536)
    (whole : m.code = start ++ runtime) : m.Ends .start (.returned runtime) [] := by
  obtain ⟨labels, stands⟩ := codeAt_assemble_append
    (List.all_eq_true.mpr fun _ => isRegular_of_mem) assembled runtime
  rw [← whole, creationProgram_eq] at stands
  have found : labels.lookup "runtime" = some ((13 : Nat) : Int) :=
    stands.append_right.append_right.append_right.append_right.1
  -- The length is needed twice: to copy the runtime and to return it.
  have measured : m.Runs labels (measure runtime.length) (⟨·, [], .blank, [], []⟩)
      (⟨·, [BitVec.ofNat 256 runtime.length, BitVec.ofNat 256 runtime.length], .blank, [], []⟩) :=
    fun _ => ⟨_, rfl⟩
  have located : m.Runs labels [pushLabel "runtime"]
      (⟨·, [BitVec.ofNat 256 runtime.length, BitVec.ofNat 256 runtime.length], .blank, [], []⟩)
      (⟨·, [BitVec.ofNat 256 13, BitVec.ofNat 256 runtime.length,
        BitVec.ofNat 256 runtime.length], .blank, [], []⟩) :=
    runs_pushLabel found (by decide : 2 < stackLimit)
  have copied := runs_copy m labels (BitVec.ofNat 256 13) (BitVec.ofNat 256 runtime.length)
    (BitVec.ofNat 256 runtime.length)
  rw [window_runtime whole length short] at copied
  have read : (Memory.blank.write 0 runtime).read (BitVec.ofNat 256 0).toNat
      (BitVec.ofNat 256 runtime.length).toNat = runtime := by
    rw [Word.toNat_ofNat (by decide), Word.toNat_ofNat (by omega), Memory.read_write]
  refine (measured.reaches stands.append_left).ends ?_
  refine (located.reaches stands.append_right.append_left).ends ?_
  refine (copied.reaches stands.append_right.append_right.append_left).ends ?_
  apply ends_of_execute stands.append_right.append_right.append_right.append_left
  simp only [execute, State.finish, State.halt, read]

/-- Creation code of a runtime of less than 65536 bytes is a program of thirteen bytes with the
runtime behind it. Every run of it returns the runtime, whatever the calldata are and whatever other
contracts answer, and does nothing else. A longer runtime has no creation code. -/
theorem returns_runtime (runtime : Bytes) :
    (runtime.length < 65536 → ∃ start : Bytes, start.length = 13 ∧
      creation runtime = .ok (start ++ runtime) ∧
      ∀ m : Machine, m.code = start ++ runtime → m.Ends .start (.returned runtime) [] ∧
        ∀ h history, m.Ends .start h history → h = .returned runtime ∧ history = []) ∧
    (65536 ≤ runtime.length → creation runtime = .error .doesNotFit) := by
  constructor
  · intro short
    obtain ⟨start, assembled, length⟩ := exists_start short
    refine ⟨start, length, ?_, ?_⟩
    · rw [creation, assembled, Except.ok_bind]
    · intro m whole
      have ends := ends_returned assembled length short whole
      exact ⟨ends, fun h history other => other.unique ends⟩
  · intro long
    rw [creation, assemble_of_long long, Except.error_bind]

/-- No other contract is asked for anything. -/
def silent : Oracle := ⟨fun _ _ _ _ => (false, []), fun _ _ _ => (0, [])⟩

/-- The creation code of the empty runtime returns nothing, that of the aggregator returns the
aggregator, and 65536 zeros have none. -/
theorem returns_runtime_aggregator :
    (∃ start, creation [] = .ok (start ++ []) ∧
      (Machine.mk (start ++ []) [] silent).Ends .start (.returned []) []) ∧
    (∃ start, creation Aggregator.runtime = .ok (start ++ Aggregator.runtime) ∧
      (Machine.mk (start ++ Aggregator.runtime) [] silent).Ends .start
        (.returned Aggregator.runtime) []) ∧
    creation (Bytes.zeros 65536) = .error .doesNotFit := by
  refine ⟨?_, ?_, (returns_runtime _).2 (by rw [Bytes.length_zeros])⟩
  · obtain ⟨start, -, created, runs⟩ := (returns_runtime []).1 (by decide)
    exact ⟨start, created, (runs ⟨_, [], silent⟩ rfl).1⟩
  · obtain ⟨start, -, created, runs⟩ :=
      (returns_runtime Aggregator.runtime).1 (by decide +kernel)
    exact ⟨start, created, (runs ⟨_, [], silent⟩ rfl).1⟩

end EthBatch.Evm.Creation

import EthBatch.Proofs.Evm.Aggregator.Response
import EthBatch.Proofs.Evm.Aggregator.Verdict

/-!
# The loop of the aggregator

One turn of the loop makes the next call. It ends the run if the call failed and was not allowed
to; otherwise the machine is at the start of the loop again, with one more answer in the response.
By induction on the calls that remain, the run ends as `verdict` says.
-/

namespace EthBatch.Evm.Aggregator

open Machine Aggregate

/-- Where the loop begins. -/
def loopAt : Nat := 0 + sizes start

/-- Where the record of a call is written. -/
def recordAt : Nat := loopAt + sizes attempt

/-- Where the response is returned. -/
def doneAt : Nat := recordAt + sizes settle

/-- The program of the aggregator stands in its code. -/
theorem exists_codeAt_runtime : ∃ labels, CodeAt runtime labels 0 program := by
  obtain ⟨labels, stands⟩ : ∃ labels, CodeAt (runtime ++ []) labels 0 program :=
    exists_codeAt_code (by decide +kernel) (by decide +kernel) []
  rw [List.append_nil] at stands
  exact ⟨labels, stands⟩

theorem length_runtime_le : runtime.length ≤ 2 ^ 256 := by
  decide +kernel

/-- A machine that runs the aggregator on the calldata of calls. -/
structure Serving (m : Machine) (labels : Labels) (calls : List SubCall) : Prop where
  code : CodeAt m.code labels 0 program
  size : m.code.length ≤ 2 ^ 256
  given : m.calldata = calldata calls
  small : (calldata calls).length < 2 ^ 256

variable {m : Machine} {labels : Labels} {memory : Memory} {result : Bytes}
  {history : List Event} {calls before rest : List SubCall} {c : SubCall} {done : List Answer}

namespace Serving

theorem start (serving : Serving m labels calls) : CodeAt m.code labels 0 start :=
  serving.code.append_left

theorem attempt (serving : Serving m labels calls) : CodeAt m.code labels loopAt attempt :=
  serving.code.append_right.append_left

theorem settle (serving : Serving m labels calls) : CodeAt m.code labels recordAt settle :=
  serving.code.append_right.append_right.append_left

theorem finish (serving : Serving m labels calls) : CodeAt m.code labels doneAt finish :=
  serving.code.append_right.append_right.append_right

theorem count_lt (serving : Serving m labels calls) : calls.length < 2 ^ 256 := by
  have small := serving.small
  rw [calldata_eq] at small
  simp only [List.length_append, Abi.Layout.length_heads, List.length_map] at small
  omega

/-- Whether there is another call decides where the loop goes on. -/
theorem reaches_test (serving : Serving m labels calls) (result : Bytes)
    (history : List Event) (progress : Progressed memory calls.length done)
    (le : done.length ≤ calls.length) :
    m.Reaches ⟨loopAt, [], memory, result, history⟩
      ⟨if done.length < calls.length then loopAt + sizes test else doneAt, [], memory, result,
        history⟩ := by
  have here := serving.attempt.append_left
  have count := serving.count_lt
  have label : m.Runs labels (Item.jumpDest "loop") (⟨·, [], memory, result, history⟩)
      (⟨·, [], memory, result, history⟩) := fun _ => ⟨_, rfl⟩
  have compared : m.Runs labels compare (⟨·, [], memory, result, history⟩)
      (⟨·, [.ofBool !decide (done.length < calls.length)], memory, result, history⟩) :=
    runs_compare progress.count progress.index (by omega) count
  refine (label.reaches here.append_left).trans ?_
  refine (compared.reaches here.append_right.append_left).trans ?_
  refine (reaches_of_jumpi here.append_right.append_right serving.finish serving.size rfl
    ?_).trans ?_
  · exact (by decide : 1 < stackLimit)
  have behind : loopAt + sizes test =
      loopAt + sizes (Item.jumpDest "loop") + sizes compare + 4 := by
    rw [test, sizes_append, sizes_append]
    rfl
  by_cases more : done.length < calls.length
  · simp only [more, decide_true, Bool.not_true, Bool.false_eq_true, if_false, if_true, behind]
    exact .refl
  · simp only [more, decide_false, Bool.not_false, if_true, if_false]
    exact .refl

/-- When no call remains the response is returned. -/
theorem ends_of_done (serving : Serving m labels calls)
    (progress : Progressed memory calls.length done) (all : done.length = calls.length)
    (room : tailOf calls.length done < 2 ^ 256) :
    m.Ends ⟨loopAt, [], memory, result, history⟩ (.returned (response done)) history := by
  have := places
  have above : output ≤ tailOf calls.length done := by
    rw [tailOf]
    omega
  have label : m.Runs labels (Item.jumpDest "done") (⟨·, [], memory, result, history⟩)
      (⟨·, [], memory, result, history⟩) := fun _ => ⟨_, rfl⟩
  have extended : m.Runs labels extent (⟨·, [], memory, result, history⟩)
      (⟨·, [BitVec.ofNat 256 output, BitVec.ofNat 256 (tailOf calls.length done - output)],
        memory, result, history⟩) := runs_extent progress.tail above
  have left : m.Reaches ⟨loopAt, [], memory, result, history⟩
      ⟨doneAt, [], memory, result, history⟩ := by
    have test := serving.reaches_test result history progress (by omega)
    rwa [if_neg (by omega)] at test
  refine left.ends ((label.reaches serving.finish.append_left).ends ?_)
  refine (extended.reaches serving.finish.append_right.append_left).ends ?_
  apply ends_of_execute serving.finish.append_right.append_right
  rw [← all] at progress
  have whole := progress.response
  simp only [execute, State.finish, State.halt]
  rw [Word.toNat_ofNat (by decide), Word.toNat_ofNat (by omega), ← all, whole]

/-- The variables of the current call behind the call. -/
theorem readWord_called (progress : Progressed memory calls.length done) (c : SubCall)
    (call : Nat) (success : Bool) :
    (called memory call (tailOf calls.length done) c success).readWord callSlot =
        BitVec.ofNat 256 call ∧
      (called memory call (tailOf calls.length done) c success).readWord indexSlot =
        BitVec.ofNat 256 done.length ∧
      (called memory call (tailOf calls.length done) c success).readWord tailSlot =
        BitVec.ofNat 256 (tailOf calls.length done) ∧
      (called memory call (tailOf calls.length done) c success).readWord successSlot =
        .ofBool success := by
  have := places
  have above : content ≤ tailOf calls.length done := by
    rw [tailOf]
    omega
  refine ⟨?_, ?_, ?_, ?_⟩
  · simp (disch := omega) only [called, located, Memory.readWord_writeWord_of_disjoint,
      Memory.readWord_write_of_disjoint, Memory.readWord_writeWord]
  · rw [Memory.readWord, read_called above (.inl (by omega))]
    exact progress.index
  · rw [Memory.readWord, read_called above (.inl (by omega))]
    exact progress.tail
  · rw [called, Memory.readWord_writeWord]

/-- The next call is made, and its success decides where the loop goes on. -/
theorem reaches_verdict (serving : Serving m labels calls) (result : Bytes)
    (history : List Event) (progress : Progressed memory calls.length done)
    (split : calls = before ++ c :: rest) (turn : before.length = done.length)
    (room : tailOf calls.length done + 0x60 + c.data.length < 2 ^ 256) :
    m.Reaches ⟨loopAt, [], memory, result, history⟩
      ⟨if c.isFatal (m.oracle.answer history c) then
          loopAt + sizes test + sizes locate + sizes callTarget + sizes judge + 4 else recordAt,
        [], called memory (0x24 + place calls before) (tailOf calls.length done) c
          (m.oracle.answer history c).success,
        (m.oracle.answer history c).data, history ++ [c.event (m.oracle.answer history c)]⟩ := by
  have := places
  have above : content ≤ tailOf calls.length done := by
    rw [tailOf]
    omega
  have more : done.length < calls.length := by
    rw [split, List.length_append, List.length_cons]
    omega
  have behind := serving.attempt.append_right
  have entered := serving.reaches_test result history progress more.le
  rw [if_pos more] at entered
  generalize answered : m.oracle.answer history c = a
  have reply : m.oracle.call history c.target.word 0 c.data = (a.success, a.data) := by
    rw [← answered]
    rfl
  have found : m.Runs labels locate (⟨·, [], memory, result, history⟩)
      (⟨·, [], located memory (0x24 + place calls before) c.data.length, result, history⟩) :=
    runs_locate split serving.given serving.small progress.array (turn ▸ progress.index)
  have invoked : m.Runs labels callTarget
      (⟨·, [], located memory (0x24 + place calls before) c.data.length, result, history⟩)
      (⟨·, [], called memory (0x24 + place calls before) (tailOf calls.length done) c a.success,
        a.data, history ++ [c.event a]⟩) := by
    apply runs_callTarget split serving.given serving.small _ _ _ _ above room reply
    · simp (disch := omega) only [located, Memory.readWord_writeWord_of_disjoint,
        Memory.readWord_writeWord]
    · simp (disch := omega) only [located, Memory.readWord_writeWord_of_disjoint,
        Memory.readWord_writeWord]
    · rw [located, Memory.readWord_writeWord]
    · simp (disch := omega) only [located, Memory.readWord_writeWord_of_disjoint, progress.tail]
  obtain ⟨call, -, -, success⟩ :=
    readWord_called progress c (0x24 + place calls before) a.success
  have judged : m.Runs labels judge (⟨·, [], called memory (0x24 + place calls before)
        (tailOf calls.length done) c a.success, a.data, history ++ [c.event a]⟩)
      (⟨·, [.ofBool (a.success || c.allowFailure)], called memory (0x24 + place calls before)
        (tailOf calls.length done) c a.success, a.data, history ++ [c.event a]⟩) :=
    runs_judge split serving.given serving.small call success
  refine entered.trans ((found.reaches behind.append_left).trans ?_)
  have behind := behind.append_right
  refine (invoked.reaches behind.append_left).trans ?_
  have behind := behind.append_right
  refine (judged.reaches behind.append_left).trans ?_
  refine (reaches_of_jumpi behind.append_right.append_left serving.settle serving.size rfl
    ?_).trans ?_
  · exact (by decide : 1 < stackLimit)
  · rw [SubCall.isFatal]
    cases a.success || c.allowFailure with
    | true => exact .refl
    | false => exact .refl

/-- A call that failed and was not allowed to ends the run with its data. -/
theorem ends_of_fatal (serving : Serving m labels calls) (small : result.length < 2 ^ 256) :
    m.Ends ⟨loopAt + sizes test + sizes locate + sizes callTarget + sizes judge + 4, [], memory,
      result, history⟩ (.reverted result) history := by
  have here := serving.attempt.append_right.append_right.append_right.append_right.append_right
  have copied : m.Runs labels (copyResult [push 0]) (⟨·, [], memory, result, history⟩)
      (⟨·, [], memory.write 0 result, result, history⟩) :=
    runs_copyResult (w := BitVec.ofNat 256 0) small fun _ => ⟨_, rfl⟩
  have extent : m.Runs labels (ops [.returnDataSize] ++ [push 0])
      (⟨·, [], memory.write 0 result, result, history⟩)
      (⟨·, [BitVec.ofNat 256 0, BitVec.ofNat 256 result.length], memory.write 0 result, result,
        history⟩) := fun _ => ⟨_, rfl⟩
  refine ((copied.append extent).reaches here.append_left).ends ?_
  apply ends_of_execute here.append_right
  simp only [execute, State.finish, State.halt]
  rw [Word.toNat_ofNat (by decide), Word.toNat_ofNat small, Memory.read_write]

/-- The record of a call is written, and the loop begins anew. -/
theorem reaches_turned (serving : Serving m labels calls)
    (progress : Progressed memory calls.length done) {call : Nat} {a : Answer}
    (more : done.length < calls.length)
    (room : tailOf calls.length done + 0x80 + a.data.length < 2 ^ 256) :
    m.Reaches ⟨recordAt, [], called memory call (tailOf calls.length done) c a.success, a.data,
        history⟩
      ⟨loopAt, [], turned memory call done.length (tailOf calls.length done) c a, a.data,
        history⟩ := by
  have := places
  have tail : content + 0x20 * calls.length ≤ tailOf calls.length done := by
    rw [tailOf]
    omega
  obtain ⟨-, index, last, success⟩ := readWord_called progress c call a.success
  have here := serving.settle.append_left
  have next := serving.settle.append_right
  rw [turned]
  generalize called memory call (tailOf calls.length done) c a.success = m₁ at *
  have label : m.Runs labels (Item.jumpDest "record") (⟨·, [], m₁, a.data, history⟩)
      (⟨·, [], m₁, a.data, history⟩) := fun _ => ⟨_, rfl⟩
  have head : m.Runs labels describe (⟨·, [], m₁, a.data, history⟩)
      (⟨·, [], described m₁ done.length (tailOf calls.length done) a.data.length a.success, a.data,
        history⟩) := runs_describe index last success (by omega) (by omega)
  generalize described' : described m₁ done.length (tailOf calls.length done) a.data.length
    a.success = m₂ at head
  have last₂ : m₂.readWord tailSlot = BitVec.ofNat 256 (tailOf calls.length done) := by
    rw [← described']
    simp (disch := omega) only [described, Memory.readWord_writeWord_of_disjoint, last]
  have index₂ : m₂.readWord indexSlot = BitVec.ofNat 256 done.length := by
    rw [← described']
    simp (disch := omega) only [described, Memory.readWord_writeWord_of_disjoint, index]
  have data : m.Runs labels (copyResult ([push 0x60] ++ load tailSlot ++ ops [.add]))
      (⟨·, [], m₂, a.data, history⟩)
      (⟨·, [], m₂.write (tailOf calls.length done + 0x60) a.data, a.data, history⟩) := by
    have target : (m₂.readWord tailSlot + BitVec.ofNat 256 0x60).toNat =
        tailOf calls.length done + 0x60 := by
      rw [last₂, Word.ofNat_add, Word.toNat_ofNat (by omega)]
    rw [← target]
    exact runs_copyResult (by omega) fun _ => ⟨_, rfl⟩
  generalize copied : m₂.write (tailOf calls.length done + 0x60) a.data = m₃ at data
  have last₃ : m₃.readWord tailSlot = BitVec.ofNat 256 (tailOf calls.length done) := by
    rw [← copied, Memory.readWord_write_of_disjoint _ (.inl (by omega)), last₂]
  have index₃ : m₃.readWord indexSlot = BitVec.ofNat 256 done.length := by
    rw [← copied, Memory.readWord_write_of_disjoint _ (.inl (by omega)), index₂]
  have padded : m.Runs labels pad (⟨·, [], m₃, a.data, history⟩)
      (⟨·, [], m₃.writeWord (tailOf calls.length done + 0x60 + a.data.length) 0, a.data,
        history⟩) := runs_pad last₃ (by omega)
  generalize filled : m₃.writeWord (tailOf calls.length done + 0x60 + a.data.length) 0 = m₄
    at padded
  have last₄ : m₄.readWord tailSlot = BitVec.ofNat 256 (tailOf calls.length done) := by
    rw [← filled, Memory.readWord_writeWord_of_disjoint _ (.inl (by omega)), last₃]
  have index₄ : m₄.readWord indexSlot = BitVec.ofNat 256 done.length := by
    rw [← filled, Memory.readWord_writeWord_of_disjoint _ (.inl (by omega)), index₃]
  have moved : m.Runs labels moveOn (⟨·, [], m₄, a.data, history⟩)
      (⟨·, [], recorded m₁ done.length (tailOf calls.length done) a, a.data, history⟩) := by
    rw [recorded, described', copied, filled]
    exact runs_moveOn index₄ last₄ (by omega)
  refine ((label.append (head.append (data.append padded))).reaches here).trans ?_
  refine (moved.reaches next.append_left).trans ?_
  exact reaches_of_jump next.append_right serving.attempt.append_left serving.size
    (by decide : 0 < stackLimit)

/-- The calls that remain end as they should. -/
theorem ends_of_progressed (serving : Serving m labels calls) (split : calls = before ++ rest)
    (turn : before.length = done.length) (progress : Progressed memory calls.length done)
    (room : tailOf calls.length done < 2 ^ 256)
    (roomy : Roomy m.oracle (tailOf calls.length done) history rest) :
    m.Ends ⟨loopAt, [], memory, result, history⟩ (verdict m.oracle done history rest).1
      (verdict m.oracle done history rest).2 := by
  induction rest generalizing before done memory result history with
  | nil =>
      apply serving.ends_of_done progress _ room
      rw [split, List.append_nil, turn]
  | cons c rest ih =>
      obtain ⟨staged, small, roomy⟩ := roomy
      have called := serving.reaches_verdict result history progress split turn staged
      cases fatal : c.isFatal (m.oracle.answer history c) with
      | true =>
          rw [if_pos fatal] at called
          simp only [verdict, fatal, if_true]
          exact called.ends (serving.ends_of_fatal small)
      | false =>
          obtain ⟨more, roomy⟩ := roomy fatal
          rw [if_neg (by rw [fatal]; decide)] at called
          simp only [verdict, fatal, Bool.false_eq_true, if_false]
          have count : done.length < calls.length := by
            rw [split, List.length_append, List.length_cons]
            omega
          have round := Bytes.ceil32_lt (m.oracle.answer history c).data.length
          refine called.ends ((serving.reaches_turned progress count more).ends ?_)
          have split' : calls = (before ++ [c]) ++ rest := by
            rw [split, List.append_assoc, List.singleton_append]
          have turn' : (before ++ [c]).length = (done ++ [m.oracle.answer history c]).length := by
            rw [List.length_append, List.length_append, turn]
            rfl
          apply ih split' turn' (progressed_turned progress count (by omega))
          · rw [tailOf_append]
            omega
          · rw [tailOf_append]
            exact roomy

end Serving

end EthBatch.Evm.Aggregator

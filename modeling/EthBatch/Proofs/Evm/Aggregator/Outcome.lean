import EthBatch.Proofs.Evm.Aggregator.Loop

/-!
# The aggregator's code does what it has to do

The code runs on the calldata that `Aggregate.encode` gives for a list of calls. Every call is made
as it is listed, and the run ends with the encoded answers or with the data of the first call that
failed and was not allowed to. Calldata, and all places in the memory, must be below `2 ^ 256`.
The answers are read back from a response of less than `2 ^ 63` bytes, like every byte string
there is.
-/

namespace EthBatch.Evm.Aggregator

open Machine Aggregate Abi

variable {m : Machine} {calls : List SubCall}

/-- A run on the calldata of calls ends as it should. -/
theorem ends_of_roomy (code : m.code = runtime) (given : m.calldata = calldata calls)
    (small : (calldata calls).length < 2 ^ 256)
    (roomy : Roomy m.oracle (content + 0x20 * calls.length) [] calls) :
    m.Ends .start (verdict m.oracle [] [] calls).1 (verdict m.oracle [] [] calls).2 := by
  obtain ⟨labels, stands⟩ := exists_codeAt_runtime
  have size := length_runtime_le
  rw [← code] at stands size
  have serving : Serving m labels calls := ⟨stands, size, given, small⟩
  have room : content + 0x20 * calls.length < 2 ^ 256 := by
    cases calls with
    | nil => exact (by decide : content + 0x20 * 0 < 2 ^ 256)
    | cons c rest =>
        have staged := roomy.1
        omega
  have opening : m.Reaches .start ⟨loopAt, [], opened .blank calls.length, [], []⟩ :=
    (runs_start given).reaches serving.start
  have split : calls = [] ++ calls := rfl
  exact opening.ends (serving.ends_of_progressed split rfl (progressed_opened serving.count_lt)
    room roomy)

/-- The calls are made in order, each once and as it is listed. If none fails that is not allowed
to, the run returns the encoding of all answers, from which they can be read; otherwise it stops
at the first such call, whose data it reverts with. -/
theorem answers_or_reverts [Platform] (code : m.code = runtime)
    (given : Aggregate.encode (calls.map SubCall.toValue) = .ok m.calldata)
    (small : m.calldata.length < 2 ^ 256)
    (roomy : Roomy m.oracle (content + 0x20 * calls.length) [] calls) :
    (m.oracle.Allows [] calls → (m.oracle.answers [] calls).length = calls.length ∧
      ∃ raw, m.Ends .start (.returned raw)
          (List.zipWith SubCall.event calls (m.oracle.answers [] calls)) ∧
        Aggregate.encodeAnswers (m.oracle.answers [] calls) = .ok raw ∧
        (raw.length < maxSize → Aggregate.decode raw = .ok (m.oracle.answers [] calls))) ∧
    (¬ m.oracle.Allows [] calls →
      ∃ before c after, calls = before ++ c :: after ∧ m.oracle.Allows [] before ∧
        ∃ a, a = m.oracle.answer (m.oracle.events [] before) c ∧ c.isFatal a = true ∧
          m.Ends .start (.reverted a.data) (m.oracle.events [] before ++ [c.event a])) := by
  rw [encode_calls] at given
  have given := (Except.ok.inj given).symm
  have ends := ends_of_roomy code given (given ▸ small) roomy
  constructor
  · intro fine
    rw [verdict_of_allows fine] at ends
    refine ⟨Oracle.length_answers, _, ends, encodeAnswers_eq _, ?_⟩
    intro fits
    have read := decode_response fits []
    rwa [List.append_nil] at read
  · intro failed
    obtain ⟨before, c, after, split, fine, fatal, verdict⟩ :=
      @verdict_of_not_allows _ [] _ _ failed
    rw [verdict] at ends
    exact ⟨before, c, after, split, fine, _, rfl, fatal, ends⟩

/-- An oracle whose calls all fail with one byte. -/
def refusing : Oracle := ⟨fun _ _ _ _ => (false, [0xff]), fun _ _ _ => (0, [])⟩

/-- A call that may fail. -/
def lenient : SubCall := ⟨.zero, true, [1, 2]⟩

open scoped Platform.Lenient

/-- A call that may fail does so, and its data are returned. -/
theorem answers_or_reverts_refusing :
    ∃ raw, (Machine.mk runtime (calldata [lenient]) refusing).Ends .start (.returned raw)
        [lenient.event ⟨false, [0xff]⟩] ∧
      Aggregate.decode raw = .ok [⟨false, [0xff]⟩] := by
  have fine : refusing.Allows [] [lenient] := by
    intro p hp
    cases List.mem_singleton.mp hp
    rfl
  have roomy : Roomy refusing (content + 0x20 * 1) [] [lenient] :=
    ⟨by decide, by decide, fun _ => ⟨by decide, trivial⟩⟩
  obtain ⟨-, raw, ends, encoded, read⟩ :=
    (answers_or_reverts (m := ⟨runtime, calldata [lenient], refusing⟩) (by dsimp only)
      (encode_calls [lenient]) (by decide +kernel) roomy).1 fine
  refine ⟨raw, ends, read ?_⟩
  rw [encodeAnswers_eq] at encoded
  obtain rfl := Except.ok.inj encoded
  decide +kernel

end EthBatch.Evm.Aggregator

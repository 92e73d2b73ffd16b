import EthBatch.Proofs.Abi.Parameters
import EthBatch.Proofs.Abi.TypeName
import EthBatch.Proofs.Reassembly
import EthBatch.Proofs.Revert

/-!
# Answers that a call cannot be settled with

The answer for a call becomes its result or its own failure, with three exceptions. Revert data may
be unreadable. The interface may say something about the outputs of the function that is no list of
parameters, or give a parameter a type outside the grammar or of a size that cannot be read. And
output may state the length of a byte string that cannot be read. `Call.Breaks` collects these
answers. Settling a call with one of them ends in a fault, whether failures are allowed or not, and
with any other answer it ends as it should.
-/

namespace EthBatch

open Abi

namespace Call

/-! ## Output -/

/-- Why the output of a function can neither be decoded nor be refused, and the fault that this
ends in. -/
inductive Uncaught (function : Abi.Entry) (data : Bytes) : Fault → Prop where
  /-- What the interface says about the outputs is no list of parameters. -/
  | outputs {v : Value} {f : Fault} (stated : Fields.get? function "outputs" = some v)
      (unlisted : ¬ Schema.ListsParameters v) (fault : outputTypes function = .error f) :
      Uncaught function data f
  /-- The first name that is no type is outside the grammar. -/
  | typeName {before after : List String} {s : String}
      (read : outputTypes function = .ok (before ++ s :: after))
      (known : ∀ s ∈ before, ∃ k, Kind.ofText s = .ok k) (outside : ¬ Kind.FollowsGrammar s)
      (plain : Kind.mentionsEmptyTuple s.toList = false) :
      Uncaught function data (.typeName .unparsable)
  /-- The first name that is no type follows the grammar and holds a number that is too long. -/
  | size {before after : List String} {s : String}
      (read : outputTypes function = .ok (before ++ s :: after))
      (known : ∀ s ∈ before, ∃ k, Kind.ofText s = .ok k) (follows : Kind.FollowsGrammar s)
      (long : Kind.hasLongNumber 0 s.toList = true) :
      Uncaught function data (.typeName .longNumber)
  /-- The output states a length that cannot be read. -/
  | length {names : List String} {ks : List Kind} (read : outputTypes function = .ok names)
      (types : Kind.ofTexts names = .ok ks) (overlong : Kind.Overlong (.tuple ks) data) :
      Uncaught function data (.decode .tooLong)

variable {c : Call} {a : Answer} {e : Encoded} {function : Abi.Entry} {data : Bytes} {f : Fault}

/-- The names of output types are read unless the interface says something else about outputs. -/
theorem outputTypes_isOk : (∃ names, outputTypes function = .ok names) ↔
    ∀ v, Fields.get? function "outputs" = some v → Schema.ListsParameters v :=
  Schema.listedTexts_isOk

theorem uncaught_of_outputTypes (h : outputTypes function = .error f) :
    Uncaught function data f := by
  have unread : ¬ ∃ names, outputTypes function = .ok names := by
    rintro ⟨names, read⟩
    rw [h] at read
    cases read
  rw [outputTypes_isOk] at unread
  simp only [Classical.not_forall] at unread
  obtain ⟨v, stated, unlisted⟩ := unread
  exact .outputs stated unlisted h

/-- Decoding an output ends in a fault exactly when nothing catches it. -/
theorem decodeOutput_eq_error : decodeOutput function data = .error f ↔
    Uncaught function data f := by
  rw [decodeOutput, Except.bind_eq_error]
  constructor
  · rintro (unread | ⟨names, read, h⟩)
    · exact uncaught_of_outputTypes unread
    · split at h
      · next unparsable =>
        cases h
        obtain ⟨before, s, after, rfl, known, here⟩ := Kind.ofTexts_eq_error.mp unparsable
        obtain ⟨outside, plain⟩ := Kind.ofText_eq_unparsable.mp here
        exact .typeName read known outside plain
      · next long =>
        cases h
        obtain ⟨before, s, after, rfl, known, here⟩ := Kind.ofTexts_eq_error.mp long
        obtain ⟨follows, digits⟩ := Kind.ofText_eq_longNumber.mp here
        exact .size read known follows digits
      · cases h
      · next ks types =>
        split at h
        · cases h
        · next overlong =>
          cases h
          exact .length read types (Kind.decodeAll_eq_tooLong.mp overlong)
        · cases h
  · intro h
    cases h with
    | outputs _ _ fault => exact .inl fault
    | @typeName before after s read known outside plain =>
        have unparsable : Kind.ofTexts (before ++ s :: after) = .error .unparsable :=
          Kind.ofTexts_eq_error.mpr ⟨before, s, after, rfl, known,
            Kind.ofText_eq_unparsable.mpr ⟨outside, plain⟩⟩
        refine .inr ⟨_, read, ?_⟩
        rw [unparsable]
    | @size before after s read known follows long =>
        have unread : Kind.ofTexts (before ++ s :: after) = .error .longNumber :=
          Kind.ofTexts_eq_error.mpr ⟨before, s, after, rfl, known,
            Kind.ofText_eq_longNumber.mpr ⟨follows, long⟩⟩
        refine .inr ⟨_, read, ?_⟩
        rw [unread]
    | length read types overlong =>
        refine .inr ⟨_, read, ?_⟩
        simp only [types, Kind.decodeAll_eq_tooLong.mpr overlong]

/-! ## Answers -/

/-- An answer that a call cannot be settled with, and the fault that this ends in. -/
inductive Breaks (c : Call) : Answer → Fault → Prop where
  | revert {e : Encoded} {data : Bytes} {f : DecodeFault} (h : c.encoding = .ok e)
      (unreadable : Revert.Unreadable data f) : Breaks c ⟨false, data⟩ (.decode f)
  | output {e : Encoded} {data : Bytes} {f : Fault} (h : c.encoding = .ok e) (some : data ≠ [])
      (uncaught : Uncaught e.function data f) : Breaks c ⟨true, data⟩ f

theorem settle_eq_error : c.settle a = .error f ↔ c.Breaks a f := by
  obtain ⟨success, data⟩ := a
  unfold settle
  constructor
  · intro h
    split at h
    · cases h
    · next e encoded =>
      cases success with
      | false =>
          simp only [Bool.not_false, if_true] at h
          split at h
          · cases h
          · next unreadable =>
            cases h
            exact .revert encoded (Revert.read_eq_error.mp unreadable)
      | true =>
          simp only [Bool.not_true, Bool.false_eq_true, if_false] at h
          split at h
          · cases h
          · next some =>
            split at h
            · cases h
            · cases h
            · next uncaught =>
              cases h
              exact .output encoded (by simpa using some) (decodeOutput_eq_error.mp uncaught)
  · intro h
    cases h with
    | revert encoded unreadable =>
        rw [encoded]
        simp only [Bool.not_false, if_true, Revert.read_eq_error.mpr unreadable]
    | output encoded some uncaught =>
        have nonempty : data.isEmpty = false := by simpa using some
        rw [encoded]
        simp only [Bool.not_true, Bool.false_eq_true, if_false, nonempty,
          decodeOutput_eq_error.mpr uncaught]

end Call

namespace Reassembly

variable {c : Call} {calls : List Call} {a : Answer} {v : Verdict} {vs : List Verdict}
variable {allow : Bool} {f : Fault}

/-- Nobody catches the fault of an answer that breaks a call. -/
theorem settle_of_breaks (h : c.Breaks a f) (allow : Bool) :
    settle allow c a = .error (.fault f) := by
  rw [settle, Call.settle_eq_error.mpr h]

/-- A verdict that its call cannot be settled with, and the fault that this ends in. -/
def Broken (c : Call) (v : Verdict) (f : Fault) : Prop := ∃ a, v = .ok a ∧ c.Breaks a f

/-- If failures are allowed, a call is settled unless its verdict breaks it. -/
theorem settleOne_eq_error {e : Error} : settleOne true c v = .error e ↔
    ∃ f, Broken c v f ∧ e = .fault f := by
  cases v with
  | error problem => simp [settleOne, Broken]
  | ok a =>
      simp only [settleOne, settle, if_true, Broken, Except.ok.injEq, exists_eq_left']
      constructor
      · intro h
        split at h
        · next f fault =>
          cases h
          exact ⟨f, Call.settle_eq_error.mp fault, rfl⟩
        · cases h
        · cases h
      · rintro ⟨f, breaks, rfl⟩
        rw [Call.settle_eq_error.mpr breaks]

/-- Settling the calls one after the other ends with the error of the first one that has one. -/
theorem settleEach_eq_error {e : Error} : settleEach allow calls vs = .error e ↔
    ∃ (i : Nat) (c : Call) (v : Verdict), calls[i]? = some c ∧ vs[i]? = some v ∧
      settleOne allow c v = .error e ∧ ∀ (j : Nat), j < i → ∀ (c : Call) (v : Verdict),
        calls[j]? = some c → vs[j]? = some v → ∃ r, settleOne allow c v = .ok r := by
  induction calls generalizing vs with
  | nil => simp [settleEach]
  | cons c calls ih =>
      cases vs with
      | nil => simp [settleEach]
      | cons v vs =>
          rw [settleEach, Except.bind_eq_error]
          constructor
          · rintro (here | ⟨r, first, h⟩)
            · exact ⟨0, c, v, rfl, rfl, here, fun j hj => absurd hj (Nat.not_lt_zero j)⟩
            · have rest := (Except.bind_eq_error.mp h).resolve_right (by simp)
              obtain ⟨i, c', v', hc, hv, here, before⟩ := ih.mp rest
              refine ⟨i + 1, c', v', by simpa using hc, by simpa using hv, here, ?_⟩
              intro j hj d w hd hw
              cases j with
              | zero =>
                  obtain rfl : c = d := by simpa using hd
                  obtain rfl : v = w := by simpa using hw
                  exact ⟨r, first⟩
              | succ j => exact before j (by omega) d w (by simpa using hd) (by simpa using hw)
          · rintro ⟨i, c', v', hc, hv, here, before⟩
            cases i with
            | zero =>
                obtain rfl : c = c' := by simpa using hc
                obtain rfl : v = v' := by simpa using hv
                exact .inl here
            | succ i =>
                obtain ⟨r, first⟩ := before 0 (by omega) c v rfl rfl
                refine .inr ⟨r, first, Except.bind_eq_error.mpr (.inl (ih.mpr ?_))⟩
                refine ⟨i, c', v', by simpa using hc, by simpa using hv, here, ?_⟩
                intro j hj d w hd hw
                exact before (j + 1) (by omega) d w (by simpa using hd) (by simpa using hw)

/-- Can every call be settled with its verdict? -/
def Intact (calls : List Call) (vs : List Verdict) : Prop :=
  ∀ (i : Nat) (c : Call) (v : Verdict), calls[i]? = some c → vs[i]? = some v →
    ∀ f, ¬ Broken c v f

/-- If failures are allowed and no verdict breaks its call, there are results. -/
theorem Intact.settleEach (h : Intact calls vs) : ∃ rs, settleEach true calls vs = .ok rs := by
  cases settled : Reassembly.settleEach true calls vs with
  | ok rs => exact ⟨rs, rfl⟩
  | error e =>
      obtain ⟨i, c, v, hc, hv, here, _⟩ := settleEach_eq_error.mp settled
      obtain ⟨f, broken, _⟩ := settleOne_eq_error.mp here
      exact absurd broken (h i c v hc hv f)

/-- One verdict that breaks its call takes the results of all calls. -/
theorem settleEach_of_broken {i : Nat} (call : calls[i]? = some c) (verdict : vs[i]? = some v)
    (broken : Broken c v f) : ∃ g, settleEach true calls vs = .error (.fault g) := by
  cases settled : settleEach true calls vs with
  | ok rs =>
      obtain ⟨r, _, here⟩ := getElem?_settleEach settled call verdict
      rw [settleOne_eq_error.mpr ⟨f, broken, rfl⟩] at here
      cases here
  | error e =>
      obtain ⟨_, _, _, _, _, here, _⟩ := settleEach_eq_error.mp settled
      obtain ⟨g, _, rfl⟩ := settleOne_eq_error.mp here
      exact ⟨g, rfl⟩

end Reassembly

end EthBatch

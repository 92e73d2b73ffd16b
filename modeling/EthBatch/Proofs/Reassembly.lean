import EthBatch.Proofs.Fault
import EthBatch.Reassembly
import Mathlib

/-!
# Every call gets the answer at its own place

The reassembly finds the next call by the number of results so far. If every chunk without an
error has as many answers as calls, this comes to settling each call with what its own chunk
has at its place: an answer, or the error of the chunk.
-/

namespace EthBatch

/-- What a call is settled with: its answer, or the error of its chunk. -/
abbrev Verdict := Except ChunkError Answer

/-- The verdicts for the calls of a chunk of a given size. -/
def ChunkOutcome.verdicts (size : Nat) : ChunkOutcome → List Verdict
  | .error e => List.replicate size (.error e)
  | .ok answers => answers.map .ok

/-- Are there answers for all calls of the chunk, if there are any? -/
def ChunkOutcome.Fits (size : Nat) (o : ChunkOutcome) : Prop :=
  ∀ answers, o = .ok answers → answers.length = size

theorem ChunkOutcome.length_verdicts {size : Nat} {o : ChunkOutcome} (h : o.Fits size) :
    (o.verdicts size).length = size := by
  cases o with
  | error e => simp [verdicts]
  | ok answers => simp [verdicts, h answers rfl]

/-- The entry of a call for its verdict, failures being allowed. -/
inductive Call.Entry (c : Call) : Verdict → CallResult → Prop where
  | chunk (e : ChunkError) : Call.Entry c (.error e) (.error (.chunk e))
  | encoding {f : EncodingFailure} (a : Answer) (h : c.encoding = .error f) :
      Call.Entry c (.ok a) (.error (.encoding f))
  | reverted {e : Encoded} {data : Bytes} {reason : Option String} (h : c.encoding = .ok e)
      (read : Revert.reasonOfData data = .ok reason) :
      Call.Entry c (.ok ⟨false, data⟩) (.error (.reverted ⟨data, reason⟩))
  | noData {e : Encoded} (h : c.encoding = .ok e) :
      Call.Entry c (.ok ⟨true, []⟩) (.error (.noData c.fn))
  | decoded {e : Encoded} {data : Bytes} {v : Value} (h : c.encoding = .ok e)
      (some : data ≠ []) (read : Call.decodeOutput e.function data = .ok (.ok v)) :
      Call.Entry c (.ok ⟨true, data⟩) (.ok v)
  | undecodable {e : Encoded} {data : Bytes} {f : Fault} (h : c.encoding = .ok e)
      (some : data ≠ []) (read : Call.decodeOutput e.function data = .ok (.error f)) :
      Call.Entry c (.ok ⟨true, data⟩) (.error (.undecodable c.fn f))

/-- A call and its verdict have one entry only. -/
theorem Call.Entry.unique {c : Call} {v : Verdict} {r r' : CallResult} (h : c.Entry v r)
    (h' : c.Entry v r') : r = r' := by
  cases h <;> cases h' <;> simp_all

/-- Errors of the bookkeeping of a run, which are no one's fault outside. -/
def Error.isInternal : Error → Bool
  | .resultsMismatch _ _ => true
  | .fault .badIndex => true
  | _ => false

theorem Error.isInternal_fault {α : Type} {x : Except Fault α} {f : Fault} (range : InRange x)
    (h : x = .error f) : (Error.fault f).isInternal = false := by
  subst h
  rw [InRange.error_iff] at range
  cases f <;> simp_all [isInternal]

theorem Call.inRange_settle (c : Call) (a : Answer) : InRange (c.settle a) := by
  unfold settle
  split
  · simp
  · split
    · split <;> simp
    · split
      · simp
      · split
        · simp
        · simp
        · next read =>
          have := inRange_decodeOutput ‹Encoded›.function a.data
          rw [read] at this
          simpa using this

namespace Reassembly

/-- Settles a call with its verdict and raises its failure unless failures are allowed. -/
def settleOne (allowFailure : Bool) (c : Call) : Verdict → Except Error CallResult
  | .error e => if allowFailure then .ok (.error (.chunk e)) else .error (.failure (.chunk e))
  | .ok a => settle allowFailure c a

/-- Settles calls with their verdicts one after the other. -/
def settleEach (allowFailure : Bool) : List Call → List Verdict →
    Except Error (List CallResult)
  | c :: cs, v :: vs => do
    let r ← settleOne allowFailure c v
    let rs ← settleEach allowFailure cs vs
    .ok (r :: rs)
  | _, _ => .ok []

variable {allow : Bool} {c : Call} {calls : List Call} {vs : List Verdict}
variable {rs : List CallResult} {rows : List (Nat × ChunkOutcome)}

/-- If failures are allowed, the entry of a call is the one that its verdict asks for. -/
theorem entry_of_settleOne {v : Verdict} {r : CallResult} (h : settleOne true c v = .ok r) :
    c.Entry v r := by
  cases v with
  | error e =>
      obtain rfl := Except.ok.inj h
      exact .chunk e
  | ok a =>
      obtain ⟨success, data⟩ := a
      simp only [settleOne, settle, Call.settle, if_true] at h
      cases henc : c.encoding with
      | error f =>
          simp only [henc] at h
          obtain rfl := Except.ok.inj h
          exact .encoding _ henc
      | ok e =>
          simp only [henc] at h
          cases success with
          | false =>
              cases hread : Revert.reasonOfData data with
              | error f => simp [Revert.read, hread, Except.map] at h
              | ok reason =>
                  simp only [Revert.read, hread, Except.map, Bool.not_false, if_true] at h
                  obtain rfl := Except.ok.inj h
                  exact .reverted henc hread
          | true =>
              simp only [Bool.not_true, Bool.false_eq_true, if_false] at h
              cases data with
              | nil =>
                  obtain rfl := Except.ok.inj h
                  exact .noData henc
              | cons x data =>
                  cases hread : Call.decodeOutput e.function (x :: data) with
                  | error f => simp [hread] at h
                  | ok result =>
                      cases result with
                      | error f =>
                          simp only [hread, List.isEmpty_cons, Bool.false_eq_true, if_false] at h
                          obtain rfl := Except.ok.inj h
                          exact .undecodable henc (by simp) hread
                      | ok v =>
                          simp only [hread, List.isEmpty_cons, Bool.false_eq_true, if_false] at h
                          obtain rfl := Except.ok.inj h
                          exact .decoded henc (by simp) hread

/-- Settling one call ends with a failure of its own or with a fault of what was read. -/
theorem isInternal_of_settleOne {v : Verdict} {e : Error} (h : settleOne allow c v = .error e) :
    e.isInternal = false := by
  cases v with
  | error f =>
      simp only [settleOne] at h
      split at h
      · cases h
      · obtain rfl := Except.error.inj h
        rfl
  | ok a =>
      simp only [settleOne, settle] at h
      split at h
      · next f hf =>
        obtain rfl := Except.error.inj h
        exact Error.isInternal_fault (c.inRange_settle a) hf
      · split at h
        · cases h
        · obtain rfl := Except.error.inj h
          rfl
      · cases h

/-! ## One call after the other -/

theorem settleEach_append {ds : List Call} {ws : List Verdict}
    (length : calls.length = vs.length) :
    settleEach allow (calls ++ ds) (vs ++ ws) = (do
      let here ← settleEach allow calls vs
      let rest ← settleEach allow ds ws
      .ok (here ++ rest)) := by
  induction calls generalizing vs with
  | nil =>
      match vs, length with
      | [], _ => cases h : settleEach allow ds ws <;> simp [settleEach, h]
  | cons c calls ih =>
      match vs, length with
      | v :: vs, length =>
          simp only [List.cons_append, settleEach, ih (by simpa using length)]
          cases settleOne allow c v with
          | error e => rfl
          | ok r =>
              cases settleEach allow calls vs with
              | error e => rfl
              | ok here => cases settleEach allow ds ws <;> rfl

theorem length_settleEach (h : settleEach allow calls vs = .ok rs)
    (length : calls.length = vs.length) : rs.length = calls.length := by
  induction calls generalizing vs rs with
  | nil =>
      cases h
      rfl
  | cons c calls ih =>
      match vs, length with
      | v :: vs, length =>
          obtain ⟨r, _, h⟩ := Except.bind_eq_ok.mp h
          obtain ⟨rs, hrs, h⟩ := Except.bind_eq_ok.mp h
          obtain rfl := Except.ok.inj h
          simp [ih hrs (by simpa using length)]

/-- The entry at a place comes from the call and the verdict at that place alone. -/
theorem getElem?_settleEach (h : settleEach allow calls vs = .ok rs) {i : Nat} {v : Verdict}
    (call : calls[i]? = some c) (verdict : vs[i]? = some v) :
    ∃ r, rs[i]? = some r ∧ settleOne allow c v = .ok r := by
  induction calls generalizing vs rs i with
  | nil => cases call
  | cons d calls ih =>
      match vs with
      | [] => cases verdict
      | w :: vs =>
          obtain ⟨r, hr, h⟩ := Except.bind_eq_ok.mp h
          obtain ⟨rs, hrs, h⟩ := Except.bind_eq_ok.mp h
          obtain rfl := Except.ok.inj h
          cases i with
          | zero =>
              obtain rfl : d = c := by simpa using call
              obtain rfl : w = v := by simpa using verdict
              exact ⟨r, rfl, hr⟩
          | succ i =>
              exact ih hrs (by simpa using call) (by simpa using verdict)

theorem isInternal_of_settleEach {e : Error} (h : settleEach allow calls vs = .error e) :
    e.isInternal = false := by
  induction calls generalizing vs with
  | nil => cases h
  | cons c calls ih =>
      match vs with
      | [] => cases h
      | v :: vs =>
          rcases Except.bind_eq_error.mp h with h | ⟨r, _, h⟩
          · exact isInternal_of_settleOne h
          · rcases Except.bind_eq_error.mp h with h | ⟨rs, _, h⟩
            · exact ih h
            · cases h

/-! ## One chunk after the other -/

/-- The answers of a chunk settle the next calls, if there are enough. -/
theorem settleAll_eq {answers : List Answer} (enough : answers.length ≤ calls.length) :
    settleAll allow calls answers = settleEach allow calls (answers.map .ok) := by
  induction answers generalizing calls with
  | nil => cases calls <;> rfl
  | cons a answers ih =>
      match calls, enough with
      | c :: calls, enough =>
          simp only [settleAll, List.map_cons, settleEach, settleOne,
            ih (by simpa using enough : answers.length ≤ calls.length)]

/-- Surplus calls are not looked at. -/
theorem settleEach_take (calls : List Call) (vs : List Verdict) :
    settleEach allow (calls.take vs.length) vs = settleEach allow calls vs := by
  induction calls generalizing vs with
  | nil => simp
  | cons c calls ih =>
      match vs with
      | [] => rfl
      | v :: vs => simp only [List.length_cons, List.take_succ_cons, settleEach, ih]

theorem settleEach_replicate (calls : List Call) (e : ChunkError) :
    settleEach true calls (List.replicate calls.length (.error e)) =
      .ok (List.replicate calls.length (.error (.chunk e))) := by
  induction calls with
  | nil => rfl
  | cons c calls ih => simp [settleEach, settleOne, List.replicate_succ, ih]

/-- Running through the chunks is settling the calls one after the other. -/
theorem collect_eq (fits : ∀ row ∈ rows, row.2.Fits row.1) (some : ∀ row ∈ rows, 0 < row.1)
    (enough : (rows.map Prod.fst).sum ≤ calls.length) :
    collect allow calls rows =
      settleEach allow calls (rows.flatMap fun row => row.2.verdicts row.1) := by
  induction rows generalizing calls with
  | nil => cases calls <;> rfl
  | cons row rows ih =>
      obtain ⟨size, o⟩ := row
      simp only [List.map_cons, List.sum_cons] at enough
      have length := ChunkOutcome.length_verdicts (fits _ List.mem_cons_self)
      have rest := @ih (calls.drop size) (fun r hr => fits r (List.mem_cons_of_mem _ hr))
        (fun r hr => some r (List.mem_cons_of_mem _ hr)) (by rw [List.length_drop]; omega)
      have here : (calls.take size).length = (o.verdicts size).length := by
        rw [length, List.length_take]
        omega
      rw [List.flatMap_cons, ← List.take_append_drop size calls, settleEach_append here,
        List.take_append_drop, ← rest]
      cases o with
      | ok answers =>
          have count := fits _ List.mem_cons_self answers rfl
          have first := @settleEach_take allow calls (ChunkOutcome.verdicts size (.ok answers))
          rw [length] at first
          rw [first, ChunkOutcome.verdicts, collect, settleAll_eq (by omega), count]
      | error e =>
          have few : (calls.take size).length = size := by
            rw [List.length_take]
            omega
          cases allow with
          | true =>
              have first := settleEach_replicate (calls.take size) e
              rw [few] at first
              simp only [collect, if_true, ChunkOutcome.verdicts, first, Except.ok_bind]
          | false =>
              obtain ⟨n, rfl⟩ := Nat.exists_eq_add_of_lt (some _ List.mem_cons_self)
              cases calls with
              | nil => simp at enough
              | cons c calls => rfl

end Reassembly

/-- Reassembly settles every call with the verdict at its own place, and nothing else can go
wrong. -/
theorem reassemble_eq {calls : List Call} {sizes : List Nat} {os : List ChunkOutcome}
    {allow : Bool} (fits : ∀ row ∈ sizes.zip os, row.2.Fits row.1) (some : ∀ n ∈ sizes, 0 < n)
    (chunks : os.length = sizes.length) (total : sizes.sum = calls.length) :
    reassemble calls sizes os allow = Reassembly.settleEach allow calls
      ((sizes.zip os).flatMap fun row => row.2.verdicts row.1) := by
  have firsts : (sizes.zip os).map Prod.fst = sizes := List.map_fst_zip (by omega)
  have whole := @Reassembly.collect_eq allow calls (sizes.zip os) fits
    (fun row hrow => some _ (List.of_mem_zip hrow).1) (by rw [firsts]; omega)
  have length : ((sizes.zip os).flatMap fun row => row.2.verdicts row.1).length =
      calls.length := by
    rw [List.length_flatMap, List.map_congr_left fun row hrow =>
      ChunkOutcome.length_verdicts (fits row hrow), firsts, total]
  rw [reassemble, whole]
  cases h : Reassembly.settleEach allow calls
      ((sizes.zip os).flatMap fun row => row.2.verdicts row.1) with
  | error e => rfl
  | ok rs =>
      rw [Except.ok_bind, if_pos (Reassembly.length_settleEach h length.symm)]

end EthBatch

import EthBatch.Proofs.Evm.Aggregator.Calldata

/-!
# What the aggregator has to do

The calls are made one after the other, and what an oracle answers to a call depends on all that
happened before it. `verdict` is how that ends: with the answers to all calls, or with the data of
the first call that failed and was not allowed to.
-/

namespace EthBatch

/-- A sub-call that is made without value, and its answer. -/
def SubCall.event (c : SubCall) (a : Answer) : Evm.Event :=
  .call c.target.word 0 c.data a.success a.data

/-- Did a sub-call fail that was not allowed to? -/
def SubCall.isFatal (c : SubCall) (a : Answer) : Bool := !(a.success || c.allowFailure)

namespace Evm

namespace Oracle

/-- What an oracle answers to a sub-call. -/
def answer (o : Oracle) (history : List Event) (c : SubCall) : Answer :=
  let reply := o.call history c.target.word 0 c.data
  ⟨reply.1, reply.2⟩

/-- What an oracle answers to sub-calls that are made one after the other. -/
def answers (o : Oracle) : List Event → List SubCall → List Answer
  | _, [] => []
  | history, c :: rest =>
    o.answer history c :: answers o (history ++ [c.event (o.answer history c)]) rest

/-- Sub-calls that are made one after the other. -/
def events (o : Oracle) (history : List Event) (calls : List SubCall) : List Event :=
  List.zipWith SubCall.event calls (o.answers history calls)

/-- No sub-call fails that is not allowed to. -/
def Allows (o : Oracle) (history : List Event) (calls : List SubCall) : Prop :=
  ∀ p ∈ calls.zip (o.answers history calls), p.1.isFatal p.2 = false

variable {o : Oracle} {history : List Event} {c : SubCall} {calls rest : List SubCall}

@[simp] theorem length_answers : (o.answers history calls).length = calls.length := by
  induction calls generalizing history with
  | nil => rfl
  | cons c rest ih => rw [answers, List.length_cons, ih, List.length_cons]

theorem events_cons : o.events history (c :: rest) = c.event (o.answer history c) ::
    o.events (history ++ [c.event (o.answer history c)]) rest := rfl

theorem allows_cons : o.Allows history (c :: rest) ↔ c.isFatal (o.answer history c) = false ∧
    o.Allows (history ++ [c.event (o.answer history c)]) rest := by
  rw [Allows, answers, List.zip_cons_cons, List.forall_mem_cons, Allows]

end Oracle

namespace Aggregator

open Aggregate

/-- How the calls that remain end, and what happened by then. -/
def verdict (o : Oracle) : (done : List Answer) → List Event → List SubCall → Halt × List Event
  | done, history, [] => (.returned (response done), history)
  | done, history, c :: rest =>
    let a := o.answer history c
    if c.isFatal a then (.reverted a.data, history ++ [c.event a])
    else verdict o (done ++ [a]) (history ++ [c.event a]) rest

variable {o : Oracle} {done : List Answer} {history : List Event} {calls : List SubCall}

/-- When all goes well, the answers to all calls are returned. -/
theorem verdict_of_allows (h : o.Allows history calls) :
    verdict o done history calls =
      (.returned (response (done ++ o.answers history calls)),
        history ++ o.events history calls) := by
  induction calls generalizing done history with
  | nil =>
      rw [Oracle.answers, List.append_nil, Oracle.events, List.zipWith_nil_left, List.append_nil]
      rfl
  | cons c rest ih =>
      obtain ⟨fine, h⟩ := Oracle.allows_cons.mp h
      simp only [verdict, fine, Bool.false_eq_true, if_false]
      rw [ih h, Oracle.answers, Oracle.events_cons, List.append_assoc, List.append_assoc,
        List.singleton_append, List.singleton_append]

/-- Otherwise there is a first call that was not allowed to fail, and no call behind it is made. -/
theorem verdict_of_not_allows (h : ¬ o.Allows history calls) :
    ∃ before c after, calls = before ++ c :: after ∧ o.Allows history before ∧
      c.isFatal (o.answer (history ++ o.events history before) c) = true ∧
      verdict o done history calls =
        (.reverted (o.answer (history ++ o.events history before) c).data,
          history ++ o.events history before ++
            [c.event (o.answer (history ++ o.events history before) c)]) := by
  induction calls generalizing done history with
  | nil => exact absurd (fun p hp => by cases hp) h
  | cons c rest ih =>
      cases fatal : c.isFatal (o.answer history c) with
      | true =>
          have none : history ++ o.events history [] = history := List.append_nil history
          refine ⟨[], c, rest, rfl, fun p hp => (by cases hp), ?_, ?_⟩
          · rw [none, fatal]
          · simp only [verdict, fatal, if_true, none]
      | false =>
          have worse : ¬ o.Allows (history ++ [c.event (o.answer history c)]) rest :=
            fun fine => h (Oracle.allows_cons.mpr ⟨fatal, fine⟩)
          obtain ⟨before, c', after, rfl, fine, fatal', ends⟩ :=
            @ih (done ++ [o.answer history c]) _ worse
          have seen : history ++ o.events history (c :: before) =
              history ++ [c.event (o.answer history c)] ++
                o.events (history ++ [c.event (o.answer history c)]) before := by
            rw [Oracle.events_cons, List.append_assoc, List.singleton_append]
          refine ⟨c :: before, c', after, rfl, Oracle.allows_cons.mpr ⟨fatal, fine⟩, ?_, ?_⟩
          · rw [seen, fatal']
          · simp only [verdict, fatal, Bool.false_eq_true, if_false, ends, seen]

/-- There is room for the calls that remain: no offset in the memory that the aggregator uses for
them reaches `2 ^ 256`. -/
def Roomy (o : Oracle) : (tail : Nat) → List Event → List SubCall → Prop
  | _, _, [] => True
  | tail, history, c :: rest =>
    let a := o.answer history c
    tail + 0x60 + c.data.length < 2 ^ 256 ∧ a.data.length < 2 ^ 256 ∧
      (c.isFatal a = false → tail + 0x80 + a.data.length < 2 ^ 256 ∧
        Roomy o (tail + 0x60 + Bytes.ceil32 a.data.length) (history ++ [c.event a]) rest)

end Aggregator

end Evm

end EthBatch

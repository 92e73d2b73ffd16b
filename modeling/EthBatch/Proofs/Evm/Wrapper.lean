import EthBatch.Proofs.Client.Request
import EthBatch.Proofs.Evm.Memory
import EthBatch.Proofs.Evm.Straight
import EthBatch.Proofs.Evm.Word

/-!
# The wrapper runs code without deploying it

The wrapper is a constructor that is followed by its arguments, the code of a contract and the data
of a call. It copies them to the start of the memory, where two words lead to them. It creates the
contract; if there is none, it reverts with nothing. Otherwise it calls the contract, and returns
what the call gave or reverts with it. The new address stays below the items that the call takes.
-/

namespace EthBatch

namespace Deployless

/-- Two words lead to the code and to the data, which stand behind their lengths. -/
theorem arguments_eq (code data : Bytes) : arguments code data =
    Bytes.word 0x40 ++ (Bytes.word (0x60 + Bytes.ceil32 code.length) ++
      (Bytes.word code.length ++ (Bytes.padEnd code ++
        (Bytes.word data.length ++ Bytes.padEnd data)))) := by
  have behind : 0x40 + (0x20 + Bytes.ceil32 code.length) = 0x60 + Bytes.ceil32 code.length := by
    omega
  simp [arguments, Abi.Layout.join, Abi.Layout.head, Abi.Layout.Part.headSize, Abi.Kind.encodeBytes,
    Bytes.length_padEnd, behind]

end Deployless

namespace Evm

variable {memory : Memory} {b bytes before rest : Bytes} {slot : Nat}

/-- The byte string that the word at an offset leads to: its length, and behind it the bytes. -/
def Memory.pointed (memory : Memory) (slot : Nat) : Bytes :=
  memory.read (memory.readWord slot + BitVec.ofNat 256 0x20).toNat
    (memory.readWord (memory.readWord slot).toNat).toNat

theorem Memory.pointed_write (before rest : Bytes) (size : b.length < 2 ^ 256)
    (inside : slot + 32 ≤ b.length) (leads : wordAt b slot = BitVec.ofNat 256 before.length)
    (split : b = before ++ (Bytes.word bytes.length ++ (bytes ++ rest))) :
    (memory.write 0 b).pointed slot = bytes := by
  have total := congrArg List.length split
  simp only [List.length_append, Bytes.length_word] at total
  have length : wordAt b before.length = BitVec.ofNat 256 bytes.length := by
    rw [split, wordAt_append_right (Nat.le_refl _), Nat.sub_self, wordAt_word]
  have place : before.length + 0x20 - before.length - (Bytes.word bytes.length).length = 0 := by
    rw [Bytes.length_word]
    omega
  rw [pointed, Memory.readWord_write_wordAt _ inside, leads, Word.toNat_ofNat (by omega),
    Memory.readWord_write_wordAt _ (by omega), length, Word.ofNat_add,
    Word.toNat_ofNat (by omega), Word.toNat_ofNat (by omega),
    Memory.read_write_window _ (by omega), split, window_append_right (by omega),
    window_append_right (by rw [Bytes.length_word]; omega), place, window_append_left]

namespace Wrapper

open Machine Deployless

variable {code data : Bytes}

/-- The first word leads to the code. -/
theorem pointed_code (size : (arguments code data).length < 2 ^ 256) :
    (memory.write 0 (arguments code data)).pointed 0 = code := by
  have length := length_arguments code data
  have head : (Bytes.word 0x40 ++ Bytes.word (0x60 + Bytes.ceil32 code.length)).length = 0x40 := by
    rw [List.length_append, Bytes.length_word, Bytes.length_word]
  apply Memory.pointed_write
    (Bytes.word 0x40 ++ Bytes.word (0x60 + Bytes.ceil32 code.length))
    (Bytes.zeros (Bytes.ceil32 code.length - code.length) ++
      (Bytes.word data.length ++ Bytes.padEnd data)) size (by omega)
  · rw [head, arguments_eq, wordAt_word]
  · simp only [arguments_eq, Bytes.padEnd, List.append_assoc]

/-- The second word leads to the data. -/
theorem pointed_data (size : (arguments code data).length < 2 ^ 256) :
    (memory.write 0 (arguments code data)).pointed 0x20 = data := by
  have length := length_arguments code data
  have head : (Bytes.word 0x40 ++ (Bytes.word (0x60 + Bytes.ceil32 code.length) ++
      (Bytes.word code.length ++ Bytes.padEnd code))).length =
        0x60 + Bytes.ceil32 code.length := by
    simp only [List.length_append, Bytes.length_word, Bytes.length_padEnd]
    omega
  apply Memory.pointed_write
    (Bytes.word 0x40 ++ (Bytes.word (0x60 + Bytes.ceil32 code.length) ++
      (Bytes.word code.length ++ Bytes.padEnd code)))
    (Bytes.zeros (Bytes.ceil32 data.length - data.length)) size (by omega)
  · have first : 0x20 - (Bytes.word 0x40).length = 0 := by rw [Bytes.length_word]
    rw [head, arguments_eq, wordAt_append_right (by rw [Bytes.length_word]), first, wordAt_word]
  · simp only [arguments_eq, Bytes.padEnd, List.append_assoc]

/-! ## What the stretches do -/

variable {m : Machine} {labels : Labels} {result output : Bytes} {history : List Event}
variable {account : Word} {success : Bool}

/-- What stands behind the program is copied. -/
theorem runs_copyArguments (found : labels.lookup "args" = some (before.length : Int))
    (whole : m.code = before ++ rest) (size : m.code.length < 2 ^ 256) :
    m.Runs labels copyArguments (⟨·, [], memory, result, history⟩)
      (⟨·, [], memory.write 0 rest, result, history⟩) := by
  have total : m.code.length = before.length + rest.length := by
    rw [whole, List.length_append]
  have count : (BitVec.ofNat 256 m.code.length - BitVec.ofNat 256 before.length).toNat =
      rest.length := by
    rw [Word.ofNat_sub (by omega), total, Nat.add_sub_cancel_left, Word.toNat_ofNat (by omega)]
  have behind : window m.code (BitVec.ofNat 256 before.length).toNat
      (BitVec.ofNat 256 m.code.length - BitVec.ofNat 256 before.length).toNat = rest := by
    rw [count, Word.toNat_ofNat (by omega), whole, window_append_right (Nat.le_refl _),
      Nat.sub_self]
    have all : window (rest ++ []) 0 rest.length = rest := window_append_left
    rwa [List.append_nil] at all
  have first : m.Runs labels [pushLabel "args"] (⟨·, [], memory, result, history⟩)
      (⟨·, [BitVec.ofNat 256 before.length], memory, result, history⟩) :=
    runs_pushLabel found (by decide : 0 < stackLimit)
  have counted : m.Runs labels (ops [.codeSize, .sub])
      (⟨·, [BitVec.ofNat 256 before.length], memory, result, history⟩)
      (⟨·, [BitVec.ofNat 256 m.code.length - BitVec.ofNat 256 before.length], memory, result,
        history⟩) := fun _ => ⟨_, rfl⟩
  have second : m.Runs labels [pushLabel "args"]
      (⟨·, [BitVec.ofNat 256 m.code.length - BitVec.ofNat 256 before.length], memory, result,
        history⟩)
      (⟨·, [BitVec.ofNat 256 before.length, BitVec.ofNat 256 m.code.length -
        BitVec.ofNat 256 before.length], memory, result, history⟩) :=
    runs_pushLabel found (by decide : 1 < stackLimit)
  refine first.append (counted.append (second.append ?_))
  rw [← behind]
  exact fun _ => ⟨_, rfl⟩

theorem runs_createContract (staged : memory.pointed 0 = bytes)
    (created : m.oracle.create history 0 bytes = (account, output)) :
    m.Runs labels createContract (⟨·, [], memory, result, history⟩)
      (⟨·, [account], memory, if account = 0 then output else [],
        history ++ [.create 0 bytes account]⟩) := by
  obtain ⟨rfl, rfl⟩ := Prod.ext_iff.mp created
  subst staged
  exact fun _ => ⟨_, rfl⟩

theorem runs_isZero (m : Machine) (labels : Labels) (memory : Memory) (result : Bytes)
    (history : List Event) (account : Word) :
    m.Runs labels isMissing (⟨·, [account], memory, result, history⟩)
      (⟨·, [.ofBool (account == 0), account], memory, result, history⟩) := fun _ => ⟨_, rfl⟩

/-- The output goes nowhere yet, and the account stays on the stack. -/
theorem runs_callContract (staged : memory.pointed 0x20 = bytes)
    (answered : m.oracle.call history account.account 0 bytes = (success, output)) :
    m.Runs labels callContract (⟨·, [account], memory, result, history⟩)
      (⟨·, [.ofBool success, account], memory, output,
        history ++ [.call account.account 0 bytes success output]⟩) := by
  obtain ⟨rfl, rfl⟩ := Prod.ext_iff.mp answered
  subst staged
  have untouched (reply : Bytes) : memory.write 0 (reply.take 0) = memory := by
    rw [List.take_zero, Memory.write_nil]
  intro pc
  exact ⟨_, Eq.trans rfl (congrArg (fun memory => some (State.mk _ _ memory _ _))
    (untouched _))⟩

theorem runs_copyOutput (small : result.length < 2 ^ 256) (a b : Word) :
    m.Runs labels copyOutput (⟨·, [a, b], memory, result, history⟩)
      (⟨·, [a, b], memory.write 0 result, result, history⟩) := by
  refine Runs.append (t := (⟨·, [BitVec.ofNat 256 0, BitVec.ofNat 256 0,
    BitVec.ofNat 256 result.length, a, b], memory, result, history⟩)) ?_ ?_
  · exact fun _ => ⟨_, rfl⟩
  · intro pc
    refine ⟨pc + 1, ?_⟩
    have all := returned?_all ⟨pc, [BitVec.ofNat 256 0, BitVec.ofNat 256 0,
      BitVec.ofNat 256 result.length, a, b], memory, result, history⟩ small
    simp only [ops, List.map_cons, List.map_nil, perform, execute, State.copy, all]
    rfl

/-! ## A run of the program -/

/-- Where the contract is created. -/
def createAt : Nat := 0 + sizes copyArguments

/-- Where the new address is checked. -/
def checkAt : Nat := createAt + sizes createContract

/-- Where the contract is called. -/
def callAt : Nat := checkAt + sizes checkContract

/-- Where the output is copied. -/
def copyAt : Nat := callAt + sizes callContract

/-- Where the success of the call is checked. -/
def judgeAt : Nat := copyAt + sizes copyOutput

/-- Where the run reverts with the output. -/
def revertAt : Nat := judgeAt + sizes checkCall

/-- Where the run returns the output. -/
def finishAt : Nat := revertAt + sizes refuse

/-- Where the run reverts with nothing. -/
def giveUpAt : Nat := finishAt + sizes finish

/-- Where the arguments begin. -/
def argsAt : Nat := giveUpAt + sizes giveUp

theorem argsAt_eq : argsAt = wrapper.length := by decide +kernel

/-- A machine that runs the wrapper with its arguments. -/
structure Wrapping (m : Machine) (labels : Labels) (code data : Bytes) : Prop where
  program : CodeAt m.code labels 0 (copyArguments ++ (createContract ++ (checkContract ++
    (callContract ++ (copyOutput ++ (checkCall ++ (refuse ++ (finish ++
      (giveUp ++ [.label "args"])))))))))
  whole : m.code = wrapper ++ arguments code data
  size : m.code.length < 2 ^ 256

theorem exists_wrapping (whole : m.code = wrapper ++ arguments code data)
    (size : m.code.length < 2 ^ 256) : ∃ labels, Wrapping m labels code data := by
  obtain ⟨labels, stands⟩ : ∃ labels,
      CodeAt (wrapper ++ arguments code data) labels 0 program :=
    exists_codeAt_code (by decide +kernel) (by decide +kernel) _
  refine ⟨labels, ?_, whole, size⟩
  rw [whole]
  exact stands

/-- The memory with the arguments. -/
def filled (code data : Bytes) : Memory := Memory.blank.write 0 (arguments code data)

namespace Wrapping

variable (wrapping : Wrapping m labels code data)

include wrapping

theorem createContract : CodeAt m.code labels createAt createContract :=
  wrapping.program.append_right.append_left

theorem checkContract : CodeAt m.code labels checkAt checkContract :=
  wrapping.program.append_right.append_right.append_left

/-- What stands behind the check of the address. -/
theorem behind : CodeAt m.code labels callAt (callContract ++ (copyOutput ++ (checkCall ++
    (refuse ++ (finish ++ (giveUp ++ [.label "args"])))))) :=
  wrapping.program.append_right.append_right.append_right

theorem callContract : CodeAt m.code labels callAt callContract := wrapping.behind.append_left

theorem copyOutput : CodeAt m.code labels copyAt copyOutput :=
  wrapping.behind.append_right.append_left

theorem checkCall : CodeAt m.code labels judgeAt checkCall :=
  wrapping.behind.append_right.append_right.append_left

theorem revert : CodeAt m.code labels revertAt refuse :=
  wrapping.behind.append_right.append_right.append_right.append_left

/-- The two targets of jumps and the end of the program. -/
theorem targets : CodeAt m.code labels finishAt (finish ++ (giveUp ++ [.label "args"])) :=
  wrapping.behind.append_right.append_right.append_right.append_right

theorem finish : CodeAt m.code labels finishAt finish := wrapping.targets.append_left

theorem giveUp : CodeAt m.code labels giveUpAt giveUp :=
  wrapping.targets.append_right.append_left

theorem args : labels.lookup "args" = some (wrapper.length : Int) := by
  rw [← argsAt_eq]
  exact wrapping.targets.append_right.append_right.1

theorem length_arguments_lt : (arguments code data).length < 2 ^ 256 := by
  have size := wrapping.size
  rw [wrapping.whole, List.length_append] at size
  omega

/-- The contract is created, and whether there is one decides where the run goes on. -/
theorem reaches_checked (created : m.oracle.create [] 0 code = (account, output)) :
    m.Reaches .start ⟨if account = 0 then giveUpAt else callAt, [account], filled code data,
      if account = 0 then output else [], [.create 0 code account]⟩ := by
  have copied : m.Runs labels copyArguments (⟨·, [], .blank, [], []⟩)
      (⟨·, [], filled code data, [], []⟩) :=
    runs_copyArguments wrapping.args wrapping.whole wrapping.size
  have made : m.Runs labels Wrapper.createContract (⟨·, [], filled code data, [], []⟩)
      (⟨·, [account], filled code data, if account = 0 then output else [],
        [] ++ [.create 0 code account]⟩) :=
    runs_createContract (pointed_code wrapping.length_arguments_lt) created
  have asked := runs_isZero m labels (filled code data) (if account = 0 then output else [])
    [.create 0 code account] account
  refine (copied.reaches wrapping.program.append_left).trans ?_
  refine (made.reaches wrapping.createContract).trans ?_
  refine (asked.reaches wrapping.checkContract.append_left).trans ?_
  refine (reaches_of_jumpi wrapping.checkContract.append_right wrapping.giveUp
    (Nat.le_of_lt wrapping.size) rfl ?_).trans ?_
  · exact (by decide : 2 < stackLimit)
  by_cases none : account = 0
  · simp only [none, beq_self_eq_true, if_true]
    exact .refl
  · simp only [none, beq_eq_false_iff_ne.mpr none, Bool.false_eq_true, if_false]
    exact .refl

/-- Without a contract the run reverts with nothing. -/
theorem ends_of_none : m.Ends ⟨giveUpAt, [account], memory, result, history⟩ (.reverted [])
    history := by
  have entered : m.Runs labels (Item.jumpDest "failed") (⟨·, [account], memory, result, history⟩)
      (⟨·, [account], memory, result, history⟩) := fun _ => ⟨_, rfl⟩
  have nothing : m.Runs labels [push 0, push 0] (⟨·, [account], memory, result, history⟩)
      (⟨·, [BitVec.ofNat 256 0, BitVec.ofNat 256 0, account], memory, result, history⟩) :=
    fun _ => ⟨_, rfl⟩
  refine (entered.reaches wrapping.giveUp.append_left).ends ?_
  refine (nothing.reaches wrapping.giveUp.append_right.append_left).ends ?_
  exact ends_of_execute wrapping.giveUp.append_right.append_right rfl

/-- The contract is called, and the success of the call decides where the run goes on. -/
theorem reaches_called
    (answered : m.oracle.call history account.account 0 data = (success, output))
    (small : output.length < 2 ^ 256) :
    m.Reaches ⟨callAt, [account], filled code data, result, history⟩
      ⟨if success then finishAt else revertAt, [account],
        (filled code data).write 0 output, output,
        history ++ [.call account.account 0 data success output]⟩ := by
  have called : m.Runs labels Wrapper.callContract
      (⟨·, [account], filled code data, result, history⟩)
      (⟨·, [.ofBool success, account], filled code data, output,
        history ++ [.call account.account 0 data success output]⟩) :=
    runs_callContract (pointed_data wrapping.length_arguments_lt) answered
  have copied : m.Runs labels Wrapper.copyOutput
      (⟨·, [.ofBool success, account], filled code data, output,
        history ++ [.call account.account 0 data success output]⟩)
      (⟨·, [.ofBool success, account], (filled code data).write 0 output, output,
        history ++ [.call account.account 0 data success output]⟩) :=
    runs_copyOutput small _ _
  refine (called.reaches wrapping.callContract).trans ?_
  refine (copied.reaches wrapping.copyOutput).trans ?_
  refine (reaches_of_jumpi wrapping.checkCall wrapping.finish (Nat.le_of_lt wrapping.size) rfl
    ?_).trans ?_
  · exact (by decide : 2 < stackLimit)
  · cases success with
    | true => exact .refl
    | false => exact .refl

/-- With the output at the start of the memory, the run returns it or reverts with it. -/
theorem ends_of_called (success : Bool) (small : output.length < 2 ^ 256) :
    m.Ends ⟨if success then finishAt else revertAt, [account], memory.write 0 output, output,
      history⟩ (if success then .returned output else .reverted output) history := by
  have extended : m.Runs labels extent (⟨·, [account], memory.write 0 output, output, history⟩)
      (⟨·, [BitVec.ofNat 256 0, BitVec.ofNat 256 output.length, account],
        memory.write 0 output, output, history⟩) := fun _ => ⟨_, rfl⟩
  have found : (memory.write 0 output).read (BitVec.ofNat 256 0).toNat
      (BitVec.ofNat 256 output.length).toNat = output := by
    rw [Word.toNat_ofNat (by decide), Word.toNat_ofNat small, Memory.read_write]
  cases success with
  | true =>
      have entered : m.Runs labels (Item.jumpDest "success")
          (⟨·, [account], memory.write 0 output, output, history⟩)
          (⟨·, [account], memory.write 0 output, output, history⟩) := fun _ => ⟨_, rfl⟩
      refine (entered.reaches wrapping.finish.append_left).ends ?_
      refine (extended.reaches wrapping.finish.append_right.append_left).ends ?_
      apply ends_of_execute wrapping.finish.append_right.append_right
      simp only [execute, State.finish, State.halt, found, if_true]
  | false =>
      refine (extended.reaches wrapping.revert.append_left).ends ?_
      apply ends_of_execute wrapping.revert.append_right
      simp only [execute, State.finish, State.halt, found, Bool.false_eq_true, if_false]

end Wrapping

/-- A run that ends well does not fail. -/
theorem not_failed {h : Halt} (ends : m.Ends .start h history) (well : h ≠ .failed)
    (history' : List Event) : ¬ m.Ends .start .failed history' :=
  fun failed => well (ends.unique failed).1

/-- The wrapper takes any code and any data. It creates the code, without value. If that gives no
contract, it makes no call and reverts with nothing. Otherwise it calls the contract with the data,
without value, and returns the output of the call if that succeeded, or reverts with it. The
machine itself never fails. -/
theorem creates_then_calls [Platform] (code data : Bytes) :
    ∃ whole, Deployless.wrap wrapper (.bytes code) (.bytes data) = .ok whole ∧
      ∀ m : Machine, m.code = whole → whole.length < 2 ^ 256 →
      ∀ account reply, m.oracle.create [] 0 code = (account, reply) →
        (account = 0 →
          m.Ends .start (.reverted []) [.create 0 code 0] ∧
          ∀ history, ¬ m.Ends .start .failed history) ∧
        (account ≠ 0 → ∀ success output,
          m.oracle.call [.create 0 code account] account.account 0 data = (success, output) →
          output.length < 2 ^ 256 →
          m.Ends .start (if success then .returned output else .reverted output)
            [.create 0 code account, .call account.account 0 data success output] ∧
          (account.toNat < 2 ^ 160 → account.account = account) ∧
          ∀ history, ¬ m.Ends .start .failed history) := by
  refine ⟨_, wrap_bytes _ _ _, ?_⟩
  intro m whole size account reply created
  rw [← whole] at size
  obtain ⟨labels, wrapping⟩ := exists_wrapping whole size
  have checked := wrapping.reaches_checked created
  constructor
  · intro none
    rw [none, if_pos rfl] at checked
    have ends := checked.ends wrapping.ends_of_none
    exact ⟨ends, not_failed ends nofun⟩
  · intro some success output answered small
    rw [if_neg some] at checked
    have ends := checked.ends ((wrapping.reaches_called answered small).ends
      (wrapping.ends_of_called success small))
    refine ⟨ends, Word.account_of_lt, not_failed ends ?_⟩
    cases success <;> nofun

/-- An oracle that creates a contract at an address, whose calls fail with one byte. -/
def grumbling : Oracle := ⟨fun _ _ _ _ => (false, [0xff]), fun _ _ _ => (7, [])⟩

open scoped Platform.Lenient

/-- The call fails, and the run reverts with its byte. -/
theorem creates_then_calls_grumbling :
    (Machine.mk (wrapper ++ arguments [0xfe] [1, 2]) [] grumbling).Ends .start (.reverted [0xff])
      [.create 0 [0xfe] 7, .call 7 0 [1, 2] false [0xff]] := by
  obtain ⟨whole, wrapped, runs⟩ := creates_then_calls [0xfe] [1, 2]
  rw [wrap_bytes] at wrapped
  obtain rfl := Except.ok.inj wrapped
  obtain ⟨_, called⟩ := runs ⟨_, [], grumbling⟩ rfl (by decide +kernel) 7 [] rfl
  exact (called (by decide) false [0xff] rfl (by decide)).1

end Wrapper

end Evm

end EthBatch

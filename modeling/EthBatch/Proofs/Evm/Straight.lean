import EthBatch.Evm.Builtin
import EthBatch.Evm.Machine
import EthBatch.Proofs.Evm.Assembly

/-!
# Straight stretches of a program

`perform` runs items that follow each other without regard to code and offsets. Where the items
stand in the code, the machine goes from the one state to the other. Jumps lead to labels.
-/

namespace EthBatch.Evm

/-- A program that assembles stands in its code, whatever follows it. -/
theorem exists_codeAt_code {items : List Item} (regular : items.all Item.isRegular = true)
    (assembles : (assemble items).isOk = true) (rest : Bytes) :
    ∃ labels, CodeAt (code (assemble items) ++ rest) labels 0 items := by
  cases h : assemble items with
  | ok b => exact codeAt_assemble_append regular h rest
  | error f =>
      rw [h] at assembles
      cases assembles

/-- Does an instruction always go on to the next one? -/
def Opcode.isStraight : Opcode → Bool
  | .jump | .jumpi => false
  | _ => true

namespace Machine

variable {m : Machine} {labels : Labels} {s t u : State} {items : List Item}

/-- The machine gets from one state to another. -/
def Reaches (m : Machine) : State → State → Prop :=
  Relation.ReflTransGen fun s t => m.step s = .running t

theorem Reaches.trans (first : m.Reaches s t) (second : m.Reaches t u) : m.Reaches s u :=
  Relation.ReflTransGen.trans first second

theorem Reaches.of_step (h : m.step s = .running t) : m.Reaches s t :=
  Relation.ReflTransGen.single h

/-- A run ends as it does from any state that it gets to. -/
theorem Reaches.ends {h : Halt} {history : List Event} (reaches : m.Reaches s t)
    (ends : m.Ends t h history) : m.Ends s h history := by
  induction reaches using Relation.ReflTransGen.head_induction_on with
  | refl => exact ends
  | head step _ ih => exact .of_step step ih

/-- Runs items without jumps. -/
def perform (m : Machine) (labels : Labels) : List Item → State → Option State
  | [], s => some s
  | .op o :: items, s =>
    match m.execute s o with
    | .running t =>
      if o.isStraight && decide (t.stack.length ≤ stackLimit) then perform m labels items t
      else none
    | .halted _ _ => none
  | .push value width :: items, s =>
    match value.resolve labels with
    | .ok n =>
      if s.stack.length < stackLimit then
        perform m labels items { s with
          pc := s.pc + 1 + (Item.pushWidth value width).toNat
          stack := BitVec.ofNat 256 n.toNat :: s.stack }
      else none
    | .error _ => none
  | .label _ :: items, s => perform m labels items s
  | .sizeless _ :: _, _ | .codeless _ :: _, _ => none

theorem pc_of_execute {o : Opcode} (straight : o.isStraight = true)
    (h : m.execute s o = .running t) : t.pc = s.pc + 1 := by
  cases o with
  | jump => cases straight
  | jumpi => cases straight
  | _ =>
      simp only [execute, State.binary, State.unary, State.copy, State.finish, State.push,
        State.next, State.halt, create, call] at h
      all_goals
        repeat' split at h
        all_goals first
          | cases h; rfl
          | cases h

theorem step_of_fetch {o : Opcode} (found : Instruction.fetch m.code s.pc = .op o)
    (h : m.execute s o = .running t) (room : t.stack.length ≤ stackLimit) :
    m.step s = .running t := by
  have run : m.instruction s = .running t := by
    rw [instruction, found]
    exact h
  simp only [step, run]
  exact if_pos room

theorem step_of_fetch_push {width n : Nat}
    (found : Instruction.fetch m.code s.pc = .push width n)
    (room : s.stack.length < stackLimit) :
    m.step s = .running { s with
      pc := s.pc + 1 + width, stack := BitVec.ofNat 256 n :: s.stack } := by
  have run : m.instruction s = .running { s with
      pc := s.pc + 1 + width, stack := BitVec.ofNat 256 n :: s.stack } := by
    rw [instruction, found]
  simp only [step, run]
  exact if_pos room

theorem perform_append {more : List Item} :
    m.perform labels (items ++ more) s =
      (m.perform labels items s).bind (m.perform labels more) := by
  induction items generalizing s with
  | nil => rfl
  | cons i items ih =>
      cases i with
      | sizeless cause => rfl
      | codeless cause => rfl
      | label name => exact ih
      | op o =>
          simp only [List.cons_append, perform]
          split
          · split
            · exact ih
            · rfl
          · rfl
      | push value width =>
          simp only [List.cons_append, perform]
          split
          · split
            · exact ih
            · rfl
          · rfl

/-- The machine runs the items that stand where it is, and is behind them then. -/
theorem reaches_and_pc_of_perform (stands : CodeAt m.code labels s.pc items)
    (h : m.perform labels items s = some t) :
    m.Reaches s t ∧ t.pc = s.pc + sizes items := by
  induction items generalizing s with
  | nil =>
      cases h
      exact ⟨.refl, rfl⟩
  | cons i items ih =>
      obtain ⟨here, next⟩ := stands
      rw [sizes_cons, ← Nat.add_assoc]
      cases i with
      | sizeless cause => cases h
      | codeless cause => cases h
      | label name => exact ih next h
      | op o =>
          rw [perform] at h
          split at h
          · next u run =>
            split at h
            · next allowed =>
              rw [Bool.and_eq_true, decide_eq_true_eq] at allowed
              have step := step_of_fetch here.2 run allowed.2
              have pc := pc_of_execute allowed.1 run
              have next : CodeAt m.code labels u.pc items := by
                rw [pc]
                exact next
              obtain ⟨reaches, behind⟩ := ih next h
              refine ⟨Reaches.trans (.of_step step) reaches, ?_⟩
              rw [behind, pc]
              rfl
            · cases h
          · cases h
      | push value width =>
          obtain ⟨w, n, wide, resolved, found⟩ := here
          have size : (Item.push value width).size.toNat = 1 + w := by
            rw [Item.size, wide]
            omega
          rw [size, ← Nat.add_assoc] at next ⊢
          simp only [perform, resolved, wide, Int.toNat_natCast] at h
          split at h
          · next room =>
            have step := step_of_fetch_push found room
            obtain ⟨reaches, pc⟩ := ih next h
            exact ⟨Reaches.trans (.of_step step) reaches, pc⟩
          · cases h

/-- A stretch of a program takes the machine from one state to another, wherever it stands. -/
def Runs (m : Machine) (labels : Labels) (items : List Item) (s t : (pc : Nat) → State) : Prop :=
  ∀ pc, ∃ pc', m.perform labels items (s pc) = some (t pc')

theorem Runs.append {s t u : Nat → State} {more : List Item} (first : m.Runs labels items s t)
    (second : m.Runs labels more t u) : m.Runs labels (items ++ more) s u := by
  intro pc
  obtain ⟨middle, first⟩ := first pc
  obtain ⟨pc', second⟩ := second middle
  refine ⟨pc', ?_⟩
  rw [perform_append, first, Option.bind_some, second]

/-- The counter is behind a stretch then. -/
theorem Runs.reaches {pc : Nat} {stack stack' : List Word} {memory memory' : Memory}
    {result result' : Bytes} {history history' : List Event}
    (h : m.Runs labels items (⟨·, stack, memory, result, history⟩)
      (⟨·, stack', memory', result', history'⟩))
    (stands : CodeAt m.code labels pc items) :
    m.Reaches ⟨pc, stack, memory, result, history⟩
      ⟨pc + sizes items, stack', memory', result', history'⟩ := by
  obtain ⟨pc', h⟩ := h pc
  obtain ⟨reaches, rfl⟩ := reaches_and_pc_of_perform stands h
  exact reaches

/-- An instruction that halts ends the run. -/
theorem ends_of_execute {o : Opcode} {h : Halt} {history : List Event}
    (stands : CodeAt m.code labels s.pc [.op o]) (halts : m.execute s o = .halted h history) :
    m.Ends s h history := by
  obtain ⟨⟨-, found⟩, -⟩ := stands
  apply Ends.of_halt
  simp only [step, instruction, found, halts]

/-! ## Jumps -/

variable {name : String} {pc : Nat} {rest : List Word}

/-- Where a label with a jump target stands, a jump may lead. -/
theorem jumpTo_of_codeAt (stands : CodeAt m.code labels pc (Item.jumpDest name ++ items))
    (size : m.code.length ≤ 2 ^ 256) :
    labels.lookup name = some (pc : Int) ∧
      m.jumpTo s (BitVec.ofNat 256 pc) rest = .running { s with pc, stack := rest } := by
  obtain ⟨found, ⟨begins, fetched⟩, -⟩ := stands
  have begins : pc ∈ starts m.code := begins
  have fetched : Instruction.fetch m.code pc = .op .jumpDest := fetched
  have small : (BitVec.ofNat 256 pc).toNat = pc := by
    rw [BitVec.toNat_ofNat]
    exact Nat.mod_eq_of_lt (Nat.lt_of_lt_of_le (lt_length_of_mem_starts begins) size)
  refine ⟨found, ?_⟩
  rw [jumpTo, small, isJumpTarget, fetched, List.contains_iff_mem.mpr begins]
  rfl

/-- The push of a label. -/
theorem reaches_of_pushLabel (stands : (pushLabel name).IsAt m.code labels s.pc)
    (found : labels.lookup name = some (pc : Int)) (room : s.stack.length < stackLimit) :
    m.Reaches s { s with pc := s.pc + 3, stack := BitVec.ofNat 256 pc :: s.stack } := by
  obtain ⟨w, n, wide, resolved, fetched⟩ := stands
  have two : w = 2 := by
    have : (2 : Int) = w := wide
    omega
  have target : n = pc := by
    rw [Operand.resolve, found] at resolved
    have := Except.ok.inj resolved
    omega
  subst two target
  exact .of_step (step_of_fetch_push fetched room)

/-- The push of a label inside a stretch. -/
theorem runs_pushLabel {stack : List Word} {memory : Memory} {result : Bytes}
    {history : List Event} (found : labels.lookup name = some (pc : Int))
    (room : stack.length < stackLimit) :
    m.Runs labels [pushLabel name] (⟨·, stack, memory, result, history⟩)
      (⟨·, BitVec.ofNat 256 pc :: stack, memory, result, history⟩) := by
  intro start
  refine ⟨start + 3, ?_⟩
  simp only [pushLabel, perform, Operand.resolve, found, if_pos room]
  rfl

theorem reaches_of_jump (stands : CodeAt m.code labels s.pc [pushLabel name, .op .jump])
    (lands : CodeAt m.code labels pc (Item.jumpDest name ++ items))
    (size : m.code.length ≤ 2 ^ 256) (room : s.stack.length < stackLimit) :
    m.Reaches s { s with pc } := by
  obtain ⟨pushed, ⟨-, fetched⟩, -⟩ := stands
  obtain ⟨found, jump⟩ := jumpTo_of_codeAt lands size
  refine (reaches_of_pushLabel pushed found room).trans (.of_step ?_)
  exact step_of_fetch fetched jump (Nat.le_of_lt room)

/-- A conditional jump leads behind itself when the condition is zero. -/
theorem reaches_of_jumpi (stands : CodeAt m.code labels s.pc [pushLabel name, .op .jumpi])
    (lands : CodeAt m.code labels pc (Item.jumpDest name ++ items))
    (size : m.code.length ≤ 2 ^ 256) {p : Bool} (stack : s.stack = .ofBool p :: rest)
    (room : s.stack.length < stackLimit) :
    m.Reaches s { s with pc := if p then pc else s.pc + 4, stack := rest } := by
  obtain ⟨pushed, ⟨-, fetched⟩, -⟩ := stands
  obtain ⟨found, jump⟩ := jumpTo_of_codeAt lands size
  refine (reaches_of_pushLabel pushed found room).trans (.of_step ?_)
  rw [stack, List.length_cons] at room
  refine step_of_fetch fetched ?_ (Nat.le_of_lt (Nat.lt_of_succ_lt room))
  rw [execute, stack]
  cases p with
  | true => exact jump
  | false => rfl

end Machine

end EthBatch.Evm

/-
# EightBit.Proofs.TraceLine -- a trace line is faithful to the machine and to its next step

A trace line is put together from numerals, names and bars, and the program counter in it may be two
or three digits long.  Two machines could have the same line only if the line could be cut in two
ways; but its fields hold no blank, so cutting it at its blanks gives them back (`fields_trace`).
Each field in turn is read back to what it shows: a numeral by its digits, a mnemonic by looking it
up, and `--` is no numeral.

The mnemonic is found by a look at one byte of memory, while a step fetches that byte anew, decodes
it and reads operands.  `attempts_iff` and `nextOperation?_eq_none` say that the two agree on every
running machine, also where the instruction is cut off by the end of memory.  `trace_faithful` puts
both sides together.
-/
import EightBit.Proofs.Checks
import EightBit.Machine.Trace
import EightBit.Text.Visible

namespace EightBit

open Manual

set_option autoImplicit false

/-! ## Lines of fields -/

/-- The fields of a line, between its blanks. -/
def fields (line : String) : List String :=
  (line.toList.splitOn ' ').map String.ofList

theorem fields_intercalate {texts : List String} (nonempty : texts ≠ [])
    (solid : ∀ text ∈ texts, ' ' ∉ text.toList) : fields (" ".intercalate texts) = texts := by
  have split : (" ".intercalate texts).toList.splitOn ' ' = texts.map String.toList := by
    rw [String.toList_intercalate]
    refine List.splitOn_intercalate ' ' (fun field member => ?_) (by simpa using nonempty)
    obtain ⟨text, found, rfl⟩ := List.mem_map.1 member
    exact solid text found
  have readBack : String.ofList ∘ String.toList = id := funext fun _ => String.ofList_toList
  rw [fields, split, List.map_map, readBack, List.map_id]

theorem intercalate_cons_eq (first : String) (rest : List String) :
    " ".intercalate (first :: rest) = first ++ String.join (rest.map (" " ++ ·)) := by
  induction rest generalizing first with
  | nil => simp
  | cons second rest ih =>
    rw [String.intercalate_cons_cons, ih]
    simp [String.append_assoc]

/-! ## Mnemonics -/

namespace Operation

def all : List Operation :=
  AluOp.all.map alu ++ TransferOp.all.map transfer ++ DataOp.all.map data

def ofMnemonic? (text : String) : Option Operation :=
  all.find? (·.mnemonic == text)

theorem mem_all (op : Operation) : op ∈ all := by
  cases op with
  | alu op => simp [all, op.mem_all]
  | transfer op => simp [all, op.mem_all]
  | data op => simp [all, op.mem_all]

theorem ofMnemonic?_mnemonic (op : Operation) : ofMnemonic? op.mnemonic = some op := by
  have each : ∀ op ∈ all, ofMnemonic? op.mnemonic = some op := by decide
  exact each op op.mem_all

theorem mnemonic_inj {op op' : Operation} (h : op.mnemonic = op'.mnemonic) : op = op' := by
  have found := ofMnemonic?_mnemonic op
  rw [h, ofMnemonic?_mnemonic op'] at found
  exact (Option.some.inj found).symm

theorem blank_not_mem_mnemonic (op : Operation) : ' ' ∉ op.mnemonic.toList := by
  have each : ∀ op ∈ all, ' ' ∉ op.mnemonic.toList := by decide
  exact each op op.mem_all

theorem mark_not_mem_mnemonic (op : Operation) : '?' ∉ op.mnemonic.toList := by
  have each : ∀ op ∈ all, '?' ∉ op.mnemonic.toList := by decide
  exact each op op.mem_all

theorem exists_mem_mnemonic (op : Operation) : ∃ c, c ∈ op.mnemonic.toList := by
  have each : ∀ op ∈ all, op.mnemonic.toList ≠ [] := by decide
  exact List.exists_mem_of_ne_nil _ (each op op.mem_all)

end Operation

namespace Machine

variable {σ : Type}

/-! ## The fields of a trace line -/

/-- The three bytes from the program counter on, as far as memory goes. -/
def shownBytes (m : Machine) : List (Option UInt8) :=
  [m.pc, m.pc + 1, m.pc + 2].map fun address => (m.memory.read address).toOption

def showByte : Option UInt8 → String
  | some byte => Numeral.upperHex 2 byte.toNat
  | none => "--"

def showNext : Option Operation → String
  | some op => op.mnemonic
  | none => "???"

/-- The fields of the trace line of a machine. -/
def traceFields (m : Machine) : List String :=
  ["TRACE:", Numeral.upperHex 2 m.pc, "|"] ++ m.shownBytes.map showByte ++ ["|"]
    ++ m.registers.toList.map (fun value => Numeral.upperHex 2 value.toNat)
    ++ ["|", showNext m.nextOperation?]

theorem showCell_eq (m : Machine) (address : Nat) :
    m.showCell address = showByte (m.memory.read address).toOption := by
  rw [showCell]
  cases m.memory.read address <;> rfl

theorem showNext_eq (m : Machine) :
    (m.nextOperation?.map Operation.mnemonic).getD "???" = showNext m.nextOperation? := by
  cases m.nextOperation? <;> rfl

theorem trace_eq (m : Machine) : m.trace = " ".intercalate m.traceFields := by
  have title : "TRACE: " = "TRACE:" ++ " " := rfl
  have bar : " | " = " " ++ "|" ++ " " := rfl
  have edge : " |" = " " ++ "|" := rfl
  unfold trace
  simp only [title, bar, edge, showNext_eq, showCell_eq, traceFields, shownBytes,
    intercalate_cons_eq, List.cons_append, List.nil_append, List.map_cons, List.map_nil,
    List.map_append, List.map_map, Function.comp_def, String.join_append, String.join_cons,
    String.join_nil, String.append_assoc, String.append_empty]

theorem blank_not_mem_showByte (byte : Option UInt8) : ' ' ∉ (showByte byte).toList := by
  cases byte with
  | none => decide
  | some byte => exact Numeral.blank_not_mem_upperHex 2 _

theorem blank_not_mem_showNext (op : Option Operation) : ' ' ∉ (showNext op).toList := by
  cases op with
  | none => decide
  | some op => exact op.blank_not_mem_mnemonic

theorem blank_not_mem_traceFields (m : Machine) : ∀ text ∈ m.traceFields, ' ' ∉ text.toList := by
  have title : ' ' ∉ "TRACE:".toList := by decide
  have bar : ' ' ∉ "|".toList := by decide
  have numeral (n : Nat) : ' ' ∉ (Numeral.upperHex 2 n).toList := Numeral.blank_not_mem_upperHex 2 n
  simp only [traceFields, List.forall_mem_append, List.forall_mem_cons, List.forall_mem_map]
  exact ⟨⟨⟨⟨⟨title, numeral m.pc, bar, by simp⟩, fun byte _ => blank_not_mem_showByte byte⟩,
    bar, by simp⟩, fun value _ => numeral value.toNat⟩, bar, blank_not_mem_showNext _, by simp⟩

/-- A trace line is cut into the fields it was put together from. -/
theorem fields_trace (m : Machine) : fields m.trace = m.traceFields := by
  rw [trace_eq]
  exact fields_intercalate (by simp [traceFields]) m.blank_not_mem_traceFields

/-! ## Reading the fields back -/

theorem showByte_eq_dashes {byte : Option UInt8} : showByte byte = "--" ↔ byte = none := by
  cases byte with
  | none => simp [showByte]
  | some byte =>
    refine iff_of_false (fun dashes => ?_) (by simp)
    -- the dashes would read as zero, and zero is shown by other digits
    have zero := Numeral.ofUpperHex_upperHex 2 byte.toNat
    rw [show Numeral.upperHex 2 byte.toNat = "--" from dashes] at zero
    rw [showByte, ← zero] at dashes
    revert dashes
    decide

theorem showByte_inj {b c : Option UInt8} (h : showByte b = showByte c) : b = c := by
  rcases b with _ | b
  · exact (showByte_eq_dashes.1 h.symm).symm
  · rcases c with _ | c
    · exact showByte_eq_dashes.1 h
    · exact congrArg some (UInt8.toNat_inj.1 (Numeral.upperHex_inj h))

theorem toOption_read_eq_none (memory : Memory) {address : Nat} :
    (memory.read address).toOption = none ↔ 255 < address := by
  rcases Nat.lt_or_ge address 256 with inside | outside
  · simpa [Memory.read_of_lt inside, Except.toOption] using Nat.le_of_lt_succ inside
  · simpa [Memory.read_of_le outside, Except.toOption] using Nat.lt_of_succ_le outside

theorem nextOperation?_eq (m : Machine) :
    m.nextOperation? = (m.memory.read m.pc).toOption.bind Operation.decode? := by
  rw [nextOperation?]
  cases m.memory.read m.pc <;> rfl

theorem toList_registers_inj {a b : Registers} (h : a.toList = b.toList) : a = b := by
  obtain ⟨a⟩ := a
  obtain ⟨b⟩ := b
  exact congrArg Registers.mk (Vector.toList_inj.1 h)

/-- **What a trace line tells of a machine**: the program counter, the bytes shown and the
registers, and nothing else. -/
theorem trace_eq_iff (m n : Machine) :
    m.trace = n.trace ↔
      m.pc = n.pc ∧ m.shownBytes = n.shownBytes ∧ m.registers = n.registers := by
  constructor
  · intro same
    have same : m.traceFields = n.traceFields := by
      rw [← fields_trace, same, fields_trace]
    simp only [traceFields] at same
    obtain ⟨front, -⟩ := List.append_inj' same (by simp)
    obtain ⟨front, registers⟩ := List.append_inj front (by simp [shownBytes])
    obtain ⟨front, -⟩ := List.append_inj' front (by simp)
    obtain ⟨front, bytes⟩ := List.append_inj front (by simp)
    have pc : Numeral.upperHex 2 m.pc = Numeral.upperHex 2 n.pc := by simpa using front
    refine ⟨Numeral.upperHex_inj pc, (List.map_inj_right fun _ _ => showByte_inj).1 bytes, ?_⟩
    exact toList_registers_inj ((List.map_inj_right fun _ _ shown =>
      UInt8.toNat_inj.1 (Numeral.upperHex_inj shown)).1 registers)
  · rintro ⟨pc, bytes, registers⟩
    have next : m.nextOperation? = n.nextOperation? := by
      have first : (m.memory.read m.pc).toOption = (n.memory.read n.pc).toOption :=
        (List.cons.inj bytes).1
      rw [nextOperation?_eq, nextOperation?_eq, first]
    rw [trace_eq, trace_eq, traceFields, traceFields, pc, bytes, registers, next]

theorem dashes_iff (m : Machine) {k : Nat} (bound : k < 3) :
    (fields m.trace)[3 + k]? = some "--" ↔ 255 < m.pc + k := by
  rw [fields_trace, ← toOption_read_eq_none m.memory, ← showByte_eq_dashes]
  obtain rfl | rfl | rfl : k = 0 ∨ k = 1 ∨ k = 2 := by omega
  all_goals exact Option.some_inj

/-! ## The field of the next operation -/

theorem getLast?_fields_trace (m : Machine) :
    (fields m.trace).getLast? = some (showNext m.nextOperation?) := by
  rw [fields_trace, traceFields, List.getLast?_append]
  rfl

theorem showNext_eq_mnemonic {shown : Option Operation} {op : Operation} :
    showNext shown = op.mnemonic ↔ shown = some op := by
  constructor
  · intro same
    cases shown with
    | none =>
      have unmarked := op.mark_not_mem_mnemonic
      rw [← same] at unmarked
      exact absurd (by decide) unmarked
    | some op' => exact congrArg some (Operation.mnemonic_inj same)
  · rintro rfl
    rfl

/-- Both `???` and the last field are ends of the line, so one is an end of the other; no mnemonic
is. -/
theorem suffix_trace_iff (m : Machine) :
    "???".toList <:+ m.trace.toList ↔ m.nextOperation? = none := by
  have ending : (showNext m.nextOperation?).toList <:+ m.trace.toList := by
    unfold trace
    simp only [showNext_eq, String.toList_append]
    exact List.suffix_append _ _
  constructor
  · intro unknown
    cases shown : m.nextOperation? with
    | none => rfl
    | some op =>
      rw [shown] at ending
      obtain ⟨c, member⟩ := op.exists_mem_mnemonic
      rcases List.suffix_or_suffix_of_suffix unknown ending with inside | inside
      · exact absurd (inside.subset (by decide)) op.mark_not_mem_mnemonic
      · obtain rfl : c = '?' := by simpa using inside.subset member
        exact absurd member op.mark_not_mem_mnemonic
  · intro unknown
    rw [unknown] at ending
    exact ending

/-! ## What a step attempts -/

/-- A step is an attempt at an operation: it carries the operation out on its operands, whether that
succeeds or faults, or it finds the bytes of the operation cut off by the end of memory. -/
inductive Attempts [Writer σ] (m : Machine) (sink : σ) (op : Operation) : Prop
  | carriedOut (a b : UInt8) (fetched : m.fetch = .ok ⟨op.byte, op, a, b⟩)
      (stepped : m.step sink = .of (execute ⟨op.byte, op, a, b⟩ (m, sink)))
  | cutOff (slot : Nat) (read : m.memory.read m.pc = .ok op.byte)
      (declared : slot < Layout.operandCount op.byte) (outside : 255 < m.pc + 1 + slot)
      (stepped : m.step sink = ⟨.error (.addressOutOfRange (m.pc + 1 + slot)), m, sink⟩)

variable [Writer σ] {m : Machine}

theorem step_of_fetch_error {fault : Fault} (running : m.status = .running)
    (unfetched : m.fetch = .error fault) (sink : σ) : m.step sink = ⟨.error fault, m, sink⟩ := by
  refine step_of_advance_error running ?_ sink
  simp [advance, unfetched, bind, Except.bind]

theorem read_of_attempts {sink : σ} {op : Operation} (h : m.Attempts sink op) :
    m.memory.read m.pc = .ok op.byte := by
  cases h with
  | carriedOut a b fetched => exact (fetch_eq_ok fetched).1
  | cutOff slot read => exact read

theorem attempts_of_read {op : Operation} (running : m.status = .running)
    (read : m.memory.read m.pc = .ok op.byte) (sink : σ) : m.Attempts sink op := by
  have decoded : Operation.decode op.byte m.pc = .ok op := by
    rw [Operation.decode, Operation.decode?_byte]
  by_cases first : 0 < Layout.operandCount op.byte → m.pc + 1 + 0 < 256
  · obtain ⟨a, found⟩ := exists_operand m op.byte 0 first
    by_cases second : 1 < Layout.operandCount op.byte → m.pc + 1 + 1 < 256
    · obtain ⟨b, found'⟩ := exists_operand m op.byte 1 second
      have fetched : m.fetch = .ok ⟨op.byte, op, a, b⟩ := by
        simp [fetch, read, decoded, found, found', bind, Except.bind, pure, Except.pure]
      exact .carriedOut a b fetched (step_of_fetch_ok running fetched sink)
    · obtain ⟨declared, outside⟩ := Classical.not_imp.1 second
      have missing := operand_of_le m op.byte 1 declared (Nat.not_lt.1 outside)
      refine .cutOff 1 read declared (Nat.not_lt.1 outside) (step_of_fetch_error running ?_ sink)
      simp [fetch, read, decoded, found, missing, bind, Except.bind]
  · obtain ⟨declared, outside⟩ := Classical.not_imp.1 first
    have missing := operand_of_le m op.byte 0 declared (Nat.not_lt.1 outside)
    refine .cutOff 0 read declared (Nat.not_lt.1 outside) (step_of_fetch_error running ?_ sink)
    simp [fetch, read, decoded, missing, bind, Except.bind]

theorem nextOperation?_eq_some {op : Operation} :
    m.nextOperation? = some op ↔ m.memory.read m.pc = .ok op.byte := by
  rw [nextOperation?]
  cases m.memory.read m.pc with
  | error fault => simp
  | ok byte =>
    have decodes : Operation.decode? byte = some op ↔ op.byte = byte :=
      Operation.decode?_eq_some_iff
    simpa [eq_comm] using decodes

/-- The operation shown is the one the next step attempts. -/
theorem attempts_iff {op : Operation} (running : m.status = .running) (sink : σ) :
    m.nextOperation? = some op ↔ m.Attempts sink op :=
  nextOperation?_eq_some.trans ⟨fun read => attempts_of_read running read sink, read_of_attempts⟩

theorem refusal_ne_unsupported (m : Machine) (op : Operation) (a b byte : UInt8) (pc : Nat) :
    refusal m op a b ≠ some (.unsupportedOperation byte pc) := by
  intro h
  cases op with
  | alu op => simp [refusal_alu, registerRefusal, Option.or_eq_some_iff] at h
  | transfer op =>
    cases op <;>
      simp [refusal, registerRefusal, pushRefusal, popRefusal, Option.or_eq_some_iff] at h
  | data op =>
    cases op <;>
      simp [refusal, registerRefusal, pushRefusal, popRefusal, Option.or_eq_some_iff] at h

theorem result_ne_unsupported {sink : σ} {op : Operation} (h : m.Attempts sink op) (byte : UInt8)
    (pc : Nat) : (m.step sink).result ≠ .error (.unsupportedOperation byte pc) := by
  cases h with
  | carriedOut a b fetched stepped =>
    rw [stepped]
    cases refused : refusal m op a b with
    | some fault =>
      rw [execute_of_refusal refused]
      rintro ⟨⟩
      exact refusal_ne_unsupported m op a b byte pc refused
    | none =>
      rw [execute_of_allowed refused]
      rcases printOn sink (printed m op a) with ⟨_ | _, after⟩ <;> rintro ⟨⟩
  | cutOff slot read declared outside stepped =>
    rw [stepped]
    rintro ⟨⟩

/-- No operation is shown exactly when the next step cannot decode the byte there or finds none. -/
theorem nextOperation?_eq_none (running : m.status = .running) (sink : σ) :
    m.nextOperation? = none ↔
      (∃ byte pc, (m.step sink).result = .error (.unsupportedOperation byte pc)) ∨
        255 < m.pc ∧ (m.step sink).result = .error (.addressOutOfRange m.pc) := by
  constructor
  · intro unknown
    rcases Nat.lt_or_ge m.pc 256 with inside | outside
    · have read := read_pc inside
      have undecoded : Operation.decode? (cell m.memory m.pc) = none := by
        simpa [nextOperation?, read] using unknown
      have unfetched : m.fetch = .error (.unsupportedOperation (cell m.memory m.pc) m.pc) := by
        simp [fetch, read, Operation.decode, undecoded, bind, Except.bind]
      rw [step_of_fetch_error running unfetched]
      exact .inl ⟨_, _, rfl⟩
    · have unfetched : m.fetch = .error (.addressOutOfRange m.pc) := by
        simp [fetch, Memory.read_of_le outside, bind, Except.bind]
      rw [step_of_fetch_error running unfetched]
      exact .inr ⟨outside, rfl⟩
  · intro failed
    refine Option.eq_none_iff_forall_ne_some.2 fun op shown => ?_
    have attempt := (attempts_iff running sink).1 shown
    rcases failed with ⟨byte, pc, failed⟩ | ⟨outside, -⟩
    · exact result_ne_unsupported attempt byte pc failed
    · exact Nat.not_lt.2 outside (Memory.lt_of_read (read_of_attempts attempt))

/-! ## The line as a whole -/

/-- **A trace line is faithful.**  Two machines have the same line exactly when they agree in the
program counter, in the three bytes from it on and in the registers, and a byte is shown as `--`
exactly when its address is past 255.  Of a running machine, the line ends in `???` exactly when the
next step fails because the byte at the program counter is no instruction or is not in memory;
otherwise it ends in the mnemonic of the one operation the step attempts. -/
theorem trace_faithful (m n : Machine) (sink : σ) :
    (m.trace = n.trace ↔
        m.pc = n.pc ∧ m.shownBytes = n.shownBytes ∧ m.registers = n.registers) ∧
      (∀ k < 3, (fields m.trace)[3 + k]? = some "--" ↔ 255 < m.pc + k) ∧
      (m.status = .running →
        ("???".toList <:+ m.trace.toList ↔
          (∃ byte pc, (m.step sink).result = .error (.unsupportedOperation byte pc)) ∨
            255 < m.pc ∧ (m.step sink).result = .error (.addressOutOfRange m.pc)) ∧
        (∀ op : Operation,
          (fields m.trace).getLast? = some op.mnemonic ↔ m.Attempts sink op) ∧
        (¬ "???".toList <:+ m.trace.toList → ∃ op, m.Attempts sink op)) := by
  refine ⟨trace_eq_iff m n, fun k bound => dashes_iff m bound, fun running => ?_⟩
  refine ⟨?_, fun op => ?_, ?_⟩
  · rw [suffix_trace_iff, nextOperation?_eq_none running sink]
  · rw [getLast?_fields_trace, Option.some_inj, showNext_eq_mnemonic, attempts_iff running sink]
  · intro known
    obtain ⟨op, shown⟩ := Option.ne_none_iff_exists'.1 (mt (suffix_trace_iff m).2 known)
    exact ⟨op, (attempts_iff running sink).1 shown⟩

/-- A load at 254 whose second operand would be at 256: the line shows that the byte is missing and
still names the load, which is what the step fails in.  The flag is not shown. -/
theorem trace_faithful_cut_off :
    let m : Machine := { memory := ⟨(Memory.zero.cells.set 254 0x82).set 255 3⟩, pc := 254 }
    m.status = .running ∧ m.trace = { m with flag := .equal }.trace ∧
      (fields m.trace)[5]? = some "--" ∧ (fields m.trace).getLast? = some "LDI" ∧
      (m.step ({} : Sink)).result = .error (.addressOutOfRange 256) := by
  intro m
  have read : m.memory.read m.pc = .ok (Operation.data .ldi).byte := rfl
  have attempt := attempts_of_read rfl read ({} : Sink)
  have faithful := trace_faithful m { m with flag := .equal } ({} : Sink)
  refine ⟨rfl, faithful.1.2 ⟨rfl, rfl, rfl⟩, (faithful.2.1 2 (by decide)).2 (by decide),
    ((faithful.2.2 rfl).2.1 (.data .ldi)).2 attempt, ?_⟩
  cases attempt with
  | carriedOut a b fetched => exact absurd (end_le_of_fetch fetched) (by decide)
  | cutOff slot read declared outside stepped =>
    have two : Layout.operandCount (Operation.data .ldi).byte = 2 := rfl
    have start : m.pc = 254 := rfl
    obtain rfl : slot = 1 := by omega
    rw [stepped, start]

end Machine

end EightBit

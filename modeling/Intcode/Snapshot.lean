import Intcode.Json.Record
import Intcode.Machine.Basic
set_option autoImplicit false

/-!
Machines, trace entries and configurations as JSON, written and read. All fields are required on
reading, except that a trace parameter may lack its address and value, and a configuration any field.
-/
namespace Intcode

open Json

def Mode.toJson (m : Mode) : Json := .string m.name
def Access.toJson (a : Access) : Json := .string a.name
def Opcode.toJson (op : Opcode) : Json := .string op.name
def State.toJson (s : State) : Json := .string s.name
def Policy.toJson (p : Policy) : Json := .string p.keyword

def Mode.ofJson? : Json → Option Mode := choose? Mode.all Mode.name
def Access.ofJson? : Json → Option Access := choose? Access.all Access.name
def Opcode.ofJson? : Json → Option Opcode := choose? Opcode.all Opcode.name
def State.ofJson? : Json → Option State := choose? State.all State.name
def Policy.ofJson? : Json → Option Policy := choose? Policy.all Policy.keyword

theorem Mode.ofJson?_toJson (m : Mode) : Mode.ofJson? m.toJson = some m := by
  cases m <;> rfl
theorem Access.ofJson?_toJson (a : Access) : Access.ofJson? a.toJson = some a := by
  cases a <;> rfl
theorem Opcode.ofJson?_toJson (op : Opcode) : Opcode.ofJson? op.toJson = some op := by
  cases op <;> rfl
theorem State.ofJson?_toJson (s : State) : State.ofJson? s.toJson = some s := by
  cases s <;> rfl
theorem Policy.ofJson?_toJson (p : Policy) : Policy.ofJson? p.toJson = some p := by
  cases p <;> rfl

def TraceParam.toJson (p : TraceParam) : Json := .record [
  ("mode", p.mode.toJson),
  ("access", p.access.toJson),
  ("raw", .cell p.raw),
  ("address", .optional .count p.address),
  ("value", .optional .cell p.value)]

def TraceParam.ofJson? (j : Json) : Option TraceParam := do
  match ← j.slots? ["mode", "access", "raw", "address", "value"] with
  | [some mode, some access, some raw, address, value] => some {
      mode := ← Mode.ofJson? mode
      access := ← Access.ofJson? access
      raw := ← raw.toCell?
      address := ← toOption? toCount? address
      value := ← toOption? toCell? value }
  | _ => none

def TraceEntry.toJson (e : TraceEntry) : Json := .record [
  ("step", .count e.step),
  ("pc", .cell e.pc),
  ("word", .cell e.word),
  ("opcode", e.opcode.toJson),
  ("relative_base", .cell e.relativeBase),
  ("params", .list TraceParam.toJson e.params)]

def TraceEntry.ofJson? (j : Json) : Option TraceEntry := do
  match ← j.slots? ["step", "pc", "word", "opcode", "relative_base", "params"] with
  | [some step, some pc, some word, some opcode, some base, some params] => some {
      step := ← step.toCount?
      pc := ← pc.toCell?
      word := ← word.toCell?
      opcode := ← Opcode.ofJson? opcode
      relativeBase := ← base.toCell?
      params := ← params.toList? TraceParam.ofJson? }
  | _ => none

def Registers.toJson (r : Registers) : Json := .record [
  ("pc", .cell r.pc),
  ("relative_base", .cell r.relativeBase)]

def Registers.ofJson? (j : Json) : Option Registers := do
  match ← j.slots? ["pc", "relative_base"] with
  | [some pc, some base] => some {
      pc := ← pc.toCell?
      relativeBase := ← base.toCell? }
  | _ => none

def Memory.toJson (m : Memory) : Json := .record [
  ("cells", .cells m.cells),
  ("policy", m.policy.toJson),
  ("limit", .count m.limit)]

def Memory.ofJson? (j : Json) : Option Memory := do
  match ← j.slots? ["cells", "policy", "limit"] with
  | [some cells, some policy, some limit] => some {
      cells := (← cells.toList? toCell?).toArray
      policy := ← Policy.ofJson? policy
      limit := ← limit.toCount? }
  | _ => none

def Config.toJson (c : Config) : Json := .record [
  ("min_memory", .count c.minMemory),
  ("memory_policy", c.policy.toJson),
  ("max_memory", .count c.maxMemory),
  ("trace", .bool c.trace)]

def Config.ofJson? (j : Json) : Option Config := do
  let slots ← j.slots? ["min_memory", "memory_policy", "max_memory", "trace"]
  let default : Config := {}
  some {
    minMemory := ← withDefault? toCount? default.minMemory (slots.getD 0 none)
    policy := ← withDefault? Policy.ofJson? default.policy (slots.getD 1 none)
    maxMemory := ← withDefault? toCount? default.maxMemory (slots.getD 2 none)
    trace := ← withDefault? toBool? default.trace (slots.getD 3 none) }

def Machine.toJson (m : Machine) : Json := .record [
  ("regs", m.regs.toJson),
  ("mem", m.mem.toJson),
  ("state", m.state.toJson),
  ("steps", .count m.steps),
  ("input", .list .cell m.input),
  ("output", .cells m.output),
  ("program", .cells m.program),
  ("tracing", .bool m.tracing),
  ("trace", .list TraceEntry.toJson m.trace.toList)]

def Machine.ofJson? (j : Json) : Option Machine := do
  match ← j.slots? ["regs", "mem", "state", "steps", "input", "output", "program", "tracing", "trace"] with
  | [some regs, some mem, some state, some steps, some input, some output, some program,
      some tracing, some trace] => some {
      regs := ← Registers.ofJson? regs
      mem := ← Memory.ofJson? mem
      state := ← State.ofJson? state
      steps := ← steps.toCount?
      input := ← input.toList? toCell?
      output := (← output.toList? toCell?).toArray
      program := (← program.toList? toCell?).toArray
      tracing := ← tracing.toBool?
      trace := (← trace.toList? TraceEntry.ofJson?).toArray }
  | _ => none

/-- The whole machine as one line of text. -/
def Machine.snapshot (m : Machine) : String := m.toJson.text

def Machine.ofSnapshot? (text : String) : Option Machine := Json.read? text >>= Machine.ofJson?

def Memory.ofText? (text : String) : Option Memory := Json.read? text >>= Memory.ofJson?

def TraceEntry.ofText? (text : String) : Option TraceEntry := Json.read? text >>= TraceEntry.ofJson?

def Config.ofText? (text : String) : Option Config := Json.read? text >>= Config.ofJson?

end Intcode

import Intcode.Proofs.JsonText
import Intcode.Snapshot
import Mathlib.Data.List.Basic
set_option autoImplicit false

/-!
Nothing is lost in a snapshot. For every type that is written as JSON, what is written can be put into text
and read again, and what is read is what was written: first for numbers, flags and names, then for lists
and optional values of such, and from these for records field by field.
-/
namespace Intcode

namespace Json

theorem mapM_map {α β γ : Type} {f : α → β} {g : β → Option γ} {k : α → γ} {xs : List α}
    (h : ∀ x ∈ xs, g (f x) = some (k x)) : (xs.map f).mapM g = some (xs.map k) := by
  induction xs with
  | nil => rfl
  | cons x xs ih =>
    obtain ⟨hx, hxs⟩ := List.forall_mem_cons.mp h
    simp [hx, ih hxs]

/-- Values are written plainly and read back as they were. -/
structure Faithful {α : Type} (write : α → Json) (read : Json → Option α) : Prop where
  plain : ∀ a, (write a).Plain
  back : ∀ a, read (write a) = some a

section Faithful
variable {α : Type} {write : α → Json} {read : Json → Option α}

theorem Faithful.text (h : Faithful write read) (a : α) : (read? (write a).text >>= read) = some a := by
  rw [(h.plain a).read?_text]
  exact h.back a

theorem faithful_cell : Faithful cell toCell? := ⟨fun c => .int c.toInt, Cell.ofInt?_toInt⟩

theorem faithful_count : Faithful count toCount? := ⟨fun c => .int c.toNat, Count.ofInt?_toNat⟩

theorem faithful_bool : Faithful Json.bool toBool? := ⟨.bool, fun _ => rfl⟩

theorem Faithful.list (h : Faithful write read) : Faithful (list write) (toList? read) := by
  constructor
  · intro xs
    apply Plain.arr
    intro j hj
    obtain ⟨x, _, rfl⟩ := List.mem_map.mp hj
    exact h.plain x
  · intro xs
    have hall : (xs.map write).mapM read = some (xs.map id) := mapM_map fun x _ => h.back x
    rwa [List.map_id] at hall

theorem Faithful.plain_optional (h : Faithful write read) (a : Option α) : (optional write a).Plain := by
  cases a with
  | none => exact .null
  | some x => exact h.plain x

theorem Faithful.optional_back (h : Faithful write read) (hnull : read .null = none) (a : Option α) :
    toOption? read (some (optional write a)) = some a := by
  cases a with
  | none => rfl
  | some x =>
    have hback := h.back x
    unfold toOption? optional
    split
    · contradiction
    · rename_i heq
      simp only [Option.some.injEq] at heq
      simp [heq, hnull] at hback
    · rename_i heq
      cases heq
      simp [hback]

end Faithful

section Slots
variable {ms : List (String × Json)} {m : String × Json}

theorem Plain.of_forall (h : ms.Forall fun m => m.2.Plain) : (Json.record ms).Plain :=
  .record (List.forall_iff_forall_mem.mp h)

theorem filter_named_of_not_mem {name : String} (h : name ∉ ms.map Prod.fst) :
    (named ms).filter (fun n => n.1 = some name) = [] := by
  rw [List.filter_eq_nil_iff]
  intro n hn
  obtain ⟨m, hm, rfl⟩ := List.mem_map.mp hn
  simp only [Option.some.injEq, decide_eq_true_eq]
  rintro rfl
  exact h (List.mem_map_of_mem hm)

theorem filter_named (hnodup : (ms.map Prod.fst).Nodup) (h : m ∈ ms) :
    (named ms).filter (fun n => n.1 = some m.1) = [(some m.1, m.2)] := by
  induction ms with
  | nil => cases h
  | cons n ms ih =>
    obtain ⟨hnot, hnodup⟩ := List.nodup_cons.mp hnodup
    rw [named, List.map_cons]
    cases h with
    | head =>
      rw [List.filter_cons_of_pos (by simp)]
      exact congrArg _ (filter_named_of_not_mem hnot)
    | tail _ h =>
      have hne : n.1 ≠ m.1 := by
        intro heq
        exact hnot (heq ▸ List.mem_map_of_mem h)
      rw [List.filter_cons_of_neg (by simpa using hne)]
      exact ih hnodup h

theorem slots?_record {names : List String} (hnames : ms.map Prod.fst = names) (hnodup : names.Nodup) :
    (record ms).slots? names = some (ms.map fun m => some m.2) := by
  subst hnames
  have hkeys : ((named ms).all fun n => n.1.isSome) = true := by simp [named]
  have hmember : ∀ m ∈ ms, member (named ms) m.1 = some (some m.2) := by
    intro m hm
    rw [member, filter_named hnodup hm]
  exact (if_pos hkeys).trans (mapM_map hmember)

end Slots

end Json

open Json

theorem faithful_mode : Faithful Mode.toJson Mode.ofJson? := ⟨fun _ => .string _, Mode.ofJson?_toJson⟩

theorem faithful_access : Faithful Access.toJson Access.ofJson? :=
  ⟨fun _ => .string _, Access.ofJson?_toJson⟩

theorem faithful_opcode : Faithful Opcode.toJson Opcode.ofJson? :=
  ⟨fun _ => .string _, Opcode.ofJson?_toJson⟩

theorem faithful_state : Faithful State.toJson State.ofJson? := ⟨fun _ => .string _, State.ofJson?_toJson⟩

theorem faithful_policy : Faithful Policy.toJson Policy.ofJson? :=
  ⟨fun _ => .string _, Policy.ofJson?_toJson⟩

theorem faithful_traceParam : Faithful TraceParam.toJson TraceParam.ofJson? := by
  constructor
  · intro p
    apply Plain.of_forall
    exact ⟨faithful_mode.plain _, faithful_access.plain _, faithful_cell.plain _,
      faithful_count.plain_optional _, faithful_cell.plain_optional _⟩
  · intro p
    have hslots : p.toJson.slots? ["mode", "access", "raw", "address", "value"] = some _ :=
      slots?_record rfl (by decide)
    simp only [TraceParam.ofJson?, hslots, List.map_cons, List.map_nil, faithful_mode.back,
      faithful_access.back, faithful_cell.back, faithful_count.optional_back rfl,
      faithful_cell.optional_back rfl, bind, Option.bind]

theorem faithful_traceEntry : Faithful TraceEntry.toJson TraceEntry.ofJson? := by
  have hparams := faithful_traceParam.list
  constructor
  · intro e
    apply Plain.of_forall
    exact ⟨faithful_count.plain _, faithful_cell.plain _, faithful_cell.plain _, faithful_opcode.plain _,
      faithful_cell.plain _, hparams.plain _⟩
  · intro e
    have hslots : e.toJson.slots? ["step", "pc", "word", "opcode", "relative_base", "params"] = some _ :=
      slots?_record rfl (by decide)
    simp only [TraceEntry.ofJson?, hslots, List.map_cons, List.map_nil, faithful_count.back,
      faithful_cell.back, faithful_opcode.back, hparams.back, bind, Option.bind]

theorem faithful_registers : Faithful Registers.toJson Registers.ofJson? := by
  constructor
  · intro r
    apply Plain.of_forall
    exact ⟨faithful_cell.plain _, faithful_cell.plain _⟩
  · intro r
    have hslots : r.toJson.slots? ["pc", "relative_base"] = some _ := slots?_record rfl (by decide)
    simp only [Registers.ofJson?, hslots, List.map_cons, List.map_nil, faithful_cell.back, bind, Option.bind]

theorem faithful_memory : Faithful Memory.toJson Memory.ofJson? := by
  have hcells := faithful_cell.list
  constructor
  · intro m
    apply Plain.of_forall
    exact ⟨hcells.plain _, faithful_policy.plain _, faithful_count.plain _⟩
  · intro m
    have hslots : m.toJson.slots? ["cells", "policy", "limit"] = some _ := slots?_record rfl (by decide)
    simp only [Memory.ofJson?, hslots, List.map_cons, List.map_nil, cells, hcells.back,
      faithful_policy.back, faithful_count.back, bind, Option.bind, Array.toArray_toList]

theorem faithful_config : Faithful Config.toJson Config.ofJson? := by
  constructor
  · intro c
    apply Plain.of_forall
    exact ⟨faithful_count.plain _, faithful_policy.plain _, faithful_count.plain _, faithful_bool.plain _⟩
  · intro c
    have hslots : c.toJson.slots? ["min_memory", "memory_policy", "max_memory", "trace"] = some _ :=
      slots?_record rfl (by decide)
    simp only [Config.ofJson?, hslots, List.map_cons, List.map_nil, List.getD_cons_zero,
      List.getD_cons_succ, withDefault?, faithful_policy.back, faithful_count.back, faithful_bool.back, bind,
      Option.bind]

theorem faithful_machine : Faithful Machine.toJson Machine.ofJson? := by
  have hcells := faithful_cell.list
  have htrace := faithful_traceEntry.list
  constructor
  · intro m
    apply Plain.of_forall
    exact ⟨faithful_registers.plain _, faithful_memory.plain _, faithful_state.plain _,
      faithful_count.plain _, hcells.plain _, hcells.plain _, hcells.plain _, faithful_bool.plain _,
      htrace.plain _⟩
  · intro m
    have hslots : m.toJson.slots?
        ["regs", "mem", "state", "steps", "input", "output", "program", "tracing", "trace"] = some _ :=
      slots?_record rfl (by decide)
    simp only [Machine.ofJson?, hslots, List.map_cons, List.map_nil, cells, faithful_registers.back,
      faithful_memory.back, faithful_state.back, faithful_count.back, hcells.back, faithful_bool.back,
      htrace.back, bind, Option.bind, Array.toArray_toList]

/-- A machine, a trace entry and a configuration are each read back from their text as they were, whatever
numbers they hold and however long their lists are. -/
theorem snapshot_restores :
    (∀ m : Machine, Machine.ofSnapshot? m.snapshot = some m) ∧
    (∀ e : TraceEntry, TraceEntry.ofText? e.toJson.text = some e) ∧
    ∀ c : Config, Config.ofText? c.toJson.text = some c :=
  ⟨faithful_machine.text, faithful_traceEntry.text, faithful_config.text⟩

end Intcode

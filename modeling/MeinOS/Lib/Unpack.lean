import Mathlib

/-! Reading records back from a block of bytes. A reader is a function of the position that
returns the position after what it has read, or nothing. `Holds` says what a block holds at a
position and splits at the seams of what was written; `Reads` says that a reader reads
exactly some bytes, and what it makes of them. -/
namespace MeinOS.Lib.Unpack

/-- The block holds these bytes from the position on. -/
def Holds (block : List UInt8) (pos : Nat) (bytes : List UInt8) : Prop := bytes <+: block.drop pos

theorem holds_append {block bytes more : List UInt8} {pos : Nat} : Holds block pos (bytes ++ more) ↔
    Holds block pos bytes ∧ Holds block (pos + bytes.length) more := by
  unfold Holds
  rw [← List.drop_drop]
  constructor
  · rintro ⟨rest, whole⟩
    rw [← whole, List.append_assoc, List.drop_left]
    exact ⟨List.prefix_append bytes _, List.prefix_append more rest⟩
  · rintro ⟨⟨rest, whole⟩, behind⟩
    rw [← whole, List.drop_left] at behind
    rw [← whole]
    exact (List.prefix_append_right_inj bytes).mpr behind

theorem holds_start (bytes rest : List UInt8) : Holds (bytes ++ rest) 0 bytes :=
  List.prefix_append bytes rest

/-- A reader of a block. -/
abbrev Reader (α : Type) := StateT Nat Option α

/-- The reader reads exactly these bytes from the position on, and what it returns is good. -/
def Reads (reader : Reader α) (pos : Nat) (bytes : List UInt8) (Good : α → Prop) : Prop :=
  ∃ a, reader.run pos = some (a, pos + bytes.length) ∧ Good a

section
variable {reader : Reader α} {next : α → Reader β} {Good : α → Prop} {After : β → Prop}

theorem Reads.bind (first : Reads reader pos bytes Good)
    (rest : ∀ a, Good a → Reads (next a) (pos + bytes.length) more After) :
    Reads (reader >>= next) pos (bytes ++ more) After := by
  obtain ⟨a, ran, good⟩ := first
  obtain ⟨b, ran', after⟩ := rest a good
  refine ⟨b, ?_, after⟩
  rw [StateT.run_bind, ran, List.length_append, ← Nat.add_assoc]
  exact ran'

/-- What was written first is read first. -/
theorem Reads.seq {block : List UInt8} (held : Holds block pos (bytes ++ more))
    (first : Holds block pos bytes → Reads reader pos bytes Good)
    (rest : ∀ a, Good a → Holds block (pos + bytes.length) more →
      Reads (next a) (pos + bytes.length) more After) :
    Reads (reader >>= next) pos (bytes ++ more) After := by
  obtain ⟨here, behind⟩ := holds_append.mp held
  exact (first here).bind fun a good => rest a good behind

theorem Reads.pure {a : α} (good : Good a) : Reads (pure a : Reader α) pos [] Good :=
  ⟨a, rfl, good⟩

/-- What follows a reader runs behind what it reads. -/
theorem Reads.run_bind (first : Reads reader pos bytes Good) (next : α → Reader β) :
    ∃ a, (reader >>= next).run pos = (next a).run (pos + bytes.length) ∧ Good a := by
  obtain ⟨a, ran, good⟩ := first
  refine ⟨a, ?_, good⟩
  rw [StateT.run_bind, ran]
  rfl

end

/-- Reads as many values as it is told. -/
def times (reader : Reader α) : Nat → Reader (List α)
  | 0 => pure []
  | n + 1 => do
    let a ← reader
    let as ← times reader n
    return a :: as

/-- A list that was written item by item is read item by item. -/
theorem Reads.times {reader : Reader α} {block : List UInt8} {write : ι → List UInt8}
    {Good : ι → α → Prop} {items : List ι}
    (each : ∀ item ∈ items, ∀ pos, Holds block pos (write item) → Reads reader pos (write item) (Good item))
    (held : Holds block pos (items.flatMap write)) :
    Reads (times reader items.length) pos (items.flatMap write) (List.Forall₂ Good items) := by
  induction items generalizing pos with
  | nil => exact .pure .nil
  | cons item items ih =>
    obtain ⟨here, later⟩ := List.forall_mem_cons.mp each
    rw [List.flatMap_cons] at held ⊢
    apply Reads.seq held (here pos)
    intro a good behind
    rw [← List.append_nil (items.flatMap write)]
    apply Reads.bind (ih later behind)
    intro as all
    exact .pure (.cons good all)

/-- Values that match item by item have the same images. -/
theorem map_of_matches {items : List ι} {values : List α} {f : ι → β} {g : α → β}
    (matching : List.Forall₂ (fun item a => g a = f item) items values) : values.map g = items.map f := by
  induction matching with
  | nil => rfl
  | cons here _ ih => rw [List.map_cons, List.map_cons, here, ih]

theorem times_length {reader : Reader α} (ran : (times reader n).run pos = some (as, after)) :
    as.length = n := by
  induction n generalizing pos as after with
  | zero =>
    cases ran
    rfl
  | succ n ih =>
    rw [Unpack.times, StateT.run_bind] at ran
    obtain ⟨⟨a, middle⟩, -, ran⟩ := Option.bind_eq_some_iff.mp ran
    rw [StateT.run_bind] at ran
    obtain ⟨⟨rest, last⟩, tail, same⟩ := Option.bind_eq_some_iff.mp ran
    cases same
    rw [List.length_cons, ih tail]

end MeinOS.Lib.Unpack

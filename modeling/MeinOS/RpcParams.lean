import MeinOS.Procdata
import MeinOS.RpcPairing

/-! The parameters of a remote call: `rpc_vcall` packs them by the letters of the synopsis and
`rpc_poll` unpacks them, both in `apps/lib/libmeinos/rpc.c`. Nothing separates the fields in the
block, so the two loops stay together only by their widths. -/
namespace MeinOS.RpcParams
open Lib.Unpack Procm Procdata Rpc RpcPairing

/-- What a letter stands for: a number of so many bytes, or a string. -/
inductive Field where
  | number (width : Nat) (signed : Bool)
  | string

def fieldOf (letter : Byte) : Option Field :=
  match Char.ofNat letter.toNat with
  | 'b' => some (.number 1 false)
  | 'w' => some (.number 2 false)
  | 'd' => some (.number 4 false)
  | 'c' => some (.number 1 true)
  | 's' => some (.number 2 true)
  | 'i' => some (.number 4 true)
  | 'l' => some (.number 4 true)
  | '$' => some .string
  | _ => none

/-- `packg`: the low bytes of the value, the lowest first. -/
def packg : Nat → Nat → List UInt8
  | 0, _ => []
  | width + 1, value => .ofNat value :: packg width (value / 2 ^ 8)

/-- One round of the loop of `rpc_vcall`; `strings` are those behind the caller's pointers. -/
def packField (strings : Word → CStr) (letter : Byte) (value : Word) : List UInt8 :=
  match fieldOf letter with
  | some (.number width _) => packg width value.toNat
  | some .string => packstr (strings value)
  | none => []

/-- The loop of `rpc_vcall`, which takes an argument for each letter. -/
def packParams (strings : Word → CStr) : List Byte → List Word → List UInt8
  | letter :: synopsis, value :: args => packField strings letter value ++ packParams strings synopsis args
  | _, _ => []

/-- A number from its bytes. -/
def fromBytes : List UInt8 → Nat
  | [] => 0
  | byte :: bytes => byte.toNat + 2 ^ 8 * fromBytes bytes

/-- `unpackg`, before the value is converted to `int`. -/
def unpackg (block : List UInt8) (width : Nat) : Reader (BitVec (8 * width)) := fun cur =>
  let bytes := (block.drop cur).take width
  if bytes.length = width then some (.ofNat (8 * width) (fromBytes bytes), cur + width) else none

/-- The conversion to `int`. -/
def extended (signed : Bool) (value : BitVec w) : Word :=
  if signed then value.signExtend 32 else value.setWidth 32

/-- A word of the parameter list. No letter but the eight writes it. -/
inductive Param where
  | unset
  | int (value : Word)
  | ptr (address : Nat)
  deriving DecidableEq

/-- One round of the loop of `rpc_poll`. -/
def unpackField (block : List UInt8) (letter : Byte) : Reader Param :=
  match fieldOf letter with
  | some (.number width signed) => return .int (extended signed (← unpackg block width))
  | some .string => return .ptr (← unpackstr block)
  | none => return .unset

/-- The loop of `rpc_poll`. -/
def unpackParams (block : List UInt8) : List Byte → Reader (List Param)
  | [] => return []
  | letter :: synopsis => do
    let param ← unpackField block letter
    let params ← unpackParams block synopsis
    return param :: params

/-- The block of the server: the caller's, in which the packed bytes have been written over what
`malloc` found there, has been copied to the kernel and from there. -/
def handedBlock (packed : List UInt8) (stale : Nat → Byte) (paramsSize : Nat) : List UInt8 :=
  let params := copyBytes (fun i => (packed[i]?.map UInt8.toBitVec).getD (stale i)) paramsSize
  (params.take paramsSize).map UInt8.ofBitVec

/-- What the parameter should be: the number cut to its field and extended again, or a pointer to
the same string. -/
def Delivered (strings : Word → CStr) (block : List UInt8) (letter : Byte) (value : Word)
    (param : Param) : Prop :=
  match fieldOf letter with
  | some (.number width signed) => param = .int (extended signed (value.setWidth (8 * width)))
  | some .string => ∃ address, param = .ptr address ∧ strAt block address = some (strings value).text
  | none => False

variable {block packed : List UInt8} {pos : Nat} {strings : Word → CStr} {value : Word}

theorem packg_length (width value : Nat) : (packg width value).length = width := by
  induction width generalizing value with
  | zero => rfl
  | succ width ih => rw [packg, List.length_cons, ih]

theorem from_bytes_packg (width value : Nat) :
    fromBytes (packg width value) = value % 2 ^ (8 * width) := by
  induction width generalizing value with
  | zero => simp [packg, fromBytes, Nat.mod_one]
  | succ width ih =>
    rw [packg, fromBytes, ih, Nat.mul_succ, Nat.add_comm (8 * width), Nat.pow_add, Nat.mod_mul]
    simp

theorem reads_number (held : Holds block pos (packg width value.toNat)) :
    Reads (unpackg block width) pos (packg width value.toNat) (· = value.setWidth (8 * width)) := by
  obtain ⟨rest, whole⟩ := held
  have bytes : (block.drop pos).take width = packg width value.toNat := by
    rw [← whole, List.take_left' (packg_length ..)]
  refine ⟨_, ?_, rfl⟩
  change unpackg block width pos = _
  simp only [unpackg, bytes, packg_length, if_true, from_bytes_packg]
  congr 2
  apply BitVec.eq_of_toNat_eq
  simp

theorem reads_field (known : fieldOf letter ≠ none)
    (held : Holds block pos (packField strings letter value)) :
    Reads (unpackField block letter) pos (packField strings letter value)
      (Delivered strings block letter value) := by
  rw [← List.append_nil (packField ..)]
  cases field : fieldOf letter with
  | none => exact absurd field known
  | some kind =>
    simp only [packField, unpackField, field] at held ⊢
    cases kind with
    | number width signed =>
      apply Reads.bind (reads_number held)
      rintro _ rfl
      exact .pure (by simp only [Delivered, field])
    | string =>
      apply Reads.bind (reads_str held)
      intro address found
      exact .pure (by simpa [Delivered, field] using found)

/-- The loop of the server reads field by field what the loop of the caller has written. -/
theorem reads_params (known : ∀ letter ∈ synopsis, fieldOf letter ≠ none)
    (counted : args.length = synopsis.length)
    (held : Holds block pos (packParams strings synopsis args)) :
    Reads (unpackParams block synopsis) pos (packParams strings synopsis args)
      (List.Forall₂ (fun item => Delivered strings block item.1 item.2) (synopsis.zip args)) := by
  induction synopsis generalizing pos args with
  | nil => exact .pure .nil
  | cons letter synopsis ih =>
    cases args with
    | nil => cases counted
    | cons value args =>
      obtain ⟨first, others⟩ := List.forall_mem_cons.mp known
      apply Reads.seq held (reads_field first)
      intro param delivered behind
      rw [← List.append_nil (packParams ..)]
      apply Reads.bind (ih others (Nat.succ.inj counted) behind)
      intro params all
      exact .pure (.cons delivered all)

theorem handed_block_holds (stale : Nat → Byte) (fits : packed.length ≤ paramsSize) :
    Holds (handedBlock packed stale paramsSize) 0 packed := by
  refine List.prefix_iff_getElem?.mpr fun i inside => ?_
  have small : i < paramsSize := by omega
  simp [handedBlock, copyBytes, small, inside]

/-- What `rpc_poll` unpacks for a call of the function with these arguments. Both sides have the
synopsis from `rpc_function_getinfo`. -/
def rpcParams (strings : Word → CStr) (f : Function) (args : List Word) (stale : Nat → Byte) :
    Option (List Param × Nat) :=
  let synopsis := strncpy f.synopsis rpcSynopsisMaxlen
  (unpackParams (handedBlock (packParams strings synopsis args) stale f.paramsSize) synopsis).run 0

/-- The parameters that `rpc_poll` unpacks are those that `rpc_vcall` has packed. -/
theorem rpc_params_round_trip (strings : Word → CStr) (f : Function) (args : List Word)
    (stale : Nat → Byte) (known : ∀ letter ∈ f.synopsis, fieldOf letter ≠ none)
    (short : f.synopsis.length < rpcSynopsisMaxlen) (counted : args.length = f.synopsis.length)
    (fits : (packParams strings f.synopsis args).length ≤ f.paramsSize) :
    ∃ params stop, rpcParams strings f args stale = some (params, stop) ∧
      params.length = args.length ∧
      List.Forall₂ (fun item => Delivered strings (handedBlock (packParams strings f.synopsis args) stale
        f.paramsSize) item.1 item.2) (f.synopsis.zip args) params := by
  obtain ⟨params, ran, delivered⟩ := reads_params known counted (handed_block_holds stale fits)
  have length := delivered.length_eq
  rw [List.length_zip, counted, Nat.min_self] at length
  exact ⟨params, _, by simpa only [rpcParams, strncpy_short short] using ran,
    length.symm.trans counted.symm, delivered⟩

/-- A signed byte and an unsigned one, and a string between them. -/
def threeParams : Function := ⟨0, [], 0, [99, 36, 98], 6, 0, [], 0⟩

theorem three_params_delivered : ∃ params stop,
    rpcParams (fun _ => ⟨[104, 105], by decide⟩) threeParams [-1, 0x8000, -1] (fun _ => 7) =
      some (params, stop) ∧ params.length = 3 :=
  have ⟨params, stop, ran, length, _⟩ := rpc_params_round_trip (fun _ => ⟨[104, 105], by decide⟩)
    threeParams [-1, 0x8000, -1] (fun _ => 7) (by decide) (by decide) rfl (by decide)
  ⟨params, stop, ran, length⟩

end MeinOS.RpcParams

import Mathlib.Data.List.Basic

/-!
# The receive accumulator

`RecvAccumulator` keeps what a connection has received and not consumed.  Its bytes are in two
parts.  `with_bytes` detaches everything as a frozen slice and puts back what the parser leaves; new
data is appended to `buf`, behind the frozen part, and the two are merged when somebody asks for one
slice.

Which part a byte is in makes no difference to anybody outside.  The lemmas below describe each
function by what it does to the `contents`, and nothing else is used of the accumulator.

Capacities, and the target that `reserve` announces for them, are left out.
-/

set_option autoImplicit false

namespace Ringline.Uring

abbrev Bytes := List UInt8

structure RecvAccumulator where
  buf : Bytes
  /-- What is left of a slice that was frozen before. -/
  frozen : Option Bytes
  maxSize : Nat
  frozen_ne : frozen ≠ some []

namespace RecvAccumulator

/-- `new_with_max`. -/
def newWithMax (maxSize : Nat) : RecvAccumulator := ⟨[], none, maxSize, nofun⟩

variable (acc : RecvAccumulator)

def totalLen : Nat := (acc.frozen.getD []).length + acc.buf.length

def isEmpty : Bool := acc.totalLen == 0

/-- Whether the data fits, and the accumulator. -/
def append (data : Bytes) : RecvAccumulator × Bool :=
  if acc.totalLen + data.length > acc.maxSize then (acc, false)
  else ({ acc with buf := acc.buf ++ data }, true)

def unfreeze : RecvAccumulator :=
  match acc.frozen with
  | none => acc
  | some rem => { acc with buf := rem ++ acc.buf, frozen := none, frozen_ne := nofun }

/-- `data`: the merge it may need, and the slice. -/
def data : RecvAccumulator × Bytes :=
  let acc := if acc.frozen.isSome && !acc.buf.isEmpty then acc.unfreeze else acc
  match acc.frozen with
  | some f => (acc, f)
  | none => (acc, acc.buf)

/-- What is left of a frozen slice; nothing if it is empty. -/
def remainder (bytes : Bytes) : Option Bytes := if bytes = [] then none else some bytes

theorem remainder_ne (bytes : Bytes) : remainder bytes ≠ some [] := by
  rw [remainder]
  split <;> simp_all

def consume (n : Nat) : RecvAccumulator :=
  match acc.frozen with
  | some f => { acc with frozen := remainder (f.drop n), frozen_ne := remainder_ne _ }
  | none => { acc with buf := acc.buf.drop n }

def takeFrozen : RecvAccumulator × Bytes :=
  match acc.frozen with
  | some rem =>
    if acc.buf.isEmpty then ({ acc with frozen := none, frozen_ne := nofun }, rem)
    else ({ acc.unfreeze with buf := [] }, acc.unfreeze.buf)
  | none => ({ acc with buf := [] }, acc.buf)

def putBack (data : Bytes) : RecvAccumulator :=
  if h : data = [] then acc else { acc with frozen := some data, frozen_ne := by simpa using h }

def prepend (data : Bytes) : RecvAccumulator :=
  if data.isEmpty then acc else { acc.unfreeze with buf := data ++ acc.unfreeze.buf }

/-! ## What the functions do to the contents -/

/-- What was received and is not consumed. -/
def contents : Bytes := acc.frozen.getD [] ++ acc.buf

variable (acc : RecvAccumulator)

theorem totalLen_eq : acc.totalLen = acc.contents.length := by
  simp [totalLen, contents]

theorem isEmpty_iff : acc.isEmpty = true ↔ acc.contents = [] := by
  simp [isEmpty, totalLen_eq]

/-- Data that fits is behind what was there. -/
theorem append_eq_true {data : Bytes} (h : (acc.append data).2 = true) :
    (acc.append data).1.contents = acc.contents ++ data := by
  rw [append] at h ⊢
  split at h
  · cases h
  · simp [contents, *]

theorem append_fits {data : Bytes} (h : acc.contents.length + data.length ≤ acc.maxSize) :
    (acc.append data).2 = true := by
  rw [append, totalLen_eq, if_neg (by omega)]

@[simp] theorem append_maxSize (data : Bytes) : (acc.append data).1.maxSize = acc.maxSize := by
  rw [append]
  split <;> simp

/-- **`data`** is all there is, in one part. -/
theorem data_spec : acc.data.2 = acc.contents ∧ acc.data.1.contents = acc.contents ∧
    acc.data.1.maxSize = acc.maxSize ∧ (acc.data.1.frozen = none ∨ acc.data.1.buf = []) := by
  obtain ⟨buf, frozen, maxSize, hne⟩ := acc
  cases frozen with
  | none => simp [data, contents]
  | some f => cases buf <;> simp [data, contents, unfreeze]

@[simp] theorem data_snd : acc.data.2 = acc.contents := acc.data_spec.1

@[simp] theorem contents_data : acc.data.1.contents = acc.contents := acc.data_spec.2.1

@[simp] theorem data_maxSize : acc.data.1.maxSize = acc.maxSize := acc.data_spec.2.2.1

theorem getD_remainder (bytes : Bytes) : (remainder bytes).getD [] = bytes := by
  rw [remainder]
  split <;> simp_all

/-- What is consumed is taken from the front, as long as it does not reach past a frozen part with
something behind it. -/
theorem contents_consume {n : Nat} (h : acc.buf = [] ∨ ∀ f, acc.frozen = some f → n ≤ f.length) :
    (acc.consume n).contents = acc.contents.drop n := by
  rw [consume]
  split
  · rename_i f hfrozen
    rcases h with hbuf | hlen
    · simp [contents, getD_remainder, hfrozen, hbuf]
    · simp [contents, getD_remainder, hfrozen, List.drop_append_of_le_length (hlen f hfrozen)]
  · rename_i hfrozen
    simp [contents, hfrozen]

theorem contents_consume_data (n : Nat) :
    (acc.data.1.consume n).contents = acc.contents.drop n := by
  obtain ⟨-, hcontents, -, hpart⟩ := acc.data_spec
  rw [← hcontents]
  refine contents_consume _ ?_
  rcases hpart with hfrozen | hbuf
  · exact .inr fun f hf => by simp [hfrozen] at hf
  · exact .inl hbuf

@[simp] theorem consume_maxSize (n : Nat) : (acc.consume n).maxSize = acc.maxSize := by
  rw [consume]
  split <;> simp

/-- **`take_frozen`** leaves nothing. -/
theorem takeFrozen_spec : acc.takeFrozen.2 = acc.contents ∧ acc.takeFrozen.1.buf = [] ∧
    acc.takeFrozen.1.frozen = none ∧ acc.takeFrozen.1.maxSize = acc.maxSize := by
  obtain ⟨buf, frozen, maxSize, hne⟩ := acc
  cases frozen with
  | none => simp [takeFrozen, contents]
  | some f => cases buf <;> simp [takeFrozen, contents, unfreeze]

@[simp] theorem takeFrozen_snd : acc.takeFrozen.2 = acc.contents := acc.takeFrozen_spec.1

@[simp] theorem takeFrozen_maxSize : acc.takeFrozen.1.maxSize = acc.maxSize :=
  acc.takeFrozen_spec.2.2.2

@[simp] theorem contents_takeFrozen : acc.takeFrozen.1.contents = [] := by
  simp [contents, acc.takeFrozen_spec.2.1, acc.takeFrozen_spec.2.2.1]

section

variable (data : Bytes)

theorem contents_putBack (h : acc.frozen = none) :
    (acc.putBack data).contents = data ++ acc.contents := by
  rw [putBack]
  split <;> simp_all [contents]

/-- What is put back after `take_frozen` is all there is. -/
@[simp] theorem contents_putBack_takeFrozen : (acc.takeFrozen.1.putBack data).contents = data := by
  simp [contents_putBack _ data acc.takeFrozen_spec.2.2.1]

@[simp] theorem putBack_maxSize : (acc.putBack data).maxSize = acc.maxSize := by
  rw [putBack]
  split <;> simp

@[simp] theorem contents_prepend : (acc.prepend data).contents = data ++ acc.contents := by
  obtain ⟨buf, frozen, maxSize, hne⟩ := acc
  cases frozen <;> cases data <;> simp [prepend, contents, unfreeze]

@[simp] theorem prepend_maxSize : (acc.prepend data).maxSize = acc.maxSize := by
  obtain ⟨buf, frozen, maxSize, hne⟩ := acc
  cases frozen <;> cases data <;> simp [prepend, unfreeze]

theorem prepend_frozen (h : acc.frozen = none) : (acc.prepend data).frozen = none := by
  cases data <;> simp [prepend, unfreeze, h]

end

end RecvAccumulator
end Ringline.Uring

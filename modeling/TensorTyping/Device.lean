/-!
# Devices

A device is a backend and, when several of that backend exist, an ordinal. The ordinal is a sixteen
bit word. A backend has two names: a capitalised tag that identifies it in JSON, and the lower case
name used in text, where a device reads `cuda:0`, or just `cuda` without an ordinal.
-/

set_option autoImplicit false

namespace TensorTyping

/-- The family of hardware or runtime a tensor lives on (`DeviceKind`). -/
inductive Backend where
  | cpu
  | cuda
  | mkldnn
  | opengl
  | opencl
  | ideep
  | hip
  | fpga
  | msnpu
  | xla
deriving DecidableEq, Repr

namespace Backend

/-- Every backend. -/
def all : List Backend :=
  [cpu, cuda, mkldnn, opengl, opencl, ideep, hip, fpga, msnpu, xla]

/-- The name of a backend in text. -/
def name : Backend → String
  | cpu => "cpu"
  | cuda => "cuda"
  | mkldnn => "mkldnn"
  | opengl => "opengl"
  | opencl => "opencl"
  | ideep => "ideep"
  | hip => "hip"
  | fpga => "fpga"
  | msnpu => "msnpu"
  | xla => "xla"

/-- The tag of a backend in JSON. -/
def tag : Backend → String
  | cpu => "Cpu"
  | cuda => "Cuda"
  | mkldnn => "Mkldnn"
  | opengl => "Opengl"
  | opencl => "Opencl"
  | ideep => "Ideep"
  | hip => "Hip"
  | fpga => "Fpga"
  | msnpu => "Msnpu"
  | xla => "Xla"

/-- The backend of a given tag; case counts. -/
def ofTag? (s : String) : Option Backend :=
  all.find? (·.tag == s)

@[simp] theorem ofTag?_tag (b : Backend) : ofTag? b.tag = some b := by
  cases b <;> decide

end Backend

/-- A place where a tensor can live. -/
structure Device where
  /-- The backend. -/
  backend : Backend
  /-- Which device of that backend, if that was said. -/
  index : Option UInt16
deriving DecidableEq, Repr

namespace Device

/-- The host processor. -/
def cpu : Device := ⟨.cpu, none⟩

/-- The graphics processor of a given ordinal. -/
def cuda (index : UInt16) : Device := ⟨.cuda, some index⟩

/-- The device in text: its backend, and the ordinal after a colon. -/
def display (d : Device) : String :=
  match d.index with
  | none => d.backend.name
  | some i => d.backend.name ++ ":" ++ i.toNat.repr

end Device

end TensorTyping

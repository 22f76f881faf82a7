/-! Handles to heap objects. A handle names a position in the log of its kind together with the
generation in which the log issued it, and travels as one 64-bit word. -/
namespace ScriptHost

inductive ObjectKind where
  | string
  | list
  deriving DecidableEq, Repr

def ObjectKind.name : ObjectKind → String
  | .string => "string"
  | .list => "list"

@[ext]
structure Handle (kind : ObjectKind) where
  index : UInt32
  generation : UInt32
  deriving DecidableEq, Repr

abbrev StringHandle := Handle .string
abbrev ListHandle := Handle .list

namespace Handle

variable {kind : ObjectKind}

/-- The generation fills the high half of the word, the index the low half. -/
def toBits (h : Handle kind) : UInt64 :=
  UInt64.ofNat (h.generation.toNat * UInt32.size + h.index.toNat)

def ofBits (bits : UInt64) : Handle kind :=
  ⟨UInt32.ofNat (bits.toNat % UInt32.size), UInt32.ofNat (bits.toNat / UInt32.size)⟩

theorem toNat_toBits (h : Handle kind) :
    h.toBits.toNat = h.generation.toNat * UInt32.size + h.index.toNat := by
  have := h.generation.toNat_lt
  have := h.index.toNat_lt
  simp only [toBits, UInt32.size, UInt64.toNat_ofNat']
  omega

@[simp] theorem toNat_index_ofBits (bits : UInt64) :
    (ofBits bits : Handle kind).index.toNat = bits.toNat % UInt32.size := by
  simp only [ofBits, UInt32.size, UInt32.toNat_ofNat']
  omega

@[simp] theorem toNat_generation_ofBits (bits : UInt64) :
    (ofBits bits : Handle kind).generation.toNat = bits.toNat / UInt32.size := by
  have := bits.toNat_lt
  simp only [ofBits, UInt32.size, UInt32.toNat_ofNat']
  omega

@[simp] theorem ofBits_toBits (h : Handle kind) : ofBits h.toBits = h := by
  have hg := h.generation.toNat_lt
  have hi := h.index.toNat_lt
  have low : (h.generation.toNat * UInt32.size + h.index.toNat) % UInt32.size = h.index.toNat := by
    simp only [UInt32.size]
    omega
  have high : (h.generation.toNat * UInt32.size + h.index.toNat) / UInt32.size =
      h.generation.toNat := by
    simp only [UInt32.size]
    omega
  simp only [ofBits, toNat_toBits, low, high, UInt32.ofNat_toNat]

@[simp] theorem toBits_ofBits (bits : UInt64) : (ofBits bits : Handle kind).toBits = bits := by
  have := bits.toNat_lt
  apply UInt64.toNat_inj.mp
  rw [toNat_toBits]
  simp only [ofBits, UInt32.size, UInt32.toNat_ofNat']
  omega

end Handle
end ScriptHost

import Mathlib.Data.List.TakeWhile

set_option autoImplicit false

namespace Aliot

abbrev Bytes := List UInt8

def ascii (s : String) : Bytes := s.toList.map Char.toUInt8

structure CString where
  bytes : Bytes
  nulFree : (0 : UInt8) ∉ bytes

def CString.strlen (s : CString) : Nat := s.bytes.length

-- sprintf(buf, "%.*s", n, data): at most the n bytes of data, up to the first NUL.
def printed (data : Bytes) : Bytes := data.takeWhile (fun byte => byte != 0)

theorem printed_of_nul_free (data : Bytes) (nulFree : (0 : UInt8) ∉ data) : printed data = data := by
  apply List.takeWhile_eq_self_iff.mpr
  intro byte member
  have different : byte ≠ 0 := fun same => nulFree (same ▸ member)
  simpa using different

end Aliot

import VectorTick.Common.Status

/-! The hash combinator and the FNV-1a hash. -/

set_option autoImplicit false

namespace VectorTick

open Foundation

def hashCombine (seed value : UInt64) : UInt64 :=
  seed ^^^ (value + 0x9e3779b9 + (seed <<< (6 : UInt64)) + (seed >>> (2 : UInt64)))

namespace FnvHash

def initial : UInt64 := 14695981039346656037

def update (hash : UInt64) (data : Bytes) : UInt64 :=
  data.foldl (fun hash byte => (hash ^^^ byte.toUInt64) * 1099511628211) hash

end FnvHash

end VectorTick

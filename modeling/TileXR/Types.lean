import Mathlib.Data.Nat.Init

/-! # Types shared by the operators and the checker -/

namespace TileXR

inductive DataType
  | int8 | int16 | int32 | fp16 | fp32 | int64 | uint64 | uint8 | uint16 | uint32 | fp64 | bfp16 | int128
  | hif8 | fp8e4m3 | fp8e5m2 | fp8e8m0 | reserved
  deriving DecidableEq

def DataType.code : DataType → ℕ
  | .int8 => 0
  | .int16 => 1
  | .int32 => 2
  | .fp16 => 3
  | .fp32 => 4
  | .int64 => 5
  | .uint64 => 6
  | .uint8 => 7
  | .uint16 => 8
  | .uint32 => 9
  | .fp64 => 10
  | .bfp16 => 11
  | .int128 => 12
  | .hif8 => 14
  | .fp8e4m3 => 15
  | .fp8e5m2 => 16
  | .fp8e8m0 => 17
  | .reserved => 255

end TileXR

import CrashCourse.Core.Codec

/-! The generator behind the election timeouts: SplitMix64 spreads one seed over the four words of a xoshiro256++ stream. -/

namespace CrashCourse.Core

def rotateLeft (value : UInt64) (count : UInt64) : UInt64 :=
  (value <<< count) ||| (value >>> (64 - count))

def splitMix64 (state : UInt64) : UInt64 × UInt64 :=
  let state := state + 0x9e3779b97f4a7c15
  let z := (state ^^^ (state >>> 30)) * 0xbf58476d1ce4e5b9
  let z := (z ^^^ (z >>> 27)) * 0x94d049bb133111eb
  (state, z ^^^ (z >>> 31))

structure Xoshiro256pp where
  s0 : UInt64
  s1 : UInt64
  s2 : UInt64
  s3 : UInt64
  deriving DecidableEq, Repr

namespace Xoshiro256pp

def stream (seed : UInt64) (domain : Bytes) (index : UInt64) : Xoshiro256pp :=
  let (state, s0) := splitMix64 (seed ^^^ fnv1a domain ^^^ rotateLeft index 17)
  let (state, s1) := splitMix64 state
  let (state, s2) := splitMix64 state
  let (_, s3) := splitMix64 state
  if s0 = 0 ∧ s1 = 0 ∧ s2 = 0 ∧ s3 = 0 then ⟨1, 0, 0, 0⟩ else ⟨s0, s1, s2, s3⟩

def u64 (rng : Xoshiro256pp) : UInt64 × Xoshiro256pp :=
  let result := rotateLeft (rng.s0 + rng.s3) 23 + rng.s0
  let t := rng.s1 <<< 17
  let s2 := rng.s2 ^^^ rng.s0
  let s3 := rng.s3 ^^^ rng.s1
  let s1 := rng.s1 ^^^ s2
  let s0 := rng.s0 ^^^ s3
  (result, ⟨s0, s1, s2 ^^^ t, rotateLeft s3 45⟩)

def rangeU64 (rng : Xoshiro256pp) (low high : Nat) : Nat × Xoshiro256pp :=
  let (draw, rng) := rng.u64
  (low + draw.toNat % (high - low), rng)

end Xoshiro256pp
end CrashCourse.Core

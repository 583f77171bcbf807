import UfcRecomp.Lib.Lanes

/-!
# Vector intrinsics

Operations of the host's processor on vectors, under the names of their intrinsics.
-/

namespace UfcRecomp.Lib.Simd

open Vec

/-! ## Bits and bytes -/

def xorSi128 : Vec → Vec → Vec := bytes₂ (· ^^^ ·)

def andSi128 : Vec → Vec → Vec := bytes₂ (· &&& ·)

def orSi128 : Vec → Vec → Vec := bytes₂ (· ||| ·)

def setzeroSi128 : Vec := fun _ => 0

def addEpi8 : Vec → Vec → Vec := bytes₂ (· + ·)

def subEpi8 : Vec → Vec → Vec := bytes₂ (· - ·)

/-- `set1_epi8`, `set1_epi16` and `set1_epi32`. -/
def set1 (size : Nat) (number : Int) : Vec := ofLanes size fun _ => number

/-! ## Arithmetic -/

/-- The nearest number in a range. -/
def clamp (low high number : Int) : Int := max low (min high number)

theorem clamp_mono {low high x y : Int} (order : x ≤ y) : clamp low high x ≤ clamp low high y :=
  max_le_max (Int.le_refl low) (min_le_min (Int.le_refl high) order)

def addEpi16 : Vec → Vec → Vec := map₂ 2 fun x y => x + y

def addEpi32 : Vec → Vec → Vec := map₂ 4 fun x y => x + y

def subEpi16 : Vec → Vec → Vec := map₂ 2 fun x y => x - y

def subEpi32 : Vec → Vec → Vec := map₂ 4 fun x y => x - y

def maxEpi16 : Vec → Vec → Vec := signedMap₂ 2 max

def maxEpi32 : Vec → Vec → Vec := signedMap₂ 4 max

def minEpi16 : Vec → Vec → Vec := signedMap₂ 2 min

def minEpu32 : Vec → Vec → Vec := map₂ 4 fun x y => min x y

def addsEpi8 : Vec → Vec → Vec := signedMap₂ 1 fun x y => clamp (-128) 127 (x + y)

def addsEpi16 : Vec → Vec → Vec := signedMap₂ 2 fun x y => clamp (-32768) 32767 (x + y)

def addsEpu8 : Vec → Vec → Vec := map₂ 1 fun x y => clamp 0 255 (x + y)

def addsEpu16 : Vec → Vec → Vec := map₂ 2 fun x y => clamp 0 65535 (x + y)

def subsEpu8 : Vec → Vec → Vec := map₂ 1 fun x y => clamp 0 255 (x - y)

def avgEpu8 : Vec → Vec → Vec := map₂ 1 fun x y => (x + y + 1) / 2

def avgEpu16 : Vec → Vec → Vec := map₂ 2 fun x y => (x + y + 1) / 2

/-! ## Comparisons -/

/-- `cmpeq_epi8`, `cmpeq_epi16` and `cmpeq_epi32`. -/
def cmpeq (size : Nat) : Vec → Vec → Vec := compare size fun x y => x = y

/-- `cmpgt_epi8`, `cmpgt_epi16` and `cmpgt_epi32`. -/
def cmpgt (size : Nat) : Vec → Vec → Vec := signedCompare size fun x y => y < x

/-! ## Permutations -/

/-- The lanes of two vectors in turn, from one lane on. -/
def interleave (size base : Nat) (left right : Vec) : Vec := fun position =>
  let source := if position / size % 2 = 0 then left else right
  source (size * (base + position / size / 2) + position % size)

/-- `unpacklo_epi8`, `unpacklo_epi16`, `unpacklo_epi32` and `unpacklo_epi64`. -/
def unpacklo (size : Nat) : Vec → Vec → Vec := interleave size 0

/-- `unpackhi_epi8`, `unpackhi_epi16`, `unpackhi_epi32` and `unpackhi_epi64`. -/
def unpackhi (size : Nat) : Vec → Vec → Vec := interleave size (8 / size)

def shuffleEpi8 (vec mask : Vec) : Vec := fun position =>
  if (mask position).msb then 0 else vec ((mask position).toNat % 16)

/-- `shuffle_epi32` and `permute_ps`. -/
def shuffleEpi32 (control : Nat) (vec : Vec) : Vec := fun position =>
  vec (4 * (control / 4 ^ (position / 4) % 4) + position % 4)

def blendPs (control : Nat) (left right : Vec) : Vec := fun position =>
  if control.testBit (position / 4) then right position else left position

def blendvEpi8 (left right mask : Vec) : Vec := fun position =>
  if (mask position).msb then right position else left position

/-- The bytes of two vectors, the first one above the second one, from one byte on. -/
def alignrEpi8 (count : Nat) (high low : Vec) : Vec := fun position =>
  if position + count < 16 then low (position + count)
  else if position + count < 32 then high (position + count - 16)
  else 0

def srliSi128 (count : Nat) (vec : Vec) : Vec := fun position =>
  if position + count < 16 then vec (position + count) else 0

/-- `insert_ps`, which here replaces the second lane by the first one of another vector. -/
def insertPs0x10 (left right : Vec) : Vec := fun position =>
  if position / 4 = 1 then right (position - 4) else left position

/-! ## Shifts -/

def slliEpi32 (count : Nat) (vec : Vec) : Vec := ofLanes 4 fun index => lane 4 vec index * 2 ^ count

def slliEpi64 (count : Nat) (vec : Vec) : Vec := ofLanes 8 fun index => lane 8 vec index * 2 ^ count

def srliEpi64 (count : Nat) (vec : Vec) : Vec :=
  ofLanes 8 fun index => (lane 8 vec index / 2 ^ count : Nat)

/-- The count is the lower half of a vector. -/
def srlEpi64 (vec count : Vec) : Vec :=
  ofLanes 8 fun index =>
    if lane 8 count 0 < 64 then (lane 8 vec index / 2 ^ lane 8 count 0 : Nat) else 0

/-! ## Conversions -/

def cvtepi8Epi16 (vec : Vec) : Vec := ofLanes 2 (signedLane 1 vec)

def cvtepi16Epi32 (vec : Vec) : Vec := ofLanes 4 (signedLane 2 vec)

def packusEpi16 (low high : Vec) : Vec := ofLanes 1 fun index =>
  clamp 0 255 (if index < 8 then signedLane 2 low index else signedLane 2 high (index - 8))

end UfcRecomp.Lib.Simd

import EthBatch.Address

/-!
# What is below

Two things are decided by what a program runs on. A reader of JSON gives up when containers stand
too deep inside each other, and how deep that is depends on the stack that is left to it. The
encoder of addresses comes in releases that judge the spelling of a text differently: some take
digits in any letter case, others refuse a checksum that is wrong.
-/

namespace EthBatch

namespace Address

/-- Are there both small and capital letters among the digits of a text? Only then does their case
say something. -/
def isMixed (s : String) : Bool :=
  let digits := Hex.dropMark s.toList
  digits.any Char.isLower && digits.any Char.isUpper

/-- Is a text free of a wrong checksum? -/
def isWellSpelled (s : String) : Bool :=
  !isMixed s || (ofText? s).any fun a => a.text == s

end Address

/-- What a program runs on. -/
class Platform where
  /-- How many containers of a JSON document may stand inside each other. -/
  jsonDepth : Nat
  /-- Does the encoder take the spelling of an address? Without a wrong checksum it does. -/
  takes : String → Bool
  takes_of_isWellSpelled : ∀ s, Address.isWellSpelled s = true → takes s = true

namespace Platform

/-- A platform whose encoder takes every spelling. -/
@[reducible] def lenient : Platform := ⟨990, fun _ => true, fun _ _ => rfl⟩

/-- A platform whose encoder refuses a wrong checksum. -/
@[reducible] def strict : Platform := ⟨990, Address.isWellSpelled, fun _ h => h⟩

namespace Lenient

/-- The platform that examples run on. -/
scoped instance : Platform := .lenient

end Lenient

end Platform

end EthBatch

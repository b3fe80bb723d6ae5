import ArmBlocks.Notice

/-!
# Configuration

The sizes are in bytes. What keeps an engine sane is derived and not configured: a block has at
least one and at most `maxBlock` instructions (`sanitized`), and a cache is reset early enough
that the largest block always fits (`resetThreshold`), as long as half the cache can hold one.
-/

set_option autoImplicit false

namespace ArmBlocks

/-- Bytes in a mebibyte. -/
def mebibyte : Nat := 1024 * 1024

/-- The configuration of an engine. -/
structure Config where
  /-- Bytes of code cache for each processor; a change takes effect at the next reset. -/
  cacheReserve : Nat := 16 * mebibyte
  /-- Bytes that should be left before a block is compiled; with fewer, the cache is reset. -/
  lowWaterMark : Nat := 128 * 1024
  /-- The most instructions a block may hold. -/
  maxBlockInstructions : Nat := 100
  /-- How often compiled code in one granule may be invalidated before it is interpreted. -/
  recompileThreshold : BitVec 8 := 8
  /-- Whether flags that nobody looks at are not computed. -/
  optimizeFlags : Bool := true
  deriving DecidableEq, Repr

namespace Config

/-- The most instructions any block may hold. -/
def maxBlock : Nat := 256

/-- A bound on the cache that one instruction takes: three nodes, its record and its share of a
condition, each with the padding of an aligned allocation. -/
def bytesPerInstruction : Nat := 192

/-- The largest number the host counts bytes with. -/
def maxBytes : Nat := 0xFFFFFFFFFFFFFFFF

/-- Whether the block size is one an engine can work with. -/
def blockSizeOk (c : Config) : Bool :=
  1 ≤ c.maxBlockInstructions && c.maxBlockInstructions ≤ maxBlock

theorem one_le_of_blockSizeOk {c : Config} (ok : c.blockSizeOk = true) :
    1 ≤ c.maxBlockInstructions := by
  rw [blockSizeOk, Bool.and_eq_true, decide_eq_true_iff] at ok
  exact ok.1

/-- The configuration with the block size brought into range, and the notice if it was not. -/
def sanitized (c : Config) : Config × List Notice :=
  if c.blockSizeOk then (c, [])
  else
    ({ c with maxBlockInstructions := min (max c.maxBlockInstructions 1) maxBlock },
      [.blockSizeClamped c.maxBlockInstructions])

/-- The free space below which a cache is reset before compiling: at least the largest block,
at most half the cache. -/
def resetThreshold (c : Config) : Nat :=
  min (max c.lowWaterMark (c.maxBlockInstructions * bytesPerInstruction)) (c.cacheReserve / 2)

/-- The cache size in whole mebibytes. -/
def reserveMebibytes (c : Config) : Nat := c.cacheReserve / mebibyte

/-- The configuration with the cache size given in mebibytes, as far as bytes can be counted. -/
def setReserveMebibytes (c : Config) (mebibytes : Nat) : Config :=
  { c with cacheReserve := min (mebibytes * mebibyte) maxBytes }

end Config

end ArmBlocks

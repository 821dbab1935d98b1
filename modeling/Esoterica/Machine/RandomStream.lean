import Esoterica.Binary64.Basic

/-!
# Random streams

An endless sequence of 64-bit words and how many of them were used. Programs draw bytes and
fractions from it. Nothing depends on where the words come from: the host gives a stream to every
engine, and says which stream belongs to a seed.
-/

namespace Esoterica

structure RandomStream where
  word : Nat → UInt64
  used : Nat := 0

namespace RandomStream

/-- The stream of nothing but zeros. -/
def zeros : RandomStream where
  word _ := 0

/-- Takes the next word. -/
def next (stream : RandomStream) : UInt64 × RandomStream :=
  (stream.word stream.used, { stream with used := stream.used + 1 })

/-- Takes a byte. -/
def nextByte (stream : RandomStream) : UInt8 × RandomStream :=
  let (word, stream) := stream.next
  ((word >>> 56).toUInt8, stream)

/-- Takes a number of the range from zero up to but not including one: a multiple of `2 ^ (-53)`. -/
def nextFraction (stream : RandomStream) : Binary64 × RandomStream :=
  let (word, stream) := stream.next
  (.round false (unitExponent - precision) (word >>> 11).toNat 1, stream)

end RandomStream

end Esoterica

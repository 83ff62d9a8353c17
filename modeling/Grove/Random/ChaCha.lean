import Grove.Random.Generator

/-!
# The ChaCha stream with twelve rounds

A block of sixteen words is mixed from four constant words, a key of eight words, a block counter
and two zero words. The stream is the words of block zero, then those of block one, and so on.
-/

set_option autoImplicit false

namespace Grove

structure ChaCha where
  key : Vector UInt32 8
  /-- The number of the block after the current one. -/
  counter : UInt64 := 0
  /-- The words of the current block that have not been drawn. -/
  pending : List UInt32 := []

namespace ChaCha

abbrev Block := Vector UInt32 16

def rotateLeft (word : UInt32) (places : UInt32) : UInt32 :=
  (word <<< places) ||| (word >>> (32 - places))

/-- Mixes four words of a block. -/
def quarterRound (block : Block) (a b c d : Fin 16) : Block :=
  let step (block : Block) (sum addend mixed : Fin 16) (places : UInt32) : Block :=
    let total := block[sum] + block[addend]
    let block := block.set sum total
    block.set mixed (rotateLeft (block[mixed] ^^^ total) places)
  step (step (step (step block a b d 16) c d b 12) a b d 8) c d b 7

/-- A round over the columns, then one over the diagonals. -/
def doubleRound (block : Block) : Block :=
  let block := quarterRound block 0 4 8 12
  let block := quarterRound block 1 5 9 13
  let block := quarterRound block 2 6 10 14
  let block := quarterRound block 3 7 11 15
  let block := quarterRound block 0 5 10 15
  let block := quarterRound block 1 6 11 12
  let block := quarterRound block 2 7 8 13
  quarterRound block 3 4 9 14

def seedBlock (key : Vector UInt32 8) (counter : UInt64) : Block :=
  #v[0x61707865, 0x3320646e, 0x79622d32, 0x6b206574,
     key[0], key[1], key[2], key[3], key[4], key[5], key[6], key[7],
     counter.toUInt32, (counter >>> 32).toUInt32, 0, 0]

/-- The block with the given number. -/
def block (key : Vector UInt32 8) (counter : UInt64) : Block :=
  let start := seedBlock key counter
  let mixed := Nat.repeat doubleRound 6 start
  Vector.zipWith (· + ·) mixed start

instance : Generator ChaCha where
  next stream :=
    match stream.pending with
    | word :: pending => (word, { stream with pending })
    | [] =>
        let words := block stream.key stream.counter
        (words[0], { stream with counter := stream.counter + 1, pending := words.toList.drop 1 })

def expandSeed (state : UInt64) : UInt64 :=
  state * 6364136223846793005 + 11634580027462260723

/-- The word taken from a state of that sequence: a rotation of mixed high bits. -/
def seedWord (state : UInt64) : UInt32 :=
  let mixed := (((state >>> 18) ^^^ state) >>> 27).toUInt32
  let places := (state >>> 59).toUInt32
  (mixed >>> places) ||| (mixed <<< (32 - places))

def ofSeed (seed : UInt64) : ChaCha :=
  { key := Vector.ofFn fun index => seedWord (Nat.repeat expandSeed (index.val + 1) seed) }

/-- The stream whose key is drawn from another one, and where that one goes on. -/
def fork (stream : ChaCha) : ChaCha × ChaCha :=
  let (words, stream) := ((List.replicate 8 ()).mapM fun _ => draw).run stream
  ({ key := Vector.ofFn fun index => words.getD index.val 0 }, stream)

end ChaCha

end Grove

/-! The keystream that all random choices are made from: the ChaCha cipher with twelve rounds, its key
    expanded from a 64-bit seed. A keystream is a value; taking a word gives the word and the keystream
    that follows it. -/

namespace Formulary

/-- Four words, one row of the cipher's grid. -/
structure Row where
  a : UInt32
  b : UInt32
  c : UInt32
  d : UInt32
deriving DecidableEq, Repr

namespace Row

@[inline] def zipWith (f : UInt32 → UInt32 → UInt32) (x y : Row) : Row :=
  ⟨f x.a y.a, f x.b y.b, f x.c y.c, f x.d y.d⟩

@[inline] def map (f : UInt32 → UInt32) (x : Row) : Row := ⟨f x.a, f x.b, f x.c, f x.d⟩

/-- The row moved one place to the left, its first word going to the end. -/
def turn (x : Row) : Row := ⟨x.b, x.c, x.d, x.a⟩

def toList (x : Row) : List UInt32 := [x.a, x.b, x.c, x.d]

end Row

/-- The sixteen words the cipher mixes. -/
structure Grid where
  r0 : Row
  r1 : Row
  r2 : Row
  r3 : Row
deriving DecidableEq, Repr

namespace Grid

/-- `x` with its bits moved `k` places to the left, those that fall out coming back on the right. -/
@[inline] def rotateLeft (x k : UInt32) : UInt32 := (x <<< k) ||| (x >>> (32 - k))

/-- Mixes the four words of each column. -/
def mixColumns (g : Grid) : Grid :=
  let r0 := g.r0.zipWith (· + ·) g.r1
  let r3 := (g.r3.zipWith (· ^^^ ·) r0).map (rotateLeft · 16)
  let r2 := g.r2.zipWith (· + ·) r3
  let r1 := (g.r1.zipWith (· ^^^ ·) r2).map (rotateLeft · 12)
  let r0 := r0.zipWith (· + ·) r1
  let r3 := (r3.zipWith (· ^^^ ·) r0).map (rotateLeft · 8)
  let r2 := r2.zipWith (· + ·) r3
  let r1 := (r1.zipWith (· ^^^ ·) r2).map (rotateLeft · 7)
  ⟨r0, r1, r2, r3⟩

/-- Moves each diagonal into a column. -/
def slant (g : Grid) : Grid := ⟨g.r0, g.r1.turn, g.r2.turn.turn, g.r3.turn.turn.turn⟩

/-- Moves each column back into its diagonal. -/
def unslant (g : Grid) : Grid := ⟨g.r0, g.r1.turn.turn.turn, g.r2.turn.turn, g.r3.turn⟩

/-- A round on the columns and a round on the diagonals. -/
def doubleRound (g : Grid) : Grid := g.mixColumns.slant.mixColumns.unslant

def add (g h : Grid) : Grid :=
  ⟨g.r0.zipWith (· + ·) h.r0, g.r1.zipWith (· + ·) h.r1, g.r2.zipWith (· + ·) h.r2,
    g.r3.zipWith (· + ·) h.r3⟩

/-- Six double rounds, then the grid they started from is added. -/
def scramble (g : Grid) : Grid := (Nat.repeat doubleRound 6 g).add g

end Grid

/-- The key, the number of the next block, and the words of the current block not yet taken. -/
structure Keystream where
  key0 : Row
  key1 : Row
  block : UInt64
  pending : List UInt32
deriving DecidableEq, Repr

namespace Keystream

/-- Block number `n` of the keystream with the key `k0`, `k1`. -/
def output (k0 k1 : Row) (n : UInt64) : Grid :=
  Grid.scramble ⟨⟨0x61707865, 0x3320646e, 0x79622d32, 0x6b206574⟩, k0, k1,
    ⟨n.toUInt32, (n >>> 32).toUInt32, 0, 0⟩⟩

/-- The next word of the keystream. -/
def next (s : Keystream) : UInt32 × Keystream :=
  match s.pending with
  | w :: rest => (w, { s with pending := rest })
  | [] =>
    let g := output s.key0 s.key1 s.block
    (g.r0.a, { s with
      block := s.block + 1
      pending := g.r0.b :: g.r0.c :: g.r0.d :: (g.r1.toList ++ g.r2.toList ++ g.r3.toList) })

/-! ### Seeding -/

/-- The step of the linear generator that expands a seed. -/
def advance (s : UInt64) : UInt64 := s * 0x5851F42D4C957F2D + 0xA17654E46FBE17F3

/-- The word read off a state of the linear generator: its high bits are folded and turned right by the
    amount that the top five bits give. -/
def fold (s : UInt64) : UInt32 :=
  let x := (((s >>> 18) ^^^ s) >>> 27).toUInt32
  let k := (s >>> 59).toUInt32
  (x >>> k) ||| (x <<< (32 - k))

/-- Four words of key from the state `s`, and the state after them. -/
def expand (s : UInt64) : Row × UInt64 :=
  let s1 := advance s
  let s2 := advance s1
  let s3 := advance s2
  let s4 := advance s3
  (⟨fold s1, fold s2, fold s3, fold s4⟩, s4)

/-- The keystream of a seed. -/
def ofSeed (seed : UInt64) : Keystream :=
  let (k0, s) := expand seed
  let (k1, _) := expand s
  ⟨k0, k1, 0, []⟩

end Keystream
end Formulary

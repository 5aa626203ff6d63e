import CoinRelay.Octets

/-!
# The ChaCha20 key stream

The stream cipher, and the derivation that stretches its nonce to 24 octets. A state is sixteen words, four
rows of four.

- `ChaCha20.stream`: octets of the key stream from a block on;
- `ChaCha20.subkey`: the key for a nonce's first sixteen octets.
-/

namespace CoinRelay.Crypto.ChaCha20

/-! ## States -/

/-- Four words. -/
structure Row where
  (w x y z : UInt32)

/-- Four rows of four words. -/
structure State where
  (a b c d : Row)

/-- Rotates a word left. -/
def rotateLeft (x n : UInt32) : UInt32 := (x <<< n) ||| (x >>> (32 - n))

/-- Mixes the four words of a column. -/
def quarterRound (a b c d : UInt32) : UInt32 × UInt32 × UInt32 × UInt32 :=
  let a := a + b
  let d := rotateLeft (d ^^^ a) 16
  let c := c + d
  let b := rotateLeft (b ^^^ c) 12
  let a := a + b
  let d := rotateLeft (d ^^^ a) 8
  let c := c + d
  let b := rotateLeft (b ^^^ c) 7
  (a, b, c, d)

/-- Mixes every column. -/
def State.mix (s : State) : State :=
  let (aw, bw, cw, dw) := quarterRound s.a.w s.b.w s.c.w s.d.w
  let (ax, bx, cx, dx) := quarterRound s.a.x s.b.x s.c.x s.d.x
  let (ay, byy, cy, dy) := quarterRound s.a.y s.b.y s.c.y s.d.y
  let (az, bz, cz, dz) := quarterRound s.a.z s.b.z s.c.z s.d.z
  ⟨⟨aw, ax, ay, az⟩, ⟨bw, bx, byy, bz⟩, ⟨cw, cx, cy, cz⟩, ⟨dw, dx, dy, dz⟩⟩

/-- Moves the words of a row `1` to the left. -/
def Row.turn (r : Row) : Row := ⟨r.x, r.y, r.z, r.w⟩

/-- Turns the diagonals into columns. -/
def State.slant (s : State) : State :=
  ⟨s.a, s.b.turn, s.c.turn.turn, s.d.turn.turn.turn⟩

/-- Turns the columns back into diagonals. -/
def State.unslant (s : State) : State :=
  ⟨s.a, s.b.turn.turn.turn, s.c.turn.turn, s.d.turn⟩

/-- Mixes the columns and then the diagonals. -/
def State.doubleRound (s : State) : State := s.mix.slant.mix.unslant

/-- Ten double rounds. -/
def State.scramble (s : State) : State := Nat.repeat State.doubleRound 10 s

def Row.add (r q : Row) : Row := ⟨r.w + q.w, r.x + q.x, r.y + q.y, r.z + q.z⟩

def State.add (s t : State) : State := ⟨s.a.add t.a, s.b.add t.b, s.c.add t.c, s.d.add t.d⟩

/-! ## Octets -/

/-- The four octets of a word, lowest first. -/
def wordOctets (x : UInt32) : Octets :=
  [x.toUInt8, (x >>> 8).toUInt8, (x >>> 16).toUInt8, (x >>> 24).toUInt8]

def Row.octets (r : Row) : Octets :=
  wordOctets r.w ++ wordOctets r.x ++ wordOctets r.y ++ wordOctets r.z

def State.octets (s : State) : Octets :=
  s.a.octets ++ s.b.octets ++ s.c.octets ++ s.d.octets

/-- The word of four octets from a place on, lowest first; octets past the end count as zero. -/
def wordAt (o : Octets) (i : Nat) : UInt32 :=
  (o.getD i 0).toUInt32 ||| ((o.getD (i + 1) 0).toUInt32 <<< 8) ||| ((o.getD (i + 2) 0).toUInt32 <<< 16) |||
    ((o.getD (i + 3) 0).toUInt32 <<< 24)

/-- The row of sixteen octets from a place on. -/
def rowAt (o : Octets) (i : Nat) : Row :=
  ⟨wordAt o i, wordAt o (i + 4), wordAt o (i + 8), wordAt o (i + 12)⟩

/-- The row that starts every state. -/
def constants : Row := ⟨0x61707865, 0x3320646e, 0x79622d32, 0x6b206574⟩

/-! ## Streams -/

/-- The key for the first sixteen octets of a nonce. -/
def subkey (key nonce : Octets) : Octets :=
  let s := State.scramble ⟨constants, rowAt key 0, rowAt key 16, rowAt nonce 0⟩
  s.a.octets ++ s.d.octets

/-- A block of the key stream: 64 octets for a key, an eight-octet nonce and the block's number. -/
def block (key nonce : Octets) (counter : UInt32) : Octets :=
  let s : State := ⟨constants, rowAt key 0, rowAt key 16, ⟨counter, 0, wordAt nonce 0, wordAt nonce 4⟩⟩
  (s.scramble.add s).octets

/-- At least `n` octets of the key stream, from a block on. -/
def stream (key nonce : Octets) (counter : UInt32) (n : Nat) : Octets :=
  (List.range ((n + 63) / 64)).flatMap fun i => block key nonce (counter + UInt32.ofNat i)

end CoinRelay.Crypto.ChaCha20

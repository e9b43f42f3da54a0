/-!
# Digests

MD5, SHA-1 and the SHA-2 family on lists of bytes. Bytes and words are natural numbers; every
operation keeps a word below its power of two. The constants of SHA-2 are the fractions of square
and cube roots of the first primes and are computed as such.
-/

namespace SparqlBind.Digest

def hexDigit (n : Nat) : Char := if n < 10 then Char.ofNat (48 + n) else Char.ofNat (87 + n)

def hexText (bytes : List Nat) : String :=
  String.ofList (bytes.flatMap fun b => [hexDigit (b / 16), hexDigit (b % 16)])

def bytesOf (s : String) : List Nat := s.toUTF8.toList.map (·.toNat)

def littleEndian (count n : Nat) : List Nat := (List.range count).map fun i => n / Nat.pow 256 i % 256

def bigEndian (count n : Nat) : List Nat := (littleEndian count n).reverse

def ofBigEndian (bytes : List Nat) : Nat := bytes.foldl (fun n b => 256 * n + b) 0

def ofLittleEndian (bytes : List Nat) : Nat := ofBigEndian bytes.reverse

/-- Pieces of the given size; the first argument bounds their number. -/
def chunks (size : Nat) : Nat → List Nat → List (List Nat)
  | 0, _ => []
  | _, [] => []
  | fuel + 1, bytes => bytes.take size :: chunks size fuel (bytes.drop size)

/-- The message with a mark, zeros and its length in bits, in blocks of 64 or 128 bytes. -/
def blocks (size : Nat) (lengthBytes : Nat → List Nat) (message : List Nat) : List (List Nat) :=
  let tail := lengthBytes (8 * message.length)
  let used := message.length + 1 + tail.length
  let padded := message ++ 128 :: List.replicate ((size - used % size) % size) 0 ++ tail
  chunks size padded.length padded

def wordsOf (width : Nat) (read : List Nat → Nat) (block : List Nat) : Array Nat :=
  ((chunks width block.length block).map read).toArray

/-! ## Words -/

def add (width a b : Nat) : Nat := (a + b) % Nat.pow 2 width

def not (width a : Nat) : Nat := Nat.pow 2 width - 1 - a

def rotateLeft (width k a : Nat) : Nat := (a <<< k % Nat.pow 2 width) ||| (a >>> (width - k))

def rotateRight (width k a : Nat) : Nat := rotateLeft width (width - k) a

/-! ## Five-word and four-word digests -/

structure MD5State where
  a : Nat
  b : Nat
  c : Nat
  d : Nat

def md5Sines : Array Nat := #[
  3614090360, 3905402710, 606105819, 3250441966, 4118548399, 1200080426, 2821735955, 4249261313,
  1770035416, 2336552879, 4294925233, 2304563134, 1804603682, 4254626195, 2792965006, 1236535329,
  4129170786, 3225465664, 643717713, 3921069994, 3593408605, 38016083, 3634488961, 3889429448,
  568446438, 3275163606, 4107603335, 1163531501, 2850285829, 4243563512, 1735328473, 2368359562,
  4294588738, 2272392833, 1839030562, 4259657740, 2763975236, 1272893353, 4139469664, 3200236656,
  681279174, 3936430074, 3572445317, 76029189, 3654602809, 3873151461, 530742520, 3299628645,
  4096336452, 1126891415, 2878612391, 4237533241, 1700485571, 2399980690, 4293915773, 2240044497,
  1873313359, 4264355552, 2734768916, 1309151649, 4149444226, 3174756917, 718787259, 3951481745]

def md5Shifts : Array (Array Nat) := #[#[7, 12, 17, 22], #[5, 9, 14, 20], #[4, 11, 16, 23], #[6, 10, 15, 21]]

def md5Step (words : Array Nat) (s : MD5State) (i : Nat) : MD5State :=
  let (f, word) := match i / 16 with
    | 0 => ((s.b &&& s.c) ||| (not 32 s.b &&& s.d), i)
    | 1 => ((s.d &&& s.b) ||| (not 32 s.d &&& s.c), 5 * i + 1)
    | 2 => (s.b ^^^ s.c ^^^ s.d, 3 * i + 5)
    | _ => (s.c ^^^ (s.b ||| not 32 s.d), 7 * i)
  let sum := (s.a + f + md5Sines.getD i 0 + words.getD (word % 16) 0) % 0x100000000
  let shift := (md5Shifts.getD (i / 16) #[]).getD (i % 4) 0
  ⟨s.d, add 32 s.b (rotateLeft 32 shift sum), s.b, s.c⟩

def md5Block (s : MD5State) (block : List Nat) : MD5State :=
  let r := (List.range 64).foldl (md5Step (wordsOf 4 ofLittleEndian block)) s
  ⟨add 32 s.a r.a, add 32 s.b r.b, add 32 s.c r.c, add 32 s.d r.d⟩

def md5 (message : List Nat) : List Nat :=
  let start : MD5State := ⟨0x67452301, 0xefcdab89, 0x98badcfe, 0x10325476⟩
  let s := (blocks 64 (littleEndian 8) message).foldl md5Block start
  [s.a, s.b, s.c, s.d].flatMap (littleEndian 4)

structure SHA1State where
  a : Nat
  b : Nat
  c : Nat
  d : Nat
  e : Nat

def sha1Extend (words : Array Nat) (i : Nat) : Array Nat :=
  let w (back : Nat) : Nat := words.getD (i + 16 - back) 0
  words.push (rotateLeft 32 1 (w 3 ^^^ w 8 ^^^ w 14 ^^^ w 16))

def sha1Step (words : Array Nat) (s : SHA1State) (i : Nat) : SHA1State :=
  let (f, k) := match i / 20 with
    | 0 => ((s.b &&& s.c) ||| (not 32 s.b &&& s.d), 0x5a827999)
    | 1 => (s.b ^^^ s.c ^^^ s.d, 0x6ed9eba1)
    | 2 => ((s.b &&& s.c) ||| (s.b &&& s.d) ||| (s.c &&& s.d), 0x8f1bbcdc)
    | _ => (s.b ^^^ s.c ^^^ s.d, 0xca62c1d6)
  let sum := (rotateLeft 32 5 s.a + f + s.e + k + words.getD i 0) % 0x100000000
  ⟨sum, s.a, rotateLeft 32 30 s.b, s.c, s.d⟩

def sha1Block (s : SHA1State) (block : List Nat) : SHA1State :=
  let words := (List.range 64).foldl sha1Extend (wordsOf 4 ofBigEndian block)
  let r := (List.range 80).foldl (sha1Step words) s
  ⟨add 32 s.a r.a, add 32 s.b r.b, add 32 s.c r.c, add 32 s.d r.d, add 32 s.e r.e⟩

def sha1 (message : List Nat) : List Nat :=
  let start : SHA1State := ⟨0x67452301, 0xefcdab89, 0x98badcfe, 0x10325476, 0xc3d2e1f0⟩
  let s := (blocks 64 (bigEndian 8) message).foldl sha1Block start
  [s.a, s.b, s.c, s.d, s.e].flatMap (bigEndian 4)

/-! ## SHA-2 -/

/-- The largest number whose power is at most `n`, built bit by bit. -/
def root (power n : Nat) : Nat → Nat → Nat
  | 0, found => found
  | bit + 1, found =>
    let next := found + Nat.pow 2 bit
    root power n bit (if Nat.pow next power ≤ n then next else found)

def isPrime (n : Nat) : Bool := 2 ≤ n && (List.range n).all fun d => d < 2 || n % d ≠ 0

def primes : List Nat := (List.range 410).filter isPrime

/-- The first bits of the fraction of a root of `n`. -/
def rootFraction (power width n : Nat) : Nat :=
  root power (n * Nat.pow 2 (power * width)) (width + 10) 0 % Nat.pow 2 width

/-- What the members of the family differ in: word width, number of rounds and rotations. -/
structure SHA2 where
  width : Nat
  rounds : Nat
  bigA : Nat × Nat × Nat
  bigE : Nat × Nat × Nat
  /-- Two rotations and a shift. -/
  small0 : Nat × Nat × Nat
  small1 : Nat × Nat × Nat

def sha2Narrow : SHA2 := ⟨32, 64, (2, 13, 22), (6, 11, 25), (7, 18, 3), (17, 19, 10)⟩

def sha2Wide : SHA2 := ⟨64, 80, (28, 34, 39), (14, 18, 41), (1, 8, 7), (19, 61, 6)⟩

def roundConstants : Array Nat := ((primes.take 80).map (rootFraction 3 64)).toArray

namespace SHA2

def constant (p : SHA2) (i : Nat) : Nat := roundConstants.getD i 0 >>> (64 - p.width)

def rotations (p : SHA2) (r : Nat × Nat × Nat) (a : Nat) : Nat :=
  rotateRight p.width r.1 a ^^^ rotateRight p.width r.2.1 a ^^^ rotateRight p.width r.2.2 a

def mix (p : SHA2) (r : Nat × Nat × Nat) (a : Nat) : Nat :=
  rotateRight p.width r.1 a ^^^ rotateRight p.width r.2.1 a ^^^ (a >>> r.2.2)

def extend (p : SHA2) (words : Array Nat) (i : Nat) : Array Nat :=
  let w (back : Nat) : Nat := words.getD (i + 16 - back) 0
  words.push ((p.mix p.small1 (w 2) + w 7 + p.mix p.small0 (w 15) + w 16) % Nat.pow 2 p.width)

def step (p : SHA2) (words : Array Nat) (s : Array Nat) (i : Nat) : Array Nat :=
  let a := s.getD 0 0
  let b := s.getD 1 0
  let c := s.getD 2 0
  let e := s.getD 4 0
  let choice := (e &&& s.getD 5 0) ^^^ (not p.width e &&& s.getD 6 0)
  let t1 := s.getD 7 0 + p.rotations p.bigE e + choice + p.constant i + words.getD i 0
  let t2 := p.rotations p.bigA a + ((a &&& b) ^^^ (a &&& c) ^^^ (b &&& c))
  #[(t1 + t2) % Nat.pow 2 p.width, a, b, c, add p.width (s.getD 3 0) t1, e, s.getD 5 0, s.getD 6 0]

def block (p : SHA2) (s : Array Nat) (bytes : List Nat) : Array Nat :=
  let first := wordsOf (p.width / 8) ofBigEndian bytes
  let words := (List.range (p.rounds - 16)).foldl p.extend first
  let r := (List.range p.rounds).foldl (p.step words) s
  (Array.range 8).map fun i => add p.width (s.getD i 0) (r.getD i 0)

/-- The digest from the given first state, cut to a number of bytes. -/
def digest (p : SHA2) (start : List Nat) (size : Nat) (message : List Nat) : List Nat :=
  let s := (blocks (2 * p.width) (bigEndian (p.width / 4)) message).foldl p.block start.toArray
  (s.toList.flatMap (bigEndian (p.width / 8))).take size

end SHA2

def sha256 (message : List Nat) : List Nat :=
  sha2Narrow.digest ((primes.take 8).map (rootFraction 2 32)) 32 message

def sha384 (message : List Nat) : List Nat :=
  sha2Wide.digest (((primes.drop 8).take 8).map (rootFraction 2 64)) 48 message

def sha512 (message : List Nat) : List Nat :=
  sha2Wide.digest ((primes.take 8).map (rootFraction 2 64)) 64 message

end SparqlBind.Digest

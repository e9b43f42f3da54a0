/-!
# Inflating

Compressed data as bits, the lowest bit of a byte first. Each block is stored, or coded with fixed or
with given prefix codes; a code is known by the lengths of its words. A reader takes bits from the
front and returns the rest, and the data so far is an array of bytes.
-/

namespace SparqlBind.Inflate

abbrev Bits := List Bool

def byteBits (b : UInt8) : Bits := (List.range 8).map fun i => b.toNat.testBit i

def bitsOf (bytes : List UInt8) : Bits := bytes.flatMap byteBits

/-- A number of the given width, its lowest bit first. -/
def readNumber : Nat → Bits → Option (Nat × Bits)
  | 0, bits => some (0, bits)
  | width + 1, b :: rest => (readNumber width rest).map fun p => (b.toNat + 2 * p.1, p.2)
  | _ + 1, [] => none

/-! ## Prefix codes -/

/-- How many words of each length from 1 on a code has, and the symbols in the order of their words. -/
structure Code where
  counts : List Nat
  symbols : Array Nat

def maxLength : Nat := 15

def Code.ofLengths (lengths : List Nat) : Code :=
  let ofLength (n : Nat) : List Nat :=
    (lengths.zipIdx.filter fun p => p.1 == n).map (·.2)
  let sizes := (List.range maxLength).map (· + 1)
  ⟨sizes.map fun n => lengths.count n, (sizes.flatMap ofLength).toArray⟩

/-- Reads one symbol. `word` holds the bits so far, `first` is the first word of their length, and
`index` the number of all shorter words. -/
def readSymbolFrom (symbols : Array Nat) (word first index : Nat) :
    List Nat → Bits → Option (Nat × Bits)
  | count :: counts, b :: rest =>
    let word := 2 * word + b.toNat
    if word < first + count then (symbols[index + (word - first)]?).map (·, rest)
    else readSymbolFrom symbols word (2 * (first + count)) (index + count) counts rest
  | _, _ => none

def Code.readSymbol (c : Code) (bits : Bits) : Option (Nat × Bits) :=
  readSymbolFrom c.symbols 0 0 0 c.counts bits

def fixedLengths : List Nat :=
  List.replicate 144 8 ++ List.replicate 112 9 ++ List.replicate 24 7 ++ List.replicate 8 8

def fixedCode : Code := .ofLengths fixedLengths

def fixedDistanceCode : Code := .ofLengths (List.replicate 30 5)

/-! ## Repetitions -/

def lengthBases : Array Nat :=
  #[3, 4, 5, 6, 7, 8, 9, 10, 11, 13, 15, 17, 19, 23, 27, 31, 35, 43, 51, 59, 67, 83, 99, 115, 131,
    163, 195, 227, 258]

def lengthBits : Array Nat :=
  #[0, 0, 0, 0, 0, 0, 0, 0, 1, 1, 1, 1, 2, 2, 2, 2, 3, 3, 3, 3, 4, 4, 4, 4, 5, 5, 5, 5, 0]

def distanceBases : Array Nat :=
  #[1, 2, 3, 4, 5, 7, 9, 13, 17, 25, 33, 49, 65, 97, 129, 193, 257, 385, 513, 769, 1025, 1537, 2049,
    3073, 4097, 6145, 8193, 12289, 16385, 24577]

def distanceBits : Array Nat :=
  #[0, 0, 0, 0, 1, 1, 2, 2, 3, 3, 4, 4, 5, 5, 6, 6, 7, 7, 8, 8, 9, 9, 10, 10, 11, 11, 12, 12, 13, 13]

def readExtra (bases widths : Array Nat) (symbol : Nat) (bits : Bits) : Option (Nat × Bits) := do
  let (extra, rest) ← readNumber (← widths[symbol]?) bits
  pure ((← bases[symbol]?) + extra, rest)

/-- Appends bytes from some distance back, one by one, so that they may repeat themselves. -/
def copy (distance : Nat) : Nat → Array UInt8 → Option (Array UInt8)
  | 0, data => some data
  | count + 1, data =>
    if data.size < distance then none
    else do copy distance count (data.push (← data[data.size - distance]?))

/-! ## Blocks -/

def readCoded (literals distances : Code) : Nat → Array UInt8 → Bits → Option (Array UInt8 × Bits)
  | 0, _, _ => none
  | fuel + 1, data, bits => do
    let (symbol, rest) ← literals.readSymbol bits
    if symbol < 256 then readCoded literals distances fuel (data.push (UInt8.ofNat symbol)) rest
    else if symbol = 256 then pure (data, rest)
    else
      let (count, rest) ← readExtra lengthBases lengthBits (symbol - 257) rest
      let (symbol, rest) ← distances.readSymbol rest
      let (distance, rest) ← readExtra distanceBases distanceBits symbol rest
      readCoded literals distances fuel (← copy distance count data) rest

def readBytes : Nat → Array UInt8 → Bits → Option (Array UInt8 × Bits)
  | 0, data, bits => some (data, bits)
  | count + 1, data, bits => do
    let (b, rest) ← readNumber 8 bits
    readBytes count (data.push (UInt8.ofNat b)) rest

/-- A stored block starts at the next byte, with its size and the complement of that. -/
def readStored (data : Array UInt8) (bits : Bits) : Option (Array UInt8 × Bits) := do
  let (size, rest) ← readNumber 16 (bits.drop (bits.length % 8))
  let (complement, rest) ← readNumber 16 rest
  if size + complement ≠ 65535 then none
  readBytes size data rest

def lengthOrder : List Nat :=
  [16, 17, 18, 0, 8, 7, 9, 6, 10, 5, 11, 4, 12, 3, 13, 2, 14, 1, 15]

def readNumbers (width : Nat) : Nat → Bits → Option (List Nat × Bits)
  | 0, bits => some ([], bits)
  | count + 1, bits => do
    let (n, rest) ← readNumber width bits
    let (others, rest) ← readNumbers width count rest
    pure (n :: others, rest)

/-- The lengths of the words of two codes, of which those read so far stand last one first. -/
def readLengths (code : Code) (total : Nat) : Nat → List Nat → Bits → Option (List Nat × Bits)
  | 0, _, _ => none
  | fuel + 1, read, bits =>
    if total ≤ read.length then
      if read.length = total then some (read.reverse, bits) else none
    else do
      let (symbol, rest) ← code.readSymbol bits
      if symbol < 16 then readLengths code total fuel (symbol :: read) rest
      else if symbol = 16 then
        let (extra, rest) ← readNumber 2 rest
        readLengths code total fuel (List.replicate (3 + extra) (← read.head?) ++ read) rest
      else if symbol = 17 then
        let (extra, rest) ← readNumber 3 rest
        readLengths code total fuel (List.replicate (3 + extra) 0 ++ read) rest
      else
        let (extra, rest) ← readNumber 7 rest
        readLengths code total fuel (List.replicate (11 + extra) 0 ++ read) rest

def readCodes (bits : Bits) : Option (Code × Code × Bits) := do
  let (literalCount, rest) ← readNumber 5 bits
  let (distanceCount, rest) ← readNumber 5 rest
  let (orderCount, rest) ← readNumber 4 rest
  let (widths, rest) ← readNumbers 3 (orderCount + 4) rest
  let order := lengthOrder.zip widths
  let lengthCode := Code.ofLengths ((List.range 19).map fun n => (order.lookup n).getD 0)
  let total := literalCount + 257 + (distanceCount + 1)
  let (lengths, rest) ← readLengths lengthCode total (total + 1) [] rest
  pure (.ofLengths (lengths.take (literalCount + 257)),
    .ofLengths (lengths.drop (literalCount + 257)), rest)

def readBlock (data : Array UInt8) (kind : Nat) (bits : Bits) : Option (Array UInt8 × Bits) :=
  match kind with
  | 0 => readStored data bits
  | 1 => readCoded fixedCode fixedDistanceCode (bits.length + 1) data bits
  | 2 => do
    let (literals, distances, rest) ← readCodes bits
    readCoded literals distances (rest.length + 1) data rest
  | _ => none

/-- All blocks up to the one that is marked as the last. -/
def readBlocks : Nat → Array UInt8 → Bits → Option (Array UInt8 × Bits)
  | 0, _, _ => none
  | fuel + 1, data, bits => do
    let (last, rest) ← readNumber 1 bits
    let (kind, rest) ← readNumber 2 rest
    let (data, rest) ← readBlock data kind rest
    if last = 1 then pure (data, rest) else readBlocks fuel data rest

/-- The data of compressed bytes and the number of bytes after it. -/
def inflate? (bytes : List UInt8) : Option (List UInt8 × Nat) := do
  let bits := bitsOf bytes
  let (data, rest) ← readBlocks (bits.length + 1) #[] bits
  pure (data.toList, rest.length / 8)

end SparqlBind.Inflate

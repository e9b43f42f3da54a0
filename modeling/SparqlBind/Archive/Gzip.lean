import SparqlBind.Archive.Inflate

/-!
# Gzip

A file of one or more members, each with a header, compressed data, a checksum and the size of the
data. The writer makes one member of stored blocks.
-/

namespace SparqlBind.Gzip

/-! ## Checksum -/

def crcStep (crc : UInt32) : UInt32 :=
  if crc &&& 1 = 1 then (crc >>> 1) ^^^ 0xEDB88320 else crc >>> 1

def crcByte (crc : UInt32) (b : UInt8) : UInt32 :=
  (List.range 8).foldl (fun crc _ => crcStep crc) (crc ^^^ b.toUInt32)

def crc32 (bytes : List UInt8) : UInt32 := ~~~(bytes.foldl crcByte 0xFFFFFFFF)

/-- A number as so many bytes, the lowest first. -/
def littleEndian (count n : Nat) : List UInt8 :=
  (List.range count).map fun i => UInt8.ofNat (n / Nat.pow 256 i)

/-! ## Reading -/

def dropString? (bytes : List UInt8) : Option (List UInt8) :=
  match bytes.dropWhile (· != 0) with
  | _ :: rest => some rest
  | [] => none

def dropBytes? (count : Nat) (bytes : List UInt8) : Option (List UInt8) :=
  if bytes.length < count then none else some (bytes.drop count)

def dropExtra? : List UInt8 → Option (List UInt8)
  | low :: high :: rest => dropBytes? (low.toNat + 256 * high.toNat) rest
  | _ => none

def dropIf? (condition : Bool) (drop? : List UInt8 → Option (List UInt8)) (bytes : List UInt8) :
    Option (List UInt8) :=
  if condition then drop? bytes else some bytes

/-- What follows a header, whose flags tell its optional parts. -/
def dropHeader? : List UInt8 → Option (List UInt8)
  | 0x1F :: 0x8B :: 8 :: flags :: rest => do
    let flag (i : Nat) : Bool := flags.toNat.testBit i
    let rest ← dropBytes? 6 rest
    let rest ← dropIf? (flag 2) dropExtra? rest
    let rest ← dropIf? (flag 3) dropString? rest
    let rest ← dropIf? (flag 4) dropString? rest
    dropIf? (flag 1) (dropBytes? 2) rest
  | _ => none

def trailer (data : List UInt8) : List UInt8 :=
  littleEndian 4 (crc32 data).toNat ++ littleEndian 4 data.length

/-- One member's data and what follows the member. -/
def readMember? (bytes : List UInt8) : Option (List UInt8 × List UInt8) := do
  let body ← dropHeader? bytes
  let (data, restLength) ← Inflate.inflate? body
  let rest := body.drop (body.length - restLength)
  if rest.take 8 = trailer data then pure (data, rest.drop 8) else none

def readMembers? : Nat → List UInt8 → Option (List UInt8)
  | 0, _ => none
  | fuel + 1, bytes => do
    let (data, rest) ← readMember? bytes
    if rest.isEmpty then pure data else pure (data ++ (← readMembers? fuel rest))

/-- The data of all members, one after the other. -/
def decompress? (bytes : List UInt8) : Option (List UInt8) := readMembers? (bytes.length + 1) bytes

/-! ## Writing -/

def header : List UInt8 := [0x1F, 0x8B, 8, 0, 0, 0, 0, 0, 0, 255]

def storedBlock (last : Bool) (data : List UInt8) : List UInt8 :=
  (if last then 1 else 0) :: littleEndian 2 data.length ++ littleEndian 2 (65535 - data.length) ++ data

/-- Blocks of at most 65535 bytes; the first argument bounds their number. -/
def storedBlocks : Nat → List UInt8 → List UInt8
  | 0, data => storedBlock true data
  | fuel + 1, data =>
    if data.length ≤ 65535 then storedBlock true data
    else storedBlock false (data.take 65535) ++ storedBlocks fuel (data.drop 65535)

def store (data : List UInt8) : List UInt8 :=
  header ++ storedBlocks data.length data ++ trailer data

end SparqlBind.Gzip

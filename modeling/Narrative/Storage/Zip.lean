import Narrative.Storage.Inflate
import Narrative.Storage.Tree

/-! Archives as bytes. At the end of an archive stands where the list of its entries is; each of
them says where its data is, how the data is packed, and the check sum of what it unpacks to. The
list alone decides whether an archive can be opened: a fault in the data of an entry is found when
it is read. Of data that is stored as it is all has been read by then; of deflated data that cannot
be inflated nothing is kept here, and nothing proved depends on how much it is. Archives of more
than four gigabytes, and those with a name that is marked as UTF-8 and is not, are not read. -/

namespace Narrative

namespace Zip

def number (data : ByteArray) (n pos : Nat) : Nat :=
  (List.range n).foldr (fun i rest => (data[pos + i]?.map UInt8.toNat).getD 0 + 256 * rest) 0

def isMark (data : ByteArray) (a b : Nat) (pos : Nat) : Bool :=
  number data 4 pos = 0x50 + 256 * (0x4b + 256 * (a + 256 * b))

/-- The last position below a bound at which the record of the end stands. -/
def endBefore? (data : ByteArray) : Nat → Option Nat
  | 0 => none
  | pos + 1 => if isMark data 5 6 pos && pos + 22 ≤ data.size then some pos else endBefore? data pos

def checkBit (r : UInt32) : UInt32 :=
  if r % 2 = 1 then (r >>> 1) ^^^ 0xedb88320 else r >>> 1

/-- The check sum of bytes: their remainder by a fixed polynomial over the bits. -/
def checkSum (data : ByteArray) : UInt32 :=
  ~~~ data.foldl (fun r b => Nat.repeat checkBit 8 (r ^^^ b.toUInt32)) 0xffffffff

/-- The characters from 128 on of names that are not UTF-8. -/
def upperCharacters : String :=
  "ÇüéâäàåçêëèïîìÄÅÉæÆôöòûùÿÖÜ¢£¥₧ƒáíóúñÑªº¿⌐¬½¼¡«»" ++
    "░▒▓│┤╡╢╖╕╣║╗╝╜╛┐└┴┬├─┼╞╟╚╔╩╦╠═╬╧╨╤╥╙╘╒╓╫╪┘┌█▄▌▐▀" ++
    "αßΓπΣσµτΦΘΩδ∞φε∩≡±≥≤⌠⌡÷≈°∙·√ⁿ²■\u00a0"

def plainName (data : ByteArray) : String :=
  let upper := upperCharacters.toList.toArray
  String.ofList (data.toList.map fun b =>
    if b < 128 then Char.ofNat b.toNat else upper.getD (b.toNat - 128) '?')

def plainContent (data : ByteArray) : Content :=
  match String.fromUTF8? data with
  | some s => .text s
  | none => .binary data.toList

/-- What an entry is unpacked to: all of it only if its check sum is right. -/
def checked (check : Nat) (data : ByteArray) : Packed :=
  if (checkSum data).toNat = check then .whole (plainContent data) else .cut (plainContent data)

/-- An entry from its bytes. Data is stored as it is or deflated, other methods are not known. -/
def unpack (method check : Nat) (packed : ByteArray) : Packed :=
  match method with
  | 0 => checked check packed
  | 8 =>
    match inflate? packed with
    | some data => checked check data
    | none => .cut (.text "")
  | _ => .shut

/-- The entry of which the record in the list is at `pos`. One that is encrypted is not opened. -/
def packedAt (data : ByteArray) (start pos : Nat) : Packed :=
  let here := start + number data 4 (pos + 42)
  if !isMark data 3 4 here || number data 2 (pos + 8) % 2 = 1 then .shut
  else
    let first := here + 30 + number data 2 (here + 26) + number data 2 (here + 28)
    unpack (number data 2 (pos + 10)) (number data 4 (pos + 16))
      (data.extract first (first + number data 4 (pos + 20)))

/-- The entries that the list at `pos` has, `n` of them; positions in the archive count from
`start`. -/
def entriesAt? (data : ByteArray) (start pos : Nat) : Nat → Option (List (String × Packed))
  | 0 => some []
  | n + 1 => do
    if !isMark data 1 2 pos then none
    let nameSize := number data 2 (pos + 28)
    let name := data.extract (pos + 46) (pos + 46 + nameSize)
    let isMarked := number data 2 (pos + 8) / 2048 % 2 = 1
    let name ← if isMarked then String.fromUTF8? name else some (plainName name)
    let next := pos + 46 + nameSize + number data 2 (pos + 30) + number data 2 (pos + 32)
    return (name, packedAt data start pos) :: (← entriesAt? data start next n)

def add (es : List (String × Packed)) (e : String × Packed) : List (String × Packed) :=
  if es.any (·.1 = e.1) then es.map fun old => if old.1 = e.1 then e else old else es ++ [e]

/-- The entries of an archive. Of two with one name the later counts. -/
def entries? (data : ByteArray) : Option (List (String × Packed)) := do
  let pos ← endBefore? data data.size
  let size := number data 4 (pos + 12)
  let offset := number data 4 (pos + 16)
  if pos < size + offset then none
  let start := pos - size - offset
  let es ← entriesAt? data start (pos - size) (number data 2 (pos + 10))
  return es.foldl add []

end Zip

namespace Content

def ofBytes (data : ByteArray) : Content :=
  match Zip.entries? data with
  | some es => .archive es
  | none => Zip.plainContent data

def bytes? : Content → Option ByteArray
  | text s => some s.toUTF8
  | binary bytes => some ⟨bytes.toArray⟩
  | archive _ => none

end Content

end Narrative

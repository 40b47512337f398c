import Tycho.Collections.HashMap

/-! Identifiers, blocks, transactions and errors shared by every crate of the indexer. -/
namespace Tycho
open String

/-- A byte string, as `tycho_common::Bytes`. -/
structure Bytes where
  data : List UInt8
deriving DecidableEq, Repr

namespace Bytes

def new : Bytes := ⟨[]⟩

instance : Inhabited Bytes := ⟨new⟩

def hexDigit (n : UInt8) : Char :=
  if n < 10 then Char.ofNat (48 + n.toNat) else Char.ofNat (87 + n.toNat)

def bytesToHex (b : Bytes) : String :=
  ofList (b.data.flatMap fun x => [hexDigit (x / 16), hexDigit (x % 16)])

/-- The `Display` and the `LowerHex` text. -/
def toString (b : Bytes) : String := "0x" ++ b.bytesToHex

def debug (b : Bytes) : String := "Bytes(0x" ++ b.bytesToHex ++ ")"

def hexValue (c : UInt8) : Option UInt8 :=
  if 48 ≤ c ∧ c ≤ 57 then some (c - 48)
  else if 65 ≤ c ∧ c ≤ 70 then some (c - 55)
  else if 97 ≤ c ∧ c ≤ 102 then some (c - 87)
  else none

inductive FromHexError where
  | invalidHexCharacter (c : UInt8) (index : Nat)
  | oddLength
deriving DecidableEq, Repr

/-- The `Debug` text of a byte taken as a character. -/
def debugChar (c : UInt8) : String :=
  let n := c.toNat
  let text :=
    if n = 0 then "\\0"
    else if n = 9 then "\\t"
    else if n = 10 then "\\n"
    else if n = 13 then "\\r"
    else if n = 39 then "\\'"
    else if n = 92 then "\\\\"
    else if n < 32 ∨ 127 ≤ n ∧ n ≤ 160 ∨ n = 173 then
      "\\u\x7b" ++ ofList (Nat.toDigits 16 n) ++ "\x7d"
    else singleton (Char.ofNat n)
  "'" ++ text ++ "'"

def FromHexError.toString : FromHexError → String
  | .invalidHexCharacter c index =>
    "Invalid character " ++ debugChar c ++ " at position " ++ index.repr
  | .oddLength => "Odd number of digits"

def hexDigitAt (c : UInt8) (index : Nat) : Except FromHexError UInt8 :=
  match hexValue c with
  | some v => .ok v
  | none => .error (.invalidHexCharacter c index)

/-- Decode pairs of digits; `index` is the position of the first one. -/
def hexDecodeFrom (index : Nat) : List UInt8 → Except FromHexError (List UInt8)
  | hi :: lo :: rest => do
    let h ← hexDigitAt hi index
    let l ← hexDigitAt lo (index + 1)
    let rest ← hexDecodeFrom (index + 2) rest
    return (h * 16 + l) :: rest
  | _ => .ok []

def hexDecode (text : List UInt8) : Except FromHexError (List UInt8) :=
  if text.length % 2 ≠ 0 then .error .oddLength else hexDecodeFrom 0 text

/-- `Bytes::from_str`, with the text of its errors. -/
def fromStr (value : String) : Except String Bytes :=
  let text := value.toList.flatMap utf8EncodeChar
  let decoded := hexDecode (match text with
    | 48 :: 120 :: text => text
    | text => text)
  (decoded.map mk).mapError fun e =>
    "Failed to parse bytes: Invalid hex: " ++ e.toString

end Bytes

abbrev Address := Bytes
abbrev BlockHash := Bytes
abbrev TxHash := Bytes
abbrev Code := Bytes
abbrev CodeHash := Bytes
abbrev Balance := Bytes
abbrev StoreKey := Bytes
abbrev StoreVal := Bytes
abbrev AttrStoreKey := String
abbrev ComponentId := String
abbrev EntryPointId := String

/-- Microseconds since the Unix epoch. -/
abbrev NaiveDateTime := Int

namespace NaiveDateTime

def pad (width : Nat) (n : Int) : String :=
  let digits := toString n.natAbs
  ofList (List.replicate (width - digits.length) '0') ++ digits

/-- Year, month and day of a number of days since the epoch, in the proleptic Gregorian
calendar. -/
def civil (days : Int) : Int × Int × Int :=
  let z := days + 719468
  let era := z.fdiv 146097
  let doe := z - era * 146097
  let yoe := (doe - doe / 1460 + doe / 36524 - doe / 146096) / 365
  let doy := doe - (365 * yoe + yoe / 4 - yoe / 100)
  let mp := (5 * doy + 2) / 153
  let month := if mp < 10 then mp + 3 else mp - 9
  (yoe + era * 400 + if month ≤ 2 then 1 else 0, month, doy - (153 * mp + 2) / 5 + 1)

/-- Years outside 0 to 9999 carry a sign. -/
def debugYear (year : Int) : String :=
  if year < 0 then "-" ++ pad 4 year
  else if year ≤ 9999 then pad 4 year
  else "+" ++ pad 4 year

/-- The fraction of a second, in as many groups of three digits as it needs. -/
def debugFraction (micros : Int) : String :=
  if micros = 0 then ""
  else if micros % 1000 = 0 then "." ++ pad 3 (micros / 1000)
  else "." ++ pad 6 micros

def debug (ts : NaiveDateTime) : String :=
  let secs := ts.fdiv 1000000
  let days := secs.fdiv 86400
  let time := secs - days * 86400
  let (year, month, day) := civil days
  debugYear year ++ "-" ++ pad 2 month ++ "-" ++ pad 2 day ++ "T" ++ pad 2 (time / 3600) ++ ":" ++
    pad 2 (time / 60 % 60) ++ ":" ++ pad 2 (time % 60) ++ debugFraction (ts - secs * 1000000)

end NaiveDateTime

/-- A double, known by its bit pattern. -/
structure F64 where
  bits : UInt64
deriving DecidableEq, Repr

def F64.zero : F64 := ⟨0⟩

inductive Chain where
  | ethereum | starknet | zkSync | arbitrum | base | bsc | unichain | polygon | plasma | robinhood
  | custom (name : String)
deriving DecidableEq, Repr

instance : Inhabited Chain := ⟨.ethereum⟩

def Chain.debug : Chain → String
  | .ethereum => "Ethereum"
  | .starknet => "Starknet"
  | .zkSync => "ZkSync"
  | .arbitrum => "Arbitrum"
  | .base => "Base"
  | .bsc => "Bsc"
  | .unichain => "Unichain"
  | .polygon => "Polygon"
  | .plasma => "Plasma"
  | .robinhood => "Robinhood"
  | .custom name => "Custom(CustomChainId(" ++ name.quote ++ "))"

inductive ChangeType where
  | update | deletion | creation
deriving DecidableEq, Repr

instance : Inhabited ChangeType := ⟨.update⟩

inductive MergeError where
  | idMismatch (what expected got : String)
  | blockMismatch (what : String) (expected got : BlockHash)
  | sameTransaction (what : String) (tx : TxHash)
  | transactionOrderError (what : String) (index other : Nat)
  | invalidState (reason : String)
deriving DecidableEq, Repr

def MergeError.toString : MergeError → String
  | .idMismatch what expected got => "Can't merge " ++ what ++
    " from differring idendities: Expected " ++ expected ++ ", got " ++ got
  | .blockMismatch what expected got => "Can't merge " ++ what ++ " from different blocks: 0x" ++
    expected.toString ++ " != 0x" ++ got.toString
  | .sameTransaction what tx =>
    "Can't merge " ++ what ++ " from the same transaction: 0x" ++ tx.toString
  | .transactionOrderError what index other => "Can't merge " ++ what ++
    " with lower transaction index: " ++ index.repr ++ " > " ++ other.repr
  | .invalidState reason => "Cannot merge: " ++ reason

inductive StorageError where
  | notFound (entity id : String)
  | duplicateEntry (entity id : String)
  | noRelatedEntity (entity id relation : String)
  | decodeError (reason : String)
  | unexpected (reason : String)
  | unsupported (reason : String)
  | writeCacheGoneAway
  | invalidBlockRange
deriving DecidableEq, Repr

def StorageError.toString : StorageError → String
  | .notFound entity id => "Could not find " ++ entity ++ " with id `" ++ id ++ "`!"
  | .duplicateEntry entity id =>
    "The entity " ++ entity ++ " with id " ++ id ++ " was already present!"
  | .noRelatedEntity entity id relation =>
    "Could not find related " ++ entity ++ " for " ++ id ++ " with id `" ++ relation ++ "`!"
  | .decodeError reason => "DecodeError: " ++ reason
  | .unexpected reason => "Unexpected storage error: " ++ reason
  | .unsupported reason => "Currently unsupported operation: " ++ reason
  | .writeCacheGoneAway => "Write cache unexpectedly dropped notification channel!"
  | .invalidBlockRange => "Invalid block range encountered"

structure Block where
  number : Nat
  chain : Chain
  hash : BlockHash
  parentHash : BlockHash
  ts : NaiveDateTime
deriving DecidableEq, Repr

instance : Inhabited Block := ⟨⟨0, default, .new, .new, 0⟩⟩

structure Transaction where
  hash : TxHash
  blockHash : BlockHash
  fromAddr : Address
  toAddr : Option Address
  index : Nat
deriving DecidableEq, Repr

instance : Inhabited Transaction := ⟨⟨.new, .new, .new, none, 0⟩⟩

structure Token where
  address : Address
  symbol : String
  decimals : Nat
  tax : Nat
  gas : List (Option Nat)
  chain : Chain
  quality : Nat
deriving DecidableEq, Repr

end Tycho

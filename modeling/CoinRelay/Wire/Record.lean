import CoinRelay.Cbor.Skip
import CoinRelay.ProtocolError
import CoinRelay.Tier

/-!
# Records as maps

A record is a map from the names of its fields to scalars. Writing gives the fields in their declared order with
definite, shortest heads. Reading takes them in any order, skips the values of keys that name no field, and refuses a
field that is there twice or not at all.

- `Record`: the fields of a type, and its values as lists of scalars;
- `Record.write`, `Record.read`: the map of a record, and back;
- `writeList`, `readList`: lists of records.
-/

namespace CoinRelay.Wire

open Cbor

/-! ## Scalars -/

/-- What a field holds: a text, a number of some bits, or the code of a tier. -/
inductive FieldKind
  | text
  | number (bits : Nat)
  | tier
  deriving DecidableEq, Repr

/-- A value of a field. -/
inductive Scalar
  | text (s : String)
  | number (n : Nat)
  | tier (t : Tier)
  deriving DecidableEq, Repr

/-- The item of a scalar. -/
def Scalar.write : Scalar → Octets
  | text s => writeText s
  | number n => writeNatural n
  | tier t => writeNatural t.code.toNat

/-- A number of at most `bits` bits. -/
def readNumber (bits : Nat) : Reader Nat := fun s =>
  match readNatural s with
  | .error e => .error e
  | .ok (n, r) => if n < 1 <<< bits then .ok (n, r) else .error .malformed

/-- The tier whose code comes next. -/
def readTier : Reader Tier := fun s =>
  match readNumber 8 s with
  | .error e => .error e
  | .ok (n, r) =>
    let code := UInt8.ofNat n
    match Tier.ofCode? code with
    | some t => .ok (t, r)
    | none => .error (.refused (ProtocolError.invalidTier code).message)

/-- Reads a value for a field of the kind. -/
def FieldKind.read : FieldKind → Reader Scalar
  | text => Reader.map .text readText
  | number bits => Reader.map .number (readNumber bits)
  | tier => Reader.map .tier readTier

/-! ## Records -/

/-- A field of a record. -/
structure Field where
  name : String
  kind : FieldKind
  deriving DecidableEq, Repr

/-- A type whose values are maps with the same fields. -/
class Record (α : Type) where
  fields : List Field
  toScalars : α → List Scalar
  ofScalars? : List Scalar → Option α

namespace Record

/-- The key and the value of a field. -/
def writeEntry (field : Field) (value : Scalar) : Octets :=
  writeText field.name ++ value.write

/-- The map of a record. -/
def write {α : Type} [Record α] (a : α) : Octets :=
  Head.write 5 (fields α).length ++ (List.zipWith writeEntry (fields α) (toScalars a)).flatten

/-- The values read so far, each under the name of its field. -/
abbrev Found := List (String × Scalar)

/-- The field whose name the octets of a key spell. -/
def field? (fields : List Field) (key : Octets) : Option Field :=
  fields.find? fun f => Octets.ofText f.name == key

/-- Reads a key and its value. -/
def readEntry (fields : List Field) (skip : Reader Unit) (found : Found) : Reader Found :=
  readKey.andThen fun key =>
    match field? fields key with
    | none => skip.map fun _ => found
    | some f =>
      match found.lookup f.name with
      | some _ => fun _ => .error .malformed
      | none => f.kind.read.map fun value => (f.name, value) :: found

/-- The values found in the order of the fields, if none is missing. -/
def inOrder? (fields : List Field) (found : Found) : Option (List Scalar) :=
  fields.mapM fun f => found.lookup f.name

/-- Reads a record that may nest `depth` levels, its own map among them. -/
def read {α : Type} [Record α] (depth : Nat) : Reader α := fun s =>
  match Head.untagged s with
  | .error e => .error e
  | .ok (.map length, r) =>
    match depth with
    | 0 => .error .malformed
    | depth + 1 =>
      match foldItems (readEntry (fields α) (skipper depth)) length [] r with
      | .error e => .error e
      | .ok (found, q) =>
        match (inOrder? (fields α) found).bind ofScalars? with
        | none => .error .malformed
        | some a => .ok (a, q)
  | .ok _ => .error .malformed

end Record

/-! ## Lists of records -/

/-- The list of records. -/
def writeList {α : Type} [Record α] (as : List α) : Octets :=
  Head.write 4 as.length ++ as.flatMap Record.write

/-- Reads a list of records that may nest `depth` levels. An octet string counts as a list of numbers, so that an empty
one is an empty list and any other is none of records. -/
def readList {α : Type} [Record α] (depth : Nat) : Reader (List α) := fun s =>
  match Head.untagged s with
  | .error e => .error e
  | .ok (.list length, r) =>
    match depth with
    | 0 => .error .malformed
    | depth + 1 =>
      match foldItems (fun as => (Record.read depth).map (· :: as)) length [] r with
      | .error e => .error e
      | .ok (as, q) => .ok (as.reverse, q)
  | .ok (.octets length, r) =>
    match chunks .octets length r with
    | .error e => .error e
    | .ok (cs, q) => if cs.flatten.isEmpty then .ok ([], q) else .error .malformed
  | .ok _ => .error .malformed

end CoinRelay.Wire

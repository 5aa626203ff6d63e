import CoinRelay.Cbor.Scalar

/-!
# Reading past an item

An item whose value is not wanted must still be well-formed: texts are UTF-8, simple values are among the four known
ones, and items nest to a limited depth. Lists, maps and tags cost one level each while inside them, but a tag in front
of a short enough octet string is a big number and costs none.

- `skipper depth` reads past one item that may nest `depth` levels deep.
-/

namespace CoinRelay.Cbor

/-- The levels of lists, maps and tags in a body. -/
def nestingLimit : Nat := 256

/-- The simple values that may be skipped: false, true, null and undefined. -/
def isKnownSimple (n : Nat) : Bool := 20 ≤ n && n ≤ 23

/-- Whether the next item is a whole octet string that is short enough for a big number. -/
def bigOctetsNext (s : Octets) : Bool :=
  match Head.read s with
  | .ok (.octets (some n), _) => n ≤ maxBigOctets
  | _ => false

/-- Reads past the octet string of a big number. A negative one must fit 128 bits with its sign. -/
def skipBig (tag : Nat) : Reader Unit := fun s =>
  match readBigOctets s with
  | .error e => .error e
  | .ok (n, q) => if tag = bigNegative && 1 <<< 127 ≤ n then .error .malformed else .ok ((), q)

/-- Reads past an item, given how to read past those nested in it; `none` when it may not nest any. -/
def skipWith (inner : Option (Reader Unit)) : Reader Unit := fun s =>
  match Head.read s with
  | .error e => .error e
  | .ok (head, r) =>
    match head, inner with
    | .natural _, _ | .negative _, _ | .float, _ => .ok ((), r)
    | .simple n, _ => if isKnownSimple n then .ok ((), r) else .error .malformed
    | .octets length, _ =>
      match chunks .octets length r with
      | .error e => .error e
      | .ok (_, q) => .ok ((), q)
    | .text length, _ =>
      match textAfter length r with
      | .error e => .error e
      | .ok (_, q) => .ok ((), q)
    | .list length, some item => foldItems (fun _ => item) length () r
    | .map length, some item => foldItems (fun _ => item.andThen fun _ => item) length () r
    | .tag n, inner =>
      if (n = bigNatural || n = bigNegative) && bigOctetsNext r.1 then
        match skipBig n r.1 with
        | .error e => .error e
        | .ok (_, q) => .ok ((), r.trans q)
      else
        match inner with
        | none => .error .malformed
        | some item =>
          match item r.1 with
          | .error e => .error e
          | .ok (_, q) => .ok ((), r.trans q)
    | _, _ => .error .malformed

/-- Reads past an item that nests at most `depth` levels. -/
def skipper : (depth : Nat) → Reader Unit
  | 0 => skipWith none
  | depth + 1 => skipWith (some (skipper depth))

end CoinRelay.Cbor

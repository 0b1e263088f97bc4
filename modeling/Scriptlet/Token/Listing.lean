import Scriptlet.Json.Printer
import Scriptlet.Token.Cursor

/-!
# Listing tokens

Tokens as JSON. A token is an object with its class, its characters and where it
starts; the class of a literal comes with the value. Floating numbers are written with
the fewest digits and always with a fraction, unless they need an exponent, which then
has a sign.
-/

namespace Scriptlet

open Binary

/-- The name of a kind of numbers in listings. -/
def NumericKind.listingName : NumericKind → String
  | .integral .byte => "Byte"
  | .integral .short => "Short"
  | .integral .ushort => "UShort"
  | .integral .int => "Int"
  | .integral .uint => "UInt"
  | .integral .long => "Long"
  | .integral .ulong => "ULong"
  | .floating .float => "Float"
  | .floating .double => "Double"
  | .floating .decimal => "Decimal"

/-- The layout of 64-bit numbers in listings: an exponent from `10 ^ 16` on and below
    `10 ^ (-5)`. -/
def Listing.double : Layout where
  leastPlace := -4
  greatestPlace := 16
  leastPlaces := 1
  plus := true
  tie := .even

/-- The layout of 32-bit numbers in listings: an exponent from `10 ^ 13` on and below
    `10 ^ (-6)`. -/
def Listing.single : Layout := { Listing.double with leastPlace := -5, greatestPlace := 13 }

/-- A number in listings. What is not finite has no number in JSON. -/
def Number.listing : Number → JsonValue
  | .float x => finite x.isFinite (singleText Listing.single x)
  | .double x | .decimal x => finite x.isFinite (doubleText Listing.double x)
  | n => .number n.text.toList
where
  /-- A text, if it is that of a finite number. -/
  finite (b : Bool) (text : List Char) : JsonValue := if b then .number text else .null

/-- A class of tokens in listings. -/
def TokenKind.listing (k : TokenKind) : JsonValue :=
  let withValue (v : JsonValue) : JsonValue := .record [(k.name, v)]
  match k with
  | number n => withValue (.record [(n.kind.listingName, n.listing)])
  | string s => withValue (.ofText s)
  | char c => withValue (.ofText c.toString)
  | _ => .ofText k.name

/-- A token in listings. -/
def Token.listing (t : Token) : JsonValue :=
  .record [("token_type", t.kind.listing), ("lexeme", .ofText t.word),
    ("start", .number (Nat.toDigits 10 t.start))]

/-- The tokens of a source without its end, or the error that is met first. -/
def Token.allOf (source : String) : Except Error (List Token) :=
  (tokenize (.ofSource source.toList 0) true).foldr
    (fun t rest => do
      let t ← t
      let ts ← rest
      pure (if t.isEof then [] else t :: ts)) (.ok [])

end Scriptlet

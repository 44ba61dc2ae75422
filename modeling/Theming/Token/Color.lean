import Theming.Decimal.Fixed
import Theming.Decimal.Reading
import Theming.Text.Blank
import Theming.Text.Search

set_option autoImplicit false

/-! # Colors

A color has three 8-bit channels and an opacity. `read?` accepts hexadecimal colors, `rgb`, `rgba`,
`hsl` and `hsla` calls and a few names; `css` writes an opaque color in hexadecimal digits and any
other as an `rgba` call. -/

namespace Theming

/-- An sRGB color with opacity. -/
structure Color where
  red : UInt8
  green : UInt8
  blue : UInt8
  alpha : Float
deriving Repr, DecidableEq, Inhabited

namespace Color

/-- An opaque color. -/
def opaqueColor (red green blue : UInt8) : Color := ⟨red, green, blue, 1.0⟩

/-- Opaque white. -/
def white : Color := opaqueColor 255 255 255

/-- Opaque black. -/
def black : Color := opaqueColor 0 0 0

/-- The colors that have a name. -/
def named : List (String × Color) := [
  ("black", black), ("white", white), ("red", opaqueColor 255 0 0),
  ("green", opaqueColor 0 128 0), ("lime", opaqueColor 0 255 0), ("blue", opaqueColor 0 0 255),
  ("yellow", opaqueColor 255 255 0), ("cyan", opaqueColor 0 255 255),
  ("magenta", opaqueColor 255 0 255), ("gray", opaqueColor 128 128 128),
  ("grey", opaqueColor 128 128 128), ("silver", opaqueColor 192 192 192),
  ("orange", opaqueColor 255 165 0), ("purple", opaqueColor 128 0 128),
  ("navy", opaqueColor 0 0 128), ("transparent", ⟨0, 0, 0, 0.0⟩)]

/-- Equality with the opacities compared as numbers. -/
def same (a b : Color) : Bool :=
  a.red == b.red && a.green == b.green && a.blue == b.blue && a.alpha == b.alpha

/-! ## Channels -/

/-- The nearest integer, halves away from zero, as a channel. -/
def toChannel (x : Float) : UInt8 := x.round.toUInt8

/-- A channel from a number between 0 and 255. -/
def channel? (x : Float) : Option UInt8 :=
  if Decimal.within 0.0 255.0 x then some (toChannel x) else none

/-- A color from channels between 0 and 255 and an opacity between 0 and 1. -/
def ofChannels? (r g b a : Float) : Option Color :=
  if Decimal.within 0.0 1.0 a then do
    return ⟨← channel? r, ← channel? g, ← channel? b, a⟩
  else none

/-- The channels of a hue in one of the six sectors of the color circle. -/
def sector (index : UInt32) (c x : Float) : Float × Float × Float :=
  if index = 0 then (c, x, 0.0)
  else if index = 1 then (x, c, 0.0)
  else if index = 2 then (0.0, c, x)
  else if index = 3 then (0.0, x, c)
  else if index = 4 then (x, 0.0, c)
  else (c, 0.0, x)

/-- A color from hue in degrees, saturation and lightness between 0 and 1, and an opacity. -/
def ofHsl (h s l a : Float) : Color :=
  let s := Decimal.clamp 0.0 1.0 s
  let l := Decimal.clamp 0.0 1.0 l
  let c := (1.0 - (2.0 * l - 1.0).abs) * s
  let position := Decimal.wrap h 360 / 60.0
  let x := c * (1.0 - (Decimal.remainder position 2 - 1.0).abs)
  let (r, g, b) := sector position.toUInt32 c x
  let m := l - c / 2.0
  let level (v : Float) : UInt8 :=
    (Decimal.clamp 0.0 255.0 ((v + m) * 255.0).round).toUInt8
  ⟨level r, level g, level b, a⟩

/-! ## Reading -/

/-- The value of a hexadecimal digit. -/
def hexDigit? (c : Char) : Option Nat :=
  if c.isDigit then some (c.toNat - '0'.toNat)
  else if 'a' ≤ c ∧ c ≤ 'f' then some (c.toNat - 'a'.toNat + 10)
  else if 'A' ≤ c ∧ c ≤ 'F' then some (c.toNat - 'A'.toNat + 10)
  else none

/-- A channel from two hexadecimal digits. -/
def pair (high low : Nat) : UInt8 := UInt8.ofNat (16 * high + low)

/-- A color from three, six or eight hexadecimal digits; the last two of eight give the opacity. -/
def ofHex? (chars : List Char) : Option Color := do
  match ← chars.mapM hexDigit? with
  | [r, g, b] => return opaqueColor (pair r r) (pair g g) (pair b b)
  | [r, r', g, g', b, b'] => return opaqueColor (pair r r') (pair g g') (pair b b')
  | [r, r', g, g', b, b', a, a'] =>
    return ⟨pair r r', pair g g', pair b b', Float.ofNat (16 * a + a') / 255.0⟩
  | _ => none

/-- A number in a call: blanks around it and percent signs after it are set aside. -/
def argument? (chars : List Char) : Option Float :=
  Decimal.readFloat? ((Text.trim chars).reverse.dropWhile (· = '%')).reverse

/-- A color from the name of a call and its numbers. -/
def ofCall? (name : String) (numbers : List Float) : Option Color :=
  match name, numbers with
  | "rgb", [r, g, b] => ofChannels? r g b 1.0
  | "rgba", [r, g, b, a] => ofChannels? r g b a
  | "hsl", [h, s, l] => some (ofHsl h (s / 100.0) (l / 100.0) 1.0)
  | "hsla", [h, s, l, a] => some (ofHsl h (s / 100.0) (l / 100.0) (Decimal.clamp 0.0 1.0 a))
  | _, _ => none

/-- Splits a call into its name and the text between its outer parentheses. -/
def splitCall? (chars : List Char) : Option (List Char × List Char) := do
  let (name, rest) ← Text.cutAt? ['('] chars
  let inner ← Text.dropSuffix? [')'] rest
  return (Text.trim name, inner)

/-- The color that a text spells, if any. -/
def read? (text : String) : Option Color :=
  match Text.trim text.toList with
  | '#' :: hex => ofHex? hex
  | chars =>
    let chars := chars.map Char.toLower
    match splitCall? chars with
    | some (name, inner) => do
      let numbers ← (Text.pieces (· == ',') inner).mapM argument?
      ofCall? (String.ofList name) numbers
    | none => (named.find? (fun entry => entry.1 = String.ofList chars)).map (·.2)

/-- Whether a text spells a color. -/
def isColor (text : String) : Bool := (read? text).isSome

/-! ## Writing -/

/-- A channel as two hexadecimal digits. -/
def hexPair (c : UInt8) : List Char := [Nat.digitChar (c.toNat / 16), Nat.digitChar (c.toNat % 16)]

/-- Three channels and an opacity as a call. -/
def rgbaText (r g b : UInt8) (a : Float) : String :=
  "rgba(" ++ ", ".intercalate [toString r.toNat, toString g.toNat, toString b.toNat,
    Decimal.text a] ++ ")"

/-- The text of a color in a stylesheet. -/
def css (c : Color) : String :=
  if 1.0 ≤ c.alpha then
    String.ofList ('#' :: (hexPair c.red ++ hexPair c.green ++ hexPair c.blue))
  else rgbaText c.red c.green c.blue c.alpha

/-! ## Changing colors -/

/-- A channel on the way from one to another. -/
def blend (a b : UInt8) (weight : Float) : UInt8 :=
  let x := Float.ofNat a.toNat
  let y := Float.ofNat b.toNat
  (Decimal.clamp 0.0 255.0 (x + (y - x) * weight).round).toUInt8

/-- The color at `weight` on the way from `a` to `b`, channel by channel. -/
def mix (a b : Color) (weight : Float) : Color :=
  let w := Decimal.clamp 0.0 1.0 weight
  ⟨blend a.red b.red w, blend a.green b.green w, blend a.blue b.blue w,
    a.alpha + (b.alpha - a.alpha) * w⟩

/-- Moves a color towards white and keeps its opacity. -/
def lighten (c : Color) (amount : Float) : Color :=
  { c.mix white amount with alpha := c.alpha }

/-- Moves a color towards black and keeps its opacity. -/
def darken (c : Color) (amount : Float) : Color :=
  { c.mix black amount with alpha := c.alpha }

/-- The complement of every channel. -/
def invert (c : Color) : Color := ⟨255 - c.red, 255 - c.green, 255 - c.blue, c.alpha⟩

/-! ## Contrast -/

/-- The linear light of a channel. -/
def linear (channel : UInt8) : Float :=
  let c := Float.ofNat channel.toNat / 255.0
  if c ≤ 0.04045 then c / 12.92 else ((c + 0.055) / 1.055).pow 2.4

/-- The relative luminance, between 0 and 1. -/
def luminance (c : Color) : Float :=
  0.2126 * linear c.red + 0.7152 * linear c.green + 0.0722 * linear c.blue

/-- The luminance above which black text stands out better than white. -/
def contrastThreshold : Float := 0.179

/-- Black or white, whichever stands out better against the color. -/
def contrast (c : Color) : Color := if contrastThreshold < c.luminance then black else white

end Color

end Theming

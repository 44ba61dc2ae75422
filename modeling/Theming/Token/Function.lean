import Theming.Token.Color
import Theming.Token.Value

set_option autoImplicit false

/-! # Value functions

Functions that expressions may call: color changes, color constructors and arithmetic. A function
takes evaluated arguments and gives no value when it cannot work with them. -/

namespace Theming

/-- A function on values that may give none. -/
abbrev ValueFunction := List Value → Option Value

/-- The functions that expressions may call, by name. -/
abbrev Functions := Table ValueFunction

namespace ValueFunction

/-! ## Arguments -/

/-- The color that an argument spells. -/
def colorAt? (args : List Value) (i : Nat) : Option Color :=
  args[i]?.bind (fun v => Color.read? v.display)

/-- The finite number that an argument stands for. -/
def numberAt? (args : List Value) (i : Nat) : Option Float :=
  (args[i]?.bind Value.toFloat?).filter Decimal.isFinite

/-- An argument as text. -/
def textAt (args : List Value) (i : Nat) : Value := .str ((args[i]?.map Value.display).getD "")

/-- A number between 0 and 1. -/
def clampUnit (x : Float) : Float := Decimal.clamp 0.0 1.0 x

/-! ## Colors -/

/-- Changes a color by an amount; the amount zero leaves the spelling alone. -/
def shift (change : Color → Float → Color) : ValueFunction := fun args => do
  let color ← colorAt? args 0
  let amount := clampUnit (← numberAt? args 1)
  if amount == 0.0 then return textAt args 0
  else return .str (change color amount).css

/-- Mixes two colors, by equal parts unless a weight is given. -/
def mix : ValueFunction := fun args => do
  let a ← colorAt? args 0
  let b ← colorAt? args 1
  let weight ←
    match args[2]? with
    | some _ => (numberAt? args 2).map clampUnit
    | none => some 0.5
  if weight == 0.0 || a.same b then return textAt args 0
  else if weight == 1.0 then return textAt args 1
  else return .str (a.mix b weight).css

/-- Black or white, whichever stands out better. -/
def contrast : ValueFunction := fun args => do
  return .str (← colorAt? args 0).contrast.css

/-- The complement of a color. -/
def invert : ValueFunction := fun args => do
  return .str (← colorAt? args 0).invert.css

/-- A color with another opacity. -/
def alpha : ValueFunction := fun args => do
  let color ← colorAt? args 0
  let a := clampUnit (← numberAt? args 1)
  return .str { color with alpha := a }.css

/-- A channel given as an argument, as text. -/
def channelAt? (args : List Value) (i : Nat) : Option String := do
  return toString (← Color.channel? (← numberAt? args i)).toNat

/-- A call of a color constructor, as text. -/
def callText (name : String) (parts : List String) : Value :=
  .str (name ++ "(" ++ ", ".intercalate parts ++ ")")

/-- An opacity given as an argument, as text. -/
def opacityAt? (args : List Value) (i : Nat) : Option String := do
  let a ← (numberAt? args i).filter (Decimal.within 0.0 1.0)
  return Decimal.text a

/-- Three channels. -/
def rgb : ValueFunction := fun args => do
  return callText "rgb" [← channelAt? args 0, ← channelAt? args 1, ← channelAt? args 2]

/-- Three channels and an opacity. -/
def rgba : ValueFunction := fun args => do
  return callText "rgba"
    [← channelAt? args 0, ← channelAt? args 1, ← channelAt? args 2, ← opacityAt? args 3]

/-- A hue and two percentages, as texts. -/
def hslParts? (args : List Value) : Option (List String) := do
  let h ← numberAt? args 0
  let s ← numberAt? args 1
  let l ← numberAt? args 2
  if Decimal.within 0.0 100.0 s && Decimal.within 0.0 100.0 l then
    return [Decimal.text h, Decimal.text s ++ "%", Decimal.text l ++ "%"]
  else none

/-- Hue, saturation and lightness. -/
def hsl : ValueFunction := fun args => do
  return callText "hsl" (← hslParts? args)

/-- Hue, saturation, lightness and an opacity. -/
def hsla : ValueFunction := fun args => do
  return callText "hsla" ((← hslParts? args) ++ [← opacityAt? args 3])

/-! ## Arithmetic -/

/-- The integers among the operands if all of them are integers. -/
def integers? (operands : List Value) : Option (List Int) :=
  operands.mapM fun
    | .int n => some n
    | _ => none

/-- Folds integers with an operation as long as the results fit 64 bits. -/
def foldInt (op : Int → Int → Int) (start : Int) (ns : List Int) : Option Value :=
  (ns.foldlM (fun acc n => Decimal.checkInt64 (op acc n)) start).map .int

/-- An operation on integers, if it is one that stays among them. -/
def integerResult? (op : String) (ns : List Int) : Option (Option Value) :=
  match op, ns with
  | "add", ns => some (foldInt (· + ·) 0 ns)
  | "subtract", n :: ns => some (foldInt (· - ·) n ns)
  | "multiply", ns => some (foldInt (· * ·) 1 ns)
  | _, _ => none

/-- An operation on floating-point numbers; none for an unknown operation or a division by zero.
    Sums start at the negative zero, which changes no summand. -/
def floatResult? (op : String) (xs : List Float) : Option Value :=
  match op, xs with
  | "add", xs => some (.float (xs.foldl (· + ·) (-0.0)))
  | "subtract", x :: xs => some (.float (xs.foldl (· - ·) x))
  | "multiply", xs => some (.float (xs.foldl (· * ·) 1.0))
  | "divide", x :: xs =>
    (xs.foldlM (fun acc d => if d == 0.0 then none else some (acc / d)) x).map .float
  | _, _ => none

/-- Folds an operation over numbers. Integers stay integers where the operation allows it; where
    there is no result, the first operand is returned. -/
def math : ValueFunction
  | op :: first :: others => do
    let operands := first :: others
    let xs ← operands.mapM Value.toFloat?
    let result :=
      match (integers? operands).bind (integerResult? op.display) with
      | some result => result
      | none => floatResult? op.display xs
    return result.getD first
  | _ => none

/-- Multiplies by a factor; an integer stays one, cut off toward zero. -/
def scale : ValueFunction
  | value :: others => do
    let factor ← numberAt? (value :: others) 1
    match value with
    | .int n => return .int (Decimal.toInt64 (Float.ofInt n * factor))
    | v => return .float ((← v.toFloat?) * factor)
  | [] => none

end ValueFunction

/-! ## Tables of functions -/

namespace Functions

/-- No functions. -/
def none : Functions := []

/-- The functions that are always there. -/
def builtin : Functions := Table.ofPairs [
  ("lighten", ValueFunction.shift Color.lighten), ("darken", ValueFunction.shift Color.darken),
  ("mix", ValueFunction.mix), ("contrast", ValueFunction.contrast),
  ("invert", ValueFunction.invert), ("alpha", ValueFunction.alpha), ("math", ValueFunction.math),
  ("scale", ValueFunction.scale), ("rgb", ValueFunction.rgb), ("rgba", ValueFunction.rgba),
  ("hsl", ValueFunction.hsl), ("hsla", ValueFunction.hsla)]

/-- Calls a function by name; no value if it is unknown or fails. -/
def call? (functions : Functions) (name : String) (args : List Value) : Option Value :=
  (Table.find? name functions).bind (fun f => f args)

end Functions

end Theming

-- SUMMARY: Builtins that shift or replace any components of a color.
import StyleScript.Builtin.Hsl

/-!
# Components

`adjust-color` shifts and `change-color` replaces the components that are given.
Channels cannot be given together with hue, saturation or lightness. Only those
components are checked that the kind of change uses, the opacity first.
-/

namespace StyleScript

/-- The components that a call gives. -/
structure Components where
  red : Option Number
  green : Option Number
  blue : Option Number
  hue : Option Number
  saturation : Option Number
  lightness : Option Number
  alpha : Option Number

namespace Components

/-- Whether a channel is given. -/
def hasChannel (c : Components) : Bool := c.red.isSome || c.green.isSome || c.blue.isSome

/-- Whether hue, saturation or lightness is given. -/
def hasHsl (c : Components) : Bool := c.hue.isSome || c.saturation.isSome || c.lightness.isSome

/-- Read the components of a call. -/
def read (call : Invocation) : Except Error Components := do
  let c : Components :=
    { red := ← call.numberOrNull "red"
      green := ← call.numberOrNull "green"
      blue := ← call.numberOrNull "blue"
      hue := ← call.numberOrNull "hue"
      saturation := ← call.numberOrNull "saturation"
      lightness := ← call.numberOrNull "lightness"
      alpha := ← call.numberOrNull "alpha" }
  if c.hasChannel && c.hasHsl then .error (.ofCause .mixedComponents) else return c

/-- The magnitude of a component in its range, or `absent` when it is not
    given. -/
def magnitude (parameter : String) (n : Option Number) (low high absent : Float) :
    Except Error Float :=
  match n with
  | some n => Invocation.inRange parameter n low high
  | none => .ok absent

/-- The color with the given components added. -/
def adjust (c : Components) (color : Color Float) : Except Error (Color Float) := do
  let delta (parameter : String) (n : Option Number) (bound : Float) :=
    magnitude parameter n (-bound) bound 0
  let alpha := color.alpha + (← delta "alpha" c.alpha 1)
  if c.hasChannel then
    let red := color.red + (← delta "red" c.red 255)
    let green := color.green + (← delta "green" c.green 255)
    let blue := color.blue + (← delta "blue" c.blue 255)
    return .rgba red green blue alpha
  else if c.hasHsl then
    let hsl := color.toHsl
    let hue := hsl.hue + (c.hue.map (·.value)).getD 0
    let saturation := Color.percent (hsl.saturation + (← delta "saturation" c.saturation 100))
    let lightness := Color.percent (hsl.lightness + (← delta "lightness" c.lightness 100))
    return .ofHsl ⟨hue, saturation, lightness⟩ alpha
  else return color.withAlpha alpha

/-- The color with the given components in place of its own. -/
def change (c : Components) (color : Color Float) : Except Error (Color Float) := do
  let alpha ← magnitude "alpha" c.alpha 0 1 color.alpha
  if c.hasChannel then
    let red ← magnitude "red" c.red 0 255 color.red
    let green ← magnitude "green" c.green 0 255 color.green
    let blue ← magnitude "blue" c.blue 0 255 color.blue
    return .rgba red green blue alpha
  else if c.hasHsl then
    let hsl := color.toHsl
    let hue := (c.hue.map (·.value)).getD hsl.hue
    let saturation ← magnitude "saturation" c.saturation 0 100 hsl.saturation
    let lightness ← magnitude "lightness" c.lightness 0 100 hsl.lightness
    return .ofHsl ⟨hue, saturation, lightness⟩ alpha
  else return color.withAlpha alpha

end Components

namespace Builtin

/-- The signature of a builtin that takes all components. -/
def componentsSignature : String :=
  "$color, $red: null, $green: null, $blue: null, " ++
    "$hue: null, $saturation: null, $lightness: null, $alpha: null"

/-- A color edited by the given components. -/
def ofComponents (name : String) (edit : Components → Color Float → Except Error (Color Float)) :
    Builtin :=
  ofColor name componentsSignature fun call => do
    let color ← call.color "color"
    let components ← Components.read call
    edit components color

def adjustColor : Builtin := ofComponents "adjust-color" Components.adjust
def changeColor : Builtin := ofComponents "change-color" Components.change

/-- The builtins of this module. -/
def onComponents : List Builtin := [adjustColor, changeColor]

end Builtin

end StyleScript

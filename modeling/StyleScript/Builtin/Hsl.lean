-- SUMMARY: Builtins on hue, saturation and lightness.
import StyleScript.Builtin.Rgb
import StyleScript.Color.Hsl

/-! # Hue, saturation and lightness -/

namespace StyleScript.Builtin

/-- Read hue, saturation and lightness, whatever their units are. -/
def hslArgs (call : Invocation) : Except Error (Hsl Float) := do
  let hue ← call.number "hue"
  let saturation ← call.number "saturation"
  let lightness ← call.number "lightness"
  return ⟨hue.value, saturation.value, lightness.value⟩

def hsl : Builtin := ofColor "hsl" "$hue, $saturation, $lightness" fun call => do
  let components ← hslArgs call
  return .ofHsl components 1

def hsla : Builtin := ofColor "hsla" "$hue, $saturation, $lightness, $alpha" fun call => do
  let components ← hslArgs call
  let alpha ← alphaArg call "alpha"
  return .ofHsl components alpha

/-- A component of a color, with its unit. -/
def componentOf (name : String) (component : Hsl Float → Float) (units : Units) : Builtin :=
  ofNumber name "$color" fun call => do
    let color ← call.color "color"
    return ⟨component color.toHsl, units⟩

def hue : Builtin := componentOf "hue" (·.hue) .degrees
def saturation : Builtin := componentOf "saturation" (·.saturation) .percent
def lightness : Builtin := componentOf "lightness" (·.lightness) .percent

def adjustHue : Builtin := ofColor "adjust-hue" "$color, $degrees" fun call => do
  let color ← call.color "color"
  let degrees ← call.number "degrees"
  return color.adjustHue degrees.value

/-- A color with a component changed by an amount. -/
def shift (name : String) (change : Float → Color Float → Color Float) : Builtin :=
  ofColor name "$color, $amount" fun call => do
    let color ← call.color "color"
    let amount ← call.numberIn "amount" 0 100
    return change amount color

def lighten : Builtin := shift "lighten" Color.lighten
def darken : Builtin := shift "darken" Color.darken
def saturate : Builtin := shift "saturate" Color.saturate
def desaturate : Builtin := shift "desaturate" Color.desaturate

def grayscale : Builtin := ofColor "grayscale" "$color" fun call => do
  let color ← call.color "color"
  return color.grayscale

def complement : Builtin := ofColor "complement" "$color" fun call => do
  let color ← call.color "color"
  return color.complement

/-- The builtins of this module. -/
def onHsl : List Builtin :=
  [hsl, hsla, hue, saturation, lightness, adjustHue, lighten, darken, saturate, desaturate,
    grayscale, complement]

end StyleScript.Builtin

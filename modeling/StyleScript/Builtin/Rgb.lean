-- SUMMARY: Builtins on channels and opacity.
import StyleScript.Builtin.Answer
import StyleScript.Color.Blend

/-! # Channels and opacity -/

namespace StyleScript.Builtin

/-- Read a number that is either without units or a percentage of `whole`. -/
def share (whole : Float) (call : Invocation) (parameter : String) : Except Error Float := do
  let n ← call.number parameter
  if n.units.isSingle "%" then return n.value * whole / 100
  else if n.isUnitless then return n.value
  else Invocation.ofParameter parameter (.error (.ofCause (.unitOfChannel n.text)))

/-- Read a channel: a percentage is one of `255`. -/
def channelArg : Invocation → String → Except Error Float := share 255

/-- Read an opacity: a percentage is one of `1`. -/
def alphaArg : Invocation → String → Except Error Float := share 1

/-! ## Channels -/

def rgb : Builtin := ofColor "rgb" "$red, $green, $blue" fun call => do
  let red ← channelArg call "red"
  let green ← channelArg call "green"
  let blue ← channelArg call "blue"
  return .rgb red green blue

def rgbaOfChannels : Builtin := ofColor "rgba" "$red, $green, $blue, $alpha" fun call => do
  let red ← channelArg call "red"
  let green ← channelArg call "green"
  let blue ← channelArg call "blue"
  let alpha ← alphaArg call "alpha"
  return .rgba red green blue alpha

def rgbaOfColor : Builtin := ofColor "rgba" "$color, $alpha" fun call => do
  let color ← call.color "color"
  let alpha ← alphaArg call "alpha"
  return color.withAlpha alpha

/-- A channel of a color as a whole number. -/
def channelOf (name : String) (channel : Color Float → Float) : Builtin :=
  ofNumber name "$color" fun call => do
    let color ← call.color "color"
    return .unitless (Binary64.roundHalfAway (channel color))

def red : Builtin := channelOf "red" (·.red)
def green : Builtin := channelOf "green" (·.green)
def blue : Builtin := channelOf "blue" (·.blue)

def mix : Builtin := ofColor "mix" "$color-1, $color-2, $weight: 50%" fun call => do
  let first ← call.color "color-1"
  let second ← call.color "color-2"
  let weight ← call.numberIn "weight" 0 100
  return first.mix second (weight / 100)

def invert : Builtin := ofColor "invert" "$color, $weight: 100%" fun call => do
  let color ← call.color "color"
  let weight ← call.numberIn "weight" 0 100
  return color.invert (weight / 100)

/-! ## Opacity -/

/-- The opacity of a color. -/
def alphaOf (name : String) : Builtin := ofNumber name "$color" fun call => do
  let color ← call.color "color"
  return .unitless color.alpha

/-- A color with its opacity changed by an amount. -/
def fade (name : String) (change : Float → Float → Float) : Builtin :=
  ofColor name "$color, $amount" fun call => do
    let color ← call.color "color"
    let amount ← call.numberIn "amount" 0 1
    return color.withAlpha (change color.alpha amount)

/-- The builtins of this module. -/
def onChannels : List Builtin :=
  [rgb, rgbaOfChannels, rgbaOfColor, red, green, blue, mix, invert, alphaOf "alpha",
    alphaOf "opacity", fade "opacify" (· + ·), fade "fade-in" (· + ·),
    fade "transparentize" (· - ·), fade "fade-out" (· - ·)]

end StyleScript.Builtin

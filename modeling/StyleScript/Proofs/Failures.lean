-- SUMMARY: Builtins fail only in their documented ways.
import StyleScript.Proofs.BuiltinCalls

/-!
# Failures of builtins

A builtin reads its arguments by name, and nothing but its signature says which names are
bound. Every builtin keeps to the names of its signature: once they have values, what it
raises is about the type, the range or the unit of a value, and no argument is missing. An error
about a type shows the value that is not of it, and names its parameter. `nth` is the only
builtin that looks into a list by a position, and it never looks beside it.

Main statement: a call of a builtin ends, with a value or with an error whose kind tells how
far it came. Without an overload for it the arguments are not bound; if they cannot be bound,
their number or names are at fault; else the error is one about a value.
-/

namespace StyleScript

/-- The kinds of what builtins raise about their arguments. -/
def Builtin.failureKinds : List ErrorKind := [.typeMismatch, .argumentRange, .unit]

/-- An error about the type of an argument: it shows the value that a parameter has, behind the
    name of the parameter. -/
def Invocation.Blames (call : Invocation) (e : Error) : Prop :=
  ∃ parameter v expected, call.bound.get? parameter = some v ∧ v.typeName ≠ expected ∧
    e = (v.mismatch expected).inContext ("$" ++ parameter)

theorem Invocation.Blames.kind_eq {call : Invocation} {e : Error} (h : call.Blames e) :
    e.kind = .typeMismatch := by
  obtain ⟨_, _, _, _, _, rfl⟩ := h
  rfl

/-- A reading of the arguments of a call that raises only what builtins may raise. -/
def Documented {α : Type} (call : Invocation) (x : Except Error α) : Prop :=
  ∀ e, x = .error e → call.Blames e ∨ e.kind ∈ [.argumentRange, .unit]

theorem Builtin.argumentRange_mem : .argumentRange ∈ [ErrorKind.argumentRange, .unit] := by decide
theorem Builtin.unit_mem : .unit ∈ [ErrorKind.argumentRange, .unit] := by decide

section Readings

variable {α β : Type} {call : Invocation} {x : Except Error α} {parameter : String} {v : Value}

theorem documented_pure (a : α) : Documented call (pure a) := by
  rintro e ⟨⟩

theorem documented_error {e : Error} (h : e.kind ∈ [.argumentRange, .unit]) :
    Documented call (.error e : Except Error α) := by
  rintro _ ⟨⟩
  exact .inr h

theorem documented_bind {f : α → Except Error β} (hx : Documented call x)
    (hf : ∀ a, Documented call (f a)) : Documented call (x >>= f) := by
  cases x with
  | ok a => exact hf a
  | error e =>
    rintro _ ⟨⟩
    exact hx e rfl

theorem documented_map {f : α → β} (hx : Documented call x) : Documented call (x.map f) := by
  cases x with
  | ok a => rintro e ⟨⟩
  | error e =>
    rintro _ ⟨⟩
    exact hx e rfl

/-- Naming the parameter does not change what kind of error it is. -/
theorem documented_ofParameter {e : Error} (h : e.kind ∈ [.argumentRange, .unit]) :
    Documented call (Invocation.ofParameter parameter (.error e : Except Error α)) := by
  rintro _ ⟨⟩
  exact .inr h

/-- What is not of the expected type is shown, and its parameter is named. -/
theorem documented_mismatch {expected : TypeName} (hget : call.bound.get? parameter = some v)
    (hne : v.typeName ≠ expected) :
    Documented call
      (Invocation.ofParameter parameter (.error (v.mismatch expected) : Except Error α)) := by
  rintro _ ⟨⟩
  exact .inl ⟨parameter, v, expected, hget, hne, rfl⟩

end Readings

/-! ## Reading arguments -/

/-- All of the names have a value in a call. -/
def Invocation.Has (call : Invocation) (names : List String) : Prop :=
  ∀ name ∈ names, (call.bound.get? name).isSome

namespace Invocation

variable {α : Type} {call : Invocation} {names : List String} {parameter : String} {v : Value}

theorem documented_asNumber (hget : call.bound.get? parameter = some v) :
    Documented call (ofParameter parameter v.asNumber) := by
  cases v with
  | number n l => exact documented_pure n
  | _ => exact documented_mismatch hget nofun

theorem documented_asColor (hget : call.bound.get? parameter = some v) :
    Documented call (ofParameter parameter v.asColor) := by
  cases v with
  | color c l => exact documented_pure c
  | _ => exact documented_mismatch hget nofun

theorem documented_asString (hget : call.bound.get? parameter = some v) :
    Documented call (ofParameter parameter v.asString) := by
  cases v with
  | string content quoted l => exact documented_pure (content, quoted)
  | _ => exact documented_mismatch hget nofun

theorem documented_inRange (parameter : String) (n : Number) (low high : Float) :
    Documented call (inRange parameter n low high) := by
  unfold inRange
  split
  · exact documented_ofParameter Builtin.argumentRange_mem
  · exact documented_pure n.value

/-- The name of a parameter that has a value can be read. -/
theorem Has.bind_arg (h : call.Has names) (hmem : parameter ∈ names) {f : Value → Except Error α}
    (hf : ∀ v, call.bound.get? parameter = some v → Documented call (f v)) :
    Documented call ((call.arg parameter).bind f) := by
  obtain ⟨v, hget⟩ := Option.isSome_iff_exists.1 (h parameter hmem)
  rw [Invocation.arg, hget]
  exact hf v hget

theorem Has.arg (h : call.Has names) (hmem : parameter ∈ names) :
    Documented call (call.arg parameter) := by
  obtain ⟨v, hget⟩ := Option.isSome_iff_exists.1 (h parameter hmem)
  rw [Invocation.arg, hget]
  exact documented_pure v

theorem Has.number (h : call.Has names) (hmem : parameter ∈ names) :
    Documented call (call.number parameter) :=
  h.bind_arg hmem fun _ hget => documented_asNumber hget

theorem Has.color (h : call.Has names) (hmem : parameter ∈ names) :
    Documented call (call.color parameter) :=
  h.bind_arg hmem fun _ hget => documented_asColor hget

theorem Has.string (h : call.Has names) (hmem : parameter ∈ names) :
    Documented call (call.string parameter) :=
  h.bind_arg hmem fun _ hget => documented_asString hget

theorem Has.numberOrNull (h : call.Has names) (hmem : parameter ∈ names) :
    Documented call (call.numberOrNull parameter) := by
  refine h.bind_arg hmem fun v hget => ?_
  split
  · exact documented_pure none
  · exact documented_map (documented_asNumber hget)

theorem Has.numberIn (h : call.Has names) (hmem : parameter ∈ names) (low high : Float) :
    Documented call (call.numberIn parameter low high) :=
  documented_bind (h.number hmem) fun n => documented_inRange parameter n low high

end Invocation

namespace Components

variable {call : Invocation}

theorem documented_read (h : call.Has
    ["color", "red", "green", "blue", "hue", "saturation", "lightness", "alpha"]) :
    Documented call (read call) := by
  refine documented_bind (h.numberOrNull (by simp)) fun red => ?_
  refine documented_bind (h.numberOrNull (by simp)) fun green => ?_
  refine documented_bind (h.numberOrNull (by simp)) fun blue => ?_
  refine documented_bind (h.numberOrNull (by simp)) fun hue => ?_
  refine documented_bind (h.numberOrNull (by simp)) fun saturation => ?_
  refine documented_bind (h.numberOrNull (by simp)) fun lightness => ?_
  refine documented_bind (h.numberOrNull (by simp)) fun alpha => ?_
  dsimp only
  split
  · exact documented_error Builtin.argumentRange_mem
  · exact documented_pure _

theorem documented_magnitude (parameter : String) (n : Option Number) (low high absent : Float) :
    Documented call (magnitude parameter n low high absent) := by
  cases n with
  | some n => exact Invocation.documented_inRange parameter n low high
  | none => exact documented_pure absent

theorem documented_adjust (c : Components) (color : Color Float) :
    Documented call (c.adjust color) := by
  unfold adjust
  refine documented_bind (documented_magnitude _ _ _ _ _) fun alpha => ?_
  split
  · refine documented_bind (documented_magnitude _ _ _ _ _) fun red => ?_
    refine documented_bind (documented_magnitude _ _ _ _ _) fun green => ?_
    refine documented_bind (documented_magnitude _ _ _ _ _) fun blue => ?_
    exact documented_pure _
  · split
    · refine documented_bind (documented_magnitude _ _ _ _ _) fun saturation => ?_
      refine documented_bind (documented_magnitude _ _ _ _ _) fun lightness => ?_
      exact documented_pure _
    · exact documented_pure _

theorem documented_change (c : Components) (color : Color Float) :
    Documented call (c.change color) := by
  unfold change
  refine documented_bind (documented_magnitude _ _ _ _ _) fun alpha => ?_
  split
  · refine documented_bind (documented_magnitude _ _ _ _ _) fun red => ?_
    refine documented_bind (documented_magnitude _ _ _ _ _) fun green => ?_
    refine documented_bind (documented_magnitude _ _ _ _ _) fun blue => ?_
    exact documented_pure _
  · split
    · refine documented_bind (documented_magnitude _ _ _ _ _) fun saturation => ?_
      refine documented_bind (documented_magnitude _ _ _ _ _) fun lightness => ?_
      exact documented_pure _
    · exact documented_pure _

end Components

/-! ## Positions -/

/-- The position that a number stands for, or zero if it is not a whole number. -/
def Number.position (n : Number) : Int :=
  if n.isInteger then (Binary64.nearestInt? n.value).getD 0 else 0

namespace Value

/-- How many items come before the one at a position, in unsigned numbers: neither difference
    is below zero, and the item is one of the list. -/
def index {length : Nat} {position : Int} (h : position ≠ 0 ∧ position.natAbs ≤ length) :
    Fin length :=
  ⟨if 0 < position then position.natAbs - 1 else length - position.natAbs, by split <;> omega⟩

/-- A position within the list is that of an item. -/
theorem itemAt?_of_le {items : List Value} {position : Int}
    (h : position ≠ 0 ∧ position.natAbs ≤ items.length) :
    itemAt? items position = some (items.get (index h)) := by
  obtain ⟨hzero, hle⟩ := h
  unfold itemAt?
  split
  · rename_i hpositive
    have hindex : position.toNat - 1 = index ⟨hzero, hle⟩ := by
      simp only [index, if_pos hpositive]
      omega
    rw [hindex, List.getElem?_eq_getElem (index _).isLt, List.get_eq_getElem]
  · rename_i hnegative
    have hbound : position.natAbs - 1 < items.length := by omega
    have hindex : items.length - 1 - (position.natAbs - 1) = index ⟨hzero, hle⟩ := by
      simp only [index, if_neg hnegative]
      omega
    rw [if_pos (by omega), List.getElem?_reverse hbound, hindex,
      List.getElem?_eq_getElem (index _).isLt, List.get_eq_getElem]

theorem itemAt?_of_lt {items : List Value} {position : Int}
    (hlt : items.length < position.natAbs) : itemAt? items position = none := by
  unfold itemAt?
  split
  · exact List.getElem?_eq_none (by omega)
  · split
    · exact List.getElem?_eq_none (by rw [List.length_reverse]; omega)
    · rfl

end Value

namespace Builtin

variable {call : Invocation} {names : List String} {parameter : String}

/-! ## Answers -/

theorem documented_share (h : call.Has names) (hmem : parameter ∈ names) (whole : Float) :
    Documented call (share whole call parameter) := by
  refine documented_bind (h.number hmem) fun n => ?_
  split
  · exact documented_pure _
  · split
    · exact documented_pure n.value
    · exact documented_ofParameter unit_mem

theorem documented_hslArgs (h : call.Has names) (hhue : "hue" ∈ names)
    (hsaturation : "saturation" ∈ names) (hlightness : "lightness" ∈ names) :
    Documented call (hslArgs call) := by
  refine documented_bind (h.number hhue) fun hue => ?_
  refine documented_bind (h.number hsaturation) fun saturation => ?_
  refine documented_bind (h.number hlightness) fun lightness => ?_
  exact documented_pure _

theorem documented_separatorArg (h : call.Has names) (hmem : "separator" ∈ names) :
    Documented call (separatorArg call) := by
  refine documented_bind (h.string hmem) fun name => ?_
  dsimp only
  repeat' split
  · exact documented_pure _
  · exact documented_pure _
  · exact documented_pure _
  · exact documented_ofParameter argumentRange_mem

/-- A builtin that keeps to its signature: when all of its parameters have values, whatever
    they are, it raises only what builtins may raise. -/
def KeepsToSignature (b : Builtin) : Prop :=
  ∀ call : Invocation, call.Has b.params.names → Documented call (b.answer call)

/-- The names of a signature are computed, through the lexer and the reader. -/
theorem keepsToSignature_of_names {b : Builtin} (hnames : b.params.names = names)
    (h : ∀ {call : Invocation}, call.Has names → Documented call (b.answer call)) :
    b.KeepsToSignature := by
  subst hnames
  exact fun call => h

/-! ### Channels and opacity -/

theorem documented_rgb (h : call.Has ["red", "green", "blue"]) :
    Documented call (rgb.answer call) := by
  refine documented_map ?_
  refine documented_bind (documented_share h (by simp) 255) fun red => ?_
  refine documented_bind (documented_share h (by simp) 255) fun green => ?_
  refine documented_bind (documented_share h (by simp) 255) fun blue => ?_
  exact documented_pure _

theorem documented_rgbaOfChannels (h : call.Has ["red", "green", "blue", "alpha"]) :
    Documented call (rgbaOfChannels.answer call) := by
  refine documented_map ?_
  refine documented_bind (documented_share h (by simp) 255) fun red => ?_
  refine documented_bind (documented_share h (by simp) 255) fun green => ?_
  refine documented_bind (documented_share h (by simp) 255) fun blue => ?_
  refine documented_bind (documented_share h (by simp) 1) fun alpha => ?_
  exact documented_pure _

theorem documented_rgbaOfColor (h : call.Has ["color", "alpha"]) :
    Documented call (rgbaOfColor.answer call) := by
  refine documented_map ?_
  refine documented_bind (h.color (by simp)) fun color => ?_
  refine documented_bind (documented_share h (by simp) 1) fun alpha => ?_
  exact documented_pure _

theorem documented_channelOf (name : String) (channel : Color Float → Float)
    (h : call.Has ["color"]) : Documented call ((channelOf name channel).answer call) := by
  refine documented_map ?_
  exact documented_bind (h.color (by simp)) fun color => documented_pure _

theorem documented_mix (h : call.Has ["color-1", "color-2", "weight"]) :
    Documented call (mix.answer call) := by
  refine documented_map ?_
  refine documented_bind (h.color (by simp)) fun first => ?_
  refine documented_bind (h.color (by simp)) fun second => ?_
  exact documented_bind (h.numberIn (by simp) 0 100) fun weight => documented_pure _

theorem documented_invert (h : call.Has ["color", "weight"]) :
    Documented call (invert.answer call) := by
  refine documented_map ?_
  refine documented_bind (h.color (by simp)) fun color => ?_
  exact documented_bind (h.numberIn (by simp) 0 100) fun weight => documented_pure _

theorem documented_alphaOf (name : String) (h : call.Has ["color"]) :
    Documented call ((alphaOf name).answer call) := by
  refine documented_map ?_
  exact documented_bind (h.color (by simp)) fun color => documented_pure _

theorem documented_fade (name : String) (change : Float → Float → Float)
    (h : call.Has ["color", "amount"]) : Documented call ((fade name change).answer call) := by
  refine documented_map ?_
  refine documented_bind (h.color (by simp)) fun color => ?_
  exact documented_bind (h.numberIn (by simp) 0 1) fun amount => documented_pure _

theorem keepsToSignature_onChannels : ∀ b ∈ onChannels, b.KeepsToSignature := by
  have hcolor : (Signature.paramsOf "$color").names = ["color"] := by decide +kernel
  have hamount : (Signature.paramsOf "$color, $amount").names = ["color", "amount"] := by
    decide +kernel
  have hchannel (name : String) (channel : Color Float → Float) :
      (channelOf name channel).KeepsToSignature :=
    keepsToSignature_of_names hcolor (documented_channelOf name channel)
  have halpha (name : String) : (alphaOf name).KeepsToSignature :=
    keepsToSignature_of_names hcolor (documented_alphaOf name)
  have hfade (name : String) (change : Float → Float → Float) :
      (fade name change).KeepsToSignature :=
    keepsToSignature_of_names hamount (documented_fade name change)
  simp only [onChannels, List.forall_mem_cons, List.not_mem_nil, IsEmpty.forall_iff, implies_true,
    and_true]
  exact ⟨keepsToSignature_of_names (by decide +kernel) documented_rgb,
    keepsToSignature_of_names (by decide +kernel) documented_rgbaOfChannels,
    keepsToSignature_of_names (by decide +kernel) documented_rgbaOfColor,
    hchannel _ _, hchannel _ _, hchannel _ _,
    keepsToSignature_of_names (by decide +kernel) documented_mix,
    keepsToSignature_of_names (by decide +kernel) documented_invert,
    halpha _, halpha _, hfade _ _, hfade _ _, hfade _ _, hfade _ _⟩

/-! ### Hue, saturation and lightness -/

theorem documented_hsl (h : call.Has ["hue", "saturation", "lightness"]) :
    Documented call (hsl.answer call) := by
  refine documented_map ?_
  exact documented_bind (documented_hslArgs h (by simp) (by simp) (by simp)) fun components =>
    documented_pure _

theorem documented_hsla (h : call.Has ["hue", "saturation", "lightness", "alpha"]) :
    Documented call (hsla.answer call) := by
  refine documented_map ?_
  refine documented_bind (documented_hslArgs h (by simp) (by simp) (by simp)) fun components => ?_
  exact documented_bind (documented_share h (by simp) 1) fun alpha => documented_pure _

theorem documented_componentOf (name : String) (component : Hsl Float → Float) (units : Units)
    (h : call.Has ["color"]) :
    Documented call ((componentOf name component units).answer call) := by
  refine documented_map ?_
  exact documented_bind (h.color (by simp)) fun color => documented_pure _

theorem documented_adjustHue (h : call.Has ["color", "degrees"]) :
    Documented call (adjustHue.answer call) := by
  refine documented_map ?_
  refine documented_bind (h.color (by simp)) fun color => ?_
  exact documented_bind (h.number (by simp)) fun degrees => documented_pure _

theorem documented_shift (name : String) (change : Float → Color Float → Color Float)
    (h : call.Has ["color", "amount"]) : Documented call ((shift name change).answer call) := by
  refine documented_map ?_
  refine documented_bind (h.color (by simp)) fun color => ?_
  exact documented_bind (h.numberIn (by simp) 0 100) fun amount => documented_pure _

theorem documented_grayscale (h : call.Has ["color"]) :
    Documented call (grayscale.answer call) := by
  refine documented_map ?_
  exact documented_bind (h.color (by simp)) fun color => documented_pure _

theorem documented_complement (h : call.Has ["color"]) :
    Documented call (complement.answer call) := by
  refine documented_map ?_
  exact documented_bind (h.color (by simp)) fun color => documented_pure _

theorem keepsToSignature_onHsl : ∀ b ∈ onHsl, b.KeepsToSignature := by
  have hcolor : (Signature.paramsOf "$color").names = ["color"] := by decide +kernel
  have hamount : (Signature.paramsOf "$color, $amount").names = ["color", "amount"] := by
    decide +kernel
  have hcomponent (name : String) (component : Hsl Float → Float) (units : Units) :
      (componentOf name component units).KeepsToSignature :=
    keepsToSignature_of_names hcolor (documented_componentOf name component units)
  have hshift (name : String) (change : Float → Color Float → Color Float) :
      (shift name change).KeepsToSignature :=
    keepsToSignature_of_names hamount (documented_shift name change)
  simp only [onHsl, List.forall_mem_cons, List.not_mem_nil, IsEmpty.forall_iff, implies_true,
    and_true]
  exact ⟨keepsToSignature_of_names (by decide +kernel) documented_hsl,
    keepsToSignature_of_names (by decide +kernel) documented_hsla,
    hcomponent _ _ _, hcomponent _ _ _, hcomponent _ _ _,
    keepsToSignature_of_names (by decide +kernel) documented_adjustHue,
    hshift _ _, hshift _ _, hshift _ _, hshift _ _,
    keepsToSignature_of_names hcolor documented_grayscale,
    keepsToSignature_of_names hcolor documented_complement⟩

theorem keepsToSignature_onComponents : ∀ b ∈ onComponents, b.KeepsToSignature := by
  have hnames : (Signature.paramsOf componentsSignature).names =
      ["color", "red", "green", "blue", "hue", "saturation", "lightness", "alpha"] := by
    decide +kernel
  have hcomponents {edit : Components → Color Float → Except Error (Color Float)} (name : String)
      (hedit : ∀ call components color, Documented call (edit components color)) :
      (ofComponents name edit).KeepsToSignature := by
    refine keepsToSignature_of_names hnames fun h => documented_map ?_
    refine documented_bind (h.color (by simp)) fun color => ?_
    exact documented_bind (Components.documented_read h) fun components => hedit _ components color
  simp only [onComponents, List.forall_mem_cons, List.not_mem_nil, IsEmpty.forall_iff,
    implies_true, and_true]
  exact ⟨hcomponents _ fun _ => Components.documented_adjust,
    hcomponents _ fun _ => Components.documented_change⟩

/-! ### Numbers and units -/

theorem documented_percentage (h : call.Has ["value"]) :
    Documented call (percentage.answer call) := by
  refine documented_map ?_
  refine documented_bind (h.number (by simp)) fun n => ?_
  split
  · exact documented_pure _
  · exact documented_ofParameter unit_mem

theorem documented_onMagnitude (name : String) (f : Float → Float)
    (h : call.Has ["value"]) : Documented call ((onMagnitude name f).answer call) := by
  refine documented_map ?_
  exact documented_bind (h.number (by simp)) fun n => documented_pure _

theorem documented_unit (h : call.Has ["number"]) : Documented call (unit.answer call) :=
  documented_bind (h.number (by simp)) fun n => documented_pure _

theorem documented_unitless (h : call.Has ["number"]) : Documented call (unitless.answer call) := by
  refine documented_map ?_
  exact documented_bind (h.number (by simp)) fun n => documented_pure _

theorem documented_comparable (h : call.Has ["number-1", "number-2"]) :
    Documented call (comparable.answer call) := by
  refine documented_map ?_
  refine documented_bind (h.arg (by simp)) fun first => ?_
  exact documented_bind (h.arg (by simp)) fun second => documented_pure _

theorem keepsToSignature_onQuantities : ∀ b ∈ onQuantities, b.KeepsToSignature := by
  have hvalue : (Signature.paramsOf "$value").names = ["value"] := by decide +kernel
  have hnumber : (Signature.paramsOf "$number").names = ["number"] := by decide +kernel
  have hmagnitude (name : String) (f : Float → Float) : (onMagnitude name f).KeepsToSignature :=
    keepsToSignature_of_names hvalue (documented_onMagnitude name f)
  simp only [onQuantities, List.forall_mem_cons, List.not_mem_nil, IsEmpty.forall_iff,
    implies_true, and_true]
  exact ⟨keepsToSignature_of_names hvalue documented_percentage,
    hmagnitude _ _, hmagnitude _ _, hmagnitude _ _, hmagnitude _ _,
    keepsToSignature_of_names hnumber documented_unit,
    keepsToSignature_of_names hnumber documented_unitless,
    keepsToSignature_of_names (by decide +kernel) documented_comparable⟩

/-! ### Lists -/

theorem documented_length (h : call.Has ["list"]) : Documented call (length.answer call) := by
  refine documented_map ?_
  exact documented_bind (h.arg (by simp)) fun list => documented_pure _

theorem documented_nth (h : call.Has ["list", "n"]) : Documented call (nth.answer call) := by
  refine documented_bind (h.arg (by simp)) fun list => ?_
  refine documented_bind (h.number (by simp)) fun n => ?_
  dsimp only
  generalize (if n.isInteger then (Binary64.nearestInt? n.value).getD 0 else 0) = position
  split
  · exact documented_ofParameter argumentRange_mem
  · split
    · exact documented_pure _
    · exact documented_ofParameter argumentRange_mem

section Positions

variable {list : Value} {n : Number}

theorem nth_of_position (hlist : call.arg "list" = .ok list) (hn : call.number "n" = .ok n) :
    nth.answer call =
      if n.position = 0 then
        Invocation.ofParameter "n" (.error (.ofCause (.zeroOrFractionalIndex n.text)))
      else
        match Value.itemAt? list.items n.position with
        | some v => .ok (.given v)
        | none =>
          Invocation.ofParameter "n"
            (.error (.ofCause (.indexOutOfBounds n.text list.items.length))) := by
  simp only [nth, hlist, hn]
  rfl

/-- `nth` takes the item at its position, which is inside the list, or refuses the position. -/
theorem nth_reads_inside (hlist : call.arg "list" = .ok list) (hn : call.number "n" = .ok n) :
    if h : n.position ≠ 0 ∧ n.position.natAbs ≤ list.items.length then
      nth.answer call = .ok (.given (list.items.get (Value.index h)))
    else ∃ e, nth.answer call = .error e ∧ e.kind = .argumentRange := by
  rw [nth_of_position hlist hn]
  split
  · rename_i h
    rw [if_neg h.1, Value.itemAt?_of_le h]
  · rename_i h
    by_cases hzero : n.position = 0
    · rw [if_pos hzero]
      exact ⟨_, rfl, rfl⟩
    · have hlt : list.items.length < n.position.natAbs := by
        by_contra hle
        exact h ⟨hzero, by omega⟩
      rw [if_neg hzero, Value.itemAt?_of_lt hlt]
      exact ⟨_, rfl, rfl⟩

end Positions

theorem documented_join (h : call.Has ["list-1", "list-2", "separator"]) :
    Documented call (join.answer call) := by
  refine documented_bind (h.arg (by simp)) fun first => ?_
  refine documented_bind (h.arg (by simp)) fun second => ?_
  exact documented_bind (documented_separatorArg h (by simp)) fun chosen => documented_pure _

theorem documented_append (h : call.Has ["list", "val", "separator"]) :
    Documented call (append.answer call) := by
  refine documented_bind (h.arg (by simp)) fun list => ?_
  refine documented_bind (h.arg (by simp)) fun v => ?_
  exact documented_bind (documented_separatorArg h (by simp)) fun chosen => documented_pure _

theorem documented_compact (h : call.Has ["values"]) : Documented call (compact.answer call) :=
  documented_bind (h.arg (by simp)) fun values => documented_pure _

theorem keepsToSignature_onLists : ∀ b ∈ onLists, b.KeepsToSignature := by
  simp only [onLists, List.forall_mem_cons, List.not_mem_nil, IsEmpty.forall_iff, implies_true,
    and_true]
  exact ⟨keepsToSignature_of_names (by decide +kernel) documented_length,
    keepsToSignature_of_names (by decide +kernel) documented_nth,
    keepsToSignature_of_names (by decide +kernel) documented_join,
    keepsToSignature_of_names (by decide +kernel) documented_append,
    keepsToSignature_of_names (by decide +kernel) documented_compact⟩

/-! ### Strings, types and truth -/

theorem documented_unquote (h : call.Has ["string"]) : Documented call (unquote.answer call) := by
  refine documented_bind (h.arg (by simp)) fun v => ?_
  split <;> exact documented_pure _

theorem documented_quote (h : call.Has ["string"]) : Documented call (quote.answer call) := by
  refine documented_bind (h.arg (by simp)) fun v => ?_
  split <;> exact documented_pure _

theorem documented_typeOf (h : call.Has ["value"]) : Documented call (typeOf.answer call) :=
  documented_bind (h.arg (by simp)) fun v => documented_pure _

theorem documented_not (h : call.Has ["value"]) : Documented call (Builtin.not.answer call) := by
  refine documented_map ?_
  exact documented_bind (h.arg (by simp)) fun v => documented_pure _

/-- Both branches of `if` have values; only one of them is read. -/
theorem documented_choose (h : call.Has ["condition", "if-true", "if-false"]) :
    Documented call (choose.answer call) := by
  refine documented_bind (h.arg (by simp)) fun condition => ?_
  have hmem : (if condition.isTruthy then "if-true" else "if-false") ∈
      ["condition", "if-true", "if-false"] := by
    split <;> simp
  exact documented_bind (h.arg hmem) fun v => documented_pure _

theorem keepsToSignature_onValues : ∀ b ∈ onValues, b.KeepsToSignature := by
  have hstring : (Signature.paramsOf "$string").names = ["string"] := by decide +kernel
  have hvalue : (Signature.paramsOf "$value").names = ["value"] := by decide +kernel
  simp only [onValues, List.forall_mem_cons, List.not_mem_nil, IsEmpty.forall_iff, implies_true,
    and_true]
  exact ⟨keepsToSignature_of_names hstring documented_unquote,
    keepsToSignature_of_names hstring documented_quote,
    keepsToSignature_of_names hvalue documented_typeOf,
    keepsToSignature_of_names hvalue documented_not,
    keepsToSignature_of_names (by decide +kernel) documented_choose⟩

/-- All builtins read only what their signatures declare, and blame values of the wrong type. -/
theorem keepsToSignature_of_mem : ∀ b ∈ all, b.KeepsToSignature := by
  simp only [all, List.forall_mem_append]
  exact ⟨⟨⟨⟨⟨keepsToSignature_onChannels, keepsToSignature_onHsl⟩, keepsToSignature_onComponents⟩,
    keepsToSignature_onQuantities⟩, keepsToSignature_onLists⟩, keepsToSignature_onValues⟩

theorem keepsToSignature (b : Builtin) (hb : b ∈ all) (call : Invocation)
    (hcall : call.Has b.params.names) (e : Error) (h : b.answer call = .error e) :
    e.kind ∈ failureKinds := by
  rcases keepsToSignature_of_mem b hb call hcall e h with hblames | hkind
  · exact hblames.kind_eq ▸ List.mem_cons_self
  · exact List.mem_cons_of_mem _ hkind

end Builtin

/-! ## Calls -/

namespace Registry

theorem kind_of_resolve_error {r : Registry} {name : String} {count : Nat} {e : Error}
    (h : r.resolve name count = .error e) :
    e.kind = .noMatchingOverload ∨ e.kind = .undefinedFunction ∧ r.candidates name = [] := by
  unfold resolve at h
  split at h
  · rename_i hget
    cases h
    exact .inr ⟨rfl, by rw [candidates, hget]; rfl⟩
  · cases h
  · split at h
    · cases h
    · cases h
      exact .inl rfl

/-- A call that is not resolved has the name of no builtin, or more or fewer arguments than any
    builtin of its name accepts. -/
theorem kind_of_unresolved {name : String} {count : Nat} {e : Error}
    (h : standard.resolve name count = .error e) :
    e.kind = .noMatchingOverload ∨
      e.kind = .undefinedFunction ∧ ∀ b ∈ Builtin.all, canonical b.name ≠ canonical name := by
  rcases kind_of_resolve_error h with hkind | ⟨hkind, hnone⟩
  · exact .inl hkind
  · refine .inr ⟨hkind, fun b hb hname => ?_⟩
    obtain ⟨f, hf, _⟩ := exists_mem_candidates hb hname
    rw [hnone] at hf
    cases hf

end Registry

namespace Session

/-- Every call of a builtin ends, however it is spelled, with whatever arguments, options and
    depth. An error tells how far the call came: no overload takes as many arguments, or they
    cannot be bound, or the type, the range or the unit of a value is wrong. In particular no
    builtin reads a name that its signature does not declare, and `nth` reads no item outside
    its list. -/
theorem callAlone_fails_as_documented (options : Options) (fuel : Nat) (name : String) (args : Args)
    (place : Option Location) (m : Machine) :
    (match Registry.standard.resolve name args.count with
      | .error e =>
        (∃ n, callAlone ⟨.standard, options⟩ (fuel + 1) name args place m =
          .error (.error (e.locate place)) n) ∧
        (e.kind = .noMatchingOverload ∨
          e.kind = .undefinedFunction ∧ ∀ b ∈ Builtin.all, canonical b.name ≠ canonical name)
      | .ok f =>
        (∃ b ∈ Builtin.all, canonical b.name = canonical name ∧ f.Is b) ∧
        (¬f.params.CanBind args →
          ∃ e n, callAlone ⟨.standard, options⟩ (fuel + 1) name args place m =
            .error (.error e) n ∧ e.kind = .argumentCount) ∧
        (f.params.CanBind args →
          (∃ v n, callAlone ⟨.standard, options⟩ (fuel + 1) name args place m = .ok v n) ∨
          ∃ e n, callAlone ⟨.standard, options⟩ (fuel + 1) name args place m =
            .error (.error e) n ∧ e.kind ∈ [.typeMismatch, .argumentRange, .unit])) ∧
    (∀ b ∈ Builtin.all, (∃ f ∈ Registry.standard.candidates b.name, f.Is b) ∧
      ∀ call : Invocation, (∀ parameter ∈ b.params.names, (call.bound.get? parameter).isSome) →
        ∀ e, b.answer call = .error e → e.kind ∈ [.typeMismatch, .argumentRange, .unit]) ∧
    (∀ (call : Invocation) (list : Value) (n : Number),
      call.arg "list" = .ok list → call.number "n" = .ok n →
        if h : n.position ≠ 0 ∧ n.position.natAbs ≤ list.items.length then
          Builtin.nth.answer call = .ok (.given (list.items.get (Value.index h)))
        else ∃ e, Builtin.nth.answer call = .error e ∧ e.kind = .argumentRange) := by
  refine ⟨?_, fun b hb => ⟨Registry.exists_mem_candidates hb rfl, Builtin.keepsToSignature b hb⟩,
    fun call list n => Builtin.nth_reads_inside⟩
  split
  · rename_i e hresolve
    exact ⟨callAlone_unresolved hresolve, Registry.kind_of_unresolved hresolve⟩
  · rename_i f hresolve
    obtain ⟨b, hb, hname, hf⟩ := Registry.exists_of_resolve hresolve
    refine ⟨⟨b, hb, hname, hf⟩, ?_⟩
    have hliteral := Builtin.literalDefaults hb
    have hcan : b.params.CanBind args ↔ ∃ table, b.params.bound args m.builder.location = .ok table :=
      hliteral.canBind_iff m.builder.location
    have hends : b.Ends options args place m.builder
        (callAlone ⟨.standard, options⟩ (fuel + 1) name args place m) :=
      ends_callAlone hb hf hresolve
    generalize callAlone ⟨.standard, options⟩ (fuel + 1) name args place m = o at hends
    rw [hf.params, hcan]
    cases hends with
    | misfit hbound hn =>
      refine ⟨fun _ => ⟨_, _, rfl, rfl⟩, ?_⟩
      rintro ⟨table, htable⟩
      rw [hbound] at htable
      cases htable
    | failed hbound hanswer hn =>
      have hkind := Builtin.keepsToSignature b hb _ (hliteral.isSome_get? hbound) _ hanswer
      exact ⟨fun hcannot => absurd ⟨_, hbound⟩ hcannot, fun _ => .inr ⟨_, _, rfl, hkind⟩⟩
    | answered hbound hanswer hn =>
      exact ⟨fun hcannot => absurd ⟨_, hbound⟩ hcannot, fun _ => .inl ⟨_, _, rfl⟩⟩

end Session

end StyleScript

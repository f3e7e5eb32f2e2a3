-- SUMMARY: How the two builtins that set all channels of a color read them.
import StyleScript.Proofs.BuiltinCalls

/-!
# Channel arguments

Two builtins take a number for each channel. `rgb` looks at its unit: a percentage is one of
the whole range, and a unit other than that is refused. `change-color` looks at the magnitude
only, which has to lie in the range.

Main statement: what both answer to the same three numbers. The channels are the same for
numbers without units; a percentage is scaled by one of them only, and a unit that `rgb`
refuses is dropped by `change-color`.
-/

namespace StyleScript

/-! ## Readings -/

/-- A reading that gives what is there, and fails with an error of a kind if nothing is. -/
def Yields {α : Type} (kind : ErrorKind) (x : Except Error α) : Option α → Prop
  | some a => x = .ok a
  | none => ∃ e, x = .error e ∧ e.kind = kind

section Readings

variable {α β : Type} {kind : ErrorKind} {x : Except Error α} {a? : Option α}

theorem yields_pure (a : α) : Yields kind (pure a) (some a) := rfl

theorem yields_bind {f : α → Except Error β} {f? : α → Option β} (hx : Yields kind x a?)
    (hf : ∀ a, Yields kind (f a) (f? a)) : Yields kind (x >>= f) (a?.bind f?) := by
  cases a? with
  | some a =>
    obtain rfl : x = .ok a := hx
    exact hf a
  | none =>
    obtain ⟨e, rfl, hkind⟩ := hx
    exact ⟨e, rfl, hkind⟩

theorem yields_map {f : α → β} (hx : Yields kind x a?) : Yields kind (x.map f) (a?.map f) := by
  cases a? with
  | some a =>
    obtain rfl : x = .ok a := hx
    rfl
  | none =>
    obtain ⟨e, rfl, hkind⟩ := hx
    exact ⟨e, rfl, hkind⟩

end Readings

namespace Number

/-- A channel in the units that it is written with: without any, or a percentage of `255`. -/
def channel? (n : Number) : Option Float :=
  if n.units.isSingle "%" then some (n.value * 255 / 100)
  else if n.isUnitless then some n.value
  else none

/-- A channel by its magnitude alone, which must be in the range. -/
def magnitude? (n : Number) : Option Float :=
  if n.value < 0 ∨ 255 < n.value ∨ n.value.isNaN then none else some n.value

variable {n : Number} {x : Float}

theorem isSome_channel? :
    n.channel?.isSome ↔ n.units.isSingle "%" = true ∨ n.isUnitless = true := by
  unfold channel?
  split
  · simp_all
  · split <;> simp_all

theorem channel?_eq_some (h : n.channel? = some x) :
    x = if n.units.isSingle "%" then n.value * 255 / 100 else n.value := by
  unfold channel? at h
  split at h
  · rw [if_pos ‹_›]
    exact (Option.some.inj h).symm
  · split at h
    · rw [if_neg ‹_›]
      exact (Option.some.inj h).symm
    · cases h

theorem isSome_magnitude? :
    n.magnitude?.isSome ↔ ¬(n.value < 0 ∨ 255 < n.value ∨ n.value.isNaN = true) := by
  unfold magnitude?
  split <;> simp_all

theorem magnitude?_eq_some (h : n.magnitude? = some x) : x = n.value := by
  unfold magnitude? at h
  split at h
  · cases h
  · exact (Option.some.inj h).symm

end Number

variable {call : Invocation} {parameter : String} {n : Number}

theorem Builtin.yields_channelArg (h : call.number parameter = .ok n) :
    Yields .unit (channelArg call parameter) n.channel? := by
  rw [channelArg, share, h, Number.channel?]
  simp only [bind, Except.bind]
  split
  · exact yields_pure _
  · split
    · exact yields_pure _
    · exact ⟨_, rfl, rfl⟩

theorem Components.yields_magnitude (parameter : String) (n : Number) (absent : Float) :
    Yields .argumentRange (magnitude parameter (some n) 0 255 absent) n.magnitude? := by
  rw [magnitude, Invocation.inRange, Number.magnitude?]
  split
  · exact ⟨_, rfl, rfl⟩
  · exact yields_pure _

/-! ## Parameters -/

namespace Param

/-- A parameter without a default, or one that is null without an argument. -/
def plain (name : String) (nullable : Bool) : Param :=
  ⟨name, if nullable then some (.literal (.null none)) else none⟩

/-- The name of a plain parameter, and whether it can be null. -/
def plain? : Param → Option (String × Bool)
  | ⟨name, none⟩ => some (name, false)
  | ⟨name, some (.literal (.null none))⟩ => some (name, true)
  | _ => none

theorem eq_plain {param : Param} {name : String} {nullable : Bool}
    (h : param.plain? = some (name, nullable)) : param = plain name nullable := by
  unfold plain? at h
  split at h <;> cases h <;> rfl

/-- Parameters that are all outlined are those of their outlines. -/
theorem eq_map {α : Type} {make : α → Param} {outline? : Param → Option α}
    (hmake : ∀ param entry, outline? param = some entry → param = make entry) {fixed : List Param}
    {outline : List α} (h : fixed.map outline? = outline.map some) : fixed = outline.map make := by
  induction fixed generalizing outline with
  | nil =>
    obtain rfl : outline = [] := by simpa using h.symm
    rfl
  | cons param fixed ih =>
    cases outline with
    | nil => cases h
    | cons entry outline =>
      obtain ⟨hparam, hfixed⟩ := List.cons.inj h
      rw [List.map_cons, ← ih hfixed, ← hmake param entry hparam]

end Param

namespace Params

/-- Plain parameters, each with whether it can be null. -/
def plain (outline : List (String × Bool)) : Params :=
  ⟨outline.map fun entry => .plain entry.1 entry.2, none⟩

theorem eq_plain {p : Params} {outline : List (String × Bool)}
    (h : p.fixed.map Param.plain? = outline.map some ∧ p.rest = none) : p = plain outline := by
  obtain ⟨fixed, rest⟩ := p
  obtain ⟨hfixed, rfl⟩ := h
  rw [plain, ← Param.eq_map (fun _ _ => Param.eq_plain) hfixed]

end Params

namespace Builtin

variable {location : Option Location}

theorem params_rgb : rgb.params = .plain [("red", false), ("green", false), ("blue", false)] :=
  Params.eq_plain (by decide +kernel)

theorem params_changeColor :
    changeColor.params = .plain
      [("color", false), ("red", true), ("green", true), ("blue", true), ("hue", true),
        ("saturation", true), ("lightness", true), ("alpha", true)] :=
  Params.eq_plain (by decide +kernel)

theorem bound_rgb (red green blue : Value) :
    rgb.params.bound ⟨[red, green, blue], []⟩ location =
      .ok (NameTable.empty.insertAll [("red", red), ("green", green), ("blue", blue)]) := by
  rw [params_rgb]
  rfl

/-- Components that are not given are null. -/
theorem bound_changeColor (color red green blue : Value) :
    changeColor.params.bound ⟨[color], [("red", red), ("green", green), ("blue", blue)]⟩ location =
      .ok (NameTable.empty.insertAll
        [("color", color), ("red", red), ("green", green), ("blue", blue), ("hue", .null none),
          ("saturation", .null none), ("lightness", .null none), ("alpha", .null none)]) := by
  have hcanonical : canonical "color" = "color" ∧ canonical "red" = "red" ∧
      canonical "green" = "green" ∧ canonical "blue" = "blue" := by
    decide
  obtain ⟨hcolor, hred, hgreen, hblue⟩ := hcanonical
  have hplace : changeColor.params.place
      ⟨[color], [("red", red), ("green", green), ("blue", blue)]⟩ =
        .ok (⟨.plain "color" false, some color⟩ :: ⟨.plain "red" true, some red⟩ ::
          ⟨.plain "green" true, some green⟩ :: ⟨.plain "blue" true, some blue⟩ ::
          ["hue", "saturation", "lightness", "alpha"].map fun name => ⟨.plain name true, none⟩) := by
    rw [params_changeColor]
    simp [Params.place, Params.plain, Param.plain, Slot.positional, Slot.placeNamed, Slot.place,
      Except.bind, Except.map, hcolor, hred, hgreen, hblue]
  rw [Params.bound, hplace, params_changeColor]
  rfl

end Builtin

/-! ## Answers -/

theorem Invocation.number_of_arg {l : Option Location} (h : call.arg parameter = .ok (.number n l)) :
    call.number parameter = .ok n := by
  rw [Invocation.number, h]
  rfl

theorem Invocation.numberOrNull_of_arg {l : Option Location}
    (h : call.arg parameter = .ok (.number n l)) : call.numberOrNull parameter = .ok (some n) := by
  rw [Invocation.numberOrNull, h]
  rfl

theorem Invocation.numberOrNull_of_null {l : Option Location}
    (h : call.arg parameter = .ok (.null l)) : call.numberOrNull parameter = .ok none := by
  rw [Invocation.numberOrNull, h]
  rfl

/-- The color of three numbers, if a reader of channels can read them all. -/
def Color.readBy (read : Number → Option Float) (alpha : Float) (red green blue : Number) :
    Option (Color Float) :=
  (read red).bind fun x => (read green).bind fun y => (read blue).bind fun z =>
    some (.rgba x y z alpha)

theorem Color.isSome_readBy {read : Number → Option Float} {alpha : Float}
    {red green blue : Number} :
    (readBy read alpha red green blue).isSome ↔ ∀ n ∈ [red, green, blue], (read n).isSome := by
  cases hred : read red <;> cases hgreen : read green <;> cases hblue : read blue <;>
    simp [readBy, hred, hgreen, hblue]

theorem Color.readBy_eq_some {read : Number → Option Float} {alpha : Float}
    {red green blue : Number} {c : Color Float} (h : readBy read alpha red green blue = some c) :
    ∃ x y z, read red = some x ∧ read green = some y ∧ read blue = some z ∧
      c = .rgba x y z alpha := by
  obtain ⟨x, hred, h⟩ := Option.bind_eq_some_iff.1 h
  obtain ⟨y, hgreen, h⟩ := Option.bind_eq_some_iff.1 h
  obtain ⟨z, hblue, h⟩ := Option.bind_eq_some_iff.1 h
  exact ⟨x, y, z, hred, hgreen, hblue, (Option.some.inj h).symm⟩

namespace Builtin

variable {red green blue : Number} {lr lg lb : Option Location}

theorem yields_rgb (hbound : call.bound = NameTable.empty.insertAll
    [("red", .number red lr), ("green", .number green lg), ("blue", .number blue lb)]) :
    Yields .unit (rgb.answer call)
      ((Color.readBy Number.channel? 1 red green blue).map Answer.color) := by
  have hkeys : (["red", "green", "blue"].map canonical).Nodup := by decide
  have hred : call.number "red" = .ok red :=
    Invocation.number_of_arg (l := lr) (Invocation.arg_of_insertAll hbound hkeys (by simp))
  have hgreen : call.number "green" = .ok green :=
    Invocation.number_of_arg (l := lg) (Invocation.arg_of_insertAll hbound hkeys (by simp))
  have hblue : call.number "blue" = .ok blue :=
    Invocation.number_of_arg (l := lb) (Invocation.arg_of_insertAll hbound hkeys (by simp))
  refine yields_map ?_
  refine yields_bind (yields_channelArg hred) fun x => ?_
  refine yields_bind (yields_channelArg hgreen) fun y => ?_
  exact yields_bind (yields_channelArg hblue) fun z => yields_pure (Color.rgb x y z)

theorem yields_change (c : Color Float) :
    Yields .argumentRange
      (Components.change ⟨some red, some green, some blue, none, none, none, none⟩ c)
      (Color.readBy Number.magnitude? c.alpha red green blue) := by
  -- the opacity is the color's own, and channels are given
  change Yields .argumentRange
    (Components.magnitude "red" (some red) 0 255 c.red >>= fun x =>
      Components.magnitude "green" (some green) 0 255 c.green >>= fun y =>
        Components.magnitude "blue" (some blue) 0 255 c.blue >>= fun z =>
          pure (Color.rgba x y z c.alpha)) _
  refine yields_bind (Components.yields_magnitude "red" red c.red) fun x => ?_
  refine yields_bind (Components.yields_magnitude "green" green c.green) fun y => ?_
  exact yields_bind (Components.yields_magnitude "blue" blue c.blue) fun z =>
    yields_pure (Color.rgba x y z c.alpha)

theorem yields_changeColor {c : Color Float} {l : Option Location}
    (hbound : call.bound = NameTable.empty.insertAll
      [("color", .color c l), ("red", .number red lr), ("green", .number green lg),
        ("blue", .number blue lb), ("hue", .null none), ("saturation", .null none),
        ("lightness", .null none), ("alpha", .null none)]) :
    Yields .argumentRange (changeColor.answer call)
      ((Color.readBy Number.magnitude? c.alpha red green blue).map Answer.color) := by
  have hkeys : (["color", "red", "green", "blue", "hue", "saturation", "lightness", "alpha"].map
      canonical).Nodup := by
    decide
  have hcolor : call.color "color" = .ok c := by
    rw [Invocation.color, Invocation.arg_of_insertAll (v := .color c l) hbound hkeys (by simp)]
    rfl
  have hread : Components.read call =
      .ok ⟨some red, some green, some blue, none, none, none, none⟩ := by
    have hnull (name : String) (hname : name ∈ ["hue", "saturation", "lightness", "alpha"]) :
        call.numberOrNull name = .ok none := by
      refine Invocation.numberOrNull_of_null (l := none) ?_
      refine Invocation.arg_of_insertAll hbound hkeys ?_
      simp only [List.mem_cons, List.not_mem_nil, or_false] at hname
      rcases hname with rfl | rfl | rfl | rfl <;> simp
    have hred : call.numberOrNull "red" = .ok (some red) :=
      Invocation.numberOrNull_of_arg (l := lr) (Invocation.arg_of_insertAll hbound hkeys (by simp))
    have hgreen : call.numberOrNull "green" = .ok (some green) :=
      Invocation.numberOrNull_of_arg (l := lg) (Invocation.arg_of_insertAll hbound hkeys (by simp))
    have hblue : call.numberOrNull "blue" = .ok (some blue) :=
      Invocation.numberOrNull_of_arg (l := lb) (Invocation.arg_of_insertAll hbound hkeys (by simp))
    rw [Components.read, hred, hgreen, hblue, hnull "hue" (by simp), hnull "saturation" (by simp),
      hnull "lightness" (by simp), hnull "alpha" (by simp)]
    rfl
  have hchange : changeColor.answer call =
      (Components.change ⟨some red, some green, some blue, none, none, none, none⟩ c).map
        Answer.color := by
    change ((call.color "color" >>= fun c => Components.read call >>= fun components =>
      components.change c).map Answer.color) = _
    rw [hcolor, hread]
    rfl
  rw [hchange]
  exact yields_map (yields_change c)

end Builtin

/-! ## Calls -/

/-- A call gives the answer that is there, at a place, and fails with an error of a kind if there
    is none. -/
inductive Outcome.Answers (kind : ErrorKind) (place : Option Location) :
    Outcome Value → Option Answer → Prop where
  | value (answer : Answer) (m : Machine) :
    Answers kind place (.ok (answer.value place) m) (some answer)
  | failure {e : Error} (h : e.kind = kind) (m : Machine) :
    Answers kind place (.error (.error e) m) none

theorem Outcome.Answers.exists_value {kind : ErrorKind} {place : Option Location}
    {o : Outcome Value} {answer : Answer} (h : Answers kind place o (some answer)) :
    ∃ m, o = .ok (answer.value place) m := by
  cases h with
  | value _ m => exact ⟨m, rfl⟩

/-- A call gives the color that is there, built at a place, and fails with an error of a kind if
    there is none. -/
def Outcome.IsColor (kind : ErrorKind) (place : Option Location) (o : Outcome Value) :
    Option (Color Float) → Prop
  | some c => ∃ m, o = .ok (.color c place) m
  | none => ∃ e m, o = .error (.error e) m ∧ e.kind = kind

namespace Outcome.IsColor

variable {kind : ErrorKind} {place : Option Location} {o : Outcome Value}
  {c? : Option (Color Float)}

theorem ok_iff (h : IsColor kind place o c?) : (∃ v m, o = .ok v m) ↔ c?.isSome := by
  cases c? with
  | some c =>
    obtain ⟨m, rfl⟩ := h
    simp
  | none =>
    obtain ⟨e, m, rfl, _⟩ := h
    simp

theorem of_error (h : IsColor kind place o c?) {i : Interruption} {m : Machine}
    (herror : o = .error i m) : ∃ e, i = .error e ∧ e.kind = kind := by
  cases c? with
  | some c =>
    obtain ⟨m, rfl⟩ := h
    cases herror
  | none =>
    obtain ⟨e, m, rfl, hkind⟩ := h
    cases herror
    exact ⟨e, rfl, hkind⟩

theorem of_ok (h : IsColor kind place o c?) {v : Value} {m : Machine} (hok : o = .ok v m) :
    ∃ c, c? = some c ∧ v = .color c place := by
  cases c? with
  | some c =>
    obtain ⟨m, rfl⟩ := h
    cases hok
    exact ⟨c, rfl, rfl⟩
  | none =>
    obtain ⟨e, m, rfl, _⟩ := h
    cases hok

end Outcome.IsColor

namespace Session

variable {options : Options} {fuel : Nat} {place : Option Location} {m : Machine}

/-- A call of a builtin that has one overload ends with what the builtin answers to what is
    bound. -/
theorem callAlone_of_bound {b : Builtin} (hb : b ∈ Builtin.all) (hname : canonical b.name ≠ "rgba")
    {args : Args} {table : NameTable Value}
    (hbound : b.params.bound args m.builder.location = .ok table) (options : Options)
    (fuel : Nat) (place : Option Location) :
    ∃ outside n, callAlone ⟨.standard, options⟩ (fuel + 1) b.name args place m =
      match b.answer ⟨b.name, table, outside, place, options⟩ with
      | .ok answer => .ok (answer.value place) n
      | .error e => .error (.error ((e.inContext b.name).locate place)) n := by
  obtain ⟨f, hresolve, hf⟩ := Registry.exists_resolve hb hname args.count
  exact (ends_callAlone hb hf hresolve).of_bound hbound

theorem answers_callAlone {b : Builtin} (hb : b ∈ Builtin.all) (hname : canonical b.name ≠ "rgba")
    {args : Args} {table : NameTable Value} {kind : ErrorKind} {answer? : Option Answer}
    (hbound : b.params.bound args m.builder.location = .ok table)
    (hanswer : ∀ call : Invocation, call.bound = table → Yields kind (b.answer call) answer?) :
    Outcome.Answers kind place (callAlone ⟨.standard, options⟩ (fuel + 1) b.name args place m)
      answer? := by
  obtain ⟨outside, n, hend⟩ := callAlone_of_bound hb hname hbound options fuel place
  have hyields := hanswer ⟨b.name, table, outside, place, options⟩ rfl
  rw [hend]
  cases answer? with
  | some answer =>
    have hok : b.answer ⟨b.name, table, outside, place, options⟩ = .ok answer := hyields
    rw [hok]
    exact .value answer n
  | none =>
    obtain ⟨e, herror, hkind⟩ := hyields
    rw [herror]
    refine .failure ?_ n
    rw [Error.kind_locate, Error.kind_inContext, hkind]

/-- A builtin that answers with a color if there is one. -/
theorem colors_callAlone {b : Builtin} (hb : b ∈ Builtin.all) (hname : canonical b.name ≠ "rgba")
    {args : Args} {table : NameTable Value} {kind : ErrorKind} {c? : Option (Color Float)}
    (hbound : b.params.bound args m.builder.location = .ok table)
    (hanswer : ∀ call : Invocation, call.bound = table →
      Yields kind (b.answer call) (c?.map Answer.color)) :
    Outcome.IsColor kind place (callAlone ⟨.standard, options⟩ (fuel + 1) b.name args place m) c? := by
  have hanswers : Outcome.Answers kind place
      (callAlone ⟨.standard, options⟩ (fuel + 1) b.name args place m) (c?.map Answer.color) :=
    answers_callAlone hb hname hbound hanswer
  generalize callAlone ⟨.standard, options⟩ (fuel + 1) b.name args place m = o at hanswers ⊢
  cases c? with
  | some c => exact hanswers.exists_value
  | none =>
    cases hanswers with
    | failure hkind n => exact ⟨_, n, rfl, hkind⟩

variable {red green blue : Number} {lr lg lb : Option Location}

theorem colors_rgb :
    Outcome.IsColor .unit place
      (callAlone ⟨.standard, options⟩ (fuel + 1) "rgb"
        ⟨[.number red lr, .number green lg, .number blue lb], []⟩ place m)
      (Color.readBy Number.channel? 1 red green blue) :=
  colors_callAlone (b := Builtin.rgb) (by simp [Builtin.all, Builtin.onChannels]) (by decide)
    (Builtin.bound_rgb _ _ _) fun _ => Builtin.yields_rgb

theorem colors_changeColor {c : Color Float} {l : Option Location} :
    Outcome.IsColor .argumentRange place
      (callAlone ⟨.standard, options⟩ (fuel + 1) "change-color"
        ⟨[.color c l],
          [("red", .number red lr), ("green", .number green lg), ("blue", .number blue lb)]⟩ place m)
      (Color.readBy Number.magnitude? c.alpha red green blue) :=
  colors_callAlone (b := Builtin.changeColor) (by simp [Builtin.all, Builtin.onComponents])
    (by decide) (Builtin.bound_changeColor _ _ _ _) fun _ => Builtin.yields_changeColor

/-- The same numbers for the channels of `rgb` and of `change-color`. The first refuses units
    other than the percentage and nothing else, the second magnitudes outside the range and
    nothing else, so never a unit. When both give a color, the second has the magnitudes for
    channels, and so has the first, except that it takes percentages of `255`. -/
theorem channels_read_apart (options : Options) (fuel : Nat) (c : Color Float)
    (red green blue : Number) (l lr lg lb place : Option Location) (m : Machine) :
    let s : Session := ⟨.standard, options⟩
    let rgb := s.callAlone (fuel + 1) "rgb"
      ⟨[.number red lr, .number green lg, .number blue lb], []⟩ place m
    let change := s.callAlone (fuel + 1) "change-color"
      ⟨[.color c l],
        [("red", .number red lr), ("green", .number green lg), ("blue", .number blue lb)]⟩ place m
    ((∃ v n, rgb = .ok v n) ↔
      ∀ n ∈ [red, green, blue], n.units.isSingle "%" = true ∨ n.isUnitless = true) ∧
    (∀ i n, rgb = .error i n → ∃ e, i = .error e ∧ e.kind = .unit) ∧
    ((∃ v n, change = .ok v n) ↔
      ∀ n ∈ [red, green, blue], ¬(n.value < 0 ∨ 255 < n.value ∨ n.value.isNaN = true)) ∧
    (∀ i n, change = .error i n → ∃ e, i = .error e ∧ e.kind = .argumentRange) ∧
    (∀ v n v' n', rgb = .ok v n → change = .ok v' n' →
      ∃ x y, v = .color x place ∧ v' = .color y place ∧
        [y.red, y.green, y.blue] = [red, green, blue].map (fun n => Color.channel n.value) ∧
        [x.red, x.green, x.blue] = [red, green, blue].map fun n =>
          Color.channel (if n.units.isSingle "%" then n.value * 255 / 100 else n.value)) := by
  intro s rgb change
  have hrgb : Outcome.IsColor .unit place rgb (Color.readBy Number.channel? 1 red green blue) :=
    colors_rgb
  have hchange : Outcome.IsColor .argumentRange place change
      (Color.readBy Number.magnitude? c.alpha red green blue) :=
    colors_changeColor
  refine ⟨?_, fun i n => hrgb.of_error, ?_, fun i n => hchange.of_error, ?_⟩
  · rw [hrgb.ok_iff, Color.isSome_readBy]
    simp only [Number.isSome_channel?]
  · rw [hchange.ok_iff, Color.isSome_readBy]
    simp only [Number.isSome_magnitude?]
  · intro v n v' n' hok hok'
    obtain ⟨x, hx, rfl⟩ := hrgb.of_ok hok
    obtain ⟨y, hy, rfl⟩ := hchange.of_ok hok'
    obtain ⟨xr, xg, xb, hxr, hxg, hxb, rfl⟩ := Color.readBy_eq_some hx
    obtain ⟨yr, yg, yb, hyr, hyg, hyb, rfl⟩ := Color.readBy_eq_some hy
    refine ⟨_, _, rfl, rfl, ?_, ?_⟩
    · rw [Number.magnitude?_eq_some hyr, Number.magnitude?_eq_some hyg,
        Number.magnitude?_eq_some hyb]
      rfl
    · rw [Number.channel?_eq_some hxr, Number.channel?_eq_some hxg, Number.channel?_eq_some hxb]
      rfl

/-- Half of the range is `127.5` to `rgb` and `50` to `change-color`, and ten pixels are no
    channel to the first but one to the second. -/
theorem half_red_reads_apart :
    let s : Session := ⟨.standard, .standard⟩
    let rgb (red : Number) := s.callAlone 1 "rgb"
      ⟨[.number red none, .number (.unitless 0) none, .number (.unitless 0) none], []⟩ none .fresh
    let change (red : Number) := s.callAlone 1 "change-color"
      ⟨[.color (.rgb 0 0 0) none],
        [("red", .number red none), ("green", .number (.unitless 0) none),
          ("blue", .number (.unitless 0) none)]⟩ none .fresh
    let half : Number := ⟨50, .percent⟩
    let pixels : Number := ⟨10, .single "px"⟩
    (∃ x y n n', rgb half = .ok (.color x none) n ∧ change half = .ok (.color y none) n' ∧
      x.red = 127.5 ∧ y.red = 50) ∧
    (∃ e n, rgb pixels = .error (.error e) n ∧ e.kind = .unit) ∧
    (∃ v n, change pixels = .ok v n) := by
  intro s rgb change half pixels
  obtain ⟨hscaled, htaken, hrefused, hdropped⟩ :
      Color.readBy Number.channel? 1 half (.unitless 0) (.unitless 0) =
        some (.rgba 127.5 0 0 1) ∧
      Color.readBy Number.magnitude? 1 half (.unitless 0) (.unitless 0) = some (.rgba 50 0 0 1) ∧
      Color.readBy Number.channel? 1 pixels (.unitless 0) (.unitless 0) = none ∧
      Color.readBy Number.magnitude? 1 pixels (.unitless 0) (.unitless 0) =
        some (.rgba 10 0 0 1) := by
    decide +kernel
  have hrgb (red : Number) : Outcome.IsColor .unit none (rgb red)
      (Color.readBy Number.channel? 1 red (.unitless 0) (.unitless 0)) :=
    colors_rgb
  have hchange (red : Number) : Outcome.IsColor .argumentRange none (change red)
      (Color.readBy Number.magnitude? 1 red (.unitless 0) (.unitless 0)) :=
    colors_changeColor
  refine ⟨?_, ?_, ?_⟩
  · have hhalf := hrgb half
    have hhalf' := hchange half
    rw [hscaled] at hhalf
    rw [htaken] at hhalf'
    obtain ⟨n, hn⟩ := hhalf
    obtain ⟨n', hn'⟩ := hhalf'
    exact ⟨_, _, n, n', hn, hn', by decide +kernel, by decide +kernel⟩
  · have hpixels := hrgb pixels
    rw [hrefused] at hpixels
    exact hpixels
  · have hpixels := hchange pixels
    rw [hdropped] at hpixels
    exact hpixels.ok_iff.2 rfl

end Session

end StyleScript
